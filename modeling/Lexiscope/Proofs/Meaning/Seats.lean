import Lexiscope.Proofs.Code.Slots
import Lexiscope.Proofs.Lexical.Parameters
import Lexiscope.Proofs.Meaning.Apart
import Lexiscope.Proofs.Meaning.Binding
/-!
# Where a function has its names

The code of a function has slots for its parameters and for its other local names that are not
shared, cells for the local names that inner bodies share, and after them those for names from
around. A parameter that is shared has both, and every other name has one place.
-/

namespace Lexiscope.Meaning

open Code
open Grammar (Stmt Params)
open Lexical (Scope Nested slotOrder)

/-- The names of a function that can have values in its frames: local ones in slots in the order of
the slots, then local ones in cells, then those from around. -/
def frameNames (s : Scope) : List Name :=
  (s.facts.params ++ s.plainLocals).filter (· ∉ s.cells) ++ s.cells ++ s.free

/-- Compiling a module comes to the definition of a function with this scope, and makes this code of
its body. -/
inductive FunctionCode (module : List Stmt) : Scope → Object → Prop where
  | mk {around s : Scope} {stmts body : List Stmt} {start d draft : Draft} {name : Name}
    {params : Params} {isAsync : Bool} {span : Text.Span} {c : Object} :
    Enters module around stmts start →
    Comes around [] stmts start (.define name params body isAsync span) d →
    Opens around (.define name params body isAsync span) d s body (Draft.startFunction s) →
    block s [] body (Draft.startFunction s) = .ok ((), draft) →
    finish draft s.facts.span
      (functionObject s name params (around.facts.kind = .functionBody)) = .ok c →
    FunctionCode module s c

/-- The second code is run for the first: it is the same, or it was instrumented for a capture. -/
def RunsFor (c d : Object) : Prop :=
  d = c ∨ ∃ marker reach, Capture.instrument c marker reach = .ok d

section Functions

variable {source : String} {module : List Stmt} {s : Scope} {c d : Object}

/-- Where the code of a function has the names of its scope. -/
structure Seats (s : Scope) (c : Object) : Prop where
  kind : s.facts.kind = .functionBody
  varnames : c.varnames.toList = s.facts.params ++ s.plainLocals
  cellvars : c.cellvars = s.cells
  freevars : c.freevars = s.free
  cellsOwn : ∀ n ∈ s.cells, n ∈ s.facts.localNames
  ownsNoFree : ∀ n ∈ s.facts.localNames, n ∉ s.free
  paramsOwn : ∀ n ∈ s.facts.params, n ∈ s.facts.localNames

theorem RunsFor.seats (h : RunsFor c d) (hc : Seats s c) : Seats s d := by
  rcases h with rfl | ⟨marker, reach, h⟩
  · exact hc
  · unfold Capture.instrument at h
    dsimp only at h
    split at h
    · cases h
    · cases h
      obtain ⟨kind, varnames, cellvars, freevars, cellsOwn, ownsNoFree, paramsOwn⟩ := hc
      exact ⟨kind, varnames, cellvars, freevars, cellsOwn, ownsNoFree, paramsOwn⟩

theorem RunsFor.apart (h : RunsFor c d) (hc : Apart c) : Apart d := by
  rcases h with rfl | ⟨marker, reach, h⟩
  · exact hc
  · exact hc.instrument h

theorem Seats.derefNames (hc : Seats s c) : c.derefNames = s.cells ++ s.free := by
  rw [Object.derefNames, hc.cellvars, hc.freevars]

/-- A name that has a slot has no cell, unless it is a parameter that inner bodies share. -/
theorem Seats.mem_derefNames (hc : Seats s c) {n : Name}
    (hn : n ∈ s.facts.params ++ s.plainLocals) : n ∈ c.derefNames ↔ n ∈ s.cells := by
  rw [hc.derefNames, List.mem_append]
  refine or_iff_left ?_
  rcases List.mem_append.1 hn with hn | hn
  · exact hc.ownsNoFree n (hc.paramsOwn n hn)
  · exact hc.ownsNoFree n (mem_plainLocals.1 hn).1

theorem Seats.listedNames (hc : Seats s c) : listedNames c = frameNames s := by
  rw [Meaning.listedNames, frameNames, hc.varnames, hc.derefNames, List.append_assoc]
  congr 1
  refine List.filter_congr fun n hn => ?_
  rw [← hc.derefNames, decide_not, decide_not, decide_eq_decide.2 (hc.mem_derefNames hn)]

theorem Seats.mem_frameNames (hc : Seats s c) {n : Name} :
    n ∈ frameNames s ↔ n ∈ s.facts.params ∨ n ∈ s.facts.localNames ∨ n ∈ s.free := by
  simp only [frameNames, List.mem_append, List.mem_filter, decide_eq_true_eq]
  constructor
  · rintro ((⟨hparam | hplain, -⟩ | hcell) | hfree)
    · exact .inl hparam
    · exact .inr (.inl (mem_plainLocals.1 hplain).1)
    · exact .inr (.inl (hc.cellsOwn n hcell))
    · exact .inr (.inr hfree)
  · have hlocal : n ∈ s.facts.localNames →
        (((n ∈ s.facts.params ∨ n ∈ s.plainLocals) ∧ n ∉ s.cells) ∨ n ∈ s.cells) ∨ n ∈ s.free := by
      intro hlocal
      by_cases hcell : n ∈ s.cells
      · exact .inl (.inr hcell)
      by_cases hparam : n ∈ s.facts.params
      · exact .inl (.inl ⟨.inl hparam, hcell⟩)
      · exact .inl (.inl ⟨.inr (mem_plainLocals.2 ⟨hlocal, hparam, hcell⟩), hcell⟩)
    rintro (hparam | hown | hfree)
    · exact hlocal (hc.paramsOwn n hparam)
    · exact hlocal hown
    · exact .inr hfree

/-- The scope of a function and how its code came from it. -/
structure Compiles (module : List Stmt) (s : Scope) (params : Params) (c : Object) : Prop where
  nested : ∃ root outer, Lexical.analyze module = .ok root ∧ Nested root (s :: outer)
  kind : s.facts.kind = .functionBody
  paramNames : s.facts.params = slotOrder params
  distinct : (slotOrder params).Nodup
  bound : s.facts.bound.Nodup
  generated : ∃ body draft span name isNested,
    block s [] body (Draft.startFunction s) = .ok ((), draft) ∧
      finish draft span (functionObject s name params isNested) = .ok c

theorem FunctionCode.compiles (hparse : Grammar.parse source = .ok module)
    (h : FunctionCode module s c) : ∃ params, Compiles module s params c := by
  obtain ⟨henters, hcomes, hopens, hblock, hfinish⟩ := h
  rename_i around stmts body start d draft name params isAsync span
  obtain ⟨root, hroot, hentered⟩ := henters.entered (Grammar.parse_assignable hparse)
  obtain ⟨horderly, -⟩ :=
    orderly_of_comes hcomes (orderly_of_enters henters (Grammar.parse_orderly hparse))
  obtain ⟨outer, hnested⟩ := hentered.nested
  obtain ⟨hmem, hblocks⟩ := block_of_opens hroot hnested (hentered.awaited hroot hcomes) hopens
  have hfacts : (around.facts.ofFunction name params isAsync span).after
      (Lexical.bodyMentions body) = s.facts := by
    have hblock := (List.cons.inj hblocks).1
    rw [Lexical.block_eq] at hblock
    exact congrArg Lexical.Block.facts hblock
  refine ⟨params, ⟨root, _, hroot, hnested.inner hmem⟩, ?_, ?_, horderly.distinct, ?_,
    body, draft, _, name, _, hblock, hfinish⟩
  · rw [← hfacts]
    rfl
  · rw [← hfacts]
    rfl
  · rw [← hfacts]
    exact nodup_foldl_addName _ (nodup_distinctNames _)

variable {params : Params}

theorem Compiles.seats (h : Compiles module s params c) : Seats s c := by
  obtain ⟨⟨root, outer, hroot, hnested⟩, hkind, hparams, hdistinct, hbound,
    body, draft, span, name, isNested, hblock, hfinish⟩ := h
  have hslots := nodup_slotNames (hparams ▸ hdistinct) hbound
  have hseated := seated_startFunction hroot hnested hkind hslots
  obtain ⟨hvarnames, -⟩ :=
    (keepsSlots_block hseated body [] hblock (slotted_startFunction s)).finish hfinish
  obtain ⟨hcells, hfree⟩ := derefNames_of_compiledIn ⟨body, draft, _, _, .inl hblock, hfinish⟩
  obtain ⟨b, hs⟩ := hnested.resolves hroot
  refine ⟨hkind, ?_, hcells, hfree, fun n hn => (hs.mem_cells.1 hn).1.2, fun n hn hnfree => ?_,
    fun n hn => hnested.mem_localNames_of_param hroot hn⟩
  · rw [hvarnames, toList_varnames_startFunction hslots]
  · exact hs.not_owns_of_free hnfree ⟨hkind, hn⟩

theorem Seats.getElem?_params (hc : Seats s c) (hslots : c.varnames.toList.Nodup) {slot : Nat}
    {n : Name} (hslot : c.varnames[slot]? = some n) (hn : n ∈ c.derefNames) :
    s.facts.params[slot]? = some n ∧ n ∈ s.cells := by
  rw [← Array.getElem?_toList] at hslot
  have hmem : n ∈ s.facts.params ++ s.plainLocals := by
    rw [← hc.varnames]
    exact List.mem_of_getElem? hslot
  have hcell := (hc.mem_derefNames hmem).1 hn
  have hparam : n ∈ s.facts.params :=
    (List.mem_append.1 hmem).resolve_right fun hplain => (mem_plainLocals.1 hplain).2.2 hcell
  obtain ⟨i, hi⟩ := List.getElem?_of_mem hparam
  have hfound : c.varnames.toList[i]? = some n := by
    rw [hc.varnames, List.getElem?_append_left (List.getElem?_eq_some_iff.1 hi).1, hi]
  rw [Machine.eq_of_getElem?_eq_some hslots hslot hfound]
  exact ⟨hi, hcell⟩

theorem Lays.paramCount_le (h : Lays params c) : c.paramCount ≤ c.varnames.size := by
  have hlength := h.varnames.length_le
  rw [Array.length_toList] at hlength
  refine Nat.le_trans (Nat.le_of_eq ?_) hlength
  rw [Object.paramCount, h.argCount, h.keywordOnlyCount, h.takesRest, h.takesRestKeywords, slotOrder]
  cases params.rest <;> cases params.restKeywords <;> simp [Nat.add_assoc]

theorem Compiles.apart (h : Compiles module s params c) : Apart c := by
  have hseats := h.seats
  obtain ⟨⟨root, outer, hroot, hnested⟩, hkind, hparams, hdistinct, hbound,
    body, draft, span, name, isNested, hblock, hfinish⟩ := h
  have hnames := nodup_slotNames (hparams ▸ hdistinct) hbound
  have hslots : c.varnames.toList.Nodup := hseats.varnames ▸ hnames
  have hseated := seated_startFunction hroot hnested hkind hnames
  obtain ⟨hvarnames, hstores⟩ :=
    (keepsSlots_block hseated body [] hblock (slotted_startFunction s)).finish hfinish
  have hlays := lays_of_compiled hroot hnested hkind hparams hdistinct hblock hfinish
  obtain ⟨b, hs⟩ := hnested.resolves hroot
  refine ⟨hslots, ?_, fun slot hslot => ?_, fun slot n hslot hn => ?_, hlays.paramCount_le⟩
  · rw [hseats.derefNames]
    exact hs.nodup_cells.append hs.nodup_free fun n hn => hs.not_mem_free_of_cell hn
  · obtain ⟨n, hn, hsymbol⟩ := hstores slot hslot
    obtain ⟨hlocal, hcell⟩ := (symbol_eq_fast_iff hroot hnested hkind).1 hsymbol
    refine ⟨n, hvarnames ▸ hn, ?_⟩
    rw [hseats.derefNames, List.mem_append, not_or]
    exact ⟨hcell, hseats.ownsNoFree n hlocal⟩
  · obtain ⟨hparam, hcell⟩ := hseats.getElem?_params hslots hslot hn
    have hown : n ∈ c.cellvars := hseats.cellvars ▸ hcell
    obtain ⟨cell, hindex, -⟩ : ∃ cell, c.derefNames.idxOf? n = some cell ∧
        c.cellvars[cell]? = some n := idxOf?_of_own hown
    exact ⟨cell, hlays.records.mem_iff.2 ⟨n, hparams ▸ hparam, hown, hindex⟩⟩

end Functions

end Lexiscope.Meaning
