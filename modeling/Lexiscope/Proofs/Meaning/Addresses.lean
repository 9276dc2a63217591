import Lexiscope.Proofs.Code.Statements
import Lexiscope.Proofs.Lexical.Nesting
import Lexiscope.Proofs.Machine.Creation
import Lexiscope.Proofs.Meaning.StatementCode
/-!
# Lexical addresses

A name that a body takes from around it has a cell there. The cell came with the function of the body
from the frame in which that function was made, and so on, up to a cell of the frame of the function
that owns the name.
-/

namespace Lexiscope.Meaning

open Machine Exec
open Code
open Lexical (Scope Nested IsGlobal IsOwn)

/-- The code of a body, a function's or another one, whose scope this is. -/
def CompiledIn (s : Scope) (c : Object) : Prop := ∃ body draft span object,
  (block s [] body (.startFunction s) = .ok ((), draft) ∨ block s [] body (.start s) = .ok ((), draft)) ∧
    finish draft span object = .ok c

/-- The frame was entered by a call of a function that another frame has made. -/
def EnteredFrom (g f : Frame) : Prop := ∃ v : FunctionValue,
  (∃ k defaults keywords t u, closureOver k defaults keywords g t = .ok (.function v) u) ∧
    ∃ t u, Entered v t f u

/-- Frames of bodies inside one another, from the innermost outwards, each entered from the next. -/
inductive Frames : List Scope → List Frame → Prop where
  | outermost {s f} : CompiledIn s f.code.object → Frames [s] [f]
  | inner {s t outer f g around} : CompiledIn s f.code.object → EnteredFrom g f →
    Frames (t :: outer) (g :: around) → Frames (s :: t :: outer) (f :: g :: around)

section Closures

variable {f g : Frame} {n : Name}

theorem derefNames_of_compiledIn {s : Scope} {c : Object} (h : CompiledIn s c) :
    c.cellvars = s.cells ∧ c.freevars = s.free := by
  obtain ⟨body, draft, span, object, hblock, hfinish⟩ := h
  have hgrows : (Draft.start s).builder.Grows draft.builder := by
    rcases hblock with hblock | hblock
    · exact (grows_startFunction s).trans (lowers_block (n := 0) body (iteratorOn_nil []) hblock).1.toGrows
    · exact (lowers_block (n := 0) body (iteratorOn_nil []) hblock).1.toGrows
  have hunit : InUnit s (.start s) (.start s) c := ⟨.refl _, draft, span, object, hgrows, hfinish⟩
  obtain ⟨-, place, hends⟩ := hunit.ends (.refl _)
  exact ⟨hends.cellvars, hends.freevars⟩

theorem cell_ok {i : Nat} {r : CellRef} {t u : Store} (h : f.cell i t = .ok r u) : f.cells[i]? = some r := by
  unfold Frame.cell at h
  cases hi : f.cells[i]? with
  | some r' =>
    rw [hi] at h
    cases h
    rfl
  | none =>
    rw [hi] at h
    cases h

theorem cellsOf_ok {t u : Store} : {names : List Name} → {rs : List.Vector CellRef names.length} →
    cellsOf names g t = .ok rs u → ∀ {j : Nat}, names[j]? = some n →
      ∃ r, rs.toList[j]? = some r ∧ g.cells[cellOf g n]? = some r
  | [], _, _, j, hj => by simp at hj
  | name :: names, rs, h, j, hj => by
    obtain ⟨r, v, hr, h⟩ := bind_eq_ok h
    obtain ⟨rest, w, hrest, h⟩ := bind_eq_ok h
    cases h
    cases j with
    | zero =>
      cases hj
      exact ⟨r, rfl, cell_ok hr⟩
    | succ j => exact cellsOf_ok hrest (by simpa using hj)

theorem functionOf_ok {code : LoadedCode} {closure : List CellRef} {defaults keywords : Option Value}
    {t u : Store} {v : FunctionValue}
    (h : functionOf code closure defaults keywords g t = .ok (.function v) u) :
    v.code = code ∧ v.closure = closure := by
  obtain ⟨keywords, t₁, -, h⟩ := bind_eq_ok h
  obtain ⟨defaults, t₂, -, h⟩ := bind_eq_ok h
  obtain ⟨id, t₃, -, h⟩ := bind_eq_ok h
  cases h
  exact ⟨rfl, rfl⟩

theorem closureOver_ok {k : Nat} {defaults keywords : Option Value} {t u : Store} {v : FunctionValue}
    (h : closureOver k defaults keywords g t = .ok (.function v) u) :
    ∃ (w : Store) (rs : List.Vector CellRef v.code.object.freevars.length),
      cellsOf v.code.object.freevars g t = .ok rs w ∧ v.closure = rs.toList := by
  obtain ⟨rs, w, hrs, h⟩ := bind_eq_ok h
  have hmade : ∃ w', functionOf (innerCode k g) rs.toList defaults keywords g w' = .ok (.function v) u := by
    split at h
    · exact ⟨w, h⟩
    · obtain ⟨_, w', -, h⟩ := bind_eq_ok h
      exact ⟨w', h⟩
  obtain ⟨w', hmade⟩ := hmade
  obtain ⟨hcode, hclosure⟩ := functionOf_ok hmade
  rw [hcode]
  exact ⟨w, rs, hrs, hclosure⟩

theorem idxOf?_of_free {c : Object} (hn : n ∈ c.freevars) (hown : n ∉ c.cellvars) :
    ∃ j, c.derefNames.idxOf? n = some (c.cellvars.length + j) ∧ c.freevars[j]? = some n := by
  have hnone : c.cellvars.findIdx? (· == n) = none := by
    simpa using fun m hm (h : m = n) => hown (h ▸ hm)
  cases hj : c.freevars.findIdx? (· == n) with
  | none =>
    have hother : ∀ m ∈ c.freevars, ¬ m = n := by simpa using hj
    exact absurd rfl (hother n hn)
  | some j =>
    refine ⟨j, ?_, ?_⟩
    · rw [Object.derefNames, List.idxOf?, List.findIdx?_append, hnone, hj, Nat.add_comm]
      rfl
    · obtain ⟨hlt, hfound, -⟩ := List.findIdx?_eq_some_iff_getElem.1 hj
      exact List.getElem?_eq_some_iff.2 ⟨hlt, beq_iff_eq.1 hfound⟩

/-- The cell of a free name is that of the frame in which the function was made. -/
theorem EnteredFrom.shares (h : EnteredFrom g f) (hn : n ∈ f.code.object.freevars)
    (hown : n ∉ f.code.object.cellvars) :
    ∃ r, f.cells[cellOf f n]? = some r ∧ g.cells[cellOf g n]? = some r := by
  obtain ⟨v, ⟨k, defaults, keywords, t, u, hmade⟩, _, _, hentered⟩ := h
  have hcode := hentered.isNew.code
  obtain ⟨own, hlength, hcells⟩ := hentered.isNew.cells
  obtain ⟨w, rs, hrs, hclosure⟩ := closureOver_ok hmade
  obtain ⟨j, hslot, hj⟩ := idxOf?_of_free hn hown
  have hslot : cellOf f n = f.code.object.cellvars.length + j := congrArg (·.getD 0) hslot
  rw [hcode] at hj hslot
  obtain ⟨r, hr, hcell⟩ := cellsOf_ok hrs hj
  refine ⟨r, ?_, hcell⟩
  rw [hcells, hslot, hclosure, ← hlength, List.getElem?_append_right (Nat.le_add_right _ _),
    Nat.add_sub_cancel_left]
  exact hr

theorem idxOf?_of_own {own free : List Name} (hn : n ∈ own) :
    ∃ i, (own ++ free).idxOf? n = some i ∧ own[i]? = some n := by
  cases hi : own.findIdx? (· == n) with
  | none =>
    have hother : ∀ m ∈ own, ¬ m = n := by simpa using hi
    exact absurd rfl (hother n hn)
  | some i =>
    refine ⟨i, ?_, ?_⟩
    · rw [List.idxOf?, List.findIdx?_append, hi]
      rfl
    · obtain ⟨hlt, hfound, -⟩ := List.findIdx?_eq_some_iff_getElem.1 hi
      exact List.getElem?_eq_some_iff.2 ⟨hlt, beq_iff_eq.1 hfound⟩

theorem cellvars_cellOf (hn : n ∈ f.code.object.cellvars) :
    f.code.object.cellvars[cellOf f n]? = some n := by
  obtain ⟨i, hslot, hi⟩ := idxOf?_of_own hn
  rw [cellOf, Object.derefNames, hslot]
  exact hi

end Closures

section Frames

variable {body : List Grammar.Stmt} {root s owner : Scope} {n : Name}

/-- A free name leads through the cells of frames inside one another to a cell that the frame of its
owner has for it. -/
theorem Frames.leads (h : Lexical.analyze body = .ok root) {between rest : List Scope}
    (howner : owner.facts.Owns n) (hbetween : ∀ t ∈ between, ¬ t.facts.Owns n)
    (hnested : Nested root (s :: between ++ owner :: rest)) (hfree : n ∈ s.free) {f : Frame}
    {around : List Frame} (hframes : Frames (s :: between ++ [owner]) (f :: around)) :
    ∃ g r, around.getLast? = some g ∧ f.cells[cellOf f n]? = some r ∧
      g.cells[cellOf g n]? = some r ∧ g.code.object.cellvars[cellOf g n]? = some n := by
  have hown : n ∉ s.cells := hnested.not_mem_cells h hfree
  induction between generalizing s f around with
  | nil =>
    cases hframes with
    | @inner _ _ _ _ g around hcode hentered hrest =>
      cases hrest with
      | outermost howner' =>
        obtain ⟨hcells, hfrees⟩ := derefNames_of_compiledIn hcode
        obtain ⟨r, hr, hg⟩ := hentered.shares (hfrees ▸ hfree) (hcells ▸ hown)
        have hcell := (Lexical.passed_on h howner hbetween hnested hfree).2
        refine ⟨g, r, rfl, hr, hg, cellvars_cellOf ?_⟩
        rw [(derefNames_of_compiledIn howner').1]
        exact hcell
  | cons t between ih =>
    cases hframes with
    | @inner _ _ _ _ g around hcode hentered hrest =>
      obtain ⟨hcells, hfrees⟩ := derefNames_of_compiledIn hcode
      obtain ⟨r, hr, hg⟩ := hentered.shares (hfrees ▸ hfree) (hcells ▸ hown)
      -- The body next to this one asks for the name as well, and shares one cell with it.
      have hpassed := (Lexical.passed_on h howner hbetween hnested hfree).1 t (by simp)
      cases hnested with
      | inner hnested _ =>
        obtain ⟨g', r', hlast, hr', hg', hcell⟩ := ih (fun u hu => hbetween u (by simp [hu]))
          hnested hpassed hrest (hnested.not_mem_cells h hpassed)
        obtain rfl : r = r' := Option.some.inj (hg.symm.trans hr')
        refine ⟨g', r, ?_, hr, hg', hcell⟩
        rw [List.getLast?_cons, hlast]
        rfl

end Frames

section Parameters

variable {s : Scope}

theorem mem_cells_of_symbol {n : Name} (h : s.symbol n = .cell) : n ∈ s.cells := by
  unfold Scope.symbol at h
  split at h
  · cases h
  · split at h
    · cases h
    · split at h
      · assumption
      · split at h
        · cases h
        · split at h <;> cases h
    · split at h
      · cases h
      · split at h
        · cases h
        · split at h <;> cases h

theorem varnames_startFunction (hparams : s.facts.params.Nodup) {slot : Nat} {p : Name}
    (hp : s.facts.params[slot]? = some p) :
    (Draft.startFunction s).builder.varnames[slot]? = some p := by
  have hfirst := varnames_foldl (b := (Draft.start s).builder) hparams
  have hgrows := Builder.grows_varnames s.plainLocals
    (s.facts.params.foldl (fun b n => (b.varname n).2) (Draft.start s).builder)
  rw [← List.foldl_append] at hgrows
  refine hgrows.varnames slot p ?_
  rw [← Array.getElem?_toList, hfirst]
  exact hp

/-- A parameter that lives in a cell is recorded with its cell and its slot, and nothing else is. -/
theorem mem_cellParams {cell slot : Nat} : (cell, slot) ∈ cellParams s ↔
    ∃ p, s.facts.params[slot]? = some p ∧ s.symbol p = .cell ∧ (s.cells ++ s.free).idxOf? p = some cell := by
  simp only [cellParams, List.mem_filterMap, Prod.exists, List.mem_zipIdx_iff_getElem?]
  constructor
  · rintro ⟨p, i, hp, hcell⟩
    split at hcell
    · rename_i hsymbol
      obtain ⟨j, hj, hpair⟩ := Option.map_eq_some_iff.1 hcell
      cases hpair
      exact ⟨p, hp, hsymbol, hj⟩
    · cases hcell
  · rintro ⟨p, hp, hsymbol, hj⟩
    exact ⟨p, slot, hp, by rw [if_pos hsymbol, hj]; rfl⟩

end Parameters

/-- Where a body finds a name. -/
structure Addressed (s : Scope) (outer : List Scope) (n : Name) : Prop where
  isGlobal : IsGlobal s outer n → s.symbol n = .globalExplicit ∨ s.symbol n = .globalImplicit
  inClass : s.facts.kind = .classBody → IsOwn s n → s.symbol n = .classLocal
  inFunction : s.facts.kind = .functionBody → IsOwn s n →
    s.symbol n = if n ∈ s.cells then .cell else .fast
  /-- In every other case the name is that of the nearest function around that owns it, and the cell
  of the name leads to a cell of that function. -/
  outside : ¬ IsGlobal s outer n → ¬ IsOwn s n →
    (s.symbol n = .free ∨ s.facts.kind = .classBody ∧ s.symbol n = .classFree) ∧
    ∃ between owner rest, outer = between ++ owner :: rest ∧ owner.facts.Owns n ∧
      (∀ t ∈ between, ¬ t.facts.Owns n) ∧ (∀ t ∈ s :: between, n ∈ t.free) ∧ n ∈ owner.cells ∧
      ∀ f around, Frames (s :: between ++ [owner]) (f :: around) → ∃ g r, around.getLast? = some g ∧
        f.cells[cellOf f n]? = some r ∧ g.cells[cellOf g n]? = some r ∧
          g.code.object.cellvars[cellOf g n]? = some n

/-- The parameters of a function that live in its cells are recorded with their cells and their own
slots. -/
structure ParametersRecorded (s : Scope) : Prop where
  sound : ∀ cell slot, (cell, slot) ∈ cellParams s → ∃ p, s.cells[cell]? = some p ∧
    s.facts.params[slot]? = some p ∧
      (s.facts.params.Nodup → (Draft.startFunction s).builder.varnames[slot]? = some p)
  complete : ∀ p ∈ s.facts.params, p ∈ s.cells → ∃ cell slot, (cell, slot) ∈ cellParams s ∧
    s.cells[cell]? = some p ∧ s.facts.params[slot]? = some p

/-- The code that makes a function does so with the cells of the frame. -/
def MakesClosures (d d' : Draft) (code c : Object) (hasDefaults hasKeywords : Bool) : Prop :=
  ∀ (n : Nat) (defaults : PartOf hasDefaults) (keywords : PartOf hasKeywords) (σ : List Value)
    (g : Frame) (st : Store), g.code.object = c →
    (innerCode d.builder.codeCount g).object = code ∧
    Matches False n c (fun v => (d'.builder.instructions.size, v :: σ)) n
      (g.placed d.builder.instructions.size (keywords.1.toList ++ (defaults.1.toList ++ σ))) st
      (Tale.silently (closureOver d.builder.codeCount defaults.1 keywords.1) g st)

/-- Lexical addresses are right. Every name of every body of a module is found where it should be:
in a namespace, in the frame of the body, or in the cell of the nearest function that owns it. -/
theorem addresses_right {body : List Grammar.Stmt} {root : Scope}
    (h : Lexical.analyze body = .ok root) {s : Scope} {outer : List Scope}
    (hnested : Nested root (s :: outer)) :
    (∀ n, s.facts.Names n → Addressed s outer n) ∧ (∀ n ∈ s.cells, n ∉ s.free) ∧
      ParametersRecorded s ∧
      ∀ {d d' code c hasDefaults hasKeywords span}, InUnit s d d' c →
        Code.makeFunction code hasDefaults hasKeywords span d = .ok ((), d') →
        MakesClosures d d' code c hasDefaults hasKeywords := by
  obtain ⟨b, hs⟩ := hnested.resolves h
  refine ⟨fun n hn => ⟨?_, ?_, ?_, ?_⟩, fun n hcell => hs.not_mem_free_of_cell hcell, ⟨?_, ?_⟩, ?_⟩
  · exact Lexical.symbol_global h hnested
  · exact Lexical.symbol_classLocal
  · exact Lexical.symbol_own h hnested
  · intro hglobal hown
    -- The nearest owner keeps the name in a cell, and all bodies between pass it on.
    obtain ⟨hfree, hsymbol⟩ := Lexical.symbol_outside h hnested hn hglobal hown
    obtain ⟨between, owner, rest, rfl, howner, hbetween⟩ :=
      Lexical.exists_nearest (hnested.exists_owner h hfree)
    obtain ⟨hpassed, hcell⟩ := Lexical.passed_on h howner hbetween hnested hfree
    refine ⟨hsymbol, between, owner, rest, rfl, howner, hbetween, ?_, hcell, fun f around hframes => ?_⟩
    · simpa [hfree] using hpassed
    · exact Frames.leads h howner hbetween hnested hfree hframes
  · intro cell slot hrecorded
    obtain ⟨p, hp, hsymbol, hslot⟩ := mem_cellParams.1 hrecorded
    obtain ⟨i, hslot', hi⟩ := idxOf?_of_own (mem_cells_of_symbol hsymbol)
    obtain rfl : i = cell := Option.some.inj (hslot'.symm.trans hslot)
    exact ⟨p, hi, hp, fun hparams => varnames_startFunction hparams hp⟩
  · intro p hp hcell
    obtain ⟨slot, hslot⟩ := List.getElem?_of_mem hp
    obtain ⟨cell, hindex, hname⟩ := idxOf?_of_own hcell
    obtain ⟨⟨hkind, hlocal⟩, -⟩ := hs.mem_cells.1 hcell
    have hsymbol := Lexical.symbol_own h hnested hkind (Lexical.Facts.mem_localNames.1 hlocal)
    rw [if_pos hcell] at hsymbol
    exact ⟨cell, slot, mem_cellParams.2 ⟨p, hslot, hsymbol, hindex⟩, hname, hslot⟩
  · intro d d' code c hasDefaults hasKeywords span hunit hcompile n defaults keywords σ g st hg
    obtain ⟨hextends, -, hrealizes⟩ := lowers_makeFunction (n := n) (σ := σ) span hcompile
    obtain ⟨htidy, place, hends⟩ := hunit.ends hextends.toGrows
    exact ⟨innerCode_of_makeFunction hcompile (hg ▸ hends), hrealizes c place htidy hends g st hg⟩

/-- A name that comes from two functions further out, past a class and a global declaration. -/
def sharing : String :=
  "def outer(x) { def middle() { global x; class K { def inner() { return x } } } }"

def firstScopes (source : String) : Option (List Grammar.Stmt × Scope × Scope × Scope × Scope × Scope) := do
  let body ← (Grammar.parse source).toOption
  let root ← (Lexical.analyze body).toOption
  let outer ← root.children.head?
  let middle ← outer.children.head?
  let k ← middle.children.head?
  let inner ← k.children.head?
  return (body, inner, k, middle, outer, root)

theorem nested_firstScopes {source : String} {body : List Grammar.Stmt}
    {inner k middle outer root : Scope}
    (h : firstScopes source = some (body, inner, k, middle, outer, root)) :
    Lexical.analyze body = .ok root ∧ Nested root [inner, k, middle, outer, root] := by
  unfold firstScopes at h
  simp only [Option.bind_eq_bind, Option.bind_eq_some_iff] at h
  obtain ⟨_, -, root, hroot, outer, houter, middle, hmiddle, k, hk, inner, hinner, h⟩ := h
  cases h
  refine ⟨eq_ok_of_toOption hroot, .inner (.inner (.inner (.inner .root ?_) ?_) ?_) ?_⟩
  · exact List.mem_of_mem_head? houter
  · exact List.mem_of_mem_head? hmiddle
  · exact List.mem_of_mem_head? hk
  · exact List.mem_of_mem_head? hinner

theorem addresses_right_sharing : ∃ body inner k middle outer root,
    Lexical.analyze body = .ok root ∧ Nested root [inner, k, middle, outer, root] ∧
    inner.facts.Names "x" ∧ ¬ IsGlobal inner [k, middle, outer, root] "x" ∧ ¬ IsOwn inner "x" ∧
    outer.facts.Owns "x" ∧ Addressed inner [k, middle, outer, root] "x" ∧ ParametersRecorded outer ∧
    cellParams outer = [(0, 0)] := by
  have hscopes : ((firstScopes sharing).any fun (_, inner, _, _, outer, _) =>
      inner.facts.kind = .functionBody && "x" ∉ inner.facts.globals && "x" ∉ inner.facts.bound &&
        "x" ∈ inner.facts.used && outer.facts.Owns "x" && cellParams outer == [(0, 0)]) = true := by
    decide +kernel
  obtain ⟨⟨body, inner, k, middle, outer, root⟩, hscopes, hfacts⟩ := (Option.any_eq_true _ _).1 hscopes
  obtain ⟨hanalyze, hnested⟩ := nested_firstScopes hscopes
  simp only [Bool.and_eq_true, decide_eq_true_eq, beq_iff_eq] at hfacts
  obtain ⟨⟨⟨⟨⟨hkind, hglobal⟩, hbound⟩, hused⟩, howns⟩, hrecorded⟩ := hfacts
  have hnames : inner.facts.Names "x" := .inl hused
  have hnotGlobal : ¬ IsGlobal inner [k, middle, outer, root] "x" := by
    rintro (hmodule | hdeclared | ⟨-, -, howners⟩)
    · cases hkind.symm.trans hmodule
    · exact hglobal hdeclared
    · exact howners outer (by simp) howns
  have houter : Nested root [outer, root] := by
    cases hnested with
    | inner hk _ =>
      cases hk with
      | inner hmiddle _ =>
        cases hmiddle with
        | inner houter _ => exact houter
  exact ⟨body, inner, k, middle, outer, root, hanalyze, hnested, hnames, hnotGlobal,
    fun hown => hbound hown.1, howns, (addresses_right hanalyze hnested).1 "x" hnames,
    (addresses_right hanalyze houter).2.2.1, hrecorded⟩

end Lexiscope.Meaning
