import Lexiscope.Proofs.Machine.Signatures
import Lexiscope.Proofs.Meaning.Addresses
/-!
# Parameters in the frame of a call

A call fills the slots of the parameters, and then moves some of the arguments into cells. What
happens between is about numbers of slots and cells. After it every parameter is found by its name,
in its slot or in its cell, with what belongs to it.
-/

namespace Lexiscope.Meaning

open Machine Exec
open Code

section Cells

/-- The frame has the value for a name of its own: in the cell, if the name lives in one, or else in
the slot. -/
def Holds (f : Frame) (s : Store) (name : Name) (v : Value) : Prop :=
  if name ∈ f.code.object.cellvars then ∃ r, f.cells[cellOf f name]? = some r ∧ s.cell r = some v
  else f.fast[slotOf f name]? = some (some v)

/-- The code records just the parameters that live in its cells, each with its cell and its slot. -/
structure Records (c : Object) (params : List Name) : Prop where
  mem_iff : ∀ {cell slot}, (cell, slot) ∈ c.cellParams ↔
    ∃ p, params[slot]? = some p ∧ p ∈ c.cellvars ∧ c.derefNames.idxOf? p = some cell
  nodup : (c.cellParams.map Prod.snd).Nodup

variable {s : Store} {cells : List CellRef}

theorem moveToCells_cons (fast : Array (Option Value)) (moved : List (Nat × Nat)) {cell slot : Nat}
    {r : CellRef} (hr : cells[cell]? = some r) (hsize : r.index < s.cells.size) : ∃ t : Store,
    moveToCells cells fast ((cell, slot) :: moved) s =
      moveToCells cells (fast.setIfInBounds slot none) moved t ∧
    t.dicts = s.dicts ∧ t.cells.size = s.cells.size ∧ (∀ r', r' ≠ r → t.cell r' = s.cell r') ∧
    ∀ v, fast[slot]? = some (some v) → t.cell r = some v := by
  conv in moveToCells cells fast _ s => unfold moveToCells
  rw [hr]
  cases hvalue : (fast[slot]?).join with
  | none =>
    refine ⟨s, rfl, rfl, rfl, fun _ _ => rfl, fun v hv => ?_⟩
    rw [hv] at hvalue
    cases hvalue
  | some v =>
    refine ⟨{ s with cells := s.cells.setIfInBounds r.index (some v) }, rfl, rfl,
      Array.size_setIfInBounds, fun r' hne => ?_, fun w hw => ?_⟩
    · unfold Store.cell
      rw [Likeness.getD_setIfInBounds, if_neg]
      rintro ⟨hindex, -⟩
      exact hne (congrArg CellRef.mk hindex).symm
    · rw [hw] at hvalue
      cases hvalue
      unfold Store.cell
      rw [Likeness.getD_setIfInBounds, if_pos ⟨rfl, hsize⟩]

theorem moveToCells_run (fast : Array (Option Value)) (moved : List (Nat × Nat))
    (hslots : (moved.map Prod.snd).Nodup)
    (hcells : ∀ m ∈ moved, ∃ r, cells[m.1]? = some r ∧ r.index < s.cells.size)
    (hsame : ∀ m ∈ moved, ∀ m' ∈ moved, cells[m.1]? = cells[m'.1]? → m = m') :
    ∃ fast' t, moveToCells cells fast moved s = .ok fast' t ∧ t.dicts = s.dicts ∧
      (∀ i, i ∉ moved.map Prod.snd → fast'[i]? = fast[i]?) ∧
      (∀ r : CellRef, (∀ m ∈ moved, cells[m.1]? ≠ some r) → t.cell r = s.cell r) ∧
      ∀ m ∈ moved, ∀ r v, cells[m.1]? = some r → fast[m.2]? = some (some v) →
        t.cell r = some v := by
  induction moved generalizing s fast with
  | nil => exact ⟨fast, s, rfl, rfl, fun _ _ => rfl, fun _ _ => rfl, by simp⟩
  | cons m moved ih =>
    obtain ⟨cell, slot⟩ := m
    obtain ⟨⟨r, hr, hsize⟩, htail⟩ := List.forall_mem_cons.1 hcells
    rw [List.map_cons, List.nodup_cons] at hslots
    obtain ⟨t, hrun, hdicts, hcount, hothers, hfirst⟩ := moveToCells_cons fast moved hr hsize
    -- The cell that was filled first is not filled again.
    have hrest : ∀ m ∈ moved, cells[m.1]? ≠ some r := by
      intro m hm hsame'
      have heq := hsame _ List.mem_cons_self m (List.mem_cons_of_mem _ hm) (hr.trans hsame'.symm)
      exact hslots.1 (List.mem_map.2 ⟨m, hm, by rw [← heq]⟩)
    obtain ⟨fast', u, hmoved, hdicts', hfast, hkept, hfilled⟩ :=
      @ih t (fast.setIfInBounds slot none) hslots.2 (fun m hm => by rw [hcount]; exact htail m hm)
        fun m hm m' hm' => hsame m (List.mem_cons_of_mem _ hm) m' (List.mem_cons_of_mem _ hm')
    have hslot : ∀ i, i ≠ slot → (fast.setIfInBounds slot none)[i]? = fast[i]? := fun i hi =>
      Array.getElem?_setIfInBounds_ne (Ne.symm hi)
    refine ⟨fast', u, hrun.trans hmoved, hdicts'.trans hdicts, fun i hi => ?_, fun r' hr' => ?_,
      List.forall_mem_cons.2 ⟨fun r' v hr' hv => ?_, fun m hm r' v hr' hv => ?_⟩⟩
    · rw [List.map_cons, List.mem_cons, not_or] at hi
      rw [hfast i hi.2, hslot i hi.1]
    · obtain ⟨hne, hmoved'⟩ := List.forall_mem_cons.1 hr'
      rw [hkept r' hmoved', hothers r' fun heq => hne (heq ▸ hr)]
    · obtain rfl := Option.some.inj (hr.symm.trans hr')
      rw [hkept r hrest, hfirst v hv]
    · refine hfilled m hm r' v hr' ?_
      rw [hslot m.2 fun heq => hslots.1 (List.mem_map.2 ⟨m, hm, heq⟩), hv]

theorem getElem?_nextCells {i count : Nat} (hi : i < count) :
    (s.nextCells count)[i]? = some ⟨s.cells.size + i⟩ := by
  rw [Store.nextCells, List.getElem?_map, List.getElem?_range' hi, Nat.one_mul]
  rfl

end Cells

/-- What the parameters of a function are bound to in the frame of a call. -/
structure Binds (sig : Signature) (args : List Value) (keywords : Keywords) (f : Frame)
    (s : Store) : Prop where
  positional : ∀ (i : Nat) p, sig.positional[i]? = some p →
    ∃ v, ((args[i]?).or (keywords.lookup p.name)).or p.default = some v ∧ Holds f s p.name v
  keywordOnly : ∀ p ∈ sig.keywordOnly,
    ∃ v, (keywords.lookup p.name).or p.default = some v ∧ Holds f s p.name v
  rest : ∀ name, sig.rest = some name →
    ∃ id, Holds f s name (.tuple id (args.drop sig.positional.length))
  restKeywords : ∀ name, sig.restKeywords = some name → ∃ r, Holds f s name (.dict r) ∧
    Capture.Probe.namesOf (s.dict r).entries = some (sig.unclaimed keywords)
  /-- If nothing takes surplus arguments, there are none. -/
  noSurplus : sig.rest = none → args.drop sig.positional.length = []
  noUnclaimed : sig.restKeywords = none → sig.unclaimed keywords = []
  /-- A parameter with a positional argument has no keyword besides. -/
  apart : ∀ (i : Nat) p, sig.positional[i]? = some p → i < args.length →
    keywords.lookup p.name = none
  /-- Every keyword is that of one parameter, or it is a surplus one. -/
  accounted : keywords.Perm (sig.claimed keywords ++ sig.unclaimed keywords)

section Entering

variable {f : FunctionValue} {sig : Signature} (hf : f.Has sig)
  (hrecords : Records f.code.object sig.slotNames) {args : List Value} {keywords : Keywords}
  {s : Store}

include hf in
theorem slotOf_param {g : Frame} (hg : g.code = f.code) {i : Nat} {name : Name}
    (hname : sig.slotNames[i]? = some name) : slotOf g name = i := by
  have hslot : f.code.object.varnames.toList.idxOf? name = some i := by
    obtain ⟨others, hothers⟩ := hf.varnames
    have hfirst := (idxOf?_eq_some_iff hf.distinct).2 hname
    rw [← hothers, List.idxOf?, List.findIdx?_append]
    rw [List.idxOf?] at hfirst
    rw [hfirst]
    rfl
  have harray : f.code.object.varnames.idxOf? name = some i := by
    rwa [← f.code.object.varnames.toArray_toList, List.idxOf?_toArray]
  rw [slotOf, hg, harray]
  rfl

def madeFrame (f : FunctionValue) (fast : Array (Option Value)) (s : Store) : Frame where
  id := s.next
  code := f.code
  globals := f.globals
  fast := fast
  cells := s.nextCells f.code.object.cellvars.length ++ f.closure

include hrecords in
theorem recorded_cell (fast : Array (Option Value)) {m : Nat × Nat}
    (hm : m ∈ f.code.object.cellParams) : ∃ p, sig.slotNames[m.2]? = some p ∧
      f.code.object.derefNames.idxOf? p = some m.1 ∧ f.code.object.cellvars[m.1]? = some p ∧
      (madeFrame f fast s).cells[m.1]? = some ⟨s.cells.size + m.1⟩ := by
  obtain ⟨p, hslot, hp, hindex⟩ := hrecords.mem_iff.1 hm
  obtain ⟨j, hj, hfound⟩ : ∃ j, f.code.object.derefNames.idxOf? p = some j ∧
      f.code.object.cellvars[j]? = some p := idxOf?_of_own hp
  obtain rfl : j = m.1 := Option.some.inj (hj.symm.trans hindex)
  have hlt := (List.getElem?_eq_some_iff.1 hfound).1
  have hlength : (s.nextCells f.code.object.cellvars.length).length =
      f.code.object.cellvars.length := by simp [Store.nextCells]
  refine ⟨p, hslot, hindex, hfound, ?_⟩
  rw [madeFrame, List.getElem?_append_left (by rwa [hlength]), getElem?_nextCells hlt]

include hf hrecords in
theorem moved_holds (fast : Array (Option Value)) : ∃ fast' t,
    moveToCells (madeFrame f fast s).cells fast f.code.object.cellParams
        { s.withCells (f.code.object.cellvars.map fun _ => none) with next := s.next + 1 } =
      .ok fast' t ∧
    t.dicts = s.dicts ∧ ∀ (i : Nat) name v, sig.slotNames[i]? = some name →
      fast[i]? = some (some v) → Holds { madeFrame f fast s with fast := fast' } t name v := by
  obtain ⟨fast', t, hrun, hdicts, hfast, -, hfilled⟩ := moveToCells_run
    (s := { s.withCells (f.code.object.cellvars.map fun _ => none) with next := s.next + 1 })
    fast f.code.object.cellParams hrecords.nodup
    (fun m hm => by
      obtain ⟨p, -, -, hfound, hr⟩ := recorded_cell hrecords (s := s) fast hm
      have hlt := (List.getElem?_eq_some_iff.1 hfound).1
      exact ⟨_, hr, by simpa [Store.withCells] using hlt⟩)
    -- Two parameters with one cell would be one name in two slots.
    fun m hm m' hm' hsame => by
      obtain ⟨p, hslot, -, hfound, hr⟩ := recorded_cell hrecords (s := s) fast hm
      obtain ⟨p', hslot', -, hfound', hr'⟩ := recorded_cell hrecords (s := s) fast hm'
      rw [hr, hr', Option.some.injEq, CellRef.mk.injEq] at hsame
      have hcell : m.1 = m'.1 := Nat.add_left_cancel hsame
      rw [hcell] at hfound
      obtain rfl : p = p' := Option.some.inj (hfound.symm.trans hfound')
      exact Prod.ext hcell (eq_of_getElem?_eq_some hf.distinct hslot hslot')
  refine ⟨fast', t, hrun, hdicts, fun i name v hname hv => ?_⟩
  have hslotOf : slotOf { madeFrame f fast s with fast := fast' } name = i :=
    slotOf_param hf rfl hname
  unfold Holds
  split
  · rename_i hlives
    obtain ⟨cell, hindex, -⟩ : ∃ cell, f.code.object.derefNames.idxOf? name = some cell ∧
        f.code.object.cellvars[cell]? = some name := idxOf?_of_own hlives
    have hm : (cell, i) ∈ f.code.object.cellParams :=
      hrecords.mem_iff.2 ⟨name, hname, hlives, hindex⟩
    obtain ⟨-, -, -, -, hr⟩ := recorded_cell hrecords (s := s) fast hm
    refine ⟨_, ?_, hfilled _ hm _ v hr hv⟩
    have hcellOf : cellOf { madeFrame f fast s with fast := fast' } name = cell :=
      congrArg (·.getD 0) hindex
    rw [hcellOf]
    exact hr
  · rename_i hstays
    rw [hslotOf]
    refine (hfast i fun hmoved => hstays ?_).trans hv
    obtain ⟨m, hm, rfl⟩ := List.mem_map.1 hmoved
    obtain ⟨p, hslot, hp, -⟩ := hrecords.mem_iff.1 hm
    obtain rfl : p = name := Option.some.inj (hslot.symm.trans hname)
    exact hp

theorem enterFunction_eq {fast : Array (Option Value)} {t u : Store} {fast' : Array (Option Value)}
    (hbind : bindArguments f args keywords s = .ok fast t)
    (hmove : moveToCells (madeFrame f fast t).cells fast f.code.object.cellParams
      { t.withCells (f.code.object.cellvars.map fun _ => none) with next := t.next + 1 } =
        .ok fast' u) :
    enterFunction f args keywords s = .ok { madeFrame f fast t with fast := fast' } u := by
  unfold enterFunction
  rw [bind_ok hbind, bind_ok (make_eq f.code f.globals fast f.closure none t)]
  exact bind_ok hmove

include hf hrecords in
/-- A call of a function is refused with a type error, or it binds the parameters to what belongs to
them, whether they live in slots or in cells. -/
theorem enterFunction_spec (args : List Value) (keywords : Keywords) (s : Store) :
    (¬ sig.Refuses args keywords ∧ ∃ g t, enterFunction f args keywords s = .ok g t ∧
      g.code = f.code ∧ Binds sig args keywords g t) ∨
    (sig.Refuses args keywords ∧ IsTypeError (enterFunction f args keywords s)) := by
  rcases hf.bindArguments_spec args keywords s with
    ⟨hfine, fast, t, hbind, -, hfilled⟩ | ⟨hrefuses, message, t, herror⟩
  swap
  · exact .inr ⟨hrefuses, message, t, bind_error herror⟩
  obtain ⟨fast', u, hmove, hdicts, hholds⟩ := moved_holds hf hrecords (s := t) fast
  refine .inl ⟨hfine, _, u, enterFunction_eq hbind hmove, rfl, ?_⟩
  -- What a slot was filled with is in the slot or in a cell by now.
  have hvalue : ∀ (i : Nat) p, sig.named[i]? = some p → ∃ v, sig.value args keywords i p = some v ∧
      Holds { madeFrame f fast t with fast := fast' } u p.name v := by
    intro i p hp
    obtain ⟨v, hvalue, hslot⟩ := hfilled.named i p hp
    exact ⟨v, hvalue, hholds i p.name v (Signature.getElem?_slotNames_named hp) hslot⟩
  have hdistinct : (keywords.map Prod.fst).Nodup :=
    Classical.byContradiction fun hrepeated => hfine (.repeated hrepeated)
  constructor
  case positional =>
    intro i p hp
    obtain ⟨v, hv, hhas⟩ := hvalue i p (Signature.getElem?_named hp)
    rw [Signature.value, Signature.given,
      List.getElem?_take_of_lt (List.getElem?_eq_some_iff.1 hp).1] at hv
    exact ⟨v, hv, hhas⟩
  case keywordOnly =>
    intro p hp
    obtain ⟨j, hj⟩ := List.getElem?_of_mem hp
    obtain ⟨v, hv, hhas⟩ := hvalue (sig.positional.length + j) p
      (by rw [Signature.named, List.getElem?_append_right (Nat.le_add_right _ _),
        Nat.add_sub_cancel_left, hj])
    have hnone : (args.take sig.positional.length)[sig.positional.length + j]? = none :=
      List.getElem?_eq_none (by rw [List.length_take]; omega)
    rw [Signature.value, Signature.given, hnone, Option.none_or] at hv
    exact ⟨v, hv, hhas⟩
  case rest =>
    intro name hname
    obtain ⟨id, hslot⟩ := hfilled.rest name hname
    exact ⟨id, hholds _ name _ (Signature.getElem?_slotNames_rest hname) hslot⟩
  case restKeywords =>
    intro name hname
    obtain ⟨r, hslot, hentries⟩ := hfilled.restKeywords name hname
    refine ⟨r, hholds _ name _ (Signature.getElem?_slotNames_restKeywords hname) hslot, ?_⟩
    rwa [Store.dict, hdicts]
  case noSurplus =>
    intro hrest
    exact List.drop_eq_nil_iff.2 (Nat.le_of_not_lt fun hmany => hfine (.surplus hrest hmany))
  case noUnclaimed =>
    intro hrest
    refine List.filter_eq_nil_iff.2 fun k hk hname => ?_
    exact hfine (.unexpected hrest (List.mem_map_of_mem hk) (of_decide_eq_true hname))
  case apart =>
    intro i p hp hi
    refine List.lookup_eq_none_iff.2 fun k hk => bne_iff_ne.2 fun heq => ?_
    exact hfine (.filled hp hi (heq ▸ List.mem_map_of_mem hk))
  case accounted => exact sig.keywords_perm keywords hf.nodup_names hdistinct

end Entering

end Lexiscope.Meaning
