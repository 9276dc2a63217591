import Lexiscope.Proofs.Capture.Simulation
import Lexiscope.Proofs.Machine.Paths
import Lexiscope.Proofs.Meaning.Addresses
/-!
# Slots and cells of a frame

A name that lives in a cell may have a slot too, if it is a parameter: that slot takes the argument
of a call, which moves into the cell before the first instruction. From then on the slot is empty,
since code stores only in slots of names that live in slots. So a frame lists every name once.
-/

namespace Lexiscope.Meaning

open Machine Exec Likeness
open Code

/-- The code keeps slots and cells apart: it stores only in slots of names without cells, and a name
that has a slot and a cell is a parameter that is recorded with both. -/
structure Apart (c : Object) : Prop where
  slots : c.varnames.toList.Nodup
  cells : c.derefNames.Nodup
  stores : ∀ slot, .storeFast slot ∈ c.instructions →
    ∃ n, c.varnames[slot]? = some n ∧ n ∉ c.derefNames
  recorded : ∀ (slot : Nat) n, c.varnames[slot]? = some n → n ∈ c.derefNames →
    ∃ cell, (cell, slot) ∈ c.cellParams
  fits : c.paramCount ≤ c.varnames.size

/-- Instrumented code stores in no other slots. -/
theorem Apart.instrument {c d : Object} {marker : Marker} {reach : Nat} (hc : Apart c)
    (h : Capture.instrument c marker reach = .ok d) : Apart d := by
  unfold Capture.instrument at h
  dsimp only at h
  split at h
  · cases h
  cases h
  refine ⟨hc.slots, hc.cells, fun slot hslot => ?_, hc.recorded, hc.fits⟩
  rcases Array.mem_append.1 hslot with hslot | hslot
  · obtain ⟨pc, hpc, hi⟩ := Array.mem_mapIdx.1 hslot
    refine hc.stores slot ?_
    unfold Capture.redirect at hi
    split at hi
    · cases hi
    · exact hi ▸ Array.getElem_mem hpc
  · simp [Capture.captureTail] at hslot

/-- The slots of names that live in cells are empty. -/
structure Clear (f : Frame) : Prop where
  size : f.fast.size = f.code.object.varnames.size
  empty : ∀ (slot : Nat) n, f.code.object.varnames[slot]? = some n → n ∈ f.code.object.derefNames →
    f.fast[slot]? = some none
  classSpace : f.classSpace = none

section Entering

variable {v : FunctionValue} {args : List Value} {keywords : Keywords} {f : Frame} {s t : Store}

theorem moveToCells_ok {cells : List CellRef} {fast fast' : Array (Option Value)}
    {moved : List (Nat × Nat)} (h : moveToCells cells fast moved s = .ok fast' t) :
    fast'.size = fast.size ∧ ∀ i : Nat,
      fast'[i]? = if i ∈ moved.map Prod.snd then fast[i]?.map fun _ => none else fast[i]? := by
  induction moved generalizing fast s with
  | nil =>
    cases h
    simp
  | cons m moved ih =>
    obtain ⟨cell, slot⟩ := m
    obtain ⟨u, hrest⟩ : ∃ u, moveToCells cells (fast.setIfInBounds slot none) moved u =
        .ok fast' t := by
      unfold moveToCells at h
      cases hr : cells[cell]? with
      | none =>
        rw [hr] at h
        exact ⟨s, h⟩
      | some r =>
        cases hvalue : (fast[slot]?).join with
        | none =>
          rw [hr, hvalue] at h
          exact ⟨s, h⟩
        | some value =>
          rw [hr, hvalue] at h
          obtain ⟨⟨⟩, u, -, h⟩ := bind_eq_ok h
          exact ⟨u, h⟩
    obtain ⟨hsize, hslots⟩ := ih hrest
    refine ⟨hsize.trans (Array.size_setIfInBounds ..), fun i => ?_⟩
    rw [hslots, Array.getElem?_setIfInBounds]
    by_cases hi : slot = i
    · subst hi
      by_cases hlt : slot < fast.size <;> simp [hlt]
    · have hmem : i ∈ ((cell, slot) :: moved).map Prod.snd ↔ i ∈ moved.map Prod.snd := by
        simp [Ne.symm hi]
      simp only [hmem, if_neg hi]

theorem enterFunction_ok (h : enterFunction v args keywords s = .ok f t) : ∃ fast fast' u,
    bindArguments v args keywords s = .ok fast u ∧
      f = { id := u.next, code := v.code, globals := v.globals, fast := fast',
            cells := u.nextCells v.code.object.cellvars.length ++ v.closure } ∧
      moveToCells f.cells fast v.code.object.cellParams
        { u.withCells (v.code.object.cellvars.map fun _ => none) with next := u.next + 1 } =
          .ok fast' t := by
  obtain ⟨fast, u, hbind, h⟩ := bind_eq_ok h
  rw [bind_ok (make_eq ..)] at h
  obtain ⟨fast', w, hmove, h⟩ := bind_eq_ok h
  cases h
  exact ⟨fast, fast', u, hbind, rfl, hmove⟩

theorem size_bindArguments {fast : Array (Option Value)}
    (hfits : v.code.object.paramCount ≤ v.code.object.varnames.size)
    (h : bindArguments v args keywords s = .ok fast t) :
    fast.size = v.code.object.varnames.size := by
  have hbound := (agree_bindArguments same_steady.toLawful (.inr hfits) (fun _ _ => trivial)
    (fun _ _ => trivial) (fun _ _ => trivial) fun _ _ => trivial).ok_self (alike_refl s) h
  exact hbound.1.1 hfits

/-- The frame of a call has empty slots for the parameters that live in cells. -/
theorem clear_of_enterFunction (hc : Apart v.code.object)
    (h : enterFunction v args keywords s = .ok f t) : Clear f := by
  obtain ⟨fast, fast', u, hbind, rfl, hmove⟩ := enterFunction_ok h
  obtain ⟨hmoved, hslots⟩ := moveToCells_ok hmove
  have hsize := size_bindArguments hc.fits hbind
  refine ⟨hmoved.trans hsize, fun slot n hslot hn => ?_, rfl⟩
  obtain ⟨cell, hrecorded⟩ := hc.recorded slot n hslot hn
  obtain ⟨hlt, -⟩ := Array.getElem?_eq_some_iff.1 hslot
  rw [hslots slot, if_pos (List.mem_map.2 ⟨_, hrecorded, rfl⟩),
    Array.getElem?_eq_getElem (hsize ▸ hlt)]
  rfl

theorem cells_lt_of_enterFunction (hclosure : ∀ r ∈ v.closure, r.index < s.cells.size)
    (h : enterFunction v args keywords s = .ok f t) : ∀ r ∈ f.cells, r.index < t.cells.size := by
  have hgrows : s.cells.size ≤ t.cells.size := (calm_enterFunction.ok h).cells
  obtain ⟨fast, fast', u, hbind, rfl, hmove⟩ := enterFunction_ok h
  have hmoved := (Change.Allows.ok (c := Change.calm) allows_moveToCells hmove).cells
  intro r hr
  rcases List.mem_append.1 hr with hr | hr
  · obtain ⟨i, hi, rfl⟩ := List.mem_map.1 hr
    have hlt := (List.mem_range'_1.1 hi).2
    refine Nat.lt_of_lt_of_le ?_ hmoved
    simpa [Store.withCells] using hlt
  · exact Nat.lt_of_lt_of_le (hclosure r hr) hgrows

end Entering

section Courses

variable {e f g : Frame} {s t u : Store} {a : Action}

/-- Only one instruction changes slots. -/
theorem fast_of_does {L : Likeness} {taken : List Value} {i : Instr} (h : L.Does f taken i a) :
    a.frame.fast = f.fast ∨
      ∃ slot v, i = .storeFast slot ∧ a.frame.fast = f.fast.setIfInBounds slot (some v) := by
  cases i <;> simp only [Likeness.Does] at h
  all_goals grind [Action.frame, Frame.push, Frame.jump]

theorem fast_of_step (h : step f s = .ok a u) : a.frame.fast = f.fast ∨
    ∃ slot v, .storeFast slot ∈ f.code.object.instructions ∧
      a.frame.fast = f.fast.setIfInBounds slot (some v) := by
  obtain ⟨i, hi, -, hdoes⟩ := performs_of_step h
  rcases fast_of_does hdoes with hsame | ⟨slot, v, rfl, hset⟩
  · exact .inl hsame
  · exact .inr ⟨slot, v, Array.mem_of_getElem? hi, hset⟩

theorem Clear.congr (hf : Clear f) (hbody : f.SameBody g) (hfast : g.fast = f.fast) : Clear g := by
  obtain ⟨size, empty, classSpace⟩ := hf
  refine ⟨?_, ?_, hbody.classSpace.trans classSpace⟩
  · rw [hfast, hbody.code]
    exact size
  · rw [hfast, hbody.code]
    exact empty

/-- No instruction fills the slot of a name that lives in a cell. -/
theorem Clear.step (hc : Apart f.code.object) (hf : Clear f) (h : step f s = .ok a u) :
    Clear a.frame := by
  have hbody := (successors_of_step h).1
  rcases fast_of_step h with hsame | ⟨slot, v, hstore, hset⟩
  · exact hf.congr hbody hsame
  obtain ⟨n, hn, hslot⟩ := hc.stores slot hstore
  refine ⟨?_, fun slot' n' hslot' hn' => ?_, hbody.classSpace.trans hf.classSpace⟩
  · rw [hset, hbody.code, Array.size_setIfInBounds]
    exact hf.size
  · rw [hbody.code] at hslot' hn'
    rw [hset, Array.getElem?_setIfInBounds, if_neg, hf.empty slot' n' hslot' hn']
    rintro rfl
    obtain rfl : n = n' := Option.some.inj (hn.symm.trans hslot')
    exact hslot hn'

/-- The slots of names that live in cells stay empty in the course of a body. -/
theorem Clear.course {es : List Event} (hf : Clear f) (hc : Apart f.code.object)
    (h : Course f s es g t) : Clear g := by
  induction h with
  | here => exact hf
  | turn hstep hact _ ih =>
    have hbody := (successors_of_step hstep).1
    obtain ⟨hbody', hfast, -⟩ := (leadsTo_of_act hact).same
    exact ih ((hf.step hc hstep).congr hbody' hfast) ((hbody.trans hbody').code ▸ hc)
  | yield hstep _ ih =>
    have hbody := (successors_of_step hstep).1
    exact ih ((hf.step hc hstep).congr ⟨rfl, rfl, rfl, rfl, rfl⟩ rfl) (hbody.code ▸ hc)

/-- A body that starts with the first frame comes to the second one: before an instruction, or with
an instruction under way, which may be the last one. -/
inductive Reaches (e : Frame) : Frame → Prop where
  | before {s es g t} : Course e s es g t → Reaches e g
  | within {s es g t a u} : Course e s es g t → step g t = .ok a u → Reaches e a.frame

theorem Reaches.sameBody (h : Reaches e g) : e.SameBody g := by
  cases h with
  | before hcourse => exact hcourse.sameBody
  | within hcourse hstep => exact hcourse.sameBody.trans (successors_of_step hstep).1

theorem Reaches.clear (h : Reaches e g) (hc : Apart e.code.object) (he : Clear e) : Clear g := by
  cases h with
  | before hcourse => exact he.course hc hcourse
  | within hcourse hstep =>
    exact (he.course hc hcourse).step (hcourse.sameBody.code ▸ hc) hstep

end Courses

section Listing

/-- The value that a name has in a frame: in its cell, or else in its slot. -/
def valueIn (f : Frame) (n : Name) (s : Store) : Option Value :=
  if n ∈ f.code.object.derefNames then (f.cells[cellOf f n]?).bind s.cell
  else (f.fast[slotOf f n]?).join

theorem filterMap_zip {α β : Type} (value : α → Option β) {names : List Name} (h : names.Nodup)
    (xs : List α) :
    (names.zip xs).filterMap (fun p => (value p.2).map (p.1, ·)) =
      names.filterMap fun n => ((xs[(names.idxOf? n).getD 0]?).bind value).map (n, ·) := by
  induction names generalizing xs with
  | nil => rfl
  | cons name names ih =>
    obtain ⟨hname, hnames⟩ := List.nodup_cons.1 h
    have hrest : ∀ n ∈ names, ((name :: names).idxOf? n).getD 0 = (names.idxOf? n).getD 0 + 1 := by
      intro n hn
      obtain ⟨i, hi⟩ := Option.isSome_iff_exists.1 (List.isSome_idxOf?.2 hn)
      have hne : (name == n) = false := beq_false_of_ne (by rintro rfl; exact hname hn)
      rw [List.idxOf?_cons, hne, hi]
      rfl
    cases xs with
    | nil => simp
    | cons x xs =>
      have htail : names.filterMap (fun n =>
            (((x :: xs)[((name :: names).idxOf? n).getD 0]?).bind value).map (n, ·)) =
          (names.zip xs).filterMap fun p => (value p.2).map (p.1, ·) := by
        rw [ih hnames]
        refine List.filterMap_congr fun n hn => ?_
        rw [hrest n hn, List.getElem?_cons_succ]
      rw [List.zip_cons_cons, List.filterMap_cons, List.filterMap_cons, htail]
      simp [List.idxOf?_cons]

theorem map_fst_filterMap {α β : Type} (value : α → Option β) (names : List α) :
    (names.filterMap fun n => (value n).map (n, ·)).map Prod.fst =
      names.filter fun n => (value n).isSome := by
  induction names with
  | nil => rfl
  | cons n names ih =>
    cases hvalue : value n with
    | none => simp [hvalue, ih]
    | some x => simp [hvalue, ih]

/-- The names that a frame may list, in order: those in slots, and then those in cells. -/
def listedNames (c : Object) : List Name :=
  c.varnames.toList.filter (· ∉ c.derefNames) ++ c.derefNames

theorem nodup_listedNames {c : Object} (hc : Apart c) : (listedNames c).Nodup := by
  refine (hc.slots.filter _).append hc.cells fun n hslot hcell => ?_
  exact of_decide_eq_true (List.mem_filter.1 hslot).2 hcell

variable {f : Frame}

theorem slotOf_eq (f : Frame) (n : Name) :
    slotOf f n = (f.code.object.varnames.toList.idxOf? n).getD 0 := by
  rw [slotOf, ← List.idxOf?_toArray, Array.toArray_toList]

theorem varnames_slotOf {n : Name} (hn : n ∈ f.code.object.varnames.toList) :
    f.code.object.varnames[slotOf f n]? = some n := by
  obtain ⟨i, hi⟩ := Option.isSome_iff_exists.1 (List.isSome_idxOf?.2 hn)
  rw [slotOf_eq, hi, Option.getD_some]
  rw [← List.idxOf?_toArray, Array.toArray_toList] at hi
  exact getElem?_of_idxOf? hi

/-- A frame lists the names that have values, each once. -/
theorem locals_eq (hc : Apart f.code.object) (hf : Clear f) (s : Store) :
    f.locals s = ⟨(listedNames f.code.object).filterMap fun n => (valueIn f n s).map (n, ·)⟩ := by
  have hslots : (f.code.object.varnames.toList.zip f.fast.toList).filterMap
        (fun p => p.2.map (p.1, ·)) =
      (f.code.object.varnames.toList.filter (· ∉ f.code.object.derefNames)).filterMap
        fun n => (valueIn f n s).map (n, ·) := by
    have hzip := filterMap_zip id hc.slots f.fast.toList
    simp only [id] at hzip
    rw [hzip, List.filterMap_filter]
    refine List.filterMap_congr fun n hn => ?_
    rw [← slotOf_eq, Array.getElem?_toList]
    by_cases hcell : n ∈ f.code.object.derefNames
    · rw [hf.empty _ n (varnames_slotOf hn) hcell, if_neg (by simpa using hcell)]
      rfl
    · rw [if_pos (by simpa using hcell), valueIn, if_neg hcell]
      rfl
  have hcells : (f.code.object.derefNames.zip f.cells).filterMap
        (fun p => (s.cell p.2).map (p.1, ·)) =
      f.code.object.derefNames.filterMap fun n => (valueIn f n s).map (n, ·) := by
    rw [filterMap_zip s.cell hc.cells]
    refine List.filterMap_congr fun n hn => ?_
    rw [valueIn, if_pos hn]
    rfl
  have hnodup : (((listedNames f.code.object).filterMap fun n =>
      (valueIn f n s).map (n, ·)).map Prod.fst).Nodup := by
    rw [map_fst_filterMap]
    exact (nodup_listedNames hc).filter _
  unfold Frame.locals
  rw [hf.classSpace]
  dsimp only
  rw [hslots, hcells, ← List.filterMap_append]
  exact OrderedMap.ofList_entries (m := ⟨_⟩) hnodup

end Listing

end Lexiscope.Meaning
