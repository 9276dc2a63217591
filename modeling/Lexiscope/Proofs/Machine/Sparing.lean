import Lexiscope.Proofs.Machine.Growing
/-!
# What was there is spared

A frame whose cells and namespaces are newer than a store writes none that were there: neither when it
is made nor with any of its instructions. What instructions may still change are the attributes of
instances and classes, wherever those come from.
-/

namespace Lexiscope.Machine

open Exec
open Code (Instr)
open Likeness (getD_push getD_setIfInBounds)

/-- The cells and namespaces of an old store are as they were, except for one namespace. -/
structure Store.Spares (old : Store) (exempt : Option SpaceRef) (s t : Store) : Prop where
  cells : ∀ r : CellRef, r.index < old.cells.size → t.cell r = s.cell r
  spaces : ∀ r : SpaceRef, r.index < old.spaces.size → some r ≠ exempt → t.space r = s.space r

theorem Store.Spares.of_eq {old s t : Store} {exempt : Option SpaceRef} (hcells : t.cells = s.cells)
    (hspaces : t.spaces = s.spaces) : old.Spares exempt s t := by
  constructor
  · intro r _
    rw [Store.cell, Store.cell, hcells]
  · intro r _ _
    rw [Store.space, Store.space, hspaces]

theorem Store.Spares.trans {old s t u : Store} {exempt : Option SpaceRef}
    (h : old.Spares exempt s t) (h' : old.Spares exempt t u) : old.Spares exempt s u := by
  constructor
  · intro r hr
    exact (h'.cells r hr).trans (h.cells r hr)
  · intro r hr hne
    exact (h'.spaces r hr hne).trans (h.spaces r hr hne)

/-- The changes, after an old store, that spare its cells and namespaces. -/
def Change.sparing (old : Store) (exempt : Option SpaceRef) : Change where
  rel s t := old.Grows s → old.Grows t ∧ old.Spares exempt s t
  trans := by
    intro s t u h h' hs
    obtain ⟨ht, hspares⟩ := h hs
    obtain ⟨hu, hspares'⟩ := h' ht
    exact ⟨hu, hspares.trans hspares'⟩
  mild := by
    intro s t h hs
    exact ⟨hs.trans (.of_eq h.cells h.spaces), .of_eq h.cells h.spaces⟩

def Value.attributes? : Value → Option SpaceRef
  | .object _ attrs => some attrs
  | .type c => some c.space
  | _ => Option.none

/-- The namespace of the instance or the class of which the next instruction sets an attribute. -/
def Frame.mutates? (f : Frame) : Option SpaceRef :=
  match f.code.object.instructions[f.pc]?, f.stack with
  | some (.storeAttr _), v :: _ => v.attributes?
  | _, _ => none

/-- The cells and namespaces of a frame are not those of an old store. -/
structure Frame.Beyond (old : Store) (f : Frame) : Prop where
  cells : ∀ r ∈ f.cells, old.cells.size ≤ r.index
  globals : old.spaces.size ≤ f.globals.index
  classSpace : ∀ r ∈ f.classSpace, old.spaces.size ≤ r.index

section Writing

variable {old s t : Store} {exempt : Option SpaceRef} {f : Frame}

instance sparing_newCell {value : Option Value} :
    (Change.sparing old exempt).Allows (newCell value) := by
  constructor
  intro s hs
  have hafter : (newCell value).after s = { s with cells := s.cells.push value } := rfl
  rw [hafter]
  refine ⟨hs.trans (calm_newCell.after s).grows, ?_, fun _ _ _ => rfl⟩
  intro r hr
  have hne : r.index ≠ s.cells.size := by
    have hle := hs.cells
    omega
  rw [Store.cell, getD_push, if_neg hne, Store.cell]

instance sparing_newSpace {names : NameMap} :
    (Change.sparing old exempt).Allows (newSpace names) := by
  constructor
  intro s hs
  have hafter : (newSpace names).after s = { s with spaces := s.spaces.push names } := rfl
  rw [hafter]
  refine ⟨hs.trans (calm_newSpace.after s).grows, fun _ _ => rfl, ?_⟩
  intro r hr _
  have hne : r.index ≠ s.spaces.size := by
    have hle := hs.spaces
    omega
  rw [Store.space, getD_push, if_neg hne, Store.space]

theorem sparing_setCell {r : CellRef} (hr : old.cells.size ≤ r.index) (v : Value) :
    (Change.sparing old exempt).Allows (setCell r v) := by
  constructor
  intro s hs
  have hafter : (setCell r v).after s =
      { s with cells := s.cells.setIfInBounds r.index (some v) } := rfl
  rw [hafter]
  refine ⟨hs.trans (calm_setCell.after s).grows, ?_, fun _ _ _ => rfl⟩
  intro q hq
  have hne : ¬ (r.index = q.index ∧ q.index < s.cells.size) := by omega
  rw [Store.cell, getD_setIfInBounds, if_neg hne, Store.cell]

theorem sparing_setName {r : SpaceRef} (hr : old.spaces.size ≤ r.index ∨ exempt = some r) (n : Name)
    (v : Value) : (Change.sparing old exempt).Allows (setName r n v) := by
  constructor
  intro s hs
  have hafter : (setName r n v).after s =
      { s with spaces := s.spaces.modify r.index (·.insert n v) } := rfl
  rw [hafter]
  refine ⟨hs.trans (calm_setName.after s).grows, fun _ _ => rfl, ?_⟩
  intro q hq hne
  have hindex : r.index ≠ q.index := by
    rcases hr with hr | rfl
    · omega
    · exact fun h => hne (congrArg some (congrArg SpaceRef.mk h.symm))
  simp only [Store.space, Array.getD_eq_getD_getElem?, Array.getElem?_modify, if_neg hindex]

/-- What a frame writes is not of the old store, apart from attributes. -/
theorem Frame.Beyond.admits (hf : f.Beyond old) {i : Instr}
    (hi : f.code.object.instructions[f.pc]? = some i) :
    (Change.sparing old f.mutates?).Admits f i := by
  constructor
  · intro r hr v
    exact sparing_setCell (hf.cells r hr) v
  · intro n v
    exact sparing_setName (.inl hf.globals) n v
  · intro r hr n v
    exact sparing_setName (.inl (hf.classSpace r hr)) n v
  · rintro j v rest rfl hstack n w
    have hmutates : f.mutates? = v.attributes? := by
      unfold Frame.mutates?
      rw [hi, hstack]
    rw [hmutates]
    cases v with
    | object c attrs => exact sparing_setName (.inr rfl) n w
    | type c => exact sparing_setName (.inr rfl) n w
    | _ => exact allows_raise

theorem Frame.Beyond.step (hf : f.Beyond old) (hs : old.Grows s) :
    old.Spares f.mutates? s ((step f).after s) :=
  ((allows_step fun _ hi => hf.admits hi).after s hs).2

end Writing

/-- A frame of the function is made for a call, or as the body of a class, in a namespace that is made
for it. -/
inductive Opened (v : FunctionValue) (s : Store) (f : Frame) (t : Store) : Prop where
  | call {args keywords} : enterFunction v args keywords s = .ok f t → Opened v s f t
  | body {space u} : newSpace .empty s = .ok space u → enterClassBody v space u = .ok f t →
    Opened v s f t

section Opening

variable {old s t : Store} {exempt : Option SpaceRef} {v : FunctionValue} {f : Frame}

theorem Opened.isNew (h : Opened v s f t) : f.IsNew v := by
  cases h with
  | call h => exact Entered.isNew (.inl ⟨_, _, h⟩)
  | body _ h => exact Entered.isNew (.inr ⟨_, h⟩)

theorem sparing_moveToCells {cells : List CellRef} (hcells : ∀ r ∈ cells, old.cells.size ≤ r.index)
    (fast : Array (Option Value)) (params : List (Nat × Nat)) :
    (Change.sparing old exempt).Allows (moveToCells cells fast params) := by
  induction params generalizing fast with
  | nil => exact allows_pure
  | cons param params ih =>
    unfold moveToCells
    split
    · rename_i r x hr _
      exact (sparing_setCell (hcells r (List.mem_of_getElem? hr)) x).bind fun _ => ih _
    · exact ih _

theorem cells_of_make {code : LoadedCode} {globals : SpaceRef} {fast : Array (Option Value)}
    {closure : List CellRef} {space : Option SpaceRef} (hs : old.Grows s)
    (hclosure : ∀ r ∈ closure, old.cells.size ≤ r.index)
    (h : Frame.make code globals fast closure space s = .ok f t) :
    (∀ r ∈ f.cells, old.cells.size ≤ r.index) ∧ f.classSpace = space := by
  rw [make_eq] at h
  cases h
  refine ⟨fun r hr => ?_, rfl⟩
  rcases List.mem_append.1 hr with hr | hr
  · exact Nat.le_trans hs.cells (le_of_mem_nextCells hr)
  · exact hclosure r hr

/-- Where the cells and the namespace of a function are newer than a store, so are those of its frames,
and these are made without a change of what was there. -/
theorem Opened.spares (h : Opened v s f t) (hs : old.Grows s)
    (hglobals : old.spaces.size ≤ v.globals.index)
    (hclosure : ∀ r ∈ v.closure, old.cells.size ≤ r.index) :
    old.Grows t ∧ old.Spares none s t ∧ f.Beyond old := by
  cases h with
  | call h =>
    obtain ⟨fast, s₁, hbound, h⟩ := bind_eq_ok h
    obtain ⟨g, s₂, hmake, h⟩ := bind_eq_ok h
    obtain ⟨slots, s₃, hmove, h⟩ := bind_eq_ok h
    have hbind : (Change.sparing old none).rel s s₁ := Change.Allows.ok inferInstance hbound
    obtain ⟨hs₁, hspares₁⟩ := hbind hs
    obtain ⟨hcells, hspace⟩ := cells_of_make hs₁ hclosure hmake
    have hnew : (Change.sparing old none).rel s₁ s₂ :=
      Change.Allows.ok (by unfold Frame.make; infer_instance) hmake
    obtain ⟨hs₂, hspares₂⟩ := hnew hs₁
    have hmoved : (Change.sparing old none).rel s₂ s₃ := (sparing_moveToCells hcells _ _).ok hmove
    obtain ⟨hs₃, hspares₃⟩ := hmoved hs₂
    have hsame : g.globals = v.globals := (isNew_of_make hmake).globals
    cases h
    refine ⟨hs₃, (hspares₁.trans hspares₂).trans hspares₃, hcells, hsame ▸ hglobals, ?_⟩
    intro r hr
    rw [hspace] at hr
    cases hr
  | @body space u hspace h =>
    have hnew : (Change.sparing old none).rel s u := sparing_newSpace.ok hspace
    obtain ⟨hu, hspares⟩ := hnew hs
    obtain ⟨hcells, hclass⟩ := cells_of_make hu hclosure h
    have hmade : (Change.sparing old none).rel u t :=
      Change.Allows.ok (by unfold enterClassBody Frame.make; infer_instance) h
    have hsame : f.globals = v.globals := (isNew_of_make h).globals
    obtain ⟨ht, hspares'⟩ := hmade hu
    refine ⟨ht, hspares.trans hspares', hcells, hsame ▸ hglobals, ?_⟩
    intro r hr
    rw [hclass] at hr
    cases hr
    cases hspace
    exact hs.spaces

end Opening

end Lexiscope.Machine
