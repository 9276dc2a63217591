import Lexiscope.Proofs.Machine.Likeness
/-!
# Reading and changing stores that are alike

What is read from two stores that are alike is the same, and good. The primitive changes keep
them alike.
-/

namespace Lexiscope.Machine

theorem getD_all {α : Type} {p : α → Prop} {a : Array α} (h : ∀ x ∈ a, p x) {d : α} (hd : p d)
    (i : Nat) : p (a.getD i d) := by
  rw [Array.getD_eq_getD_getElem?]
  cases hi : a[i]? with
  | none => exact hd
  | some x => exact h x (Array.mem_of_getElem? hi)

theorem push_all {α : Type} {p : α → Prop} {a : Array α} (h : ∀ x ∈ a, p x) {b : α} (hb : p b) :
    ∀ x ∈ a.push b, p x := by
  intro x hx
  rcases Array.mem_push.1 hx with hx | rfl
  · exact h x hx
  · exact hb

theorem setIfInBounds_all {α : Type} {p : α → Prop} {a : Array α} (h : ∀ x ∈ a, p x) (i : Nat)
    {b : α} (hb : p b) : ∀ x ∈ a.setIfInBounds i b, p x := by
  intro x hx
  rcases Array.mem_or_eq_of_mem_setIfInBounds hx with hx | rfl
  · exact h x hx
  · exact hb

theorem modify_all {α : Type} {p : α → Prop} {a : Array α} (h : ∀ x ∈ a, p x) (i : Nat)
    {f : α → α} (hf : ∀ x, p x → p (f x)) : ∀ x ∈ a.modify i f, p x := by
  intro x hx
  obtain ⟨j, hj, rfl⟩ := Array.mem_iff_getElem.1 hx
  rw [Array.getElem_modify]
  split
  · exact hf _ (h _ (Array.getElem_mem _))
  · exact h _ (Array.getElem_mem _)

namespace Store.All

variable {p : Value → Prop} {s : Store}

theorem list (h : s.All p) (r : ListRef) : ∀ v ∈ s.list r, p v :=
  getD_all h.lists (by simp) r.index

theorem dict (h : s.All p) (r : DictRef) : (s.dict r).All p :=
  getD_all h.dicts OrderedMap.all_empty r.index

theorem cell (h : s.All p) (r : CellRef) : ∀ v ∈ s.cell r, p v :=
  getD_all h.cells (by simp) r.index

theorem space (h : s.All p) (r : SpaceRef) : (s.space r).All p :=
  getD_all h.spaces OrderedMap.all_empty r.index

theorem lookup (h : s.All p) {r : SpaceRef} {name : Name} {v : Value}
    (hv : s.lookup r name = some v) : p v :=
  (h.space r).get? hv

theorem iterator (h : s.All p) (r : IteratorRef) : (s.iterator r).source.All p :=
  getD_all (p := fun i : Iterator => i.source.All p) h.iterators
    (show (default : Iterator).source.All p from trivial) r.index

end Store.All

/-! ### What is bound stays bound -/

namespace Store.Keeps

variable {s t : Store}

theorem of_eq (hspaces : t.spaces = s.spaces) (hcells : t.cells = s.cells) : s.Keeps t := by
  refine ⟨fun r n h => ?_, fun r h => ?_⟩
  · simpa only [Store.lookup, Store.space, hspaces] using h
  · simpa only [Store.cell, hcells] using h

end Store.Keeps

theorem keeps_newCell (s : Store) (value : Option Value) :
    s.Keeps { s with cells := s.cells.push value } := by
  refine ⟨fun _ _ h => h, fun r h => ?_⟩
  simp only [Store.cell, Array.getD_eq_getD_getElem?, Array.getElem?_push] at h ⊢
  split
  · rename_i hr
    simp [hr] at h
  · exact h

theorem keeps_newSpace (s : Store) (names : NameMap) :
    s.Keeps { s with spaces := s.spaces.push names } := by
  refine ⟨fun r n h => ?_, fun _ h => h⟩
  simp only [Store.lookup, Store.space, Array.getD_eq_getD_getElem?, Array.getElem?_push] at h ⊢
  split
  · rename_i hr
    simp [hr] at h
  · exact h

theorem keeps_setCell (s : Store) (r : CellRef) (value : Value) :
    s.Keeps { s with cells := s.cells.setIfInBounds r.index (some value) } := by
  refine ⟨fun _ _ h => h, fun q h => ?_⟩
  simp only [Store.cell, Array.getD_eq_getD_getElem?, Array.getElem?_setIfInBounds] at h ⊢
  split
  · split
    · rfl
    · rename_i hr hlt
      simp [← hr, hlt] at h
  · exact h

theorem keeps_setName (s : Store) (r : SpaceRef) (name : Name) (value : Value) :
    s.Keeps { s with spaces := s.spaces.modify r.index (·.insert name value) } := by
  refine ⟨fun q n h => ?_, fun _ h => h⟩
  simp only [Store.lookup, Store.space, Array.getD_eq_getD_getElem?, Array.getElem?_modify] at h ⊢
  split
  · cases hm : s.spaces[q.index]? with
    | none => simp [hm] at h
    | some m =>
      simp only [hm, Option.getD_some, Option.map_some] at h ⊢
      exact OrderedMap.isSome_get?_insert h name value
  · exact h

namespace Likeness

variable {L : Likeness} {s t : Store}

namespace Alike

theorem list (h : L.Alike s t) (r : ListRef) : t.list r = s.list r := by rw [h.rest]; rfl

theorem dict (h : L.Alike s t) (r : DictRef) : t.dict r = s.dict r := by rw [h.rest]; rfl

theorem cell (h : L.Alike s t) (r : CellRef) : t.cell r = s.cell r := by rw [h.rest]; rfl

theorem space (h : L.Alike s t) (r : SpaceRef) : t.space r = s.space r := by rw [h.rest]; rfl

theorem lookup (h : L.Alike s t) (r : SpaceRef) (name : Name) :
    t.lookup r name = s.lookup r name := by rw [h.rest]; rfl

theorem iterator (h : L.Alike s t) (r : IteratorRef) : t.iterator r = s.iterator r := by
  rw [h.rest]; rfl

theorem nesting (h : L.Alike s t) : t.nesting = s.nesting := by rw [h.rest]; rfl

/-- A change that touches neither generators nor observers keeps stores alike. -/
theorem change (h : L.Alike s t) {f : Store → Store}
    (hf : ∀ (u : Store) (g : Array Generator) (o : List Observer),
      f { u with generators := g, observers := o } =
        { f u with generators := g, observers := o })
    (hk : s.Keeps (f s)) (hv : (f s).All L.value) : s.Before (f s) ∧ L.Alike (f s) (f t) := by
  have hs : f s = { f s with generators := s.generators, observers := s.observers } :=
    hf s s.generators s.observers
  have ht : f t = { f s with generators := t.generators, observers := t.observers } := by
    conv => lhs; rw [h.rest]
    exact hf s t.generators t.observers
  have hgs : (f s).generators = s.generators := by rw [hs]
  have hgt : (f t).generators = t.generators := by rw [ht]
  have hos : (f s).observers = s.observers := by rw [hs]
  have hot : (f t).observers = t.observers := by rw [ht]
  refine ⟨⟨hk, fun r hr => ?_⟩, ?_, hv, ?_, fun r => ?_, ?_⟩
  · simpa only [Store.generator, hgs] using hr
  · rw [hgt, hot, ht]
  · rw [hgs, hgt, h.size]
  · simpa only [Store.generator, hgs, hgt] using h.generator r
  · rw [hos, hot]
    exact h.observers

end Alike

theorem agree_modifyGet {α : Type} {p : α → Prop} {f : Store → α × Store}
    (hf : ∀ (u : Store) (g : Array Generator) (o : List Observer),
      f { u with generators := g, observers := o } =
        ((f u).1, { (f u).2 with generators := g, observers := o }))
    (hk : ∀ u : Store, u.Keeps (f u).2)
    (hv : ∀ u : Store, u.All L.value → p (f u).1 ∧ (f u).2.All L.value) :
    L.Agree p (modifyGet f) (modifyGet f) := by
  intro s t h
  have hsame : (f t).1 = (f s).1 := by
    conv => lhs; rw [h.rest]
    rw [hf]
  obtain ⟨hb, ha⟩ := h.change (f := fun u => (f u).2) (fun u g o => by rw [hf])
    (hk s) (hv s h.values).2
  change L.Ended _ s (.ok (f s).1 (f s).2) (.ok (f t).1 (f t).2)
  exact .ok ⟨hsame.symm, (hv s h.values).1⟩ hb ha

theorem agree_modify {f : Store → Store}
    (hf : ∀ (u : Store) (g : Array Generator) (o : List Observer),
      f { u with generators := g, observers := o } =
        { f u with generators := g, observers := o })
    (hk : ∀ u : Store, u.Keeps (f u))
    (hv : ∀ u : Store, u.All L.value → (f u).All L.value) :
    L.Agree (fun _ => True) (modify f) (modify f) := by
  intro s t h
  obtain ⟨hb, ha⟩ := h.change hf (hk s) (hv s h.values)
  exact .ok ⟨rfl, trivial⟩ hb ha

section Operations

variable (hL : L.Lawful)

include hL

theorem agree_raise {α : Type} {p : α → Prop} (kind : ExceptionKind) (message : String) :
    L.Agree p (Exec.raise kind message) (Exec.raise kind message) :=
  follows_throw (hL.halt _ rfl)

theorem agree_typeError {α : Type} {p : α → Prop} (message : String) :
    L.Agree p (Exec.typeError message) (Exec.typeError message) :=
  agree_raise hL _ message

theorem agree_valueError {α : Type} {p : α → Prop} (message : String) :
    L.Agree p (Exec.valueError message) (Exec.valueError message) :=
  agree_raise hL _ message

omit hL in
theorem agree_fresh : L.Agree (fun _ => True) Exec.fresh Exec.fresh :=
  agree_modifyGet (fun _ _ _ => rfl) (fun _ => .of_eq rfl rfl)
    fun _ h => ⟨trivial, h.lists, h.dicts, h.cells, h.spaces, h.iterators⟩

omit hL in
theorem agree_freshIdentity : L.Agree (fun _ => True) Exec.freshIdentity Exec.freshIdentity :=
  agree_fresh.bind fun _ _ => agree_pure trivial

theorem agree_newStr (text : String) : L.Agree L.value (Exec.newStr text) (Exec.newStr text) :=
  agree_freshIdentity.bind fun _ _ => agree_pure (hL.plain _ rfl)

theorem agree_newTuple {items : List Value} (h : ∀ v ∈ items, L.value v) :
    L.Agree L.value (Exec.newTuple items) (Exec.newTuple items) :=
  agree_freshIdentity.bind fun _ _ => agree_pure ((hL.tuple _ _).2 h)

theorem agree_newList {items : Array Value} (h : ∀ v ∈ items, L.value v) :
    L.Agree L.value (Exec.newList items) (Exec.newList items) :=
  agree_modifyGet (fun _ _ _ => rfl) (fun _ => .of_eq rfl rfl) fun _ hu =>
    ⟨hL.plain _ rfl, push_all hu.lists h, hu.dicts, hu.cells, hu.spaces, hu.iterators⟩

theorem agree_newDict {entries : OrderedMap Key Value} (h : entries.All L.value) :
    L.Agree L.value (Exec.newDict entries) (Exec.newDict entries) :=
  agree_modifyGet (fun _ _ _ => rfl) (fun _ => .of_eq rfl rfl) fun _ hu =>
    ⟨hL.plain _ rfl, hu.lists, push_all hu.dicts h, hu.cells, hu.spaces, hu.iterators⟩

omit hL in
theorem agree_newCell {value : Option Value} (h : ∀ v ∈ value, L.value v) :
    L.Agree (fun _ => True) (Exec.newCell value) (Exec.newCell value) :=
  agree_modifyGet (fun _ _ _ => rfl) (keeps_newCell · value) fun _ hu =>
    ⟨trivial, hu.lists, hu.dicts, push_all hu.cells h, hu.spaces, hu.iterators⟩

omit hL in
theorem agree_newSpace {names : NameMap} (h : names.All L.value) :
    L.Agree (fun _ => True) (Exec.newSpace names) (Exec.newSpace names) :=
  agree_modifyGet (fun _ _ _ => rfl) (keeps_newSpace · names) fun _ hu =>
    ⟨trivial, hu.lists, hu.dicts, hu.cells, push_all hu.spaces h, hu.iterators⟩

theorem agree_newIterator {source : Source} (h : source.All L.value) :
    L.Agree L.value (Exec.newIterator source) (Exec.newIterator source) :=
  agree_modifyGet (fun _ _ _ => rfl) (fun _ => .of_eq rfl rfl) fun _ hu =>
    ⟨hL.plain _ rfl, hu.lists, hu.dicts, hu.cells, hu.spaces,
      push_all (p := fun i : Iterator => i.source.All L.value) hu.iterators h⟩

omit hL in
theorem agree_modifyList (r : ListRef) {f : Array Value → Array Value}
    (hf : ∀ items, (∀ v ∈ items, L.value v) → ∀ v ∈ f items, L.value v) :
    L.Agree (fun _ => True) (Exec.modifyList r f) (Exec.modifyList r f) :=
  agree_modify (fun _ _ _ => rfl) (fun _ => .of_eq rfl rfl) fun _ hu =>
    ⟨modify_all hu.lists r.index hf, hu.dicts, hu.cells, hu.spaces, hu.iterators⟩

omit hL in
theorem agree_modifyDict (r : DictRef) {f : OrderedMap Key Value → OrderedMap Key Value}
    (hf : ∀ m, m.All L.value → (f m).All L.value) :
    L.Agree (fun _ => True) (Exec.modifyDict r f) (Exec.modifyDict r f) :=
  agree_modify (fun _ _ _ => rfl) (fun _ => .of_eq rfl rfl) fun _ hu =>
    ⟨hu.lists, modify_all hu.dicts r.index hf, hu.cells, hu.spaces, hu.iterators⟩

omit hL in
theorem agree_setCell (r : CellRef) {value : Value} (h : L.value value) :
    L.Agree (fun _ => True) (Exec.setCell r value) (Exec.setCell r value) :=
  agree_modify (fun _ _ _ => rfl) (keeps_setCell · r value) fun _ hu =>
    ⟨hu.lists, hu.dicts, setIfInBounds_all hu.cells r.index (by simpa using h), hu.spaces,
      hu.iterators⟩

omit hL in
theorem agree_setName (r : SpaceRef) (name : Name) {value : Value} (h : L.value value) :
    L.Agree (fun _ => True) (Exec.setName r name value) (Exec.setName r name value) :=
  agree_modify (fun _ _ _ => rfl) (keeps_setName · r name value) fun _ hu =>
    ⟨hu.lists, hu.dicts, hu.cells, modify_all hu.spaces r.index fun _ hm => hm.insert name h,
      hu.iterators⟩

omit hL in
theorem agree_setIterator (r : IteratorRef) {i : Iterator} (h : i.source.All L.value) :
    L.Agree (fun _ => True) (Exec.setIterator r i) (Exec.setIterator r i) :=
  agree_modify (fun _ _ _ => rfl) (fun _ => .of_eq rfl rfl) fun _ hu =>
    ⟨hu.lists, hu.dicts, hu.cells, hu.spaces, setIfInBounds_all hu.iterators r.index h⟩

omit hL in
theorem agree_write (text : String) :
    L.Agree (fun _ => True) (Exec.write text) (Exec.write text) :=
  agree_modify (fun _ _ _ => rfl) (fun _ => .of_eq rfl rfl) fun _ h =>
    ⟨h.lists, h.dicts, h.cells, h.spaces, h.iterators⟩

omit hL in
theorem agree_dictOfNames {names : NameMap} (h : names.All L.value) :
    L.Agree (fun m => m.All L.value) (Exec.dictOfNames names) (Exec.dictOfNames names) := by
  have hentry : ∀ e ∈ names.entries, L.Agree (fun e : Key × Value => L.value e.2)
      (do return (Key.str ⟨← Exec.freshIdentity, e.1⟩, e.2))
      (do return (Key.str ⟨← Exec.freshIdentity, e.1⟩, e.2)) :=
    fun e he => agree_freshIdentity.bind fun _ _ => agree_pure (h e he)
  exact (agree_mapM hentry).bind fun _ hes => agree_pure hes.2

mutual

theorem agree_keyToValue : (k : Key) → L.Agree L.value k.toValue k.toValue
  | .none | .bool _ | .int _ | .str _ => by
    unfold Key.toValue
    exact agree_pure (hL.plain _ rfl)
  | .tuple items => by
    unfold Key.toValue
    exact (agree_keyValues items).bind fun _ hs => agree_newTuple hL hs

theorem agree_keyValues :
    (ks : List Key) → L.Agree (fun vs => ∀ v ∈ vs, L.value v) (keyValues ks) (keyValues ks)
  | [] => by
    unfold keyValues
    exact agree_pure (by simp)
  | k :: ks => by
    unfold keyValues
    refine (agree_keyToValue k).bind fun v hv => ?_
    refine (agree_keyValues ks).bind fun vs hvs => ?_
    exact agree_pure (List.forall_mem_cons.2 ⟨hv, hvs⟩)

end

theorem agree_key (v : Value) : L.Agree (fun _ => True) (Exec.key v) (Exec.key v) := by
  unfold Exec.key
  cases v.toKey with
  | ok k => exact agree_pure trivial
  | error part => exact agree_typeError hL _

end Operations

end Likeness

end Lexiscope.Machine
