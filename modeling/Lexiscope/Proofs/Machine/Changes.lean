import Lexiscope.Proofs.Machine.Turn
/-!
# What may change

A computation takes the store through a chain of changes, whether it gives a value or stops. Most
operations of the machine make mild changes only: they make values, and change lists, dictionaries and
the output. What they do not touch is the same after them for every sort of change that mild changes
belong to, so the instances below hold of all such sorts at once. Where iterators are advanced, changes
are still quiet.
-/

namespace Lexiscope.Machine

open Exec
open Grammar (BinaryOp UnaryOp CompareOp)

/-- Cells, namespaces, generators, observers and the depth of calls are as they were. -/
structure Store.Quiet (s t : Store) : Prop where
  cells : t.cells = s.cells
  spaces : t.spaces = s.spaces
  generators : t.generators = s.generators
  observers : t.observers = s.observers
  depth : t.depth = s.depth
  limit : t.limit = s.limit
  next : s.next ≤ t.next

theorem Store.Quiet.refl (s : Store) : s.Quiet s :=
  ⟨rfl, rfl, rfl, rfl, rfl, rfl, Nat.le_refl _⟩

/-- Iterators are as they were, too, and only new ones have been added. -/
structure Store.Mild (s t : Store) : Prop extends s.Quiet t where
  iterators : s.iterators.size ≤ t.iterators.size
  iterator : ∀ r : IteratorRef, r.index < s.iterators.size → t.iterator r = s.iterator r

theorem Store.Mild.of_quiet {s t : Store} (h : s.Quiet t) (hsame : t.iterators = s.iterators) :
    s.Mild t := by
  refine ⟨h, Nat.le_of_eq (congrArg Array.size hsame.symm), fun r _ => ?_⟩
  unfold Store.iterator
  rw [hsame]

/-- A sort of changes: one after the other is again one. -/
structure Change where
  rel : Store → Store → Prop
  trans {s t u : Store} : rel s t → rel t u → rel s u
  mild {s t : Store} : s.Mild t → rel s t

/-- What becomes of iterators does not matter to the sort. -/
class Change.Loose (c : Change) : Prop where
  quiet {s t : Store} : s.Quiet t → c.rel s t

/-- The store after a computation, however it ended. -/
def Exec.after {α : Type} (x : Exec α) (s : Store) : Store :=
  match x s with
  | .ok _ t | .error _ t => t

variable {c : Change} {α β ι : Type}

theorem Change.refl (c : Change) (s : Store) : c.rel s s :=
  c.mild (.of_quiet (.refl s) rfl)

theorem after_ok {x : Exec α} {s t : Store} {a : α} (h : x s = .ok a t) : x.after s = t := by
  unfold Exec.after
  rw [h]

theorem after_error {x : Exec α} {s t : Store} {e : Halt} (h : x s = .error e t) :
    x.after s = t := by
  unfold Exec.after
  rw [h]

/-- The computation makes such a change of every store. -/
class Change.Allows (c : Change) (x : Exec α) : Prop where
  after (s : Store) : c.rel s (x.after s)

theorem Change.Allows.ok {x : Exec α} (hx : c.Allows x) {s t : Store} {a : α}
    (h : x s = .ok a t) : c.rel s t := by
  have hafter := hx.after s
  rwa [after_ok h] at hafter

theorem Change.Allows.error {x : Exec α} (hx : c.Allows x) {s t : Store} {e : Halt}
    (h : x s = .error e t) : c.rel s t := by
  have hafter := hx.after s
  rwa [after_error h] at hafter

theorem Change.Allows.mono {d : Change} {x : Exec α} (h : c.Allows x)
    (hd : ∀ s t, c.rel s t → d.rel s t) : d.Allows x :=
  ⟨fun s => hd _ _ (h.after s)⟩

section Rules

theorem Change.Allows.bind {x : Exec α} {f : α → Exec β} (hx : c.Allows x)
    (hf : ∀ a, c.Allows (f a)) : c.Allows (x >>= f) := by
  constructor
  intro s
  cases h : x s with
  | ok a t =>
    have hstart := hx.ok h
    have hrest := (hf a).after t
    have hafter : (x >>= f).after s = (f a).after t := by
      unfold Exec.after
      rw [bind_ok h]
    rw [hafter]
    exact c.trans hstart hrest
  | error e t =>
    have hstart := hx.error h
    rw [after_error (bind_error h)]
    exact hstart

instance allows_bind {x : Exec α} {f : α → Exec β} [hx : c.Allows x]
    [hf : ∀ a, c.Allows (f a)] : c.Allows (x >>= f) :=
  hx.bind hf

instance allows_pure {a : α} : c.Allows (pure a : Exec α) := ⟨c.refl⟩

instance allows_throw {e : Halt} : c.Allows (throw e : Exec α) := ⟨c.refl⟩

instance allows_throw_bind {e : Halt} {f : α → Exec β} : c.Allows ((throw e : Exec α) >>= f) :=
  ⟨c.refl⟩

instance allows_get : c.Allows (get : Exec Store) := ⟨c.refl⟩

instance allows_map {x : Exec α} {f : α → β} [c.Allows x] : c.Allows (f <$> x) := by
  rw [map_eq_pure_bind]
  infer_instance

instance allows_ite {p : Prop} [Decidable p] {x y : Exec α} [hx : c.Allows x] [hy : c.Allows y] :
    c.Allows (if p then x else y) := by
  split
  · exact hx
  · exact hy

theorem Change.Allows.mapM {f : ι → Exec α} (hf : ∀ i, c.Allows (f i)) (items : List ι) :
    c.Allows (items.mapM f) := by
  induction items with
  | nil => exact allows_pure
  | cons i items ih =>
    rw [List.mapM_cons]
    exact (hf i).bind fun a => ih.bind fun as => allows_pure

instance allows_mapM {f : ι → Exec α} [hf : ∀ i, c.Allows (f i)] {items : List ι} :
    c.Allows (items.mapM f) :=
  .mapM hf items

/-- A computation that is tried makes the changes that it makes. -/
instance allows_attempt {x : Exec α} [hx : c.Allows x] : c.Allows (attempt x) := by
  constructor
  intro s
  cases h : x s with
  | ok a t =>
    rw [after_ok (attempt_ok h)]
    exact hx.ok h
  | error e t =>
    rw [after_ok (attempt_error h)]
    exact hx.error h

instance allows_settle (r : Except Halt α) : c.Allows (settle r) := by
  cases r with
  | ok a => exact allows_pure
  | error e => exact allows_throw

theorem allows_modifyGet {f : Store → α × Store} (h : ∀ s : Store, s.Mild (f s).2) :
    c.Allows (modifyGet f : Exec α) :=
  ⟨fun s => c.mild (h s)⟩

theorem allows_modify {f : Store → Store} (h : ∀ s : Store, s.Mild (f s)) :
    c.Allows (modify f : Exec Unit) :=
  ⟨fun s => c.mild (h s)⟩

end Rules

section Primitives

instance allows_raise {kind : ExceptionKind} {message : String} :
    c.Allows (raise kind message : Exec α) :=
  allows_throw

instance allows_typeError {message : String} : c.Allows (typeError message : Exec α) :=
  allows_throw

instance allows_valueError {message : String} : c.Allows (valueError message : Exec α) :=
  allows_throw

instance allows_runtimeError {message : String} : c.Allows (runtimeError message : Exec α) :=
  allows_throw

instance allows_brokenRule {message : String} : c.Allows (brokenRule message : Exec α) :=
  allows_throw

instance allows_fresh : c.Allows fresh :=
  allows_modifyGet fun s => .of_quiet ⟨rfl, rfl, rfl, rfl, rfl, rfl, Nat.le_succ s.next⟩ rfl

instance allows_freshIdentity : c.Allows freshIdentity := by
  unfold freshIdentity
  infer_instance

instance allows_newStr {text : String} : c.Allows (newStr text) := by
  unfold newStr
  infer_instance

instance allows_newTuple {items : List Value} : c.Allows (newTuple items) := by
  unfold newTuple
  infer_instance

instance allows_newList {items : Array Value} : c.Allows (newList items) :=
  allows_modifyGet fun s => .of_quiet ⟨rfl, rfl, rfl, rfl, rfl, rfl, Nat.le_refl s.next⟩ rfl

instance allows_newDict {entries : OrderedMap Key Value} : c.Allows (newDict entries) :=
  allows_modifyGet fun s => .of_quiet ⟨rfl, rfl, rfl, rfl, rfl, rfl, Nat.le_refl s.next⟩ rfl

instance allows_newIterator {source : Source} : c.Allows (newIterator source) := by
  refine allows_modifyGet fun s => ⟨⟨rfl, rfl, rfl, rfl, rfl, rfl, Nat.le_refl s.next⟩, ?_, fun r hr => ?_⟩
  · change s.iterators.size ≤ (s.iterators.push ⟨source, false⟩).size
    rw [Array.size_push]
    exact Nat.le_succ _
  · change (s.iterators.push ⟨source, false⟩).getD r.index default = s.iterators.getD r.index default
    rw [Array.getD_eq_getD_getElem?, Array.getD_eq_getD_getElem?, Array.getElem?_push_lt hr,
      Array.getElem?_eq_getElem hr]

instance allows_modifyList {r : ListRef} {f : Array Value → Array Value} :
    c.Allows (modifyList r f) :=
  allows_modify fun s => .of_quiet ⟨rfl, rfl, rfl, rfl, rfl, rfl, Nat.le_refl s.next⟩ rfl

instance allows_modifyDict {r : DictRef} {f : OrderedMap Key Value → OrderedMap Key Value} :
    c.Allows (modifyDict r f) :=
  allows_modify fun s => .of_quiet ⟨rfl, rfl, rfl, rfl, rfl, rfl, Nat.le_refl s.next⟩ rfl

instance allows_setIterator [c.Loose] {r : IteratorRef} {i : Iterator} :
    c.Allows (setIterator r i) :=
  ⟨fun s => Change.Loose.quiet ⟨rfl, rfl, rfl, rfl, rfl, rfl, Nat.le_refl s.next⟩⟩

instance allows_write {text : String} : c.Allows (write text) :=
  allows_modify fun s => .of_quiet ⟨rfl, rfl, rfl, rfl, rfl, rfl, Nat.le_refl s.next⟩ rfl

instance allows_dictOfNames {names : NameMap} : c.Allows (dictOfNames names) := by
  unfold dictOfNames
  infer_instance

mutual

theorem allows_keyToValue : (k : Key) → c.Allows k.toValue
  | .none | .bool _ | .int _ | .str _ => by
    unfold Key.toValue
    exact allows_pure
  | .tuple items => by
    unfold Key.toValue
    exact (allows_keyValues items).bind fun _ => allows_newTuple

theorem allows_keyValues : (ks : List Key) → c.Allows (keyValues ks)
  | [] => by
    unfold keyValues
    exact allows_pure
  | k :: ks => by
    unfold keyValues
    exact (allows_keyToValue k).bind fun v => (allows_keyValues ks).bind fun vs => allows_pure

end

instance {k : Key} : c.Allows k.toValue := allows_keyToValue k

instance {ks : List Key} : c.Allows (keyValues ks) := allows_keyValues ks

instance allows_key {v : Value} : c.Allows (key v) := by
  unfold key
  split <;> infer_instance

end Primitives

section Operators

instance allows_checked {result : Option Int64} {operation : String} :
    c.Allows (checked result operation) := by
  unfold checked
  split <;> infer_instance

instance allows_orRaise {value : Option α} {kind : ExceptionKind} {message : String} :
    c.Allows (orRaise value kind message) := by
  unfold orRaise
  split <;> infer_instance

instance allows_unchecked {result : Option Int64} : c.Allows (unchecked result) := by
  unfold unchecked
  split <;> infer_instance

instance allows_floatBinary {op : BinaryOp} {a b : Double} : c.Allows (floatBinary op a b) := by
  unfold floatBinary
  split <;> infer_instance

instance allows_floorQuotient {a b : Int64} : c.Allows (floorQuotient a b) := by
  unfold floorQuotient
  infer_instance

instance allows_truncatedRemainder {a b : Int64} : c.Allows (truncatedRemainder a b) := by
  unfold truncatedRemainder
  infer_instance

instance allows_floorRemainder {a b : Int64} : c.Allows (floorRemainder a b) := by
  unfold floorRemainder
  infer_instance

instance allows_intBinary {op : BinaryOp} {a b : Int64} : c.Allows (intBinary op a b) := by
  unfold intBinary
  split <;> infer_instance

instance allows_repeatValue {times : Int64} {v : Value} : c.Allows (repeatValue times v) := by
  unfold repeatValue
  split <;> infer_instance

instance allows_unsupported {op : BinaryOp} {left right : Value} :
    c.Allows (unsupported op left right : Exec α) :=
  allows_typeError

instance allows_sequenceBinary {op : BinaryOp} {left right : Value} :
    c.Allows (sequenceBinary op left right) := by
  unfold sequenceBinary
  split
  case h_4 | h_5 =>
    refine allows_repeatValue.bind fun r => ?_
    cases r <;> infer_instance
  all_goals infer_instance

instance allows_binary {op : BinaryOp} {left right : Value} : c.Allows (binary op left right) := by
  unfold binary
  split <;> infer_instance

instance allows_unary {op : UnaryOp} {v : Value} : c.Allows (unary op v) := by
  unfold unary
  split <;> infer_instance

instance allows_contains {container item : Value} : c.Allows (contains container item) := by
  unfold contains
  split
  case h_4 | h_5 => split <;> infer_instance
  all_goals infer_instance

instance allows_unordered {symbol : String} {left right : Value} :
    c.Allows (unordered symbol left right : Exec α) :=
  allows_typeError

instance allows_orderOf {symbol : String} {left right : Value} :
    c.Allows (orderOf symbol left right) := by
  unfold orderOf
  refine allows_get.bind fun s => ?_
  split <;> infer_instance

instance allows_compareValues {op : CompareOp} {left right : Value} :
    c.Allows (compareValues op left right) := by
  unfold compareValues
  split <;> infer_instance

end Operators

end Lexiscope.Machine
