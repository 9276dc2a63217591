import Lexiscope.Proofs.Machine.Reading
/-!
# Operators, attributes, items and iterators in stores that are alike
-/

namespace Lexiscope.Machine.Likeness

open Exec
open Grammar (BinaryOp UnaryOp CompareOp)

variable {L : Likeness} (hL : L.Lawful)

section Operators

include hL

theorem agree_checked (result : Option Int64) (operation : String) :
    L.Agree L.value (checked result operation) (checked result operation) := by
  cases result with
  | some n => exact agree_pure (hL.plain _ rfl)
  | none => exact agree_raise hL _ _

theorem agree_orRaise {α : Type} (value : Option α) (kind : ExceptionKind) (message : String) :
    L.Agree (fun _ => True) (orRaise value kind message) (orRaise value kind message) := by
  cases value with
  | some a => exact agree_pure trivial
  | none => exact agree_raise hL _ _

theorem agree_unchecked (result : Option Int64) :
    L.Agree (fun _ => True) (unchecked result) (unchecked result) := by
  cases result with
  | some n => exact agree_pure trivial
  | none => exact follows_throw (hL.halt _ rfl)

theorem agree_floatBinary (op : BinaryOp) (a b : Double) :
    L.Agree L.value (floatBinary op a b) (floatBinary op a b) := by
  cases op <;> simp only [floatBinary]
  case div | floorDiv | mod =>
    split
    · exact agree_raise hL _ _
    · exact agree_pure (hL.plain _ rfl)
  all_goals exact agree_pure (hL.plain _ rfl)

theorem agree_floorQuotient (a b : Int64) :
    L.Agree L.value (floorQuotient a b) (floorQuotient a b) := by
  unfold floorQuotient
  refine (agree_orRaise hL _ _ _).bind fun q _ => ?_
  refine (agree_unchecked hL _).bind fun r _ => agree_ite ?_ (agree_pure (hL.plain _ rfl))
  exact (agree_unchecked hL _).bind fun n _ => agree_pure (hL.plain _ rfl)

theorem agree_floorRemainder (a b : Int64) :
    L.Agree L.value (floorRemainder a b) (floorRemainder a b) := by
  unfold floorRemainder
  have hremainder : L.Agree (fun _ => True) (truncatedRemainder a b) (truncatedRemainder a b) :=
    agree_ite (agree_pure trivial) (agree_unchecked hL _)
  refine hremainder.bind fun r _ => agree_ite ?_ (agree_pure (hL.plain _ rfl))
  exact (agree_unchecked hL _).bind fun n _ => agree_pure (hL.plain _ rfl)

theorem agree_intBinary (op : BinaryOp) (a b : Int64) :
    L.Agree L.value (intBinary op a b) (intBinary op a b) := by
  cases op <;> simp only [intBinary]
  case add | sub | mul => exact agree_checked hL _ _
  case div =>
    split
    · exact agree_raise hL _ _
    · exact agree_floatBinary hL _ _ _
  case floorDiv =>
    split
    · exact agree_raise hL _ _
    · exact agree_floorQuotient hL _ _
  case mod =>
    split
    · exact agree_raise hL _ _
    · exact agree_floorRemainder hL _ _
  case pow =>
    split
    · exact agree_checked hL _ _
    · split
      · exact agree_raise hL _ _
      · exact agree_floatBinary hL _ _ _

omit hL in
theorem mem_repeated {α : Type} {items : List α} {times : Nat} {a : α}
    (h : a ∈ repeated items times) : a ∈ items := by
  obtain ⟨l, hl, ha⟩ := List.mem_flatten.1 h
  exact List.eq_of_mem_replicate hl ▸ ha

theorem agree_tooLong {α : Type} {p : α → Prop} :
    L.Agree p (throw Halt.tooLong) (throw Halt.tooLong) :=
  follows_throw (hL.halt _ rfl)

theorem agree_repeatValue (times : Int64) {v : Value} (hv : L.value v) :
    L.Agree (fun r => ∀ v ∈ r, L.value v) (repeatValue times v) (repeatValue times v) := by
  have hsome : ∀ {x : Exec Value}, L.Agree L.value x x →
      L.Agree (fun r => ∀ v ∈ r, L.value v) (x >>= fun v => pure (some v))
        (x >>= fun v => pure (some v)) :=
    fun hx => hx.bind fun v hv => agree_pure (by simpa using hv)
  cases v with
  | str s =>
    simp only [repeatValue]
    split
    · exact hsome (agree_newStr hL _)
    · split
      · exact agree_tooLong hL
      · exact hsome (agree_newStr hL _)
  | list r =>
    simp only [repeatValue]
    refine follows_get fun s t h => ?_
    rw [h.list]
    split
    · exact hsome (agree_newList hL (by simp))
    · split
      · exact agree_tooLong hL
      · refine hsome (agree_newList hL fun v hv => ?_)
        exact h.values.list r v (by simpa using mem_repeated (List.mem_toArray.1 hv))
  | tuple id items =>
    simp only [repeatValue]
    split
    · exact hsome (agree_newTuple hL (by simp))
    · split
      · exact agree_tooLong hL
      · exact hsome (agree_newTuple hL fun v h => (hL.tuple _ _).1 hv v (mem_repeated h))
  | _ => exact agree_pure (by simp)

theorem agree_unsupported {α : Type} {p : α → Prop} (op : BinaryOp) (left right : Value) :
    L.Agree p (unsupported op left right) (unsupported op left right) :=
  agree_typeError hL _

theorem agree_repeated (op : BinaryOp) (times : Int64) {v : Value} (hv : L.value v)
    (left right : Value) :
    L.Agree L.value
      (do match ← repeatValue times v with
          | some v => return v
          | none => unsupported op left right)
      (do match ← repeatValue times v with
          | some v => return v
          | none => unsupported op left right) := by
  refine (agree_repeatValue hL times hv).bind fun r hr => ?_
  cases r with
  | some v => exact agree_pure (hr v rfl)
  | none => exact agree_unsupported hL _ _ _

theorem agree_sequenceBinary (op : BinaryOp) {left right : Value} (hl : L.value left)
    (hr : L.value right) :
    L.Agree L.value (sequenceBinary op left right) (sequenceBinary op left right) := by
  unfold sequenceBinary
  split
  · exact agree_newStr hL _
  · rename_i a b
    refine follows_get fun s t h => ?_
    refine follows_get fun s' t' h' => ?_
    rw [h.list, h'.list]
    refine agree_newList hL fun v hv => ?_
    rcases Array.mem_append.1 hv with hv | hv
    · exact h.values.list a v hv
    · exact h'.values.list b v hv
  · rename_i as _ bs
    refine agree_newTuple hL fun v hv => ?_
    rcases List.mem_append.1 hv with hv | hv
    · exact (hL.tuple _ _).1 hl v hv
    · exact (hL.tuple _ _).1 hr v hv
  · exact agree_repeated hL _ _ hl _ _
  · exact agree_repeated hL _ _ hr _ _
  · exact agree_unsupported hL _ _ _

theorem agree_binary (op : BinaryOp) {left right : Value} (hl : L.value left)
    (hr : L.value right) : L.Agree L.value (binary op left right) (binary op left right) := by
  unfold binary
  split
  · exact agree_intBinary hL _ _ _
  · exact agree_floatBinary hL _ _ _
  · exact agree_sequenceBinary hL _ hl hr

theorem agree_unary (op : UnaryOp) (v : Value) :
    L.Agree L.value (unary op v) (unary op v) := by
  unfold unary
  split
  · refine follows_get fun s t h => ?_
    rw [h.isTruthy]
    exact agree_pure (hL.plain _ rfl)
  · exact agree_checked hL _ _
  · exact agree_pure (hL.plain _ rfl)
  · exact agree_pure (hL.plain _ rfl)
  · exact agree_pure (hL.plain _ rfl)
  · exact agree_typeError hL _

theorem agree_contains (container item : Value) :
    L.Agree (fun _ => True) (contains container item) (contains container item) := by
  unfold contains
  split
  · refine follows_get fun s t h => ?_
    simp only [h.list, h.equal]
    exact agree_pure trivial
  · refine follows_get fun s t h => ?_
    simp only [h.equal]
    exact agree_pure trivial
  · refine follows_get fun s t h => ?_
    rw [h.dict]
    exact (agree_key hL _).bind fun _ _ => agree_pure trivial
  · split
    · exact agree_pure trivial
    · exact agree_typeError hL _
  · split <;> exact agree_pure trivial
  · exact agree_typeError hL _

theorem agree_orderOf (symbol : String) (left right : Value) :
    L.Agree (fun _ => True) (orderOf symbol left right) (orderOf symbol left right) := by
  unfold orderOf
  refine follows_get fun s t h => ?_
  rw [h.order]
  split
  · exact agree_pure trivial
  · exact agree_typeError hL _

theorem agree_compareValues (op : CompareOp) (left right : Value) :
    L.Agree (fun _ => True) (compareValues op left right) (compareValues op left right) := by
  unfold compareValues
  split
  · refine follows_get fun s t h => ?_
    rw [h.equal]
    exact agree_pure trivial
  · refine follows_get fun s t h => ?_
    rw [h.equal]
    exact agree_pure trivial
  · exact agree_pure trivial
  · exact agree_pure trivial
  · exact agree_contains hL _ _
  · exact (agree_contains hL _ _).bind fun _ _ => agree_pure trivial
  all_goals exact (agree_orderOf hL _ _ _).bind fun _ _ => agree_pure trivial

end Operators

section Attributes

include hL

theorem agree_bindTo {receiver callee : Value} (hr : L.value receiver) (hc : L.value callee) :
    L.Agree L.value (bindTo receiver callee) (bindTo receiver callee) :=
  agree_freshIdentity.bind fun _ _ => agree_pure ((hL.method _ _ _).2 ⟨hr, hc⟩)

theorem agree_noAttribute {α : Type} {p : α → Prop} (typeName name : Name) :
    L.Agree p (noAttribute typeName name) (noAttribute typeName name) :=
  agree_raise hL _ _

theorem agree_builtinMethod {v : Value} (hv : L.value v) (name : Name) :
    L.Agree L.value
      (match builtinMethod? v name with
        | some b => do bindTo v (.builtin (some (← freshIdentity)) b)
        | none => noAttribute v.typeName name)
      (match builtinMethod? v name with
        | some b => do bindTo v (.builtin (some (← freshIdentity)) b)
        | none => noAttribute v.typeName name) := by
  cases builtinMethod? v name with
  | some b => exact agree_freshIdentity.bind fun _ _ => agree_bindTo hL hv (hL.plain _ rfl)
  | none => exact agree_noAttribute hL _ _

theorem agree_getAttribute {v : Value} (hv : L.value v) (name : Name) :
    L.Agree L.value (getAttribute v name) (getAttribute v name) := by
  unfold getAttribute
  refine follows_get fun s t h => ?_
  cases v with
  | object c attrs =>
    simp only [h.lookup, h.classLookup]
    cases hattr : s.lookup attrs name with
    | some value => exact agree_pure (h.values.lookup hattr)
    | none =>
      have hvalue := h.values.classLookup name c
      cases hclass : c.lookup s name with
      | none => exact agree_noAttribute hL _ _
      | some value =>
        have hgood := hvalue value hclass
        cases value with
        | function f => exact agree_bindTo hL hv hgood
        | _ => exact agree_pure hgood
  | type c =>
    simp only [h.classLookup]
    cases hclass : c.lookup s name with
    | some value => exact agree_pure (h.values.classLookup name c value hclass)
    | none =>
      dsimp only
      split
      · exact agree_newStr hL _
      · exact agree_raise hL _ _
  | function f =>
    dsimp only
    split
    · exact agree_newStr hL _
    · split
      · exact agree_newStr hL _
      · exact agree_noAttribute hL _ _
  | exception _ kind message =>
    dsimp only
    split
    · exact (agree_newStr hL _).bind fun _ ht => agree_newTuple hL (by simpa using ht)
    · exact agree_noAttribute hL _ _
  | _ => exact agree_builtinMethod hL hv name

theorem agree_setAttribute (v : Value) (name : Name) {value : Value} (h : L.value value) :
    L.Agree (fun _ => True) (setAttribute v name value) (setAttribute v name value) := by
  cases v with
  | object c attrs => exact agree_setName attrs name h
  | type c => exact agree_setName c.space name h
  | _ => exact agree_noAttribute hL _ _

theorem agree_resolveIndex (index : Value) (length : Nat) (what : String) :
    L.Agree (fun _ => True) (resolveIndex index length what)
      (resolveIndex index length what) := by
  unfold resolveIndex
  split
  · exact agree_ite (agree_pure trivial) (agree_raise hL _ _)
  · exact agree_typeError hL _

theorem agree_getItem {container : Value} (hc : L.value container) (index : Value) :
    L.Agree L.value (getItem container index) (getItem container index) := by
  unfold getItem
  refine follows_get fun s t h => ?_
  cases container with
  | list r =>
    simp only [h.list]
    refine (agree_resolveIndex hL _ _ _).bind fun place _ => agree_pure ?_
    exact getD_all (h.values.list r) (hL.plain _ rfl) place
  | tuple id items =>
    refine (agree_resolveIndex hL _ _ _).bind fun place _ => agree_pure ?_
    rw [List.getD_eq_getElem?_getD]
    cases hi : items[place]? with
    | none => exact hL.plain _ rfl
    | some v => exact (hL.tuple _ _).1 hc v (List.mem_of_getElem? hi)
  | str text => exact (agree_resolveIndex hL _ _ _).bind fun _ _ => agree_newStr hL _
  | range r =>
    refine (agree_resolveIndex hL _ _ _).bind fun place _ => ?_
    cases r.get? place with
    | some n => exact agree_pure (hL.plain _ rfl)
    | none => exact agree_raise hL _ _
  | dict r =>
    simp only [h.dict, h.render hL]
    refine (agree_key hL _).bind fun k _ => ?_
    cases hv : (s.dict r).get? k with
    | some v => exact agree_pure ((h.values.dict r).get? hv)
    | none => exact agree_raise hL _ _
  | _ => exact agree_typeError hL _

theorem agree_setItem (container index : Value) {value : Value} (hv : L.value value) :
    L.Agree (fun _ => True) (setItem container index value) (setItem container index value) := by
  unfold setItem
  cases container with
  | list r =>
    refine follows_get fun s t h => ?_
    rw [h.list]
    refine (agree_resolveIndex hL _ _ _).bind fun place _ => ?_
    exact agree_modifyList r fun items hitems => setIfInBounds_all hitems place hv
  | dict r =>
    exact (agree_key hL _).bind fun k _ => agree_modifyDict r fun m hm => hm.insert k hv
  | _ => exact agree_typeError hL _

theorem agree_notIterable {α : Type} {p : α → Prop} (v : Value) :
    L.Agree p (notIterable v) (notIterable v) :=
  agree_typeError hL _

theorem agree_makeIterator {v : Value} (hv : L.value v) :
    L.Agree L.value (makeIterator v) (makeIterator v) := by
  unfold makeIterator
  split
  · exact agree_newIterator hL trivial
  · refine agree_newIterator hL fun w hw => (hL.tuple _ _).1 hv w ?_
    exact List.mem_toArray.1 hw
  · refine (agree_mapM fun c _ => agree_newStr hL _).bind fun chars hchars => ?_
    exact agree_newIterator hL fun w hw => hchars.2 w (List.mem_toArray.1 hw)
  · refine follows_get fun s t h => ?_
    rw [h.dict]
    refine (agree_keyValues hL _).bind fun keys hkeys => ?_
    exact agree_newIterator hL fun w hw => hkeys w (List.mem_toArray.1 hw)
  · exact agree_newIterator hL trivial
  · exact agree_pure hv
  · exact agree_pure hv
  · exact agree_notIterable hL _

end Attributes

section Sources

theorem Alike.drawSource {s t : Store} (h : L.Alike s t) (source : Source) :
    source.draw? t = source.draw? s := by
  cases source <;> simp only [Source.draw?, h.list]

theorem good_of_draw {s t : Store} (hL : L.Lawful) (h : L.Alike s t) {source source' : Source}
    (hs : source.All L.value) {item : Value} (hd : source.draw? s = some (item, source')) :
    L.value item ∧ source'.All L.value := by
  cases source with
  | list r i =>
    obtain ⟨v, hv, heq⟩ := Option.map_eq_some_iff.1 hd
    cases heq
    exact ⟨h.values.list r item (Array.mem_of_getElem? hv), trivial⟩
  | items all i =>
    obtain ⟨v, hv, heq⟩ := Option.map_eq_some_iff.1 hd
    cases heq
    exact ⟨hs item (Array.mem_of_getElem? hv), hs⟩
  | range r i =>
    obtain ⟨n, hn, heq⟩ := Option.map_eq_some_iff.1 hd
    cases heq
    exact ⟨hL.plain _ rfl, trivial⟩
  | enumerate inner count => cases hd
  | zip inners => cases hd

end Sources

end Lexiscope.Machine.Likeness
