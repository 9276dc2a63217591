import Lexiscope.Machine.Builtins.Method
import Lexiscope.Proofs.Data.OrderedMap
import Lexiscope.Proofs.Machine.Turn
import Lexiscope.Proofs.Machine.Equality
/-!
# Keys of dictionaries

A key stands for the value that it was made of: the value made of it again is equal to that one.
Keys are the same exactly if their values are equal and truth values stand in the same places of
both, so a dictionary finds a value exactly if it stores an equal one with the same truth values. A
truth value equals an integer, but never as a key.
-/

namespace Lexiscope.Machine

open Exec

/-- A value that a dictionary can have as a key: nothing, a truth value, an integer, a text, or a
tuple of such values. -/
inductive Value.Hashable : Value → Prop where
  | none : Value.Hashable .none
  | bool (b : Bool) : Value.Hashable (.bool b)
  | int (n : Int64) : Value.Hashable (.int n)
  | str (t : Str) : Value.Hashable (.str t)
  | tuple (id : Identity) {items : List Value} : (∀ v ∈ items, v.Hashable) →
    Value.Hashable (.tuple id items)

mutual

/-- Truth values stand in the same places of both values, tuples opened. -/
def Value.sameBools : Value → Value → Bool
  | .bool _, .bool _ => true
  | .bool _, _ | _, .bool _ => false
  | .tuple _ as, .tuple _ bs => allSameBools as bs
  | _, _ => true

def allSameBools : List Value → List Value → Bool
  | a :: as, b :: bs => a.sameBools b && allSameBools as bs
  | _, _ => true

end

section Keys

variable {s : Store} {a b : Value} {k l : Key}

theorem toKeys_of_hashable {items : List Value}
    (h : ∀ v ∈ items, ∃ k, v.toKey = .ok k) : ∃ ks, toKeys items = .ok ks := by
  induction items with
  | nil => exact ⟨[], rfl⟩
  | cons v vs ih =>
    obtain ⟨k, hk⟩ := h v List.mem_cons_self
    obtain ⟨ks, hks⟩ := ih fun w hw => h w (List.mem_cons_of_mem v hw)
    exact ⟨k :: ks, by rw [toKeys, hk, hks]; rfl⟩

theorem Value.Hashable.toKey (h : a.Hashable) : ∃ k, a.toKey = .ok k := by
  induction h with
  | none | bool b | int n | str t => exact ⟨_, rfl⟩
  | tuple id _ ih =>
    obtain ⟨ks, hks⟩ := toKeys_of_hashable ih
    exact ⟨.tuple ks, by rw [Value.toKey, hks]; rfl⟩

theorem toKey_tuple {id : Identity} {items : List Value}
    (h : (Value.tuple id items).toKey = .ok k) : ∃ ks, k = .tuple ks ∧ toKeys items = .ok ks := by
  rw [Value.toKey] at h
  cases hks : toKeys items with
  | error part =>
    rw [hks] at h
    cases h
  | ok ks =>
    rw [hks] at h
    cases h
    exact ⟨ks, rfl, rfl⟩

theorem eq_of_toKey (h : b.toKey = .ok l) :
    (b = .none ∧ l = .none) ∨ (∃ t, b = .bool t ∧ l = .bool t) ∨ (∃ n, b = .int n ∧ l = .int n) ∨
    (∃ t, b = .str t ∧ l = .str t) ∨
    ∃ id items ls, b = .tuple id items ∧ l = .tuple ls ∧ toKeys items = .ok ls := by
  cases b
  case tuple id items =>
    obtain ⟨ls, rfl, hls⟩ := toKey_tuple h
    exact .inr (.inr (.inr (.inr ⟨id, items, ls, rfl, rfl, hls⟩)))
  all_goals cases h
  case none => exact .inl ⟨rfl, rfl⟩
  case bool t => exact .inr (.inl ⟨t, rfl, rfl⟩)
  case int n => exact .inr (.inr (.inl ⟨n, rfl, rfl⟩))
  case str t => exact .inr (.inr (.inr (.inl ⟨t, rfl, rfl⟩)))

theorem toKeys_cons {v : Value} {vs : List Value} {ks : List Key}
    (h : toKeys (v :: vs) = .ok ks) :
    ∃ k ls, ks = k :: ls ∧ v.toKey = .ok k ∧ toKeys vs = .ok ls := by
  rw [toKeys] at h
  cases hk : v.toKey with
  | error part =>
    rw [hk] at h
    cases h
  | ok k =>
    cases hls : toKeys vs with
    | error part =>
      rw [hk, hls] at h
      cases h
    | ok ls =>
      rw [hk, hls] at h
      cases h
      exact ⟨k, ls, rfl, rfl, rfl⟩

/-- The keys of two values are the same exactly if the values are equal with the same truth
values. -/
def Value.Meets (s : Store) (a b : Value) : Prop :=
  ∀ {k l}, a.toKey = .ok k → b.toKey = .ok l →
    (k.same l = true ↔ a.equal s b = true ∧ a.sameBools b = true)

theorem sameAll_iff {as bs : List Value} {ks ls : List Key}
    (h : ∀ v ∈ as, ∀ w, v.Meets s w) (hks : toKeys as = .ok ks) (hls : toKeys bs = .ok ls) :
    Key.sameAll ks ls = true ↔
      allRelated (Value.equal s) as bs = true ∧ allSameBools as bs = true := by
  induction as generalizing bs ks ls with
  | nil =>
    cases hks
    cases bs with
    | nil =>
      cases hls
      exact ⟨fun _ => ⟨rfl, rfl⟩, fun _ => rfl⟩
    | cons w ws =>
      obtain ⟨l, ls, rfl, -, -⟩ := toKeys_cons hls
      simp [Key.sameAll, allRelated]
  | cons v vs ih =>
    obtain ⟨k, ks, rfl, hk, hks⟩ := toKeys_cons hks
    cases bs with
    | nil =>
      cases hls
      simp [Key.sameAll, allRelated]
    | cons w ws =>
      obtain ⟨l, ls, rfl, hl, hls⟩ := toKeys_cons hls
      have hhead := h v List.mem_cons_self w hk hl
      have htail := ih (fun u hu => h u (List.mem_cons_of_mem v hu)) hks hls
      rw [Key.sameAll, allRelated, allSameBools, Bool.and_eq_true, Bool.and_eq_true,
        Bool.and_eq_true, hhead, htail, and_and_and_comm]

/-- Values that can be keys are equal and have the same truth values exactly if their keys are the
same. Apart from tuples this is so by their kinds, of which only truth values and integers meet. -/
theorem Value.Hashable.meets (h : a.Hashable) (b : Value) : a.Meets s b := by
  obtain ⟨list, dict, hequal⟩ := exists_equalWith s
  have hscalar := fun v w => congrFun (congrFun hequal v) w
  induction h generalizing b with
  | none | int m | str t =>
    intro k l hk hl
    cases hk
    rcases eq_of_toKey hl with ⟨rfl, rfl⟩ | ⟨t, rfl, rfl⟩ | ⟨n, rfl, rfl⟩ | ⟨t, rfl, rfl⟩ |
      ⟨j, items, ls, rfl, rfl, -⟩ <;>
    simp [hscalar, Key.same, Value.equalWith, Value.number?, Number.equal, Value.sameBools,
      Value.sameObject]
  | bool c =>
    intro k l hk hl
    cases hk
    rcases eq_of_toKey hl with ⟨rfl, rfl⟩ | ⟨t, rfl, rfl⟩ | ⟨n, rfl, rfl⟩ | ⟨t, rfl, rfl⟩ |
      ⟨j, items, ls, rfl, rfl, -⟩
    case inr.inl => cases c <;> cases t <;> simp [hscalar, Key.same, Value.equalWith,
      Value.number?, Number.equal, Value.sameBools]
    all_goals simp [Key.same, hscalar, Value.equalWith, Value.number?, Value.sameBools,
      Value.sameObject]
  | tuple id hitems ih =>
    intro k l hk hl
    obtain ⟨ks, rfl, hks⟩ := toKey_tuple hk
    rcases eq_of_toKey hl with ⟨rfl, rfl⟩ | ⟨t, rfl, rfl⟩ | ⟨n, rfl, rfl⟩ | ⟨t, rfl, rfl⟩ |
      ⟨j, items, ls, rfl, rfl, hls⟩
    case inr.inr.inr.inr =>
      rw [Key.same, equal_tuple, Value.sameBools]
      exact sameAll_iff ih hks hls
    all_goals simp [hscalar, Key.same, Value.equalWith, Value.number?, Value.sameObject]

theorem Value.Hashable.equal_of_toKey (h : a.Hashable) (ha : a.toKey = .ok k)
    (hb : b.toKey = .ok k) : a.equal s b = true :=
  ((h.meets b ha hb).1 (Key.same_refl k)).1

theorem any_same_eq {vs : List Value} {ks : List Key} (hvs : ∀ v ∈ vs, v.Hashable)
    (hks : toKeys vs = .ok ks) (hb : b.toKey = .ok l) :
    ks.any (·.same l) = vs.any fun v => v.equal s b && v.sameBools b := by
  induction vs generalizing ks with
  | nil =>
    cases hks
    rfl
  | cons v vs ih =>
    obtain ⟨k, ks, rfl, hk, hks⟩ := toKeys_cons hks
    have hhead : k.same l = (v.equal s b && v.sameBools b) := by
      rw [Bool.eq_iff_iff, Bool.and_eq_true]
      exact (hvs v List.mem_cons_self).meets b hk hb
    rw [List.any_cons, List.any_cons, hhead,
      ih (fun w hw => hvs w (List.mem_cons_of_mem v hw)) hks]

end Keys

section Rebuilding

mutual

theorem toValue_ok : (k : Key) → ∀ s, ∃ v t, k.toValue s = .ok v t ∧ v.toKey = .ok k ∧ v.Hashable ∧
    t = { s with next := t.next }
  | .none, s => ⟨.none, s, rfl, rfl, .none, rfl⟩
  | .bool b, s => ⟨.bool b, s, rfl, rfl, .bool b, rfl⟩
  | .int n, s => ⟨.int n, s, rfl, rfl, .int n, rfl⟩
  | .str x, s => ⟨.str x, s, rfl, rfl, .str x, rfl⟩
  | .tuple ks, s => by
    obtain ⟨vs, t, hrun, hkeys, hvs, ht⟩ := keyValues_ok ks s
    refine ⟨.tuple (.fresh t.next) vs, { t with next := t.next + 1 }, ?_, ?_, .tuple _ hvs, ?_⟩
    · rw [Key.toValue, bind_ok hrun]
      rfl
    · rw [Value.toKey, hkeys]
      rfl
    · rw [ht]

theorem keyValues_ok : (ks : List Key) → ∀ s, ∃ vs t, keyValues ks s = .ok vs t ∧
    toKeys vs = .ok ks ∧ (∀ v ∈ vs, v.Hashable) ∧ t = { s with next := t.next }
  | [], s => ⟨[], s, rfl, rfl, by simp, rfl⟩
  | k :: ks, s => by
    obtain ⟨v, t, hrun, hkey, hv, ht⟩ := toValue_ok k s
    obtain ⟨vs, u, hrun', hkeys, hvs, hu⟩ := keyValues_ok ks t
    refine ⟨v :: vs, u, ?_, ?_, List.forall_mem_cons.2 ⟨hv, hvs⟩, ?_⟩
    · rw [keyValues, bind_ok hrun, bind_ok hrun']
      rfl
    · rw [toKeys, hkey, hkeys]
      rfl
    · rw [hu, ht]

end

end Rebuilding

section Dictionaries

variable {s : Store} {r : DictRef} {a b v : Value} {k l : Key}

theorem key_ok (h : a.toKey = .ok k) (s : Store) : key a s = .ok k s := by
  unfold key
  rw [h]
  rfl

theorem setItem_ok (hr : r.index < s.dicts.size) (ha : a.toKey = .ok k) :
    ∃ t, setItem (.dict r) a v s = .ok () t ∧ t.dict r = (s.dict r).insert k v := by
  refine ⟨{ s with dicts := s.dicts.modify r.index (·.insert k v) }, ?_, ?_⟩
  · unfold setItem
    dsimp only
    rw [bind_ok (key_ok ha s)]
    rfl
  · simp [Store.dict, Array.getD_eq_getD_getElem?, hr, Array.getElem_modify]

theorem getItem_dict (hb : b.toKey = .ok l) : getItem (.dict r) b s =
    match (s.dict r).get? l with
    | some w => .ok w s
    | none => .error (.raised { kind := .keyError, message := b.render s }) s := by
  unfold getItem
  rw [bind_ok (x := get) rfl]
  dsimp only
  rw [bind_ok (key_ok hb s)]
  cases (s.dict r).get? l <;> rfl

theorem contains_dict (hb : b.toKey = .ok l) :
    contains (.dict r) b s = .ok ((s.dict r).contains l) s := by
  unfold contains
  dsimp only
  rw [bind_ok (x := get) rfl, bind_ok (key_ok hb s)]
  rfl

theorem contains_list (q : ListRef) (b : Value) : contains (.list q) b s =
    .ok ((s.list q).toList.any fun c => c.equal s b) s := by
  rw [Array.any_toList]
  rfl

theorem dictKeys_ok : ∃ q t, callDictMethod .dictKeys [.dict r] [] s = .ok (.list q) t ∧
    toKeys (t.list q).toList = .ok (s.dict r).keys ∧ ∀ v ∈ (t.list q).toList, v.Hashable := by
  obtain ⟨vs, t, hrun, hkeys, hvs, ht⟩ := keyValues_ok (s.dict r).keys s
  have hlist : ({ t with lists := t.lists.push vs.toArray } : Store).list ⟨t.lists.size⟩ =
      vs.toArray := by
    simp [Store.list, Array.getD_eq_getD_getElem?]
  refine ⟨⟨t.lists.size⟩, { t with lists := t.lists.push vs.toArray }, ?_, ?_, ?_⟩
  · change (do newList (← keyValues (s.dict r).keys).toArray) s = _
    rw [bind_ok hrun]
    rfl
  · rwa [hlist]
  · rwa [hlist]

/-- A value is found in a dictionary exactly if it equals a stored key and truth values stand in the
same places of both; if this key was just set, with the value that was set. In the list of the keys
it is found if it equals one. -/
theorem found_in_dict (ha : a.toKey = .ok k) (hb : b.toKey = .ok l) (hr : r.index < s.dicts.size) :
    ∃ t q u, setItem (.dict r) a v s = .ok () t ∧
      callDictMethod .dictKeys [.dict r] [] t = .ok (.list q) u ∧
      contains (.dict r) b t =
        .ok ((u.list q).toList.any fun c => c.equal u b && c.sameBools b) t ∧
      ((∃ w, getItem (.dict r) b t = .ok w t) ↔ contains (.dict r) b t = .ok true t) ∧
      (k.same l = true → getItem (.dict r) b t = .ok v t) ∧
      contains (.list q) b u = .ok ((u.list q).toList.any fun c => c.equal u b) u := by
  obtain ⟨t, hset, hinsert⟩ := setItem_ok (v := v) hr ha
  obtain ⟨q, u, hcall, hkeys, hhashable⟩ := dictKeys_ok (s := t) (r := r)
  refine ⟨t, q, u, hset, hcall, ?_, ?_, fun hsame => ?_, contains_list q b⟩
  · rw [contains_dict hb, ← any_same_eq hhashable hkeys hb, OrderedMap.keys, List.any_map]
    rfl
  · rw [getItem_dict hb, contains_dict hb, OrderedMap.contains_eq_isSome_get?]
    cases (t.dict r).get? l <;> simp
  · rw [getItem_dict hb, hinsert, ← OrderedMap.get?_congr _ hsame, OrderedMap.get?_insert_self]

/-- A value that can be a key is made again, equal, of its key. Two keys are the same exactly if the
values are equal and truth values stand in the same places of both. So after an entry was set, its
value is found under each key that is the same, and a value is found exactly if it equals a stored
key in this way, while it is in the list of the keys if it equals one of them. -/
theorem keys_respect_equality (ha : a.Hashable) (hb : b.Hashable) : ∃ k l,
    a.toKey = .ok k ∧ b.toKey = .ok l ∧
    (∀ s, ∃ w t, k.toValue s = .ok w t ∧ w.equal t a = true) ∧
    (∀ s, k.same l = true ↔ a.equal s b = true ∧ a.sameBools b = true) ∧
    ∀ s r v, r.index < s.dicts.size → ∃ t q u, setItem (.dict r) a v s = .ok () t ∧
      callDictMethod .dictKeys [.dict r] [] t = .ok (.list q) u ∧
      contains (.dict r) b t =
        .ok ((u.list q).toList.any fun c => c.equal u b && c.sameBools b) t ∧
      ((∃ w, getItem (.dict r) b t = .ok w t) ↔ contains (.dict r) b t = .ok true t) ∧
      (k.same l = true → getItem (.dict r) b t = .ok v t) ∧
      contains (.list q) b u = .ok ((u.list q).toList.any fun c => c.equal u b) u := by
  obtain ⟨k, hk⟩ := ha.toKey
  obtain ⟨l, hl⟩ := hb.toKey
  refine ⟨k, l, hk, hl, fun s => ?_, fun s => ha.meets b hk hl,
    fun s r v hr => found_in_dict hk hl hr⟩
  obtain ⟨w, t, hrun, hw, hhashable, -⟩ := toValue_ok k s
  exact ⟨w, t, hrun, hhashable.equal_of_toKey hw hk⟩

end Dictionaries

def truePair (n : Nat) : Value :=
  .tuple (.fresh n) [.bool true, .str ⟨.fresh (n + 1), "x"⟩]

theorem hashable_truePair (n : Nat) : (truePair n).Hashable := by
  refine .tuple _ (List.forall_mem_cons.2 ⟨.bool true, ?_⟩)
  exact List.forall_mem_singleton.2 (.str _)

theorem keys_respect_equality_truePair :
    (truePair 0).Hashable ∧ (truePair 2).Hashable ∧
    ∃ k l, (truePair 0).toKey = .ok k ∧ (truePair 2).toKey = .ok l ∧ k.same l = true ∧
      (∃ w t, k.toValue {} = .ok w t ∧ w.equal t (truePair 0) = true) ∧
      ∃ t, setItem (.dict ⟨0⟩) (truePair 0) .none { dicts := #[.empty] } = .ok () t ∧
        getItem (.dict ⟨0⟩) (truePair 2) t = .ok .none t ∧
        contains (.dict ⟨0⟩) (truePair 2) t = .ok true t := by
  obtain ⟨k, l, hk, hl, hvalue, hsame, hdict⟩ :=
    keys_respect_equality (hashable_truePair 0) (hashable_truePair 2)
  have hkeys : k.same l = true := (hsame {}).2 ⟨by decide, by decide⟩
  obtain ⟨t, -, -, hset, -, -, hfound, hitem, -⟩ :=
    hdict { dicts := #[.empty] } ⟨0⟩ .none (by decide)
  exact ⟨hashable_truePair 0, hashable_truePair 2, k, l, hk, hl, hkeys, hvalue {}, t, hset,
    hitem hkeys, hfound.1 ⟨.none, hitem hkeys⟩⟩

/-- The truth value equals the integer 1, but a dictionary that stores the one does not find the
other, although it is in the list of the keys. -/
theorem true_hides_one :
    (Value.bool true).equal {} (.int 1) = true ∧
    (∃ k l, (Value.bool true).toKey = .ok k ∧ (Value.int 1).toKey = .ok l ∧ k.same l = false) ∧
    ∃ t q u, setItem (.dict ⟨0⟩) (.bool true) .none { dicts := #[.empty] } = .ok () t ∧
      contains (.dict ⟨0⟩) (.int 1) t = .ok false t ∧
      callDictMethod .dictKeys [.dict ⟨0⟩] [] t = .ok (.list q) u ∧
      contains (.list q) (.int 1) u = .ok true u := by
  refine ⟨by decide, ⟨_, _, rfl, rfl, rfl⟩, _, _, _, rfl, rfl, rfl, ?_⟩
  rw [contains_list]
  rfl

end Lexiscope.Machine
