import Mathlib.Data.Finset.Sum
import Mathlib.Logic.Relation
import Lexiscope.Proofs.Data.OrderedMap
import Lexiscope.Proofs.Machine.Sameness
/-!
# What values mean

Apart from identities and from where it lies, a value without floats that does not contain itself is
a number, a text, a sequence, a mapping, a range or an object. Values are equal exactly if this is the
same of both, and their order depends on nothing else.
-/

namespace Lexiscope.Machine

/-- The values that lie directly in a list, a tuple or a dictionary. -/
def Value.parts (s : Store) : Value → List Value
  | .list r => (s.list r).toList
  | .tuple _ items => items
  | .dict r => (s.dict r).values
  | _ => []

/-- The first value lies directly in the second. -/
def PartOf (s : Store) (w v : Value) : Prop := w ∈ v.parts s

/-- The first value is the second or lies in it, however deep. -/
abbrev Within (s : Store) : Value → Value → Prop := Relation.ReflTransGen (PartOf s)

/-- There is no float in the value, and nothing in it contains itself. The keys of each dictionary in it
are all different. -/
structure Value.Regular (s : Store) (v : Value) : Prop where
  acyclic : ∀ w, Within s w v → ¬ Relation.TransGen (PartOf s) w w
  noFloat : ∀ x, ¬ Within s (.float x) v
  distinct : ∀ r, Within s (.dict r) v → (s.dict r).Distinct

variable {s : Store} {v w : Value}

theorem Value.Regular.part (h : v.Regular s) (hw : PartOf s w v) : w.Regular s where
  acyclic u hu := h.acyclic u (hu.tail hw)
  noFloat x hx := h.noFloat x (hx.tail hw)
  distinct r hr := h.distinct r (hr.tail hw)

/-- A value is regular if all that lies in it is, it is no float, and its keys are all different. -/
theorem Value.regular_of_parts (hparts : ∀ w, PartOf s w v → w.Regular s) (hfloat : ∀ x, v ≠ .float x)
    (hdistinct : ∀ r, v = .dict r → (s.dict r).Distinct) : v.Regular s := by
  have hwithin : ∀ {w}, Within s w v → w = v ∨ ∃ u, PartOf s u v ∧ Within s w u := by
    intro w h
    rcases Relation.ReflTransGen.cases_tail h with rfl | ⟨u, hu, hpart⟩
    · exact .inl rfl
    · exact .inr ⟨u, hpart, hu⟩
  refine ⟨fun w hw hself => ?_, fun x hx => ?_, fun r hr => ?_⟩
  · rcases hwithin hw with rfl | ⟨u, hu, hwu⟩
    · obtain ⟨u, hwu, hu⟩ := Relation.TransGen.tail'_iff.1 hself
      exact (hparts u hu).acyclic u .refl (.head' hu hwu)
    · exact (hparts u hu).acyclic w hwu hself
  · rcases hwithin hx with rfl | ⟨u, hu, hxu⟩
    · exact hfloat x rfl
    · exact (hparts u hu).noFloat x hxu
  · rcases hwithin hr with rfl | ⟨u, hu, hru⟩
    · exact hdistinct r rfl
    · exact (hparts u hu).distinct r hru

/-- A regular value in which at most so many lists and dictionaries lie in one another. -/
inductive Value.Levels (s : Store) : Nat → Value → Prop
  | leaf {n v} : (∀ r, v ≠ .list r) → (∀ id items, v ≠ .tuple id items) → (∀ r, v ≠ .dict r) →
    (∀ x, v ≠ .float x) → Levels s n v
  | tuple {n id items} : (∀ w ∈ items, Levels s n w) → Levels s n (.tuple id items)
  | list {n r} : (∀ w ∈ (s.list r).toList, Levels s n w) → Levels s (n + 1) (.list r)
  | dict {n r} : (s.dict r).Distinct → (∀ w ∈ (s.dict r).values, Levels s n w) →
    Levels s (n + 1) (.dict r)

theorem Value.Levels.mono {n m : Nat} (h : v.Levels s n) (hm : n ≤ m) : v.Levels s m := by
  induction h generalizing m with
  | leaf hlist htuple hdict hfloat => exact .leaf hlist htuple hdict hfloat
  | tuple _ ih => exact .tuple fun w hw => ih w hw hm
  | list _ ih =>
    obtain ⟨k, rfl⟩ := Nat.exists_eq_succ_of_ne_zero (Nat.ne_zero_of_lt hm)
    exact .list fun w hw => ih w hw (Nat.le_of_succ_le_succ hm)
  | dict hdistinct _ ih =>
    obtain ⟨k, rfl⟩ := Nat.exists_eq_succ_of_ne_zero (Nat.ne_zero_of_lt hm)
    exact .dict hdistinct fun w hw => ih w hw (Nat.le_of_succ_le_succ hm)

/-- The places of all lists and dictionaries in the store. -/
def Store.places (s : Store) : Finset (Nat ⊕ Nat) :=
  (Finset.range s.lists.size).disjSum (Finset.range s.dicts.size)

def container : Nat ⊕ Nat → Value
  | .inl i => .list ⟨i⟩
  | .inr i => .dict ⟨i⟩

theorem card_places (s : Store) : s.places.card + 1 = s.nesting := by
  simp [Store.places, Store.nesting, Finset.card_disjSum]

/-- There is a place more than those at which containers lie around a value, and it is a new one, if the
value is itself a container and does not contain itself. -/
theorem fresh_place {around : Finset (Nat ⊕ Nat)} {p : Nat ⊕ Nat} {k : Nat}
    (haround : around ⊆ s.places) (hcard : around.card + k = s.places.card) (hp : p ∈ s.places)
    (hinside : ∀ q ∈ around, Relation.TransGen (PartOf s) (container p) (container q))
    (hacyclic : ¬ Relation.TransGen (PartOf s) (container p) (container p)) :
    ∃ k', k = k' + 1 ∧ insert p around ⊆ s.places ∧ (insert p around).card + k' = s.places.card := by
  have hnew : p ∉ around := fun hmem => hacyclic (hinside p hmem)
  have hsubset : insert p around ⊆ s.places := Finset.insert_subset hp haround
  have hle := Finset.card_le_card hsubset
  rw [Finset.card_insert_of_notMem hnew] at hle ⊢
  exact ⟨k - 1, by omega, hsubset, by omega⟩

/-- The containers around a value lie at different places, so there are no more levels below it than
there are other places. -/
theorem levels_inside (k : Nat) : ∀ {around : Finset (Nat ⊕ Nat)}, around ⊆ s.places →
    around.card + k = s.places.card → ∀ {v : Value}, v.Regular s →
    (∀ q ∈ around, Relation.TransGen (PartOf s) v (container q)) → v.Levels s (k + 1) := by
  induction k using Nat.strongRecOn with
  | _ k ihk =>
    intro around haround hcard v hv hinside
    -- A tuple is no place, but its items are smaller.
    induction hsize : sizeOf v using Nat.strongRecOn generalizing v with
    | _ size ihv =>
      subst hsize
      have hdeeper : ∀ {w}, PartOf s w v → ∀ q ∈ around,
          Relation.TransGen (PartOf s) w (container q) := fun hw q hq => .head hw (hinside q hq)
      have hcontainer : ∀ {p}, p ∈ s.places → v = container p → ∀ {w}, PartOf s w v →
          ∃ k', k = k' + 1 ∧ w.Levels s (k' + 1) := by
        rintro p hp rfl w hw
        obtain ⟨k', rfl, hsubset, hcard'⟩ :=
          fresh_place haround hcard hp hinside (hv.acyclic _ .refl)
        refine ⟨k', rfl, ihk k' (Nat.lt_succ_self k') hsubset hcard' (hv.part hw) fun q hq => ?_⟩
        rcases Finset.mem_insert.1 hq with rfl | hq
        · exact .single hw
        · exact hdeeper hw q hq
      cases v with
      | tuple id items =>
        refine .tuple fun w hw => ihv (sizeOf w) ?_ (hv.part hw) (hdeeper hw) rfl
        have hlt := List.sizeOf_lt_of_mem hw
        simp only [Value.tuple.sizeOf_spec]
        omega
      | list r =>
        refine .list fun w hw => ?_
        have hp : Sum.inl r.index ∈ s.places := by
          by_contra hout
          have hempty : s.list r = #[] := by
            simp only [Store.places, Finset.inl_mem_disjSum, Finset.mem_range] at hout
            simp [Store.list, hout]
          rw [hempty] at hw
          cases hw
        obtain ⟨k', rfl, hlevels⟩ := hcontainer hp rfl hw
        exact hlevels
      | dict r =>
        refine .dict (hv.distinct r .refl) fun w hw => ?_
        have hp : Sum.inr r.index ∈ s.places := by
          by_contra hout
          have hempty : s.dict r = .empty := by
            simp only [Store.places, Finset.inr_mem_disjSum, Finset.mem_range] at hout
            simp [Store.dict, hout]
          rw [hempty] at hw
          cases hw
        obtain ⟨k', rfl, hlevels⟩ := hcontainer hp rfl hw
        exact hlevels
      | float x => exact absurd .refl (hv.noFloat x)
      | _ => exact .leaf (by simp) (by simp) (by simp) (by simp)

/-- The bound on nesting is enough for values that are regular. -/
theorem Value.Regular.levels (h : v.Regular s) : v.Levels s s.nesting := by
  rw [← card_places]
  exact levels_inside _ (Finset.empty_subset _) (by simp) h (by simp)

/-- What a value means. A dictionary is what it gives for each key. -/
inductive Sense where
  | number (n : Int)
  | text (t : String)
  | list (items : List Sense)
  | tuple (items : List Sense)
  | dict (find : Key → Option Sense)
  | range (r : Range)
  | object (handle : Option Handle)

mutual

/-- What a value means, given what is in lists and dictionaries. -/
def Value.meaningWith (items : ListRef → List Sense) (find : DictRef → Key → Option Sense) :
    Value → Sense
  | .bool b => .number (if b then 1 else 0)
  | .int n => .number n.toInt
  | .str t => .text t.text
  | .list r => .list (items r)
  | .tuple _ vs => .tuple (meaningsWith items find vs)
  | .dict r => .dict (find r)
  | .range r => .range r
  | v => .object v.handle

def meaningsWith (items : ListRef → List Sense) (find : DictRef → Key → Option Sense) :
    List Value → List Sense
  | [] => []
  | v :: vs => v.meaningWith items find :: meaningsWith items find vs

end

def Value.meaningTo (s : Store) : Nat → Value → Sense
  | 0 => Value.meaningWith (fun _ => []) fun _ _ => Option.none
  | n + 1 => Value.meaningWith (fun r => (s.list r).toList.map (meaningTo s n))
      fun r k => ((s.dict r).get? k).map (meaningTo s n)

def Value.meaning (s : Store) (v : Value) : Sense := v.meaningTo s s.nesting

section Equality

variable {n m : Nat} {a b c : Value} {list : ListRef → ListRef → Bool} {dict : DictRef → DictRef → Bool}
  {items : ListRef → List Sense} {find : DictRef → Key → Option Sense}

theorem meaningsWith_eq_map (vs : List Value) :
    meaningsWith items find vs = vs.map (Value.meaningWith items find) := by
  induction vs with
  | nil => rfl
  | cons v vs ih => rw [meaningsWith, ih, List.map_cons]

theorem meaningTo_tuple (n : Nat) (id : Identity) (vs : List Value) :
    (Value.tuple id vs).meaningTo s n = .tuple (vs.map (Value.meaningTo s n)) := by
  cases n <;> exact congrArg Sense.tuple (meaningsWith_eq_map vs)

/-- What a value means does not depend on how many levels there could have been. -/
theorem Value.Levels.meaningTo_eq (h : v.Levels s n) (hm : n ≤ m) :
    v.meaningTo s m = v.meaningTo s n := by
  induction h generalizing m with
  | @leaf n v hlist htuple hdict _ =>
    cases v with
    | list r => exact absurd rfl (hlist r)
    | tuple id items => exact absurd rfl (htuple id items)
    | dict r => exact absurd rfl (hdict r)
    | _ => cases n <;> cases m <;> rfl
  | tuple _ ih =>
    rw [meaningTo_tuple, meaningTo_tuple]
    exact congrArg Sense.tuple (List.map_congr_left fun w hw => ih w hw hm)
  | list _ ih =>
    obtain ⟨k, rfl⟩ := Nat.exists_eq_succ_of_ne_zero (Nat.ne_zero_of_lt hm)
    exact congrArg Sense.list
      (List.map_congr_left fun w hw => ih w hw (Nat.le_of_succ_le_succ hm))
  | @dict n r _ _ ih =>
    obtain ⟨k, rfl⟩ := Nat.exists_eq_succ_of_ne_zero (Nat.ne_zero_of_lt hm)
    exact congrArg Sense.dict (funext fun key => Option.map_congr fun w hw =>
      ih w (OrderedMap.mem_values_of_get? hw) (Nat.le_of_succ_le_succ hm))

theorem toInt_bit (b : Bool) : (if b then 1 else 0 : Int64).toInt = if b then 1 else 0 := by
  cases b <;> rfl

/-- Values without floats that are not containers of one kind are equal exactly if they mean the same. -/
theorem equalWith_iff_of_unlike (ha : ∀ x, a ≠ .float x) (hb : ∀ x, b ≠ .float x)
    (hlist : ∀ r q, a = .list r → b ≠ .list q)
    (htuple : ∀ i vs j ws, a = .tuple i vs → b ≠ .tuple j ws)
    (hdict : ∀ r q, a = .dict r → b ≠ .dict q) :
    a.equalWith list dict b = true ↔ a.meaningWith items find = b.meaningWith items find := by
  cases a <;> cases b <;>
    simp_all [Value.equalWith, Value.number?, Number.equal, Value.sameObject, Value.meaningWith,
      Value.handle, ← Int64.toInt_inj, toInt_bit]
  exact absurd rfl (htuple _ _ _ _ rfl rfl rfl)

theorem equalTo_iff_of_unlike (ha : ∀ x, a ≠ .float x) (hb : ∀ x, b ≠ .float x)
    (hlist : ∀ r q, a = .list r → b ≠ .list q)
    (htuple : ∀ i vs j ws, a = .tuple i vs → b ≠ .tuple j ws)
    (hdict : ∀ r q, a = .dict r → b ≠ .dict q) :
    a.equalTo s n b = true ↔ a.meaningTo s n = b.meaningTo s n := by
  cases n <;> exact equalWith_iff_of_unlike ha hb hlist htuple hdict

theorem Value.Levels.noFloat (h : v.Levels s n) (x : Double) : v ≠ .float x := by
  rintro rfl
  cases h with
  | leaf _ _ _ hfloat => exact hfloat x rfl

theorem allRelated_iff {related : Value → Value → Bool} {meaning : Value → Sense}
    {vs ws : List Value}
    (h : ∀ v ∈ vs, ∀ w ∈ ws, (related v w = true ↔ meaning v = meaning w)) :
    allRelated related vs ws = true ↔ vs.map meaning = ws.map meaning := by
  induction vs generalizing ws with
  | nil => cases ws <;> simp [allRelated]
  | cons v vs ih =>
    cases ws with
    | nil => simp [allRelated]
    | cons w ws =>
      have hrest := ih fun v hv w hw => h v (List.mem_cons_of_mem _ hv) w (List.mem_cons_of_mem _ hw)
      rw [allRelated, Bool.and_eq_true, h v List.mem_cons_self w List.mem_cons_self, hrest,
        List.map_cons, List.map_cons, List.cons.injEq]

/-- Dictionaries are equal exactly if they give what means the same for every key. -/
theorem sameBy_iff_meaning {related : Value → Value → Bool} {meaning : Value → Sense}
    {d e : OrderedMap Key Value} (hd : d.Distinct) (he : e.Distinct)
    (h : ∀ v ∈ d.values, ∀ w ∈ e.values, (related v w = true ↔ meaning v = meaning w)) :
    d.sameBy related e = true ↔
      (fun k => (d.get? k).map meaning) = fun k => (e.get? k).map meaning := by
  rw [OrderedMap.sameBy_iff hd he, funext_iff]
  refine forall_congr' fun k => ?_
  cases hk : d.get? k with
  | none => cases hl : e.get? k <;> simp
  | some v =>
    cases hl : e.get? k with
    | none => simp
    | some w =>
      simpa using h v (OrderedMap.mem_values_of_get? hk) w (OrderedMap.mem_values_of_get? hl)

/-- Regular values are equal exactly if they mean the same. -/
theorem equalTo_iff (ha : a.Levels s n) (hb : b.Levels s n) :
    a.equalTo s n b = true ↔ a.meaningTo s n = b.meaningTo s n := by
  induction ha generalizing b with
  | leaf hlist htuple hdict hfloat =>
    exact equalTo_iff_of_unlike hfloat hb.noFloat (fun r _ h => absurd h (hlist r))
      (fun i vs _ _ h => absurd h (htuple i vs)) fun r _ h => absurd h (hdict r)
  | tuple _ ih =>
    cases hb with
    | tuple hws =>
      rw [equalTo_tuple, meaningTo_tuple, meaningTo_tuple, Sense.tuple.injEq]
      exact allRelated_iff fun v hv w hw => ih v hv (hws w hw)
    | leaf _ htuple _ hfloat => exact equalTo_iff_of_unlike (by simp) hfloat (by simp) (by simp [htuple]) (by simp)
    | _ => exact equalTo_iff_of_unlike (by simp) (by simp) (by simp) (by simp) (by simp)
  | @list n r hvs ih =>
    cases hb with
    | @list _ q hws =>
      change _ ↔ Sense.list _ = Sense.list _
      rw [equalTo_list, Bool.or_eq_true, beq_iff_eq, Sense.list.injEq,
        allRelated_iff fun v hv w hw => ih v hv (hws w hw), or_iff_right_of_imp]
      rintro rfl
      rfl
    | leaf hlist _ _ hfloat => exact equalTo_iff_of_unlike (by simp) hfloat (by simp [hlist]) (by simp) (by simp)
    | _ => exact equalTo_iff_of_unlike (by simp) (by simp) (by simp) (by simp) (by simp)
  | @dict n r hd hvs ih =>
    cases hb with
    | @dict _ q he hws =>
      change _ ↔ Sense.dict _ = Sense.dict _
      rw [equalTo_dict, Bool.or_eq_true, beq_iff_eq, Sense.dict.injEq,
        sameBy_iff_meaning hd he fun v hv w hw => ih v hv (hws w hw), or_iff_right_of_imp]
      rintro rfl
      rfl
    | leaf _ _ hdict hfloat => exact equalTo_iff_of_unlike (by simp) hfloat (by simp) (by simp) (by simp [hdict])
    | _ => exact equalTo_iff_of_unlike (by simp) (by simp) (by simp) (by simp) (by simp)

theorem equal_iff (ha : a.Regular s) (hb : b.Regular s) :
    a.equal s b = true ↔ a.meaning s = b.meaning s :=
  equalTo_iff ha.levels hb.levels

theorem equal_refl (ha : a.Regular s) : a.equal s a = true := (equal_iff ha ha).2 rfl

theorem equal_symm (ha : a.Regular s) (hb : b.Regular s) (h : a.equal s b = true) :
    b.equal s a = true :=
  (equal_iff hb ha).2 ((equal_iff ha hb).1 h).symm

theorem equal_trans (ha : a.Regular s) (hb : b.Regular s) (hc : c.Regular s)
    (hab : a.equal s b = true) (hbc : b.equal s c = true) : a.equal s c = true :=
  (equal_iff ha hc).2 (((equal_iff ha hb).1 hab).trans ((equal_iff hb hc).1 hbc))

end Equality

end Lexiscope.Machine
