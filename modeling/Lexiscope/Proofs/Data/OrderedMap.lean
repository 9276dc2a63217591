import Lexiscope.Data.OrderedMap
/-!
# Values and keys of maps

What holds of all values of a map is kept by the operations on maps. The keys of a map that was
made by insertions are all different, and then it is the map of its own entries. Of the values that
were inserted for a key the last one stays. Maps whose keys are all different are compared key by key.
-/

namespace Lexiscope.OrderedMap

variable {κ α : Type} {p : α → Prop}

def All (p : α → Prop) (m : OrderedMap κ α) : Prop := ∀ e ∈ m.entries, p e.2

@[simp] theorem all_empty : (empty : OrderedMap κ α).All p := by simp [All, empty]

section

variable [BEq κ]

theorem mem_insertIn {k : κ} {v : α} {es : List (κ × α)} {e : κ × α}
    (he : e ∈ insertIn k v es) : e ∈ es ∨ e.2 = v := by
  induction es with
  | nil =>
    simp only [insertIn, List.mem_singleton] at he
    exact .inr (he ▸ rfl)
  | cons f es ih =>
    unfold insertIn at he
    split at he
    · rcases List.mem_cons.1 he with rfl | he
      · exact .inr rfl
      · exact .inl (List.mem_cons_of_mem f he)
    · rcases List.mem_cons.1 he with rfl | he
      · exact .inl List.mem_cons_self
      · exact (ih he).imp_left (List.mem_cons_of_mem f)

theorem All.insert {m : OrderedMap κ α} (h : m.All p) (k : κ) {v : α} (hv : p v) :
    (m.insert k v).All p := by
  intro e he
  rcases mem_insertIn he with he | he
  · exact h e he
  · exact he ▸ hv

theorem All.insertAll {m : OrderedMap κ α} (h : m.All p) {es : List (κ × α)}
    (hes : ∀ e ∈ es, p e.2) : (m.insertAll es).All p := by
  induction es generalizing m with
  | nil => exact h
  | cons e es ih =>
    exact ih (h.insert e.1 (hes e List.mem_cons_self)) fun f hf => hes f (List.mem_cons_of_mem e hf)

theorem all_ofList {es : List (κ × α)} (hes : ∀ e ∈ es, p e.2) : (ofList es).All p :=
  all_empty.insertAll hes

theorem All.get? {m : OrderedMap κ α} (h : m.All p) {k : κ} {v : α} (hv : m.get? k = some v) :
    p v := by
  obtain ⟨es⟩ := m
  unfold OrderedMap.get? at hv
  induction es with
  | nil => simp [findIn] at hv
  | cons e es ih =>
    unfold findIn at hv
    split at hv
    · exact Option.some.inj hv ▸ h e List.mem_cons_self
    · exact ih (fun f hf => h f (List.mem_cons_of_mem e hf)) hv

theorem get?_congr [EquivBEq κ] (m : OrderedMap κ α) {k l : κ} (h : (k == l) = true) :
    m.get? k = m.get? l := by
  obtain ⟨es⟩ := m
  unfold OrderedMap.get?
  induction es with
  | nil => rfl
  | cons e es ih => rw [findIn, findIn, BEq.congr_right h, ih]

theorem insertIn_of_forall_ne {k : κ} (v : α) {es : List (κ × α)}
    (h : ∀ e ∈ es, (e.1 == k) = false) : insertIn k v es = es ++ [(k, v)] := by
  induction es with
  | nil => rfl
  | cons e es ih =>
    rw [insertIn, h e List.mem_cons_self, ih fun f hf => h f (List.mem_cons_of_mem e hf)]
    rfl

end

section

variable [BEq κ] [LawfulBEq κ]

theorem isSome_get?_insert {m : OrderedMap κ α} {k : κ} (h : (m.get? k).isSome) (l : κ) (v : α) :
    ((m.insert l v).get? k).isSome := by
  by_cases hl : l = k
  · rw [hl, get?_insert_self]
    rfl
  · rwa [get?_insert_of_ne m v (beq_false_of_ne hl)]

theorem isSome_get?_insertAll {m : OrderedMap κ α} {k : κ} {es : List (κ × α)}
    (h : (m.get? k).isSome ∨ ∃ e ∈ es, e.1 = k) : ((m.insertAll es).get? k).isSome := by
  induction es generalizing m with
  | nil => exact h.elim id fun ⟨_, he, _⟩ => absurd he List.not_mem_nil
  | cons e es ih =>
    refine ih ?_
    rcases h with h | ⟨f, hf, rfl⟩
    · exact .inl (isSome_get?_insert h e.1 e.2)
    · rcases List.mem_cons.1 hf with rfl | hf
      · exact .inl (by rw [get?_insert_self]; rfl)
      · exact .inr ⟨f, hf, rfl⟩

theorem isSome_get?_ofList {es : List (κ × α)} {e : κ × α} (h : e ∈ es) :
    ((ofList es).get? e.1).isSome :=
  isSome_get?_insertAll (.inr ⟨e, h, rfl⟩)

theorem insertIn_of_notMem {k : κ} (v : α) {es : List (κ × α)}
    (h : k ∉ es.map Prod.fst) : insertIn k v es = es ++ [(k, v)] := by
  refine insertIn_of_forall_ne v fun e he => beq_false_of_ne ?_
  rintro rfl
  exact h (List.mem_map_of_mem he)

theorem nodup_keys_insert {m : OrderedMap κ α} (h : m.keys.Nodup) (k : κ) (v : α) :
    (m.insert k v).keys.Nodup := by
  rw [keys_insert]
  split
  · exact h
  · rename_i hk
    rw [List.nodup_append]
    refine ⟨h, by simp, ?_⟩
    rintro a ha b hb rfl
    obtain ⟨e, he, rfl⟩ := List.mem_map.1 ha
    refine hk (List.any_eq_true.2 ⟨e, he, ?_⟩)
    simpa using hb

theorem nodup_keys_insertAll {m : OrderedMap κ α} (h : m.keys.Nodup) (es : List (κ × α)) :
    (m.insertAll es).keys.Nodup := by
  induction es generalizing m with
  | nil => exact h
  | cons e es ih => exact ih (nodup_keys_insert h e.1 e.2)

theorem nodup_keys_ofList (es : List (κ × α)) : (ofList es).keys.Nodup :=
  nodup_keys_insertAll (by simp [keys, empty]) es

theorem insertAll_of_nodup (m : OrderedMap κ α) (es : List (κ × α))
    (h : (m.keys ++ es.map Prod.fst).Nodup) : m.insertAll es = ⟨m.entries ++ es⟩ := by
  induction es generalizing m with
  | nil => simp [insertAll]
  | cons e es ih =>
    have he : e.1 ∉ m.entries.map Prod.fst := by
      rw [List.nodup_append] at h
      exact fun hm => h.2.2 _ hm _ List.mem_cons_self rfl
    have hm : m.insert e.1 e.2 = ⟨m.entries ++ [e]⟩ := by
      simp [insert, insertIn_of_notMem e.2 he]
    have hrest := ih ⟨m.entries ++ [e]⟩ (by simpa [keys] using h)
    calc m.insertAll (e :: es) = (m.insert e.1 e.2).insertAll es := rfl
      _ = ⟨m.entries ++ [e] ++ es⟩ := by rw [hm, hrest]
      _ = ⟨m.entries ++ e :: es⟩ := by simp

theorem ofList_entries {m : OrderedMap κ α} (h : m.keys.Nodup) : ofList m.entries = m := by
  unfold ofList
  rw [insertAll_of_nodup _ _ (by simpa [keys, empty] using h)]
  rfl

end

section Keys

variable {m : OrderedMap κ α} {k : κ}

theorem keys_filter (p : κ → Bool) (m : OrderedMap κ α) :
    (m.filter fun l _ => p l).keys = m.keys.filter p := by
  simp [filter, keys, List.filter_map, Function.comp_def]

variable [BEq κ]

theorem findIn_append (k : κ) (es fs : List (κ × α)) :
    findIn k (es ++ fs) = (findIn k es).or (findIn k fs) := by
  induction es with
  | nil => rfl
  | cons e es ih =>
    simp only [List.cons_append, findIn, ih]
    split <;> rfl

def lastOf (k : κ) (es : List (κ × α)) : Option α := findIn k es.reverse

theorem lastOf_append (k : κ) (es fs : List (κ × α)) :
    lastOf k (es ++ fs) = (lastOf k fs).or (lastOf k es) := by
  rw [lastOf, List.reverse_append, findIn_append]
  rfl

variable [LawfulBEq κ]

theorem isSome_get?_iff : (m.get? k).isSome ↔ k ∈ m.keys := by
  rw [← contains_eq_isSome_get?]
  simp [contains, keys]

theorem get?_eq_none_iff : m.get? k = none ↔ k ∉ m.keys := by
  rw [← isSome_get?_iff, Bool.not_eq_true, Option.isSome_eq_false_iff, Option.isNone_iff_eq_none]

theorem lastOf_eq_none_iff {es : List (κ × α)} : lastOf k es = none ↔ k ∉ es.map Prod.fst := by
  have h : findIn k es.reverse = none ↔ k ∉ es.reverse.map Prod.fst :=
    get?_eq_none_iff (m := ⟨es.reverse⟩)
  rw [lastOf, h, List.map_reverse, List.mem_reverse]

/-- Of several values that are inserted for a key the last one stays. -/
theorem get?_insertAll (m : OrderedMap κ α) (es : List (κ × α)) (k : κ) :
    (m.insertAll es).get? k = (lastOf k es).or (m.get? k) := by
  induction es generalizing m with
  | nil => rfl
  | cons e es ih =>
    have hfirst : (m.insert e.1 e.2).get? k = (lastOf k [e]).or (m.get? k) := by
      by_cases h : e.1 = k
      · simp [lastOf, findIn, h]
      · rw [get?_insert_of_ne m e.2 (beq_false_of_ne h)]
        simp [lastOf, findIn, h]
    rw [← List.singleton_append, lastOf_append, Option.or_assoc, ← hfirst, ← ih]
    rfl

theorem get?_ofList (es : List (κ × α)) (k : κ) : (ofList es).get? k = lastOf k es := by
  rw [ofList, get?_insertAll, get?_empty, Option.or_none]

theorem lastOf_entries (h : m.keys.Nodup) (k : κ) : lastOf k m.entries = m.get? k := by
  rw [← get?_ofList, ofList_entries h]

theorem get?_filter (p : κ → Bool) (m : OrderedMap κ α) (k : κ) :
    (m.filter fun l _ => p l).get? k = if p k then m.get? k else none := by
  obtain ⟨es⟩ := m
  simp only [filter, get?]
  induction es with
  | nil => simp [findIn]
  | cons e es ih =>
    by_cases h : e.1 = k
    · subst h
      cases hp : p e.1 <;> simp_all [findIn]
    · cases hp : p e.1 <;> simp_all [findIn]

end Keys

section Comparison

variable [BEq κ] {related : α → α → Bool} {m n : OrderedMap κ α} {k : κ} {v : α} {ks ls : List κ}

/-- No key of the map equals another one. -/
def Distinct (m : OrderedMap κ α) : Prop := m.keys.Pairwise fun k l => (k == l) = false

theorem Distinct.insert (h : m.Distinct) (k : κ) (v : α) : (m.insert k v).Distinct := by
  unfold Distinct
  rw [keys_insert]
  split
  · exact h
  · rename_i hnew
    refine List.pairwise_append.2 ⟨h, List.pairwise_singleton _ _, fun a ha b hb => ?_⟩
    obtain ⟨e, he, rfl⟩ := List.mem_map.1 ha
    rw [List.mem_singleton.1 hb]
    exact Bool.eq_false_iff.2 fun heq => hnew (List.any_eq_true.2 ⟨e, he, heq⟩)

theorem exists_mem_of_get? (h : m.get? k = some v) : ∃ e ∈ m.entries, (e.1 == k) = true ∧ e.2 = v := by
  obtain ⟨es⟩ := m
  unfold get? at h
  induction es with
  | nil => cases h
  | cons e es ih =>
    unfold findIn at h
    split at h
    · rename_i he
      exact ⟨e, List.mem_cons_self, he, Option.some.inj h⟩
    · obtain ⟨f, hf, hk, hv⟩ := ih h
      exact ⟨f, List.mem_cons_of_mem e hf, hk, hv⟩

theorem mem_values_of_get? (h : m.get? k = some v) : v ∈ m.values := by
  obtain ⟨e, he, -, rfl⟩ := exists_mem_of_get? h
  exact List.mem_map_of_mem he

theorem exists_related_of_sameBy (h : m.sameBy related n = true) {e : κ × α} (he : e ∈ m.entries) :
    ∃ w, n.get? e.1 = some w ∧ related e.2 w = true := by
  have hentry := List.all_eq_true.1 (Bool.and_eq_true_iff.1 h).2 e he
  split at hentry
  · rename_i w hw
    exact ⟨w, hw, hentry⟩
  · cases hentry

variable [EquivBEq κ]

theorem Distinct.get?_of_mem (h : m.Distinct) {e : κ × α} (he : e ∈ m.entries) :
    m.get? e.1 = some e.2 := by
  obtain ⟨es⟩ := m
  unfold Distinct keys at h
  unfold get?
  induction es with
  | nil => cases he
  | cons f es ih =>
    obtain ⟨hfirst, hrest⟩ := List.pairwise_cons.1 h
    unfold findIn
    rcases List.mem_cons.1 he with rfl | he
    · rw [if_pos BEq.rfl]
    · have hne : (f.1 == e.1) = false := hfirst e.1 (List.mem_map_of_mem he)
      rw [hne]
      exact ih hrest he

/-- Keys that are all different and are all among others are no more than these. If they are as many,
the others are among them. -/
theorem length_le_of_distinct (hks : ks.Pairwise fun k l => (k == l) = false)
    (h : ∀ k ∈ ks, ∃ l ∈ ls, (l == k) = true) : ks.length ≤ ls.length ∧
      (ls.length ≤ ks.length → ∀ l ∈ ls, ∃ k ∈ ks, (k == l) = true) := by
  induction ks generalizing ls with
  | nil =>
    refine ⟨Nat.zero_le _, fun hlength l hl => ?_⟩
    rw [List.eq_nil_of_length_eq_zero (Nat.le_zero.1 hlength)] at hl
    cases hl
  | cons k ks ih =>
    obtain ⟨hfirst, hrest⟩ := List.pairwise_cons.1 hks
    obtain ⟨l₀, hl₀, hk₀⟩ := h k List.mem_cons_self
    have hlength : (ls.eraseP (· == k)).length = ls.length - 1 := List.length_eraseP_of_mem hl₀ hk₀
    have hpos : 0 < ls.length := List.length_pos_of_mem hl₀
    have hleft : ∀ {l}, l ∈ ls → ¬ (l == k) = true → l ∈ ls.eraseP (· == k) :=
      fun hl hlk => (List.mem_eraseP_of_neg (p := (· == k)) hlk).2 hl
    -- The others are among what is left when one that equals `k` is taken away.
    have hothers : ∀ k' ∈ ks, ∃ l ∈ ls.eraseP (· == k), (l == k') = true := by
      intro k' hk'
      obtain ⟨l, hl, hlk⟩ := h k' (List.mem_cons_of_mem k hk')
      have hne : ¬ (l == k) = true := by
        rw [BEq.congr_left hlk, BEq.comm, hfirst k' hk']
        exact Bool.false_ne_true
      exact ⟨l, hleft hl hne, hlk⟩
    obtain ⟨hle, hall⟩ := ih hrest hothers
    rw [hlength] at hle hall
    refine ⟨by rw [List.length_cons]; omega, fun hback l hl => ?_⟩
    rw [List.length_cons] at hback
    by_cases hlk : (l == k) = true
    · exact ⟨k, List.mem_cons_self, BEq.symm hlk⟩
    · obtain ⟨k', hk', hkl⟩ := hall (by omega) l (hleft hl hlk)
      exact ⟨k', List.mem_cons_of_mem k hk', hkl⟩

/-- A map whose keys all have values in another one has no more keys. If it has as many, they are the
keys of both. -/
theorem Distinct.size_le (hm : m.Distinct) (h : ∀ e ∈ m.entries, (n.get? e.1).isSome) :
    m.size ≤ n.size ∧ (n.size ≤ m.size → ∀ k, (n.get? k).isSome → (m.get? k).isSome) := by
  have hamong : ∀ k ∈ m.keys, ∃ l ∈ n.keys, (l == k) = true := by
    intro k hk
    obtain ⟨e, he, rfl⟩ := List.mem_map.1 hk
    obtain ⟨w, hw⟩ := Option.isSome_iff_exists.1 (h e he)
    obtain ⟨f, hf, hfe, -⟩ := exists_mem_of_get? hw
    exact ⟨f.1, List.mem_map_of_mem hf, hfe⟩
  have hkeys : ∀ m : OrderedMap κ α, m.keys.length = m.size := fun _ => List.length_map _
  have hcount := length_le_of_distinct hm hamong
  rw [hkeys, hkeys] at hcount
  refine ⟨hcount.1, fun hsize k hk => ?_⟩
  obtain ⟨w, hw⟩ := Option.isSome_iff_exists.1 hk
  obtain ⟨f, hf, hfk, -⟩ := exists_mem_of_get? hw
  obtain ⟨l, hl, hlf⟩ := hcount.2 hsize f.1 (List.mem_map_of_mem hf)
  obtain ⟨e, he, rfl⟩ := List.mem_map.1 hl
  rw [← get?_congr m (BEq.trans hlf hfk), hm.get?_of_mem he]
  rfl

/-- Maps whose keys are all different are the same if they have related values under every key. -/
theorem sameBy_iff (hm : m.Distinct) (hn : n.Distinct) : m.sameBy related n = true ↔
    ∀ k, Option.Rel (fun v w => related v w = true) (m.get? k) (n.get? k) := by
  constructor
  · intro h k
    have hsize : m.size = n.size := eq_of_beq (Bool.and_eq_true_iff.1 h).1
    -- All keys of `m` have values in `n`, which has no more keys, so the keys of `n` are those of `m`.
    have hback := (hm.size_le fun e he => by
      obtain ⟨w, hw, -⟩ := exists_related_of_sameBy h he
      rw [hw]
      rfl).2 (Nat.le_of_eq hsize.symm) k
    cases hk : m.get? k with
    | some v =>
      obtain ⟨e, he, hek, rfl⟩ := exists_mem_of_get? hk
      obtain ⟨w, hw, hrelated⟩ := exists_related_of_sameBy h he
      rw [← get?_congr n hek, hw]
      exact .some hrelated
    | none =>
      rw [hk] at hback
      rw [Option.not_isSome_iff_eq_none.1 fun hsome => Bool.false_ne_true (hback hsome)]
      exact .none
  · intro h
    have hfound : ∀ e ∈ m.entries, ∃ w, n.get? e.1 = some w ∧ related e.2 w = true := by
      intro e he
      have hrel := h e.1
      rw [hm.get?_of_mem he] at hrel
      obtain ⟨w, hw⟩ : ∃ w, n.get? e.1 = w := ⟨_, rfl⟩
      rw [hw] at hrel ⊢
      cases hrel with
      | some hrelated => exact ⟨_, rfl, hrelated⟩
    have hle := (hm.size_le fun e he => by
      obtain ⟨w, hw, -⟩ := hfound e he
      rw [hw]
      rfl).1
    have hge := (hn.size_le (n := m) fun f hf => by
      have hrel := h f.1
      rw [hn.get?_of_mem hf] at hrel
      cases hv : m.get? f.1 with
      | some v => rfl
      | none =>
        rw [hv] at hrel
        cases hrel).1
    refine Bool.and_eq_true_iff.2 ⟨beq_iff_eq.2 (Nat.le_antisymm hle hge), ?_⟩
    refine List.all_eq_true.2 fun e he => ?_
    obtain ⟨w, hw, hrelated⟩ := hfound e he
    rw [hw]
    exact hrelated

end Comparison

end Lexiscope.OrderedMap
