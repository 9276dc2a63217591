import Lexiscope.Proofs.Machine.Iterators
/-!
# Ranges as arithmetic progressions

A range stands for the integers from its start on, a step apart, that lie before its stop.
Membership is decided for exactly these, whatever the ends. The length counts those that are less
than the greatest integer away from the start, and indexing and iteration go as far as the length
does, so the range is the whole progression exactly if nothing of it lies further away.
-/

namespace Lexiscope.Machine

open Exec

namespace Range

def term (r : Range) (k : Nat) : Int := r.start.toInt + k * r.step.toInt

/-- The integer lies before the stop, in the direction of the step. -/
def Before (r : Range) (n : Int) : Prop :=
  if 0 < r.step then n < r.stop.toInt else r.stop.toInt < n

/-- The distance of the ends in the direction of the step, which may be more than the greatest
integer. -/
def span (r : Range) : Int :=
  if 0 < r.step then r.stop.toInt - r.start.toInt else r.start.toInt - r.stop.toInt

section Steps

variable {r : Range} {k : Nat} {n : Int64}

theorem step_pos_iff : 0 < r.step ↔ 0 < r.step.toInt := by
  rw [Int64.lt_iff_toInt_lt]
  rfl

theorem toInt_step_ne_zero (h : r.step ≠ 0) : r.step.toInt ≠ 0 := by
  intro hzero
  apply h
  rw [← Int64.toInt_inj, hzero]
  rfl

theorem before_term_iff (h : r.step ≠ 0) :
    r.Before (r.term k) ↔ ((k * r.step.toInt.natAbs : Nat) : Int) < r.span := by
  have hne := toInt_step_ne_zero h
  unfold Before term span
  rw [Int.natCast_mul]
  by_cases hpos : 0 < r.step
  · rw [if_pos hpos, if_pos hpos, Int.natAbs_of_nonneg (Int.le_of_lt (step_pos_iff.1 hpos))]
    omega
  · have hneg : r.step.toInt ≤ 0 := Int.not_lt.1 (mt step_pos_iff.2 hpos)
    rw [if_neg hpos, if_neg hpos, Int.ofNat_natAbs_of_nonpos hneg, Int.mul_neg]
    omega

theorem toInt_clamp (n : Int) : (Word.clamp n).toInt = max Word.least (min Word.greatest n) := by
  unfold Word.clamp Word.least Word.greatest
  rw [Int64.toInt_ofInt_of_le] <;> omega

theorem toInt_distance : r.distance.toInt = max Word.least (min Word.greatest r.span) := by
  unfold distance span
  split <;> exact toInt_clamp _

theorem lt_ceilDiv_iff {d a : Nat} (ha : 0 < a) : k < (d + a - 1) / a ↔ k * a < d := by
  rw [Nat.lt_iff_add_one_le, Nat.le_div_iff_mul_le ha, Nat.add_mul, Nat.one_mul]
  omega

/-- The length counts the terms before the stop that are less than the greatest integer away from
the start. -/
theorem lt_length_iff (h : r.step ≠ 0) :
    k < r.length ↔ r.Before (r.term k) ∧ (k * r.step.toInt.natAbs : Nat) < Word.greatest := by
  have ha : 0 < r.step.toInt.natAbs := Int.natAbs_pos.2 (toInt_step_ne_zero h)
  rw [before_term_iff h]
  unfold length
  dsimp only
  rw [lt_ceilDiv_iff ha, toInt_distance]
  simp only [Word.least, Word.greatest]
  omega

theorem exists_toInt {m : Int} (hle : Word.least ≤ m) (hge : m ≤ Word.greatest) :
    ∃ a : Int64, a.toInt = m := by
  refine ⟨Int64.ofInt m, ?_⟩
  unfold Word.least at hle
  unfold Word.greatest at hge
  rw [Int64.toInt_ofInt_of_le] <;> omega

/-- An index below the length gives the term, without leaving the integers of 64 bits on the way. -/
theorem get?_eq_some_iff (h : r.step ≠ 0) :
    r.get? k = some n ↔ k < r.length ∧ n.toInt = r.term k := by
  unfold get?
  by_cases hlength : k < r.length
  · rw [if_neg (Nat.not_le.2 hlength)]
    simp only [Option.bind_eq_some_iff, Word.mul?, Word.add?, Word.fit?_eq_some_iff]
    constructor
    · rintro ⟨i, hi, o, ho, hn⟩
      refine ⟨hlength, ?_⟩
      rw [hn, ho, hi]
      rfl
    · rintro ⟨-, hn⟩
      -- The index and the offset are less than the greatest integer away from zero.
      obtain ⟨-, hsmall⟩ := (lt_length_iff h).1 hlength
      have ha : 0 < r.step.toInt.natAbs := Int.natAbs_pos.2 (toInt_step_ne_zero h)
      have hindex : k ≤ k * r.step.toInt.natAbs := Nat.le_mul_of_pos_right k ha
      have hoffset : ((k : Int) * r.step.toInt).natAbs = k * r.step.toInt.natAbs :=
        Int.natAbs_mul k r.step.toInt
      unfold Word.greatest at hsmall
      obtain ⟨i, hi⟩ : ∃ i : Int64, i.toInt = k := by
        apply exists_toInt <;> simp only [Word.least, Word.greatest] <;> omega
      obtain ⟨o, ho⟩ : ∃ o : Int64, o.toInt = k * r.step.toInt := by
        apply exists_toInt <;> simp only [Word.least, Word.greatest] <;> omega
      exact ⟨i, hi, o, by rw [ho, hi], by rw [hn, ho, term]⟩
  · rw [if_pos (Nat.not_lt.1 hlength)]
    simp [hlength]

theorem offset_nonneg (hpos : 0 < r.step) : 0 ≤ (k : Int) * r.step.toInt :=
  Int.mul_nonneg (Int.natCast_nonneg k) (Int.le_of_lt (step_pos_iff.1 hpos))

theorem offset_nonpos (hneg : ¬ 0 < r.step) : (k : Int) * r.step.toInt ≤ 0 :=
  Int.mul_nonpos_of_nonneg_of_nonpos (Int.natCast_nonneg k) (Int.not_lt.1 (mt step_pos_iff.2 hneg))

theorem exists_eq_term (hbefore : r.Before (r.term k)) : ∃ n : Int64, n.toInt = r.term k := by
  have hstart := r.start.le_toInt
  have hstart' := r.start.toInt_lt
  have hstop := r.stop.le_toInt
  have hstop' := r.stop.toInt_lt
  unfold Before at hbefore
  unfold term at hbefore ⊢
  by_cases hpos : 0 < r.step
  · rw [if_pos hpos] at hbefore
    have hoffset := offset_nonneg (k := k) hpos
    apply exists_toInt <;> simp only [Word.least, Word.greatest] <;> omega
  · rw [if_neg hpos] at hbefore
    have hoffset := offset_nonpos (k := k) hpos
    apply exists_toInt <;> simp only [Word.least, Word.greatest] <;> omega

/-- Whole steps lead from the start to an integer that lies in the direction of the step. -/
theorem exists_eq_term_iff (h : r.step ≠ 0) {m : Int} : (∃ k : Nat, m = r.term k) ↔
    r.step.toInt ∣ m - r.start.toInt ∧
      if 0 < r.step then r.start.toInt ≤ m else m ≤ r.start.toInt := by
  unfold term
  constructor
  · rintro ⟨k, rfl⟩
    refine ⟨⟨k, by rw [Int.mul_comm]; omega⟩, ?_⟩
    split
    · have hoffset := offset_nonneg (k := k) ‹0 < r.step›
      omega
    · have hoffset := offset_nonpos (k := k) ‹¬ 0 < r.step›
      omega
  · rintro ⟨⟨q, hq⟩, hside⟩
    have hne := toInt_step_ne_zero h
    have hnonneg : 0 ≤ q := by
      apply Int.not_lt.1
      intro hneg
      split at hside
      · have hproduct := Int.mul_neg_of_pos_of_neg (step_pos_iff.1 ‹0 < r.step›) hneg
        omega
      · have hstep := mt step_pos_iff.2 ‹¬ 0 < r.step›
        have hproduct := Int.mul_pos_of_neg_of_neg (a := r.step.toInt) (by omega) hneg
        omega
    refine ⟨q.toNat, ?_⟩
    rw [Int.toNat_of_nonneg hnonneg, Int.mul_comm]
    omega

/-- Membership is that in the whole progression, however far apart the ends are. -/
theorem contains_iff (h : r.step ≠ 0) :
    r.contains n = true ↔ ∃ k, r.Before (r.term k) ∧ n.toInt = r.term k := by
  have hmember : (∃ k, r.Before (r.term k) ∧ n.toInt = r.term k) ↔
      r.Before n.toInt ∧ ∃ k, n.toInt = r.term k := by
    constructor
    · rintro ⟨k, hbefore, hn⟩
      exact ⟨hn ▸ hbefore, k, hn⟩
    · rintro ⟨hbefore, k, hn⟩
      exact ⟨k, hn ▸ hbefore, hn⟩
  rw [hmember, exists_eq_term_iff h]
  unfold contains Before
  dsimp only
  rw [Bool.and_eq_true, beq_iff_eq, ← Int.dvd_iff_emod_eq_zero]
  split <;> simp only [Bool.and_eq_true, decide_eq_true_eq, Int64.le_iff_toInt_le,
    Int64.lt_iff_toInt_lt]
  all_goals exact ⟨fun ⟨⟨hstart, hstop⟩, hsteps⟩ => ⟨hstop, hsteps, hstart⟩,
    fun ⟨hstop, hsteps, hstart⟩ => ⟨⟨hstart, hstop⟩, hsteps⟩⟩

theorem get?_of_lt (h : r.step ≠ 0) (hlength : k < r.length) :
    r.get? k = some (Int64.ofInt (r.term k)) := by
  obtain ⟨n, hn⟩ := exists_eq_term ((lt_length_iff h).1 hlength).1
  rw [← hn, Int64.ofInt_toInt]
  exact (get?_eq_some_iff h).2 ⟨hlength, hn⟩

theorem get?_eq_none (hlength : r.length ≤ k) : r.get? k = none := by
  unfold get?
  rw [if_pos hlength]

end Steps

end Range

section Iteration

open Likeness (getD_push)

variable {r : Range} {i : IteratorRef} {k n : Nat} {s : Store}

/-- The iterator of a range stands before the item at an index. -/
structure Store.StandsAt (s : Store) (i : IteratorRef) (r : Range) (k : Nat) : Prop where
  isValid : i.index < s.iterators.size
  iterator : s.iterator i = { source := .range r k }

/-- The index after the item at an index was asked for. -/
def Range.following (r : Range) (k : Nat) : Nat := if (r.get? k).isSome then k + 1 else k

theorem nextItem_range (h : s.StandsAt i r k) : ∃ t,
    nextItem (n + 2) (.iterator i) s = .ok ((r.get? k).map .int) t ∧
      t.StandsAt i r (r.following k) := by
  have hsource : (s.iterator i).source = .range r k := by rw [h.iterator]
  have hnext := nextItem_held (by rw [hsource]; rfl) (by rw [h.iterator]) n
  rw [hsource, Source.draw?] at hnext
  unfold Range.following
  cases hitem : r.get? k with
  | none =>
    rw [hitem] at hnext
    exact ⟨s, hnext, h⟩
  | some m =>
    rw [hitem] at hnext
    refine ⟨_, hnext, ?_, Store.iterator_withIterator h.isValid⟩
    rw [Store.size_withIterator]
    exact h.isValid

/-- The integers of a range from an index on, so many of them. -/
def Range.integers (r : Range) (k count : Nat) : List Value :=
  (List.range' k count).map fun k => .int (Int64.ofInt (r.term k))

theorem drain_range {count : Nat} (items : Array Value) (hstep : r.step ≠ 0) (h : s.StandsAt i r k)
    (hcount : k + count = r.length) :
    ∃ t, drain (n + count + 3) (.iterator i) items s =
      .ok (items ++ (r.integers k count).toArray) t := by
  -- By induction on how many are left; the last turn finds that there is none.
  induction count generalizing s k items with
  | zero =>
    obtain ⟨t, hnext, -⟩ := nextItem_range (n := n) h
    rw [Range.get?_eq_none (by omega)] at hnext
    refine ⟨t, ?_⟩
    unfold drain
    rw [bind_ok hnext]
    simp [Range.integers]
    rfl
  | succ count ih =>
    obtain ⟨t, hnext, ht⟩ := nextItem_range (n := n + count + 1) h
    unfold Range.following at ht
    rw [Range.get?_of_lt hstep (by omega)] at hnext ht
    obtain ⟨u, hrest⟩ := ih (items.push (.int (Int64.ofInt (r.term k)))) ht (by
      simp only [Option.isSome_some, if_true]
      omega)
    refine ⟨u, ?_⟩
    have hdrain : drain (n + (count + 1) + 3) (.iterator i) items s =
        drain (n + count + 3) (.iterator i) (items.push (.int (Int64.ofInt (r.term k)))) t := by
      conv => lhs; unfold drain
      exact bind_ok hnext
    rw [hdrain, hrest]
    simp [Range.integers, List.range'_succ]

theorem collect_range (hstep : r.step ≠ 0) (s : Store) :
    ∃ t, collect (n + r.length + 4) (.range r) s = .ok (r.integers 0 r.length).toArray t := by
  obtain ⟨t, hmade, ht⟩ : ∃ t, makeIterator (.range r) s = .ok (.iterator ⟨s.iterators.size⟩) t ∧
      t.StandsAt ⟨s.iterators.size⟩ r 0 := by
    refine ⟨{ s with iterators := s.iterators.push { source := .range r 0 } }, rfl, ?_, ?_⟩
    · simp
    · unfold Store.iterator
      rw [getD_push, if_pos rfl]
  obtain ⟨u, hdrain⟩ := drain_range (n := n) #[] hstep ht (Nat.zero_add r.length)
  refine ⟨u, ?_⟩
  unfold collect
  refine (bind_ok hmade).trans ?_
  rw [hdrain]
  simp

end Iteration

/-- The range is the whole progression from its start to its stop: so it is for its length, for its
indices, for whoever iterates over it, step by step or to the end, and for membership. -/
structure Range.IsProgression (r : Range) : Prop where
  length : ∀ k, k < r.length ↔ r.Before (r.term k)
  get : ∀ k n, r.get? k = some n ↔ r.Before (r.term k) ∧ n.toInt = r.term k
  next : ∀ {s i k}, s.StandsAt i r k → ∀ n, ∃ item t,
    nextItem (n + 2) (.iterator i) s = .ok item t ∧
    ((∃ m : Int64, item = some (.int m) ∧ m.toInt = r.term k ∧ r.Before (r.term k) ∧
        t.StandsAt i r (k + 1)) ∨
      item = none ∧ ¬ r.Before (r.term k) ∧ t.StandsAt i r k)
  items : ∃ items : List Value,
    (∀ k v, items[k]? = some v ↔
      ∃ m : Int64, v = .int m ∧ m.toInt = r.term k ∧ r.Before (r.term k)) ∧
    ∃ least, ∀ fuel, least ≤ fuel → ∀ s, ∃ t, collect fuel (.range r) s = .ok items.toArray t
  contains : ∀ (m : Int64) s, ∃ b, Machine.contains (.range r) (.int m) s = .ok b s ∧
    (b = true ↔ ∃ k, r.Before (r.term k) ∧ m.toInt = r.term k)

section Whole

variable {r : Range} {k : Nat}

theorem Range.getElem?_integers (hstep : r.step ≠ 0) {v : Value} :
    (r.integers 0 r.length)[k]? = some v ↔
      k < r.length ∧ ∃ m : Int64, v = .int m ∧ m.toInt = r.term k := by
  unfold integers
  rw [List.getElem?_map, Option.map_eq_some_iff]
  constructor
  · rintro ⟨j, hj, rfl⟩
    obtain ⟨hlength, hj⟩ := List.getElem?_eq_some_iff.1 hj
    rw [List.getElem_range', Nat.zero_add, Nat.one_mul] at hj
    rw [List.length_range'] at hlength
    subst hj
    obtain ⟨n, hn⟩ := exists_eq_term ((lt_length_iff hstep).1 hlength).1
    exact ⟨hlength, n, by rw [← hn, Int64.ofInt_toInt], hn⟩
  · rintro ⟨hlength, m, rfl, hm⟩
    refine ⟨k, ?_, by rw [← hm, Int64.ofInt_toInt]⟩
    rw [List.getElem?_range' hlength, Nat.zero_add, Nat.one_mul]

/-- A range is the whole progression exactly if all of it is less than the greatest integer away
from the start: only then the length counts all of it. -/
theorem whole_progression_iff {r : Range} (hstep : r.step ≠ 0) : r.IsProgression ↔
    ∀ k, r.Before (r.term k) → (k * r.step.toInt.natAbs : Nat) < Word.greatest := by
  constructor
  · intro h k hbefore
    exact ((Range.lt_length_iff hstep).1 ((h.length k).2 hbefore)).2
  · intro hnear
    have hlength : ∀ k, k < r.length ↔ r.Before (r.term k) := fun k =>
      (Range.lt_length_iff hstep).trans ⟨And.left, fun h => ⟨h, hnear k h⟩⟩
    -- Everything else goes by the length.
    refine ⟨hlength, ?_, ?_, ?_, ?_⟩
    · intro k n
      rw [Range.get?_eq_some_iff hstep, hlength]
    · intro s i k hs n
      obtain ⟨t, hnext, ht⟩ := nextItem_range (n := n) hs
      refine ⟨_, t, hnext, ?_⟩
      unfold Range.following at ht
      cases hitem : r.get? k with
      | none =>
        rw [hitem] at ht
        refine .inr ⟨rfl, fun hbefore => ?_, ht⟩
        rw [Range.get?_of_lt hstep ((hlength k).2 hbefore)] at hitem
        contradiction
      | some m =>
        rw [hitem] at ht
        obtain ⟨hk, hm⟩ := (Range.get?_eq_some_iff hstep).1 hitem
        exact .inl ⟨m, rfl, hm, (hlength k).1 hk, ht⟩
    · refine ⟨r.integers 0 r.length, ?_, r.length + 4, ?_⟩
      · intro k v
        rw [Range.getElem?_integers hstep, hlength]
        exact ⟨fun ⟨hbefore, m, hv, hm⟩ => ⟨m, hv, hm, hbefore⟩,
          fun ⟨m, hv, hm, hbefore⟩ => ⟨hbefore, m, hv, hm⟩⟩
      · intro fuel hfuel s
        obtain ⟨n, rfl⟩ := Nat.exists_eq_add_of_le' hfuel
        rw [← Nat.add_assoc]
        exact collect_range hstep s
    · intro m s
      exact ⟨r.contains m, rfl, Range.contains_iff hstep⟩

theorem whole_progression_iff_countingDown :
    (⟨10, 0, -3⟩ : Range).step ≠ 0 ∧ (⟨10, 0, -3⟩ : Range).IsProgression := by
  have hstep : (⟨10, 0, -3⟩ : Range).step ≠ 0 := by decide
  refine ⟨hstep, (whole_progression_iff hstep).2 fun k hbefore => ?_⟩
  rw [Range.before_term_iff hstep] at hbefore
  have hspan : (⟨10, 0, -3⟩ : Range).span = 10 := by decide
  have hsize : (-3 : Int64).toInt.natAbs = 3 := by decide
  rw [hspan, hsize] at hbefore
  rw [hsize, Word.greatest]
  omega

/-- From one end of the integers to the other there are four terms in steps of a quarter of the
way. The length counts two of them and the third has no index, but it is a member. -/
theorem wide_range_cut : ∃ r : Range, r.step ≠ 0 ∧
    (∀ k, r.Before (r.term k) ↔ k < 4) ∧ r.length = 2 ∧ r.get? 2 = none ∧
    r.term 2 = 0 ∧ r.contains 0 = true ∧ ¬ r.IsProgression := by
  have hstep : (⟨Int64.minValue, Int64.maxValue, 4611686018427387904⟩ : Range).step ≠ 0 := by decide
  have hspan : (⟨Int64.minValue, Int64.maxValue, 4611686018427387904⟩ : Range).span =
    18446744073709551615 := by decide
  have hsize : (4611686018427387904 : Int64).toInt.natAbs = 4611686018427387904 := by decide
  have hbefore : ∀ k, (⟨Int64.minValue, Int64.maxValue, 4611686018427387904⟩ : Range).Before
      (Range.term ⟨Int64.minValue, Int64.maxValue, 4611686018427387904⟩ k) ↔ k < 4 := by
    intro k
    rw [Range.before_term_iff hstep, hspan, hsize]
    omega
  have hlength : (⟨Int64.minValue, Int64.maxValue, 4611686018427387904⟩ : Range).length = 2 := by
    decide
  refine ⟨_, hstep, hbefore, hlength, Range.get?_eq_none (by omega), by decide, by decide, ?_⟩
  intro h
  have hcut := (h.length 3).2 ((hbefore 3).2 (by decide))
  omega

end Whole

end Lexiscope.Machine
