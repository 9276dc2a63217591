import Mathlib.Data.Rat.Floor
import Lexiscope.Machine.Builtins.Call
import Lexiscope.Proofs.Machine.Turn
/-!
# Exact integers

Values that count as integers are added, subtracted, multiplied, divided, negated and raised to a
power as mathematical integers are. A result that does not have 64 bits is an exception, and none of
the steps by which the machine comes to a quotient or a remainder goes out of range. Only a power
with an exponent beyond 32 bits is always an exception, also where it has 64 bits.
-/

namespace Lexiscope

namespace Word

def InRange (n : Int) : Prop := least ≤ n ∧ n ≤ greatest

instance : DecidablePred InRange := fun n => inferInstanceAs (Decidable (least ≤ n ∧ n ≤ greatest))

section Ranges

variable {a b q : Int64} {n : Int}

theorem inRange_toInt (a : Int64) : InRange a.toInt := by
  have hle := a.le_toInt
  have hlt := a.toInt_lt
  unfold InRange least greatest
  omega

theorem fit?_of_inRange (h : InRange n) : ∃ m : Int64, fit? n = some m ∧ m.toInt = n := by
  cases hm : fit? n with
  | none =>
    have hout := fit?_eq_none_iff.1 hm
    unfold InRange at h
    omega
  | some m => exact ⟨m, rfl, fit?_eq_some_iff.1 hm⟩

theorem fit?_of_not_inRange (h : ¬ InRange n) : fit? n = none := by
  rw [fit?_eq_none_iff]
  unfold InRange at h
  omega

end Ranges

/-- The quotient and the remainder of a division toward zero. -/
structure Truncates (a b q r : Int) : Prop where
  sum : b * q + r = a
  small : r.natAbs < b.natAbs
  nonneg : 0 ≤ a → 0 ≤ r
  nonpos : a ≤ 0 → r ≤ 0

theorem truncates_tdiv {a b : Int} (hb : b ≠ 0) : Truncates a b (a.tdiv b) (a.tmod b) where
  sum := Int.mul_tdiv_add_tmod a b
  small := by
    rw [Int.natAbs_tmod]
    exact Nat.mod_lt _ (Int.natAbs_pos.2 hb)
  nonneg := Int.tmod_nonneg b
  nonpos h := by
    have hneg := Int.tmod_nonneg b (Int.neg_nonneg_of_nonpos h)
    rw [Int.neg_tmod] at hneg
    omega

/-- A quotient with a remainder on the divisor's side of zero is the floor of the fraction. -/
theorem floor_div_eq {a b q r : Int} (h : b * q + r = a)
    (hr : 0 ≤ r ∧ r < b ∨ b < r ∧ r ≤ 0) : ⌊(a : ℚ) / b⌋ = q := by
  have hb : b ≠ 0 := by omega
  have hb' : (b : ℚ) ≠ 0 := Int.cast_ne_zero.2 hb
  have hfraction : (a : ℚ) / b = q + r / b := by
    rw [← h]
    push_cast
    field_simp
  rw [Int.floor_eq_iff, hfraction]
  rcases hr with ⟨hnonneg, hlt⟩ | ⟨hlt, hnonpos⟩
  · have hpos : (0 : ℚ) < b := by exact_mod_cast (by omega : 0 < b)
    have hle : (0 : ℚ) ≤ r / b := div_nonneg (by exact_mod_cast hnonneg) hpos.le
    have hone : (r : ℚ) / b < 1 := (div_lt_one hpos).2 (by exact_mod_cast hlt)
    constructor <;> linarith
  · have hneg : (b : ℚ) < 0 := by exact_mod_cast (by omega : b < 0)
    have hle : (0 : ℚ) ≤ r / b := div_nonneg_of_nonpos (by exact_mod_cast hnonpos) hneg.le
    have hone : (r : ℚ) / b < 1 := (div_lt_one_of_neg hneg).2 (by exact_mod_cast hlt)
    constructor <;> linarith

/-- A remainder on the divisor's side of zero has its sign, and belongs to the floor. -/
theorem remainder_of_side {a b q r : Int} (h : b * q + r = a)
    (hr : 0 ≤ r ∧ r < b ∨ b < r ∧ r ≤ 0) :
    (r = 0 ∨ r.sign = b.sign) ∧ |r| < |b| ∧ a = b * ⌊(a : ℚ) / b⌋ + r := by
  rw [floor_div_eq h hr]
  refine ⟨?_, ?_, h.symm⟩
  · by_cases hzero : r = 0
    · exact .inl hzero
    · refine .inr ?_
      rcases hr with hr | hr
      · rw [Int.sign_eq_one_of_pos (by omega), Int.sign_eq_one_of_pos (by omega)]
      · rw [Int.sign_eq_neg_one_of_neg (by omega), Int.sign_eq_neg_one_of_neg (by omega)]
  · rw [Int.abs_eq_natAbs, Int.abs_eq_natAbs]
    omega

namespace Truncates

variable {a b q r : Int}

theorem floor_of_differ (h : Truncates a b q r) (hr : r ≠ 0) (hsign : ¬ (a < 0 ↔ b < 0)) :
    ⌊(a : ℚ) / b⌋ = q - 1 := by
  obtain ⟨hsum, hsmall, hnonneg, hnonpos⟩ := h
  refine floor_div_eq (r := r + b) ?_ (by omega)
  rw [Int.mul_sub]
  omega

theorem floor_of_agree (h : Truncates a b q r) (hagree : r = 0 ∨ (a < 0 ↔ b < 0)) :
    ⌊(a : ℚ) / b⌋ = q := by
  obtain ⟨hsum, hsmall, hnonneg, hnonpos⟩ := h
  exact floor_div_eq hsum (by omega)

end Truncates

section Quotients

variable {a b q : Int64}

theorem quotient?_eq_none_iff (hb : b.toInt ≠ 0) :
    quotient? a b = none ↔ a.toInt = least ∧ b.toInt = -1 := by
  have ha := inRange_toInt a
  rw [quotient?, fit?_eq_none_iff]
  unfold InRange least greatest at *
  by_cases hone : b.toInt.natAbs = 1
  · rcases Int.natAbs_eq_iff.1 hone with hb | hb
    · rw [hb, Nat.cast_one, Int.tdiv_one]
      omega
    · rw [hb, Nat.cast_one, Int.tdiv_neg, Int.tdiv_one]
      omega
  · have hle : (a.toInt.tdiv b.toInt).natAbs ≤ a.toInt.natAbs / 2 := by
      rw [Int.natAbs_tdiv]
      exact Nat.div_le_div_left (by omega) (by decide)
    omega

theorem truncates_of_quotient? (h : quotient? a b = some q) (hb : b.toInt ≠ 0) :
    Truncates a.toInt b.toInt q.toInt (a % b).toInt := by
  rw [fit?_eq_some_iff.1 h, Int64.toInt_mod]
  exact truncates_tdiv hb

theorem inRange_pred (h : quotient? a b = some q) (hr : (a % b).toInt ≠ 0) (hb : b.toInt ≠ 0) :
    InRange (q.toInt - 1) := by
  have ha := inRange_toInt a
  have htruncates := truncates_of_quotient? h hb
  have hsmall := htruncates.small
  have hle : q.toInt.natAbs ≤ a.toInt.natAbs / 2 := by
    rw [fit?_eq_some_iff.1 h, Int.natAbs_tdiv]
    exact Nat.div_le_div_left (by omega) (by decide)
  unfold InRange least greatest at *
  omega

/-- The floor of a fraction is out of range only where the machine finds no quotient. -/
theorem floor_of_quotient?_eq_none (h : quotient? a b = none) (hb : b.toInt ≠ 0) :
    ⌊(a.toInt : ℚ) / b.toInt⌋ = 9223372036854775808 := by
  obtain ⟨ha, hone⟩ := (quotient?_eq_none_iff hb).1 h
  rw [ha, hone]
  exact floor_div_eq (r := 0) (by decide) (by decide)

theorem not_inRange_floor_iff (hb : b.toInt ≠ 0) :
    ¬ InRange ⌊(a.toInt : ℚ) / b.toInt⌋ ↔ a.toInt = least ∧ b.toInt = -1 := by
  rw [← quotient?_eq_none_iff hb]
  constructor
  · intro hout
    by_contra hsome
    obtain ⟨q, hq⟩ := Option.ne_none_iff_exists'.1 hsome
    have htruncates := truncates_of_quotient? hq hb
    apply hout
    by_cases hadjust : (a % b).toInt ≠ 0 ∧ ¬ (a.toInt < 0 ↔ b.toInt < 0)
    · rw [htruncates.floor_of_differ hadjust.1 hadjust.2]
      exact inRange_pred hq hadjust.1 hb
    · rw [htruncates.floor_of_agree (by tauto)]
      exact inRange_toInt q
  · intro hnone
    rw [floor_of_quotient?_eq_none hnone hb]
    decide

/-- The condition under which the machine's division is not yet rounded down. -/
theorem adjusts_iff {r x y : Int64} : (r != 0 && decide (x < 0) != decide (y < 0)) = true ↔
    r.toInt ≠ 0 ∧ ¬ (x.toInt < 0 ↔ y.toInt < 0) := by
  rw [Bool.and_eq_true, bne_iff_ne, bne_iff_ne, Ne, ← Int64.toInt_inj, Ne, decide_eq_decide,
    Int64.lt_iff_toInt_lt, Int64.lt_iff_toInt_lt, Int64.toInt_zero]

end Quotients

end Word

namespace Machine

open Exec

/-- The value counts as the integer: it is the integer, or the truth value that stands for it. -/
inductive Value.Counts : Value → Int → Prop where
  | int (n : Int64) : Value.Counts (.int n) n.toInt
  | no : Value.Counts (.bool false) 0
  | yes : Value.Counts (.bool true) 1

/-- The computation gives the integer if it has 64 bits, and otherwise raises the exception that the
operation overflows. It changes nothing. -/
def Exact (x : Exec Value) (n : Int) (operation : String) : Prop :=
  ∀ s, (Word.InRange n → ∃ m : Int64, m.toInt = n ∧ x s = .ok (.int m) s) ∧
    (¬ Word.InRange n → x s = .error (.raised
      { kind := .overflowError, message := "integer overflow in " ++ operation }) s)

/-- The computation raises the exception of a division by zero. It changes nothing. -/
def DividesByZero (x : Exec Value) : Prop :=
  ∀ s, x s = .error (.raised
    { kind := .zeroDivisionError, message := "integer division or modulo by zero" }) s

theorem Value.Counts.number? {v : Value} {n : Int} (h : v.Counts n) :
    ∃ a : Int64, v.number? = some (.int a) ∧ a.toInt = n := by
  cases h with
  | int a => exact ⟨a, rfl, rfl⟩
  | no => exact ⟨0, rfl, rfl⟩
  | yes => exact ⟨1, rfl, rfl⟩

section Operations

variable {a b q : Int64} {n : Int} {operation : String} {s : Store}

theorem exact_checked : Exact (checked (Word.fit? n) operation) n operation := by
  intro s
  constructor
  · intro h
    obtain ⟨m, hm, hn⟩ := Word.fit?_of_inRange h
    rw [hm]
    exact ⟨m, hn, rfl⟩
  · intro h
    rw [Word.fit?_of_not_inRange h]
    rfl

theorem exact_of_eq {x : Exec Value} {m : Int64} (hm : m.toInt = n)
    (h : ∀ s, x s = .ok (.int m) s) : Exact x n operation := by
  intro s
  have hin := Word.inRange_toInt m
  rw [hm] at hin
  exact ⟨fun _ => ⟨m, hm, h s⟩, fun hout => absurd hin hout⟩

theorem unchecked_fit (h : Word.InRange n) :
    ∃ m : Int64, m.toInt = n ∧ ∀ s, unchecked (Word.fit? n) s = .ok m s := by
  obtain ⟨m, hm, hn⟩ := Word.fit?_of_inRange h
  refine ⟨m, hn, fun s => ?_⟩
  rw [hm]
  rfl

/-- The machine's quotient, made less by one where it is too great, is the floor. -/
theorem exact_floorQuotient (hb : b.toInt ≠ 0) :
    Exact (floorQuotient a b) ⌊(a.toInt : ℚ) / b.toInt⌋ "floor division" := by
  cases hq : Word.quotient? a b with
  | none =>
    have hout := (Word.not_inRange_floor_iff hb).2 ((Word.quotient?_eq_none_iff hb).1 hq)
    refine fun s => ⟨fun h => absurd h hout, fun _ => ?_⟩
    unfold floorQuotient
    rw [hq]
    rfl
  | some q =>
    have htruncates := Word.truncates_of_quotient? hq hb
    have hquotient : ∀ s, orRaise (Word.quotient? a b) .overflowError
        "integer overflow in floor division" s = .ok q s := by
      intro s
      rw [hq]
      rfl
    have hremainder : ∀ s, unchecked (Word.remainder? a b) s = .ok (a % b) s := by
      intro s
      rw [Word.remainder?, hq]
      rfl
    by_cases hadjust : (a % b).toInt ≠ 0 ∧ ¬ (a.toInt < 0 ↔ b.toInt < 0)
    · rw [htruncates.floor_of_differ hadjust.1 hadjust.2]
      obtain ⟨m, hm, hpred⟩ := unchecked_fit (Word.inRange_pred hq hadjust.1 hb)
      refine exact_of_eq hm fun s => ?_
      unfold floorQuotient
      rw [bind_ok (hquotient s), bind_ok (hremainder s), if_pos (Word.adjusts_iff.2 hadjust)]
      exact bind_ok (hpred s)
    · rw [htruncates.floor_of_agree (by tauto)]
      refine exact_of_eq rfl fun s => ?_
      unfold floorQuotient
      rw [bind_ok (hquotient s), bind_ok (hremainder s), if_neg (mt Word.adjusts_iff.1 hadjust)]
      rfl

theorem truncatedRemainder_ok (hb : b.toInt ≠ 0) :
    ∃ r : Int64, (∀ s, truncatedRemainder a b s = .ok r s) ∧
      ∃ q, Word.Truncates a.toInt b.toInt q r.toInt := by
  unfold truncatedRemainder
  by_cases hone : (b == -1) = true
  · have hminus : b.toInt = -1 := by
      rw [beq_iff_eq.1 hone]
      rfl
    refine ⟨0, fun s => by rw [if_pos hone]; rfl, -a.toInt, ?_⟩
    rw [hminus]
    constructor <;> simp
  · cases hq : Word.quotient? a b with
    | none =>
      have hminus := ((Word.quotient?_eq_none_iff hb).1 hq).2
      exact absurd (beq_iff_eq.2 (Int64.toInt_inj.1 hminus)) hone
    | some q =>
      refine ⟨a % b, fun s => ?_, q.toInt, Word.truncates_of_quotient? hq hb⟩
      rw [if_neg hone, Word.remainder?, hq]
      rfl

/-- The remainder has the sign of the divisor and belongs to the quotient rounded down. -/
theorem floorRemainder_ok (hb : b.toInt ≠ 0) :
    ∃ m : Int64, (∀ s, floorRemainder a b s = .ok (.int m) s) ∧
      (m.toInt = 0 ∨ m.toInt.sign = b.toInt.sign) ∧ |m.toInt| < |b.toInt| ∧
      a.toInt = b.toInt * ⌊(a.toInt : ℚ) / b.toInt⌋ + m.toInt := by
  obtain ⟨r, hr, q, htruncates⟩ := truncatedRemainder_ok (a := a) hb
  obtain ⟨hsum, hsmall, hnonneg, hnonpos⟩ := htruncates
  have hrange := Word.inRange_toInt b
  unfold floorRemainder
  by_cases hadjust : r.toInt ≠ 0 ∧ ¬ (r.toInt < 0 ↔ b.toInt < 0)
  · have hin : Word.InRange (r.toInt + b.toInt) := by
      unfold Word.InRange Word.least Word.greatest at *
      omega
    obtain ⟨m, hm, hadd⟩ := unchecked_fit hin
    refine ⟨m, fun s => ?_, Word.remainder_of_side (q := q - 1) ?_ (by omega)⟩
    · rw [bind_ok (hr s), if_pos (Word.adjusts_iff.2 hadjust)]
      exact bind_ok (hadd s)
    · rw [hm, Int.mul_sub]
      omega
  · refine ⟨r, fun s => ?_, Word.remainder_of_side hsum (by omega)⟩
    rw [bind_ok (hr s), if_neg (mt Word.adjusts_iff.1 hadjust)]
    rfl

end Operations

section Values

variable {v w : Value} {a b : Int}

theorem binary_of_counts (hv : v.Counts a) (hw : w.Counts b) (op : Grammar.BinaryOp) :
    ∃ m n : Int64, m.toInt = a ∧ n.toInt = b ∧ binary op v w = intBinary op m n := by
  obtain ⟨m, hm, ha⟩ := hv.number?
  obtain ⟨n, hn, hb⟩ := hw.number?
  refine ⟨m, n, ha, hb, ?_⟩
  unfold binary
  rw [hm, hn]

theorem exact_neg (hv : v.Counts a) : Exact (unary .neg v) (-a) "negation" := by
  obtain ⟨m, hm, rfl⟩ := hv.number?
  unfold unary
  rw [hm]
  exact exact_checked

theorem exact_abs (hv : v.Counts a) (supply : Supply) :
    Exact (callBuiltin supply .abs [v] []) |a| "abs" := by
  obtain ⟨m, hm, rfl⟩ := hv.number?
  have habsolute : callBuiltin supply .abs [v] [] = checked (Word.abs? m) "abs" := by
    change absolute v = _
    unfold absolute
    rw [hm]
  rw [habsolute, Int.abs_eq_natAbs]
  exact exact_checked

theorem dividesByZero_of_counts (hv : v.Counts a) (hw : w.Counts 0) :
    DividesByZero (binary .floorDiv v w) ∧ DividesByZero (binary .mod v w) := by
  obtain ⟨m, n, -, hn, hdiv⟩ := binary_of_counts hv hw .floorDiv
  obtain ⟨m', n', -, hn', hmod⟩ := binary_of_counts hv hw .mod
  have hzero : n = 0 := Int64.toInt_inj.1 hn
  have hzero' : n' = 0 := Int64.toInt_inj.1 hn'
  rw [hdiv, hmod, hzero, hzero']
  exact ⟨fun _ => rfl, fun _ => rfl⟩

theorem exact_floorDiv (hv : v.Counts a) (hw : w.Counts b) (hb : b ≠ 0) :
    Exact (binary .floorDiv v w) ⌊(a : ℚ) / b⌋ "floor division" := by
  obtain ⟨m, n, rfl, rfl, hdiv⟩ := binary_of_counts hv hw .floorDiv
  have hne : ¬ (n == 0) = true := fun h => hb (by rw [beq_iff_eq.1 h]; rfl)
  rw [hdiv, intBinary, if_neg hne]
  exact exact_floorQuotient hb

theorem mod_of_counts (hv : v.Counts a) (hw : w.Counts b) (hb : b ≠ 0) :
    ∃ r : Int64, (∀ s, binary .mod v w s = .ok (.int r) s) ∧
      (r.toInt = 0 ∨ r.toInt.sign = b.sign) ∧ |r.toInt| < |b| ∧
      a = b * ⌊(a : ℚ) / b⌋ + r.toInt := by
  obtain ⟨m, n, rfl, rfl, hmod⟩ := binary_of_counts hv hw .mod
  have hne : ¬ (n == 0) = true := fun h => hb (by rw [beq_iff_eq.1 h]; rfl)
  rw [hmod, intBinary, if_neg hne]
  exact floorRemainder_ok hb

/-- Values that count as integers are added, subtracted, multiplied, negated and made absolute
exactly. A quotient or a remainder by zero is an exception. By any other divisor the quotient is the
floor of the fraction, out of range only for the least integer by -1, and the remainder is always
there: it has the sign of the divisor, is smaller and is what the quotient leaves of the
dividend. -/
theorem integers_exact (hv : v.Counts a) (hw : w.Counts b) :
    Exact (binary .add v w) (a + b) "addition" ∧
    Exact (binary .sub v w) (a - b) "subtraction" ∧
    Exact (binary .mul v w) (a * b) "multiplication" ∧
    Exact (unary .neg v) (-a) "negation" ∧
    (∀ supply, Exact (callBuiltin supply .abs [v] []) |a| "abs") ∧
    (b = 0 → DividesByZero (binary .floorDiv v w) ∧ DividesByZero (binary .mod v w)) ∧
    (b ≠ 0 →
      Exact (binary .floorDiv v w) ⌊(a : ℚ) / b⌋ "floor division" ∧
      (¬ Word.InRange ⌊(a : ℚ) / b⌋ ↔ a = Word.least ∧ b = -1) ∧
      ∃ r : Int64, (∀ s, binary .mod v w s = .ok (.int r) s) ∧
        (r.toInt = 0 ∨ r.toInt.sign = b.sign) ∧ |r.toInt| < |b| ∧
        a = b * ⌊(a : ℚ) / b⌋ + r.toInt) := by
  refine ⟨?_, ?_, ?_, exact_neg hv, exact_abs hv, ?_, fun hb => ⟨exact_floorDiv hv hw hb, ?_,
    mod_of_counts hv hw hb⟩⟩
  · obtain ⟨m, n, rfl, rfl, hadd⟩ := binary_of_counts hv hw .add
    rw [hadd]
    exact exact_checked
  · obtain ⟨m, n, rfl, rfl, hsub⟩ := binary_of_counts hv hw .sub
    rw [hsub]
    exact exact_checked
  · obtain ⟨m, n, rfl, rfl, hmul⟩ := binary_of_counts hv hw .mul
    rw [hmul]
    exact exact_checked
  · rintro rfl
    exact dividesByZero_of_counts hv hw
  · obtain ⟨m, -, rfl⟩ := hv.number?
    obtain ⟨n, -, rfl⟩ := hw.number?
    exact Word.not_inRange_floor_iff hb

theorem integers_exact_leastByMinusOne :
    (Value.int Int64.minValue).Counts Word.least ∧ (Value.int (-1)).Counts (-1) ∧
    (∀ s, binary .floorDiv (.int Int64.minValue) (.int (-1)) s = .error (.raised
      { kind := .overflowError, message := "integer overflow in floor division" }) s) ∧
    ∃ r : Int64, (∀ s, binary .mod (.int Int64.minValue) (.int (-1)) s = .ok (.int r) s) ∧
      |r.toInt| < 1 := by
  have hleast : (Value.int Int64.minValue).Counts Word.least := .int Int64.minValue
  have hminus : (Value.int (-1)).Counts (-1) := .int (-1)
  obtain ⟨-, -, -, -, -, -, hdivision⟩ := integers_exact hleast hminus
  obtain ⟨hquotient, hout, r, hr, -, hsmall, -⟩ := hdivision (by decide)
  exact ⟨hleast, hminus, fun s => (hquotient s).2 (hout.2 ⟨rfl, rfl⟩), r, hr, hsmall⟩

end Values

section Powers

variable {a b : Int} {n : Nat} {v w : Value}

/-- A power of a base beside 0, 1 and -1 leaves the range within 64 factors. -/
theorem not_inRange_pow (ha : 1 < |a|) (hn : 64 ≤ n) : ¬ Word.InRange (a ^ n) := by
  have hpow : 18446744073709551616 ≤ |a ^ n| := by
    calc (18446744073709551616 : Int) = 2 ^ 64 := by norm_num
      _ ≤ |a| ^ 64 := pow_le_pow_left₀ (by norm_num) (by omega) 64
      _ ≤ |a| ^ n := pow_le_pow_right₀ (by omega) hn
      _ = |a ^ n| := (abs_pow a n).symm
  unfold Word.InRange Word.least Word.greatest
  rw [Int.abs_eq_natAbs] at hpow
  omega

theorem inRange_pow_of_small (ha : |a| ≤ 1) : Word.InRange (a ^ n) := by
  have hpow : |a ^ n| ≤ 1 := by
    rw [abs_pow]
    exact pow_le_one₀ (abs_nonneg a) ha
  unfold Word.InRange Word.least Word.greatest
  rw [Int.abs_eq_natAbs] at hpow
  omega

/-- A power of 0, 1 or -1 depends on the parity of the exponent alone. -/
theorem pow_of_small (ha : |a| ≤ 1) :
    a ^ n = if n = 0 then 1 else if n % 2 = 1 then a else a * a := by
  rw [Int.abs_eq_natAbs] at ha
  rcases Nat.eq_zero_or_pos n with rfl | hpos
  · simp
  have hcases : a = 0 ∨ a = 1 ∨ a = -1 := by omega
  rcases hcases with rfl | rfl | rfl
  · simp [Nat.pos_iff_ne_zero.1 hpos]
  · simp
  · rcases Nat.mod_two_eq_zero_or_one n with heven | hodd
    · rw [Even.neg_one_pow (Nat.even_iff.2 heven)]
      simp [Nat.pos_iff_ne_zero.1 hpos, heven]
    · rw [Odd.neg_one_pow (Nat.odd_iff.2 hodd)]
      simp [Nat.pos_iff_ne_zero.1 hpos, hodd]

/-- Below an exponent of 32 bits, a power is there exactly if it has 64 bits. -/
theorem pow?_eq {m : Int64} (hn : n < 4294967296) : Word.pow? m n = Word.fit? (m.toInt ^ n) := by
  unfold Word.pow?
  rw [if_neg (by omega)]
  dsimp only
  split
  · rename_i hsmall
    rw [pow_of_small (by rw [Int.abs_eq_natAbs]; omega)]
  · rename_i hlarge
    split
    · rename_i hlong
      rw [Word.fit?_of_not_inRange]
      exact not_inRange_pow (by rw [Int.abs_eq_natAbs]; omega) hlong
    · rw [Int.pow_eq]

/-- A power with an exponent that is not negative is exact if the exponent has 32 bits, or the base
is another than 0, 1 and -1. With a longer exponent it is always out of range, which is wrong for
these three. -/
theorem power_exact_iff (hv : v.Counts a) (hw : w.Counts b) (hb : 0 ≤ b) :
    Exact (binary .pow v w) (a ^ b.toNat) "exponentiation" ↔ b < 4294967296 ∨ 1 < |a| := by
  obtain ⟨m, n, rfl, rfl, hpow⟩ := binary_of_counts hv hw .pow
  have hle : 0 ≤ n := by
    rw [Int64.le_iff_toInt_le]
    exact hb
  rw [hpow, intBinary, if_pos hle]
  by_cases hshort : n.toInt < 4294967296
  · rw [pow?_eq (by omega)]
    exact ⟨fun _ => .inl hshort, fun _ => exact_checked⟩
  · have hnone : Word.pow? m n.toInt.toNat = none := by
      unfold Word.pow?
      rw [if_pos (by omega)]
    rw [hnone]
    constructor
    · intro h
      refine .inr (Int.not_le.1 fun hsmall => ?_)
      obtain ⟨k, -, hk⟩ := (h default).1 (inRange_pow_of_small hsmall)
      cases hk
    · intro h
      have hout := not_inRange_pow (h.resolve_left hshort) (n := n.toInt.toNat) (by omega)
      exact fun s => ⟨fun hin => absurd hin hout, fun _ => rfl⟩

theorem power_exact_iff_minusTwo :
    (Value.int (-2)).Counts (-2) ∧ (Value.int 63).Counts 63 ∧ (0 : Int) ≤ 63 ∧
    ∀ s, binary .pow (.int (-2)) (.int 63) s = .ok (.int Int64.minValue) s := by
  have hbase : (Value.int (-2)).Counts (-2) := .int (-2)
  have hexponent : (Value.int 63).Counts 63 := .int 63
  have hexact := (power_exact_iff hbase hexponent (by decide)).2 (.inl (by decide))
  refine ⟨hbase, hexponent, by decide, fun s => ?_⟩
  obtain ⟨m, hm, hrun⟩ := (hexact s).1 (by decide)
  have hleast : (-2 : Int) ^ (63 : Int).toNat = Int64.minValue.toInt := by decide
  rw [hrun, Int64.toInt_inj.1 (hm.trans hleast)]

/-- With an exponent of 33 bits even a power of 1 is refused, which is 1. -/
theorem one_power_refused :
    (∀ s, binary .pow (.int 1) (.int 4294967296) s = .error (.raised
      { kind := .overflowError, message := "integer overflow in exponentiation" }) s) ∧
    (1 : Int) ^ (4294967296 : Int).toNat = 1 ∧
    ¬ Exact (binary .pow (.int 1) (.int 4294967296)) ((1 : Int) ^ (4294967296 : Int).toNat)
      "exponentiation" := by
  have hrefused : ∀ s, binary .pow (.int 1) (.int 4294967296) s = .error (.raised
      { kind := .overflowError, message := "integer overflow in exponentiation" }) s :=
    fun _ => rfl
  refine ⟨hrefused, one_pow _, fun h => ?_⟩
  rw [one_pow] at h
  obtain ⟨m, -, hm⟩ := (h default).1 (by decide)
  rw [hrefused] at hm
  cases hm

end Powers

end Machine

end Lexiscope
