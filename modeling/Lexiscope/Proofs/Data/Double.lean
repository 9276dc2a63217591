import Lexiscope.Data.Double
import Mathlib.Tactic.SplitIfs
import Mathlib.Algebra.Group.Nat.Defs
/-!
# Doubles that are numbers

A comparison goes through the logical model of floats, which unpacks the bits into a sign, a mantissa
and an exponent, and packs them again. What is a number stays one on the way, so that the bits alone
decide whether a double equals itself.
-/

namespace Lexiscope.Double

open Float.Model

section Packing

variable {f : Format}

theorem compare_self {u : UnpackedFloat} (h : u ≠ .notANumber) : u.compare u = some .eq := by
  cases u with
  | notANumber => exact absurd rfl h
  | infinity s => cases s <;> rfl
  | zero s => cases s <;> rfl
  | finite s m e hm =>
    have hequal : (compare e e).then (compare m m) = .eq := by simp
    cases s with
    | positive => exact congrArg some hequal
    | negative => exact congrArg (some ∘ Ordering.swap) hequal

theorem unpack_eq_notANumber {b : BitVec f.numBits} :
    UnpackedFloat.unpack f b = .notANumber ↔
      UnpackedFloat.unpackExponent b = -1#_ ∧ UnpackedFloat.unpackMantissa b ≠ 0#_ := by
  unfold UnpackedFloat.unpack
  dsimp only
  by_cases hones : UnpackedFloat.unpackExponent b = -1#_
  · rw [if_pos hones]
    by_cases hzero : UnpackedFloat.unpackMantissa b = 0#_
    · rw [if_pos hzero]
      exact iff_of_false UnpackedFloat.noConfusion fun h => h.2 hzero
    · rw [if_neg hzero]
      exact iff_of_true rfl ⟨hones, hzero⟩
  · rw [if_neg hones]
    refine iff_of_false (fun h => ?_) fun h => hones h.1
    by_cases hleast : UnpackedFloat.unpackExponent b = 0#_
    · rw [if_pos hleast] at h
      by_cases hzero : UnpackedFloat.unpackMantissa b = 0#_
      · rw [dif_pos hzero] at h; cases h
      · rw [dif_neg hzero] at h; cases h
    · rw [if_neg hleast] at h; cases h

/-- An exponent that fits is not the one that is kept for infinities and what is not a number. -/
theorem exponent_ne_ones {n : Nat} (h : n < 2 ^ f.exponentBits - 1) :
    BitVec.ofNat f.exponentBits n ≠ -1#_ := by
  intro heq
  have hnat := congrArg BitVec.toNat heq
  rw [BitVec.neg_one_eq_allOnes, BitVec.toNat_ofNat, BitVec.toNat_allOnes,
    Nat.mod_eq_of_lt (by omega)] at hnat
  omega

/-- A number is still one after it was packed: its bits have another exponent, or no mantissa. -/
theorem unpack_pack_ne {u : UnpackedFloat} (h : u ≠ .notANumber) :
    UnpackedFloat.unpack f (UnpackedFloat.pack f u) ≠ .notANumber := by
  rw [Ne, unpack_eq_notANumber]
  rintro ⟨hexponent, hmantissa⟩
  cases u with
  | notANumber => exact h rfl
  | infinity s => exact hmantissa UnpackedFloat.unpackMantissa_packComponents
  | zero s => exact hmantissa UnpackedFloat.unpackMantissa_packComponents
  | finite s m e hm =>
    unfold UnpackedFloat.pack at hexponent hmantissa
    dsimp only at hexponent hmantissa
    split_ifs at hexponent hmantissa with hover hnormal
    · exact hmantissa UnpackedFloat.unpackMantissa_packComponents
    · rw [UnpackedFloat.unpackExponent_packComponents] at hexponent
      exact exponent_ne_ones (by omega) hexponent
    · rw [UnpackedFloat.unpackExponent_packComponents] at hexponent
      have hpos : 2 ≤ 2 ^ f.exponentBits := Nat.le_self_pow (Nat.ne_of_gt f.he) 2
      exact exponent_ne_ones (n := 0) (by omega) hexponent

end Packing

variable (x : Double)

theorem abs_toNat : x.abs.bits.toNat = x.bits.toNat % 2 ^ 63 := by
  have hmask : (~~~signBit).toNat = 2 ^ 63 - 1 := rfl
  rw [abs, UInt64.toNat_and, hmask, Nat.and_two_pow_sub_one_eq_mod]

/-- The bits say that the value is not a number exactly if the model of floats says so. -/
theorem isNaN_iff :
    x.isNaN = true ↔ UnpackedFloat.unpack .binary64 x.bits.toBitVec = .notANumber := by
  have hlt := x.bits.toNat_lt
  have hexponent : (@UnpackedFloat.unpackExponent .binary64 x.bits.toBitVec).toNat =
      x.bits.toNat / 2 ^ 52 % 2 ^ 11 := by
    simp [UnpackedFloat.unpackExponent, Nat.shiftRight_eq_div_pow]
  have hmantissa : (@UnpackedFloat.unpackMantissa .binary64 x.bits.toBitVec).toNat =
      x.bits.toNat % 2 ^ 52 := by
    simp [UnpackedFloat.unpackMantissa]
  have hinfinity : infinity.bits.toNat = 2047 * 2 ^ 52 := rfl
  have hones : (-1#11).toNat = 2047 := rfl
  have hzero : (0#52).toNat = 0 := rfl
  rw [unpack_eq_notANumber, Ne, ← BitVec.toNat_inj, ← BitVec.toNat_inj, hexponent, hmantissa, hones,
    hzero, isNaN, decide_eq_true_iff, UInt64.lt_iff_toNat_lt, hinfinity, abs_toNat]
  omega

theorem unpack_toFloat : x.toFloat.toModel.unpack = .notANumber ↔ x.isNaN = true := by
  have hpacked : x.toFloat.toModel.unpack = UnpackedFloat.unpack .binary64
      (UnpackedFloat.pack .binary64 (UnpackedFloat.unpack .binary64 x.bits.toBitVec)) := rfl
  rw [isNaN_iff, hpacked]
  constructor
  · exact fun h => Classical.not_not.1 fun hnumber => unpack_pack_ne hnumber h
  · intro h
    rw [h]
    rfl

theorem equals_self : x.equals x = !x.isNaN := by
  have heq : x.equals x =
      (x.toFloat.toModel.unpack.compare x.toFloat.toModel.unpack == some .eq) := rfl
  rw [heq]
  cases hx : x.isNaN with
  | true => rw [(unpack_toFloat x).2 hx]; rfl
  | false =>
    have hnumber : x.toFloat.toModel.unpack ≠ .notANumber := by simp [unpack_toFloat, hx]
    rw [compare_self hnumber]; rfl

end Lexiscope.Double
