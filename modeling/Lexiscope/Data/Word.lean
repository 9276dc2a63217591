/-!
# Integers of 64 bits

Arithmetic that does not wrap: a result is an integer of 64 bits exactly if the mathematical
result is in range.
-/

namespace Lexiscope.Word

def least : Int := -9223372036854775808

def greatest : Int := 9223372036854775807

/-- A mathematical integer as one of 64 bits, if it is in range. -/
def fit? (n : Int) : Option Int64 :=
  if least ≤ n ∧ n ≤ greatest then some (Int64.ofInt n) else none

theorem fit?_eq_some_iff {n : Int} {a : Int64} : fit? n = some a ↔ a.toInt = n := by
  have hle := a.le_toInt
  have hlt := a.toInt_lt
  unfold fit? least greatest
  constructor
  · intro h
    split at h
    · rename_i hn
      cases h
      rw [Int64.toInt_ofInt_of_le] <;> omega
    · cases h
  · rintro rfl
    rw [if_pos (by omega)]
    simp

theorem fit?_eq_none_iff {n : Int} : fit? n = none ↔ n < least ∨ greatest < n := by
  unfold fit?
  split <;> simp <;> omega

def clamp (n : Int) : Int64 :=
  Int64.ofInt (max least (min greatest n))

def add? (a b : Int64) : Option Int64 := fit? (a.toInt + b.toInt)

def sub? (a b : Int64) : Option Int64 := fit? (a.toInt - b.toInt)

def mul? (a b : Int64) : Option Int64 := fit? (a.toInt * b.toInt)

def neg? (a : Int64) : Option Int64 := fit? (-a.toInt)

def abs? (a : Int64) : Option Int64 := fit? a.toInt.natAbs

/-- The quotient rounded toward zero, if it is in range. The divisor is not zero. -/
def quotient? (a b : Int64) : Option Int64 := fit? (a.toInt.tdiv b.toInt)

/-- The remainder of that division, with the sign of the dividend. There is none if the quotient
is out of range. -/
def remainder? (a b : Int64) : Option Int64 := (quotient? a b).map fun _ => a % b

/-- The power, if the exponent is below `2 ^ 32` and the result is in range. A base other
than 0, 1 and -1 leaves the range within 64 factors. -/
def pow? (a : Int64) (exponent : Nat) : Option Int64 :=
  if 4294967296 ≤ exponent then none
  else
    let base := a.toInt
    if base.natAbs ≤ 1 then fit? (if exponent = 0 then 1 else if exponent % 2 = 1 then base
      else base * base)
    else if 64 ≤ exponent then none
    else fit? (Int.pow base exponent)

end Lexiscope.Word
