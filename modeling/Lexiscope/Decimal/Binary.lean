import Lexiscope.Data.Double
/-!
# What a double stands for

A finite double is a signed natural number times a power of two. This module takes a double
apart into these, finds the double nearest to a positive fraction, and computes on the
exact values.
-/

namespace Lexiscope.Decimal

def twoTo (n : Nat) : Nat := Nat.pow 2 n

def tenTo (n : Nat) : Nat := Nat.pow 10 n

/-- The value of a double: not a number, an infinity, or `± mantissa * 2 ^ exponent`. -/
inductive Shape where
  | nan
  | infinite (negative : Bool)
  | finite (negative : Bool) (mantissa : Nat) (exponent : Int)
  deriving DecidableEq, Repr, Inhabited

/-- The exponent of the last place of the smallest doubles. -/
def leastExponent : Int := -1074

def Shape.ofBits (bits : Nat) : Shape :=
  let negative := bits / twoTo 63 % 2 == 1
  let biased : Nat := bits / twoTo 52 % 2048
  let fraction : Nat := bits % twoTo 52
  if biased == 2047 then
    if fraction == 0 then .infinite negative else .nan
  else if biased == 0 then .finite negative fraction leastExponent
  else .finite negative (twoTo 52 + fraction) ((biased : Int) - 1075)

def shape (x : Double) : Shape :=
  .ofBits x.bits.toNat

/-- The natural number and the power of two whose quotient is `mantissa * 2 ^ exponent`. -/
def fraction (mantissa : Nat) (exponent : Int) : Nat × Nat :=
  (mantissa * twoTo exponent.toNat, twoTo (-exponent).toNat)

/-- The quotient rounded to the nearest natural number, and a half to the even one. -/
def roundQuotient (num den : Nat) : Nat :=
  let q := num / den
  let twice := 2 * (num % den)
  if twice < den then q
  else if den < twice then q + 1
  else if q % 2 == 0 then q else q + 1

/-- The exponent of the last place of a double near the positive fraction `num / den`: the
fraction has at least 53 binary digits before that place, and exactly 53 unless the exponent is
the least one. -/
def lastPlace (num den : Nat) : Int :=
  let guess : Int := (num.log2 : Int) - den.log2 - 52
  let quotient := num * twoTo (-guess).toNat / (den * twoTo guess.toNat)
  max (if quotient < twoTo 52 then guess - 1 else guess) leastExponent

/-- The bit pattern of the double nearest to `num / den`, which is an infinity from halfway
above the largest double on. A rounded mantissa of 54 digits carries into the exponent. -/
def nearestBits (num den : Nat) : Nat :=
  if num == 0 || den == 0 then 0
  else
    let e := lastPlace num den
    let mantissa := roundQuotient (num * twoTo (-e).toNat) (den * twoTo e.toNat)
    min ((e - leastExponent).toNat * twoTo 52 + mantissa) (2047 * twoTo 52)

/-- The double nearest to `num / den` with the sign asked for. -/
def nearest (negative : Bool) (num den : Nat) : Double :=
  let bits := nearestBits num den
  ⟨UInt64.ofNat (if negative then bits + twoTo 63 else bits)⟩

/-- The integer part of a finite double, and zero for the others. -/
def truncate (x : Double) : Int :=
  match shape x with
  | .finite negative mantissa exponent =>
    let parts := fraction mantissa exponent
    let size : Int := parts.1 / parts.2
    if negative then -size else size
  | _ => 0

/-- The remainder of a division whose quotient is cut toward zero. It is computed on the
exact values, is itself a double, and takes the sign of the dividend. -/
def remainder (x y : Double) : Double :=
  match shape x, shape y with
  | .nan, _ => x
  | _, .nan => y
  | .finite negative m p, .finite _ n q =>
    if n == 0 then .undefined
    else
      let e := min p q
      let r := (m * twoTo (p - e).toNat) % (n * twoTo (q - e).toNat)
      let parts := fraction r e
      nearest negative parts.1 parts.2
  | .finite .., .infinite _ => x
  | .infinite _, _ => .undefined

end Lexiscope.Decimal
