import Lexiscope.Decimal.Binary
/-!
# The shortest decimal of a double

Among the decimals that round to a given double, the ones with the fewest digits are
preferred, and of these the one nearest to the double. The search tries one grid of
decimals after another, from coarse to fine, and on each grid only the two neighbours of the
double.
-/

namespace Lexiscope.Decimal

/-- The decimal `digits * 10 ^ exponent`. -/
structure Numeral where
  digits : Nat
  exponent : Int
  deriving DecidableEq, Repr, Inhabited

/-- The reals that round to a positive double, on a common denominator. The ends belong to
them when the mantissa is even. -/
structure Interval where
  low : Nat
  value : Nat
  high : Nat
  den : Nat
  closed : Bool

/-- Halfway to the neighbour below and halfway to the neighbour above. Below a power of two
the neighbour is nearer. -/
def Interval.around (mantissa : Nat) (exponent : Int) : Interval :=
  let below := if mantissa == twoTo 52 && leastExponent < exponent then 1 else 2
  let scale := twoTo (exponent - 2).toNat
  { low := (4 * mantissa - below) * scale
    value := 4 * mantissa * scale
    high := (4 * mantissa + 2) * scale
    den := twoTo (2 - exponent).toNat
    closed := mantissa % 2 == 0 }

/-- The decimal `digits * 10 ^ exponent` lies in the interval. -/
def Interval.holds (i : Interval) (digits : Nat) (exponent : Int) : Bool :=
  let num := digits * tenTo exponent.toNat * i.den
  let den := tenTo (-exponent).toNat
  if i.closed then i.low * den ≤ num && num ≤ i.high * den
  else i.low * den < num && num < i.high * den

/-- The decimal on the grid `10 ^ exponent` that lies in the interval and nearest to its
value. Of two equally near ones it is the upper. -/
def Interval.pick? (i : Interval) (exponent : Int) : Option Nat :=
  let num := i.value * tenTo (-exponent).toNat
  let den := i.den * tenTo exponent.toNat
  let under := num / den
  let twice := 2 * (num % den)
  match i.holds under exponent, i.holds (under + 1) exponent with
  | true, true => some (if twice < den then under else under + 1)
  | true, false => some under
  | false, true => some (under + 1)
  | false, false => none

/-- The first grid with a decimal in the interval, from `10 ^ exponent` downward. -/
def Interval.search (i : Interval) (exponent : Int) : Nat → Numeral
  | 0 => ⟨i.value * tenTo (-exponent).toNat / i.den, exponent⟩
  | n + 1 =>
    match i.pick? exponent with
    | some digits => ⟨digits, exponent⟩
    | none => i.search (exponent - 1) n

/-- Zeros at the end of the digits move into the exponent. -/
def Numeral.strip (d : Numeral) : Nat → Numeral
  | 0 => d
  | n + 1 =>
    if d.digits != 0 && d.digits % 10 == 0 then
      Numeral.strip ⟨d.digits / 10, d.exponent + 1⟩ n
    else d

/-- The shortest decimal that rounds to `mantissa * 2 ^ exponent`. The first grid is coarser
than the number itself, and eighteen digits always suffice. -/
def shortest (mantissa : Nat) (exponent : Int) : Numeral :=
  if mantissa == 0 then ⟨0, 0⟩
  else
    let magnitude := ((mantissa.log2 : Int) + exponent) * 30103 / 100000 + 1
    ((Interval.around mantissa exponent).search magnitude 20).strip 20

end Lexiscope.Decimal
