import Lexiscope.Decimal.Shortest
/-!
# Layouts of a double

A layout says how the shortest decimal of a double is written: from which magnitudes on an
exponent is used, and whether a whole number keeps a fraction.
-/

namespace Lexiscope.Decimal

/-- How doubles are written. -/
structure Layout where
  nan : String
  infinity : String
  /-- The powers of ten, of the leading digit, that are written without an exponent. -/
  positional : Int → Bool
  /-- A whole number written without an exponent ends in `.0`. -/
  keepsFraction : Bool

/-- The digits of a decimal, with zeros and a point put in. -/
def Numeral.positional (d : Numeral) (keepsFraction : Bool) : String :=
  let digits := (toString d.digits).toList
  if 0 ≤ d.exponent then
    let whole := String.ofList (digits ++ List.replicate d.exponent.toNat '0')
    if keepsFraction then whole ++ ".0" else whole
  else
    let places := (-d.exponent).toNat
    let padded := List.replicate (places + 1 - digits.length) '0' ++ digits
    let cut := padded.length - places
    String.ofList (padded.take cut ++ '.' :: padded.drop cut)

/-- The digits of a decimal with a point after the first one, and an exponent. -/
def Numeral.scientific (d : Numeral) : String :=
  let digits := (toString d.digits).toList
  let power := d.exponent + (digits.length - 1 : Nat)
  let point := if digits.length ≤ 1 then [] else ['.']
  String.ofList (digits.take 1 ++ point ++ digits.drop 1) ++ "e" ++ toString power

/-- The power of ten of the leading digit. -/
def Numeral.magnitude (d : Numeral) : Int :=
  d.exponent + ((toString d.digits).length - 1 : Nat)

def Layout.write (l : Layout) (x : Double) : String :=
  match shape x with
  | .nan => l.nan
  | .infinite negative => (if negative then "-" else "") ++ l.infinity
  | .finite negative mantissa exponent =>
    let d := shortest mantissa exponent
    (if negative then "-" else "") ++
      if mantissa == 0 || l.positional d.magnitude then d.positional l.keepsFraction
      else d.scientific

/-- Numeral alone: no exponent, and no fraction for a whole number. -/
def plain : Layout := ⟨"NaN", "inf", fun _ => true, false⟩

/-- Every number shows that it is not an integer: positional from `10 ^ -4` up to
`10 ^ 16`, and with an exponent elsewhere. -/
def marked : Layout := ⟨"NaN", "inf", fun m => -4 ≤ m && m < 16, true⟩

/-- The form of the language's own floats: whole numbers below `10 ^ 16` keep a fraction,
and no number has an exponent. -/
def guest (x : Double) : String :=
  match shape x with
  | .nan => "nan"
  | .infinite _ => plain.write x
  | .finite _ mantissa exponent =>
    let d := shortest mantissa exponent
    { plain with keepsFraction := d.exponent < 0 || d.magnitude < 16 }.write x

end Lexiscope.Decimal
