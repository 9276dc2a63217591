import Lexiscope.Decimal.Binary
/-!
# Reading a double

A decimal text is a sign, digits with an optional point, and an optional exponent; or it is
the name of an infinity or of a value that is not a number. The double read is the nearest.
-/

namespace Lexiscope.Decimal

def digitsValue (cs : List Char) : Nat :=
  cs.foldl (fun n c => 10 * n + (c.toNat - 48)) 0

/-- A natural number: at least one digit and nothing else. -/
def readDigits? (cs : List Char) : Option Nat :=
  if cs.isEmpty || !cs.all Char.isDigit then none else some (digitsValue cs)

/-- An integer: an optional sign and at least one digit. -/
def readInt? : List Char → Option Int
  | '-' :: ds => (readDigits? ds).map fun n => -(n : Int)
  | '+' :: ds => (readDigits? ds).map fun n => (n : Int)
  | ds => (readDigits? ds).map fun n => (n : Int)

/-- The double nearest to `digits * 10 ^ exponent`. A power of ten beyond the range of
doubles decides the result alone. -/
def nearestDecimal (negative : Bool) (digits : Nat) (exponent : Int) : Double :=
  let size : Int := digits.log2
  if digits == 0 || exponent * 3 + size < -1100 && exponent < 0 then nearest negative 0 1
  else if 400 < exponent then nearest negative (twoTo 1025) 1
  else nearest negative (digits * tenTo exponent.toNat) (tenTo (-exponent).toNat)

def readUnsigned? (negative : Bool) (cs : List Char) : Option Double :=
  let whole := cs.takeWhile Char.isDigit
  let rest := cs.dropWhile Char.isDigit
  let places := match rest with
    | '.' :: ds => ds.takeWhile Char.isDigit
    | _ => []
  let tail := match rest with
    | '.' :: ds => ds.dropWhile Char.isDigit
    | _ => rest
  if whole.isEmpty && places.isEmpty then none
  else
    let value (e : Int) : Double :=
      nearestDecimal negative (digitsValue (whole ++ places)) (e - places.length)
    match tail with
    | [] => some (value 0)
    | 'e' :: es | 'E' :: es => (readInt? es).map value
    | _ => none

def readMagnitude? (negative : Bool) (cs : List Char) : Option Double :=
  let word := String.ofList (cs.map Char.toLower)
  let signed (x : Double) : Double := if negative then x.neg else x
  if word == "inf" || word == "infinity" then some (signed .infinity)
  else if word == "nan" then some (signed .nan)
  else readUnsigned? negative cs

def read? (text : String) : Option Double :=
  match text.toList with
  | '-' :: cs => readMagnitude? true cs
  | '+' :: cs => readMagnitude? false cs
  | cs => readMagnitude? false cs

end Lexiscope.Decimal
