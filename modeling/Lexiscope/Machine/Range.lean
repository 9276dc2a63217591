import Lexiscope.Data.Word
/-!
# Ranges

An arithmetic progression of integers, with a step that is not zero. The distance between
the ends is cut at the greatest integer.
-/

namespace Lexiscope.Machine

/-- The integers from `start` on, `step` apart, before `stop`. -/
structure Range where
  start : Int64
  stop : Int64
  step : Int64
  deriving DecidableEq, Repr, Inhabited

namespace Range

/-- The distance from the start to the stop in the direction of the step. -/
def distance (r : Range) : Int64 :=
  if 0 < r.step then Word.clamp (r.stop.toInt - r.start.toInt)
  else Word.clamp (r.start.toInt - r.stop.toInt)

def length (r : Range) : Nat :=
  let distance := r.distance.toInt.toNat
  let step := r.step.toInt.natAbs
  (distance + step - 1) / step

def get? (r : Range) (index : Nat) : Option Int64 :=
  if r.length ≤ index then none
  else
    (Word.fit? index).bind fun i =>
      (Word.mul? i r.step).bind fun offset => Word.add? r.start offset

def contains (r : Range) (n : Int64) : Bool :=
  let within := if 0 < r.step then r.start ≤ n && n < r.stop else n ≤ r.start && r.stop < n
  within && (n.toInt - r.start.toInt) % r.step.toInt == 0

def render (r : Range) : String :=
  let ends := toString r.start.toInt ++ ", " ++ toString r.stop.toInt
  if r.step == 1 then "range(" ++ ends ++ ")"
  else "range(" ++ ends ++ ", " ++ toString r.step.toInt ++ ")"

end Range

end Lexiscope.Machine
