import Lexiscope.Capture.Fault
import Lexiscope.Code.Basic
/-!
# Instrumented bodies

An instrumented body does not return at its returns but jumps forward to a tail, which puts the
value, a dictionary of the local names and a marker into a tuple and returns that. No
instruction moves, so that all other jumps stay right.
-/

namespace Lexiscope.Capture

open Code (Instr Object Marker)

def returnDistances (c : Object) : List Nat :=
  c.instructions.toList.zipIdx.filterMap fun p =>
    if p.1 = .returnValue then some (c.instructions.size - (p.2 + 1)) else none

/-- An instruction with a return made into a jump to the end of the code. -/
def redirect (size place : Nat) (i : Instr) : Instr :=
  if i = .returnValue then .jumpForward (size - (place + 1)) else i

/-- What comes after the code: it finds the value on the stack. -/
def captureTail (marker : Nat) : Array Instr :=
  #[.snapshotLocals, .loadConst marker, .buildTuple 3, .returnValue]

/-- The code that returns its value, its local names and a marker. No return may be more than
`reach` instructions away from the tail. -/
def instrument (c : Object) (marker : Marker) (reach : Nat) : Except CaptureError Object :=
  let distances := returnDistances c
  let unreachable := distances.countP (reach < ·)
  if 0 < unreachable then
    .error (.outOfReach c.qualname unreachable distances.length (distances.foldl max 0) reach)
  else
    .ok { c with
      instructions := c.instructions.mapIdx (redirect c.instructions.size) ++
        captureTail c.constants.size
      constants := c.constants.push (.marker marker) }

end Lexiscope.Capture
