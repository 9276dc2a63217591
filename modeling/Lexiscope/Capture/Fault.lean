import Lexiscope.Machine.Arguments
/-!
# Faults of a capture

Why a function could not be wrapped, or a wrapped call gave no scope.
-/

namespace Lexiscope.Capture

open Machine (Halt Raised)

/-- Bodies that cannot be run. -/
inductive BodyKind where
  | coroutine
  | asyncGenerator
  deriving DecidableEq, Repr, Inhabited

def BodyKind.words : BodyKind → String
  | coroutine => "coroutine"
  | asyncGenerator => "async generator"

/-- What is wrong with a wrapper or its call. -/
inductive CaptureError where
  /-- Outer names have no value when the wrapper is called. -/
  | unresolved (names : List Name)
  | unsupported (function : String) (kind : BodyKind)
  /-- Some returns are too far from the tail of the instrumented body. -/
  | outOfReach (function : String) (unreachable total farthest reach : Nat)
  /-- An assignment makes a name local that was meant to be an outer one. -/
  | shadowed (name : Name) (source : Raised)
  /-- The body ended without its local names. -/
  | malformed (function : String)
  | notFunction (found : Name)
  /-- The body itself stopped. -/
  | body (halt : Halt)
  deriving DecidableEq, Repr, Inhabited

namespace CaptureError

def ofHalt (halt : Halt) : CaptureError :=
  match halt with
  | .raised e =>
    match e.unbound with
    | some name => shadowed name e
    | none => body halt
  | _ => body halt

def message : CaptureError → String
  | unresolved names =>
    "Undefined variables: " ++ Machine.quotedNames names ++
      ".\nUse `bind` method to assign values for these names before calling."
  | unsupported function kind =>
    "cannot capture the scope of " ++ function ++ ": " ++ kind.words ++
      " bodies are not supported"
  | outOfReach function unreachable total farthest reach =>
    "cannot rewrite " ++ function ++ ": " ++ toString unreachable ++ " of " ++
      toString total ++ " return points are beyond the capture tail's reach (farthest is " ++
      toString farthest ++ " instructions away, reach is " ++ toString reach ++
      ").\nUse the trace method, or keep the returns of this function closer together."
  | shadowed name source =>
    source.render ++ ".\n\nThis probably means you assigned to a local variable with the " ++
      "same name as a variable in an outer scope that you meant to use. Reads of a name " ++
      "resolve locally everywhere in a body that assigns to it. Workarounds include:\n" ++
      "    - Pass " ++ name ++ " in as an argument to the function.\n" ++
      "    - Don't assign to " ++ name ++ "; use a different name for the local variable."
  | malformed function =>
    function ++ " did not produce a scope; the capture was malformed"
  | notFunction found => "expected a function to wrap, found '" ++ found ++ "'"
  | body halt => halt.message

end CaptureError

end Lexiscope.Capture
