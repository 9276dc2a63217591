import Lexiscope.Text.Blank
/-!
# Options of a capture

The two ways in which the local names of a body can be recovered, and what a wrapper may use
to find the values of outer names.
-/

namespace Lexiscope.Capture

/-- How the local names of a body are recovered. -/
inductive Mechanism where
  /-- The body is instrumented so that it returns its local names with its value. -/
  | transform
  /-- The body runs as it is, and its frame is observed. -/
  | trace
  deriving DecidableEq, Repr, Inhabited

namespace Mechanism

def name : Mechanism → String
  | transform => "transform"
  | trace => "trace"

end Mechanism

/-- A mechanism, or whichever is preset when it is needed. -/
abbrev Choice := Option Mechanism

def Choice.name (c : Choice) : String := (c.map Mechanism.name).getD "default"

/-- The choice that a word stands for, in whatever case and between blanks. -/
def Choice.ofText? (text : String) : Option Choice :=
  match String.ofList ((Text.trimBlanks text.toList).map Char.toLower) with
  | "default" => some none
  | "transform" | "bytecode" => some (some .transform)
  | "trace" => some (some .trace)
  | _ => none

def unknownMechanism (text : String) : String :=
  "unknown capture method '" ++ text ++ "' (expected transform, trace or default)"

def firstPreset : Mechanism := .transform

/-- The options of a wrapper. -/
structure Options where
  /-- Closure names may take their values from the cells of the function. -/
  useClosures : Bool := true
  /-- Global names may take their values from the globals of the function. -/
  useGlobals : Bool := true
  mechanism : Mechanism
  /-- The longest jump from a return to the tail of an instrumented body. -/
  reach : Nat := 255
  deriving DecidableEq, Repr, Inhabited

/-- Options that are given anew; the others are inherited. -/
structure Overrides where
  useClosures : Option Bool := none
  useGlobals : Option Bool := none
  mechanism : Option Mechanism := none
  deriving DecidableEq, Repr, Inhabited

def Options.override (o : Options) (new : Overrides) : Options :=
  { o with
    useClosures := new.useClosures.getD o.useClosures
    useGlobals := new.useGlobals.getD o.useGlobals
    mechanism := new.mechanism.getD o.mechanism }

end Lexiscope.Capture
