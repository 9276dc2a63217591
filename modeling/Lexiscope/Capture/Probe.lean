import Lexiscope.Machine.Run
/-!
# Probes

A probe recovers the local names of one body. It either waits for the marker that only the
tail of an instrumented body gives, or observes frames while the body runs: it holds on to the
first frame that runs the code and takes the names when that frame returns.
-/

namespace Lexiscope.Capture

open Code (Marker)
open Machine (Store Value NameMap Exec Halt Origin Observer)

/-- What a call is watched with, and what has been seen. -/
inductive Probe where
  /-- The value of the body holds the local names beside this marker. -/
  | transform (marker : Marker)
  /-- The first frame that runs the target, once it has started, and its local names, once it
  has returned. -/
  | trace (target : Origin) (frame : Option Nat) (locals : Option NameMap)
  deriving Inhabited

namespace Probe

/-- Takes the observer in front away and gives what it has seen. -/
def removeObserver (target : Origin) : Exec Probe :=
  modifyGet fun s =>
    match s.observers with
    | .capture _ target frame locals :: rest =>
      (.trace target frame locals, { s with observers := rest })
    | _ :: rest => (.trace target none none, { s with observers := rest })
    | [] => (.trace target none none, s)

/-- Runs a step of a body under a probe. The outcome of the step does not matter. -/
def during {α : Type} (p : Probe) (forwards : Bool) (step : Exec α) :
    Exec (Except Halt α × Probe) := do
  match p with
  | .transform _ => return (← Exec.attempt step, p)
  | .trace target frame locals =>
    -- Other observers go on seeing what happens if the one in front lets them.
    let observer := Observer.capture forwards target frame locals
    modify fun s => { s with observers := observer :: s.observers }
    let outcome ← Exec.attempt step
    return (outcome, ← removeObserver target)

/-- The names of a dictionary, if all its keys are texts. -/
def namesOf : List (Machine.Key × Value) → Option (List (Name × Value))
  | [] => some []
  | (.str name, v) :: rest => (namesOf rest).map ((name.text, v) :: ·)
  | _ => none

/-- The value that a body returned and its local names, from what it ended with. -/
def finish (p : Probe) (s : Store) (terminal : Value) : Option (Value × NameMap) :=
  match p with
  | .transform marker =>
    match terminal with
    | .tuple _ [v, .dict locals, .marker m] =>
      if m.id == marker.id then
        (namesOf (s.dict locals).entries).map fun names => (v, .ofList names)
      else none
    | _ => none
  | .trace _ _ locals => locals.map fun names => (terminal, names)

end Probe

end Lexiscope.Capture
