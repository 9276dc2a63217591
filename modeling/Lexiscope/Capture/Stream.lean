import Lexiscope.Capture.Wrapped
/-!
# Streams

A wrapped generator is drawn value by value. When its body has returned, there is a scope;
after the first error, and after the end, there are no more values.
-/

namespace Lexiscope.Capture

open Machine (Store Value Exec)

/-- What drawing from a stream gives: a value, an error, or nothing any more. -/
inductive Item where
  | value (v : Value)
  | failed (e : CaptureError)
  | ended
  deriving Inhabited

namespace Stream

/-- The stream after its body has returned, and what that gives. -/
def ending (g : Stream) (s : Store) (terminal : Value) : Item × Stream :=
  match g.seed.view s g.probe terminal with
  | .ok view => (.ended, { g with view := some view, isFinished := true })
  | .error e => (.failed e, { g with isFinished := true })

def next (fuel : Nat) (g : Stream) : Exec (Item × Stream) := do
  if g.isFinished then return (.ended, g)
  let (outcome, probe) ← g.probe.during true (Machine.resume fuel g.generator)
  let g := { g with probe }
  match outcome with
  | .ok (.yielded v) => return (.value v, g)
  | .ok (.returned terminal) => return g.ending (← get) terminal
  | .error halt => return (.failed (.ofHalt halt), { g with isFinished := true })

/-- Draws all values that are left, and gives the scope at the end. -/
def drain (fuel : Nat) : Nat → Stream → Engine View
  | 0, _ => throw (.body .outOfFuel)
  | n + 1, g => do
    let (item, g) ← Engine.ofExec (g.next fuel)
    match item with
    | .value _ => drain fuel n g
    | .failed e => throw e
    | .ended => Engine.settle (g.view.elim (.error (.malformed g.seed.function)) .ok)

end Stream

def Outcome.toView (fuel : Nat) : Outcome → Engine View
  | .scope view => pure view
  | .stream g => g.drain fuel fuel

end Lexiscope.Capture
