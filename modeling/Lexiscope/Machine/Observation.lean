import Lexiscope.Machine.Frame
import Lexiscope.Machine.Render
/-!
# Observers

Observers are told of every moment of every frame, the one in front first. One that forwards
lets the next observer know too; one that does not keeps the moment from all behind it.
-/

namespace Lexiscope.Machine

def sightings (s : Store) (names : NameMap) : List Sighting :=
  names.entries.map fun e => ⟨e.1, e.2.typeName, e.2.render s⟩

/-- The number of a frame, and the frames seen with this one among them. -/
def numberFrame (seen : List Nat) (id : Nat) : Nat × List Nat :=
  match seen.idxOf? id with
  | some n => (n, seen)
  | none => (seen.length, seen ++ [id])

namespace Observer

/-- The observer lets the next one know. -/
def forwards : Observer → Bool
  | recorder forwards _ _ => forwards
  | capture forwards _ _ _ => forwards

def told (s : Store) (moment : Moment) (f : Frame) : Observer → Observer
  | recorder forwards seen log =>
    let (frame, seen) := numberFrame seen f.id
    let locals := sightings s (f.locals s)
    recorder forwards seen (log.push ⟨moment, frame, f.code.object.qualname, locals⟩)
  | capture forwards target frame locals =>
    match moment with
    | .enter =>
      if frame.isNone && f.code.id == target then capture forwards target (some f.id) locals
      else capture forwards target frame locals
    | .exit =>
      if frame == some f.id then capture forwards target frame (some (f.locals s))
      else capture forwards target frame locals
    | _ => capture forwards target frame locals

end Observer

def tellAll (s : Store) (moment : Moment) (f : Frame) : List Observer → List Observer
  | [] => []
  | o :: os => o.told s moment f :: (if o.forwards then tellAll s moment f os else os)

def Exec.notify (moment : Moment) (f : Frame) : Exec Unit :=
  modify fun s => { s with observers := tellAll s moment f s.observers }

end Lexiscope.Machine
