import Lexiscope.Capture.Environment
import Lexiscope.Capture.Probe
import Lexiscope.Capture.Instrumented
import Lexiscope.Capture.View
import Lexiscope.Machine.Run
/-!
# Wrapped functions

A wrapped function runs with an environment of its own and gives the scope of the call. All
that can be checked before is checked when the wrapper is made; a call only needs every outer
name to have a value.
-/

namespace Lexiscope.Capture

open Code (Marker)
open Machine (Store Value NameMap FunctionValue Exec Halt LoadedCode Keywords GeneratorRef)

/-- A computation on the store that may stop with a fault of the capture. -/
abbrev Engine (α : Type) := EStateM CaptureError Store α

namespace Engine

def ofExec {α : Type} (body : Exec α) : Engine α := fun s =>
  match body s with
  | .ok a s => .ok a s
  | .error halt s => .error (.ofHalt halt) s

def settle {α : Type} : Except CaptureError α → Engine α
  | .ok a => pure a
  | .error e => throw e

end Engine

/-- What a wrapper runs, as it was prepared when the wrapper was made. -/
inductive Plan where
  /-- The instrumented code, and the marker that only its tail has. -/
  | transform (code : LoadedCode) (marker : Marker)
  /-- The code as it is. -/
  | trace
  deriving Inhabited

def checkBody (c : Code.Object) : Except CaptureError Unit :=
  if c.flags.isAsyncGenerator then .error (.unsupported c.qualname .asyncGenerator)
  else if c.flags.isCoroutine then .error (.unsupported c.qualname .coroutine)
  else .ok ()

def Plan.make (code : LoadedCode) (mechanism : Mechanism) (reach : Nat) : Engine Plan := do
  Engine.settle (checkBody code.object)
  match mechanism with
  | .trace => return .trace
  | .transform =>
    let marker : Marker := ⟨← Engine.ofExec Exec.fresh, "capture:" ++ code.object.qualname⟩
    let object ← Engine.settle (instrument code.object marker reach)
    return .transform ⟨.unit (← Engine.ofExec Exec.fresh), code.pool, object⟩ marker

/-- A function with an environment, ready to be called if no name is missing. -/
structure Wrapped where
  function : FunctionValue
  requirements : Requirements
  environment : Environment
  options : Options
  plan : Plan
  deriving Inhabited

/-- What turns the end of a body into a scope. -/
structure Seed where
  outer : NameMap
  closures : List Name
  options : Options
  function : String
  deriving Inhabited

/-- The scope at the end of a body. Names of the closure do not count as bound by the call. -/
def Seed.view (seed : Seed) (s : Store) (p : Probe) (terminal : Value) :
    Except CaptureError View :=
  match p.finish s terminal with
  | none => .error (.malformed seed.function)
  | some (returned, locals) =>
    .ok ⟨seed.outer, seed.closures.foldl OrderedMap.erase locals, returned, seed.options⟩

/-- A body that yields values before it ends with a scope. -/
structure Stream where
  generator : GeneratorRef
  probe : Probe
  seed : Seed
  view : Option View := none
  /-- The body has ended, by a return or by an error. -/
  isFinished : Bool := false
  deriving Inhabited

inductive Outcome where
  | scope (view : View)
  | stream (stream : Stream)
  deriving Inhabited

namespace Wrapped

/-- A wrapper with a plan and an environment over another one, if there is one. -/
def assemble (f : FunctionValue) (r : Requirements) (plan : Plan) (base : Option Environment)
    (mappings : List NameMap) (options : Options) : Engine Wrapped := do
  let sources := Sources.ofFunction (← get) base f mappings options.useClosures
    options.useGlobals
  return ⟨f, r, .resolve r sources, options, plan⟩

def ofFunction (f : FunctionValue) (mappings : List NameMap) (options : Options) :
    Engine Wrapped := do
  let plan ← Plan.make f.code options.mechanism options.reach
  assemble f (.ofCode f.code.object) plan none mappings options

def ofValue (v : Value) (mappings : List NameMap) (options : Options) : Engine Wrapped :=
  match v with
  | .function f => ofFunction f mappings options
  | other => throw (.notFunction other.typeName)

/-- Wraps the function of a wrapper with more mappings, which come before the environment of
that one. The plan stays if the options do. -/
def rewrap (w : Wrapped) (mappings : List NameMap) (options : Options) : Engine Wrapped := do
  let plan ←
    if w.options = options then pure w.plan
    else Plan.make w.function.code options.mechanism options.reach
  assemble w.function w.requirements plan (some w.environment) mappings options

def bind (w : Wrapped) (mappings : List NameMap) : Engine Wrapped :=
  w.rewrap mappings w.options

def isReady (w : Wrapped) : Bool := w.environment.isComplete

/-- The code that a call runs, and the probe at its start. -/
def start (w : Wrapped) : LoadedCode × Probe :=
  match w.plan with
  | .transform code marker => (code, .transform marker)
  | .trace => (w.function.code, .trace w.function.code.id none none)

/-- The function that a call runs: it has globals and cells of its own. -/
def runnable (w : Wrapped) (code : LoadedCode) : Exec FunctionValue := do
  let globals ← Exec.newSpace w.environment.globals
  -- A free name without a value has a cell all the same, which is empty.
  let closure ← w.function.code.object.freevars.mapM fun name =>
    Exec.newCell (w.environment.cells.get? name)
  let id ← Exec.freshIdentity
  return ⟨id, code, globals, w.function.defaults, w.function.keywordDefaults, closure⟩

def seed (w : Wrapped) : Seed :=
  ⟨w.environment.outer, w.requirements.closures, w.options, w.function.code.object.qualname⟩

/-- Calls a wrapped function. The body of a generator does not run yet. -/
def call (fuel : Nat) (w : Wrapped) (args : List Value) (keywords : Keywords) :
    Engine Outcome := do
  if !w.isReady then throw (.unresolved w.environment.missing)
  let (code, probe) := w.start
  let step : Exec Value := do Machine.callFunction fuel (← w.runnable code) args keywords
  let (outcome, probe) ← Engine.ofExec (probe.during true step)
  match outcome with
  | .error halt => throw (.ofHalt halt)
  | .ok terminal =>
    match terminal, w.function.code.object.flags.isGenerator with
    | .generator g, true => return .stream ⟨g, probe, w.seed, none, false⟩
    | _, _ => return .scope (← Engine.settle (w.seed.view (← get) probe terminal))

end Wrapped

/-- Calls a function, and gives beside the outcome the local names of the first frame that ran
its code, if that frame returned. Other observers are not told of the call. -/
def observeCall (fuel : Nat) (f : FunctionValue) (args : List Value) (keywords : Keywords) :
    Exec (Except Halt Value × Option NameMap) := do
  let probe := Probe.trace f.code.id none none
  let (outcome, probe) ← probe.during false (Machine.callFunction fuel f args keywords)
  match probe with
  | .trace _ _ locals => return (outcome, locals)
  | .transform _ => return (outcome, none)

end Lexiscope.Capture
