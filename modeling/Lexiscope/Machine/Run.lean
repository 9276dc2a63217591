import Lexiscope.Machine.Builtins.Call
import Lexiscope.Machine.Observation
import Lexiscope.Machine.Step
/-!
# Running code

Frames run instruction after instruction, and calls, iterators and generators run frames. Each
function here takes a bound on the number of its nested steps and stops when it is used up;
with a greater bound a run that was finished is the same.
-/

namespace Lexiscope.Machine

open Exec

/-- How a frame stopped without an exception. -/
inductive Completion where
  | returned (v : Value)
  | yielded (v : Value)
  deriving Inhabited

/-- A frame that stopped, and how. -/
structure Stopped where
  frame : Frame
  result : Except Halt Completion

def enterDepth : Exec Unit := do
  let s ← get
  if s.limit < s.depth + 1 then
    raise .recursionError
      ("maximum recursion depth exceeded (limit " ++ toString s.limit ++ ")")
  set { s with depth := s.depth + 1 }

def Stopped.moment (r : Stopped) : Moment :=
  match r.result with
  | .ok (.returned _) => .exit
  | .ok (.yielded _) => .suspend
  | .error _ => .unwind

def leaveFrame (r : Stopped) : Exec (Completion × Frame) := do
  notify r.moment r.frame
  modify fun s => { s with depth := s.depth - 1 }
  return (← settle r.result, r.frame)

def setBusy (r : IteratorRef) (busy : Bool) : Exec Unit := do
  setIterator r { (← get).iterator r with busy }

/-- The frame with the items of a sequence pushed, the first on top. -/
def unpackOnto (f : Frame) (count : Nat) (items : Array Value) : Exec Frame := do
  if items.size < count then
    valueError ("not enough values to unpack (expected " ++ toString count ++ ", got " ++
      toString items.size ++ ")")
  if count < items.size then
    valueError ("too many values to unpack (expected " ++ toString count ++ ")")
  return { f with stack := items.toList ++ f.stack }

def advanced (f : Frame) (target : Nat) (item : Option Value) : Exec Frame := do
  match item with
  | some v => return f.push v
  | none => return (← f.pop).2.jump target

/-- A new exception. Several arguments are its message as a tuple. -/
def makeException (kind : ExceptionKind) (args : List Value) (keywords : Keywords) :
    Exec Value := do
  if let (name, _) :: _ := keywords then
    typeError (kind.name ++ "() takes no keyword arguments, got '" ++ name ++ "'")
  let s ← get
  let message := match args with
    | [] => ""
    | [v] => v.display s
    | many => tupleText (many.map (·.render s))
  return .exception (← freshIdentity) kind message

def requireNone (v : Value) : Exec Unit :=
  match v with
  | .none => pure ()
  | other => typeError ("__init__() should return None, not '" ++ other.typeName ++ "'")

/-- The frame of a call, with the arguments in its slots and cells. -/
def enterFunction (f : FunctionValue) (args : List Value) (keywords : Keywords) :
    Exec Frame := do
  let fast ← bindArguments f args keywords
  let frame ← Frame.make f.code f.globals fast f.closure none
  return { frame with fast := ← moveToCells frame.cells fast f.code.object.cellParams }

def enterClassBody (f : FunctionValue) (space : SpaceRef) : Exec Frame :=
  Frame.make f.code f.globals (emptySlots f.code) f.closure (some space)

def GeneratorState.after : Except Halt (Completion × Frame) → GeneratorState
  | .ok (.yielded _, frame) => .suspended frame
  | _ => .finished

/-- The suspended frame of a generator, ready to go on. From then on the generator runs. -/
def wake (r : GeneratorRef) : Exec Frame := do
  let g := (← get).generator r
  match g.state with
  | .running => valueError "generator already executing"
  | .finished => raise .stopIteration ""
  | .suspended frame =>
    setGenerator r { g with state := .running, started := true }
    return if g.started then frame.push .none else frame

def setState (r : GeneratorRef) (state : GeneratorState) : Exec Unit := do
  setGenerator r { (← get).generator r with state }

mutual

/-- Runs a frame until it stops. -/
def runFrame : Nat → Frame → Exec Stopped
  | 0, f => return ⟨f, .error .outOfFuel⟩
  | n + 1, f => do
    match ← attempt (step f) with
    | .error halt => return ⟨f, .error halt⟩
    | .ok (.next f) => runFrame n f
    | .ok (.returned v f) => return ⟨f, .ok (.returned v)⟩
    | .ok (.yielded v f) => return ⟨f, .ok (.yielded v)⟩
    | .ok (.invoke callee args keywords f) =>
      match ← attempt (callValue n callee args keywords) with
      | .error halt => return ⟨f, .error halt⟩
      | .ok v => runFrame n (f.push v)
    | .ok (.unpack v count f) =>
      match ← attempt (do unpackOnto f count (← collect n v)) with
      | .error halt => return ⟨f, .error halt⟩
      | .ok f => runFrame n f
    | .ok (.advance iterator target f) =>
      match ← attempt (do advanced f target (← nextItem n iterator)) with
      | .error halt => return ⟨f, .error halt⟩
      | .ok f => runFrame n f

/-- Runs a frame as one more of those that are running. -/
def execute : Nat → Frame → Exec (Completion × Frame)
  | 0, _ => throw .outOfFuel
  | n + 1, f => do
    enterDepth
    notify .enter f
    leaveFrame (← runFrame n f)

def callValue : Nat → Value → List Value → Keywords → Exec Value
  | 0, _, _, _ => throw .outOfFuel
  | n + 1, callee, args, keywords =>
    match callee with
    | .function f => callFunction n f args keywords
    | .builtin _ .buildClass => buildClass n args
    | .builtin _ b => callBuiltin ⟨collect n, nextItem n⟩ b args keywords
    | .method _ receiver callee => callValue n callee (receiver :: args) keywords
    | .type c => instantiate n c args keywords
    | .exceptionType kind => makeException kind args keywords
    | other => typeError ("'" ++ other.typeName ++ "' object is not callable")

/-- Calls a function of the program. The body of a generator does not run yet. -/
def callFunction : Nat → FunctionValue → List Value → Keywords → Exec Value
  | 0, _, _, _ => throw .outOfFuel
  | n + 1, f, args, keywords => do
    let code := f.code.object
    if code.flags.isCoroutine || code.flags.isAsyncGenerator then
      runtimeError ("coroutine function '" ++ code.qualname ++
        "' cannot be run by this runtime")
    let frame ← enterFunction f args keywords
    if code.flags.isGenerator then newGenerator { code := f.code, state := .suspended frame }
    else
      match (← execute n frame).1 with
      | .returned v => return v
      | .yielded _ => brokenRule "yield from a non-generator body"

def instantiate : Nat → Class → List Value → Keywords → Exec Value
  | 0, _, _, _ => throw .outOfFuel
  | n + 1, c, args, keywords => do
    let instance_ := Value.object c (← newSpace .empty)
    match c.lookup (← get) "__init__" with
    | some init =>
      requireNone (← callValue n init (instance_ :: args) keywords)
      return instance_
    | none =>
      if !args.isEmpty || !keywords.isEmpty then typeError (c.name ++ "() takes no arguments")
      return instance_

def buildClass : Nat → List Value → Exec Value
  | 0, _ => throw .outOfFuel
  | n + 1, args => do
    match args with
    | .function body :: .str name :: bases =>
      let bases ← requireClasses bases
      let space ← newSpace .empty
      let _ ← execute n (← enterClassBody body space)
      return .type (.mk name.text bases space)
    | _ => typeError "__build_class__: expected a class body and a name"

def nextItem : Nat → Value → Exec (Option Value)
  | 0, _ => throw .outOfFuel
  | n + 1, v => do
    match v with
    | .generator r =>
      if let .finished := ((← get).generator r).state then return none
      match ← resume n r with
      | .yielded item => return some item
      | .returned _ => return none
    | .iterator r =>
      if ((← get).iterator r).busy then throw .reentered
      setBusy r true
      let outcome ← attempt (draw n r)
      -- The mark goes also when drawing has failed.
      setBusy r false
      settle outcome
    | other => notIterable other

def draw : Nat → IteratorRef → Exec (Option Value)
  | 0, _ => throw .outOfFuel
  | n + 1, r => do
    let i := (← get).iterator r
    match i.source with
    | .enumerate inner count =>
      match ← nextItem n inner with
      | none => return none
      | some item =>
        -- The number after this one is needed to go on, so the greatest one is never given.
        match Word.add? count 1 with
        | none => throw .countOverflow
        | some next =>
          setIterator r { i with source := .enumerate inner next }
          return some (← newTuple [.int count, item])
    | .zip [] => return none
    | .zip inners =>
      match ← nextRow n inners with
      | none => return none
      | some row => return some (← newTuple row)
    | source =>
      match source.draw? (← get) with
      | none => return none
      | some (item, source) =>
        setIterator r { i with source }
        return some item

/-- The next item of each of several iterators, if each has one. The first that has none
keeps the others from being advanced. -/
def nextRow : Nat → List Value → Exec (Option (List Value))
  | 0, _ => throw .outOfFuel
  | _ + 1, [] => return some []
  | n + 1, v :: vs => do
    match ← nextItem n v with
    | none => return none
    | some item => return (← nextRow n vs).map (item :: ·)

def collect : Nat → Value → Exec (Array Value)
  | 0, _ => throw .outOfFuel
  | n + 1, v => do
    match v with
    | .list r => return (← get).list r
    | .tuple _ items => return items.toArray
    | v => drain n (← makeIterator v) #[]

/-- The items that an iterator has left, after those that it gave already. -/
def drain : Nat → Value → Array Value → Exec (Array Value)
  | 0, _, _ => throw .outOfFuel
  | n + 1, iterator, items => do
    match ← nextItem n iterator with
    | none => return items
    | some item => drain n iterator (items.push item)

/-- Runs a generator until it yields or returns. -/
def resume : Nat → GeneratorRef → Exec Completion
  | 0, _ => throw .outOfFuel
  | n + 1, r => do
    let outcome ← attempt (execute n (← wake r))
    -- Unless the body has yielded there is no frame to go on with.
    setState r (.after outcome)
    return (← settle outcome).1

end

def runModule (fuel : Nat) (code : LoadedCode) (globals : SpaceRef) : Exec Unit := do
  let frame ← Frame.make code globals (emptySlots code) [] none
  match (← execute fuel frame).1 with
  | .returned _ => return
  | .yielded _ => brokenRule "'yield' at module level"

end Lexiscope.Machine
