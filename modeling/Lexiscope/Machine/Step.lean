import Lexiscope.Machine.Attributes
import Lexiscope.Machine.Frame
import Lexiscope.Machine.Iteration
import Lexiscope.Machine.Operators
/-!
# One instruction

The effect of one instruction on its frame and the store. What may run other code is not done
here but asked for: the call of a value, the items of a sequence, the next item of an
iterator.
-/

namespace Lexiscope.Machine

open Exec
open Code (Instr)

/-- What the machine does after an instruction. -/
inductive Action where
  /-- Goes on with the next instruction. -/
  | next (f : Frame)
  | returned (v : Value) (f : Frame)
  | yielded (v : Value) (f : Frame)
  /-- Calls a value and pushes the result. -/
  | invoke (callee : Value) (args : List Value) (keywords : Keywords) (f : Frame)
  /-- Pushes the items of a value, which must be `count`, the first on top. -/
  | unpack (v : Value) (count : Nat) (f : Frame)
  /-- Pushes the next item of the iterator on top, or takes the iterator and jumps. -/
  | advance (iterator : Value) (target : Nat) (f : Frame)
  deriving Inhabited

def undefinedName {α : Type} (name : Name) : Exec α :=
  raise .nameError ("name '" ++ name ++ "' is not defined")

namespace Frame

/-- The value of a name in the namespace of the class whose body this is. -/
def classValue? (f : Frame) (s : Store) (name : Name) : Option Value :=
  f.classSpace.bind fun space => s.lookup space name

def loadGlobal (f : Frame) (index : Nat) : Exec Value := do
  let name ← f.name index
  match (← get).global f.globals name with
  | some v => return v
  | none => undefinedName name

def loadName (f : Frame) (index : Nat) : Exec Value := do
  let name ← f.name index
  let s ← get
  match (f.classValue? s name).or (s.global f.globals name) with
  | some v => return v
  | none => undefinedName name

def loadClassDeref (f : Frame) (index : Nat) : Exec Value := do
  match f.classValue? (← get) (← f.derefName index) with
  | some v => return v
  | none => f.loadDeref index

def jump (f : Frame) (target : Nat) : Frame := { f with pc := target }

def pushed (f : Frame) (v : Exec Value) : Exec Action := return .next (f.push (← v))

def replace1 (f : Frame) (operation : Value → Exec Value) : Exec Action := do
  let (v, f) ← f.pop
  f.pushed (operation v)

/-- Takes two operands and pushes a result. The second is on top. -/
def replace2 (f : Frame) (operation : Value → Value → Exec Value) : Exec Action := do
  let (right, f) ← f.pop
  let (left, f) ← f.pop
  f.pushed (operation left right)

def jumpWhen (f : Frame) (truth : Bool) (target : Nat) : Exec Action := do
  let (v, f) ← f.pop
  return .next (if v.isTruthy (← get) == truth then f.jump target else f)

/-- Jumps and keeps the top if it has a truth, and takes it otherwise. -/
def jumpWhenOrPop (f : Frame) (truth : Bool) (target : Nat) : Exec Action := do
  let v ← f.top
  if v.isTruthy (← get) == truth then return .next (f.jump target)
  else return .next (← f.pop).2

end Frame

def entriesOfFlat (m : OrderedMap Key Value) : List Value → Exec (OrderedMap Key Value)
  | k :: v :: rest => do entriesOfFlat (m.insert (← key k) v) rest
  | _ => pure m

def keywordNames (v : Value) : Exec (List Name) := do
  match v.tuple? with
  | none => brokenRule "CallKw without keyword names"
  | some items => items.mapM fun item => do
    match item.text? with
    | some name => return name
    | none => brokenRule "keyword name is not a string"

/-- A call with keywords: their names are on top, then their values, then the other
arguments. -/
def keywordCall (f : Frame) (count : Nat) : Exec Action := do
  let (top, f) ← f.pop
  let names ← keywordNames top
  let (args, f) ← f.popMany count
  if args.length < names.length then brokenRule "keyword names exceed call arguments"
  let split := args.length - names.length
  let (callee, f) ← f.pop
  return .invoke callee (args.take split) (names.zip (args.drop split)) f

def closureCells (v : Value) : Exec (List CellRef) := do
  match v.tuple? with
  | none => brokenRule "closure is not a tuple"
  | some items => items.mapM fun item =>
    match item with
    | .cell r => pure r
    | _ => brokenRule "closure entry is not a cell"

/-- The defaults of keyword-only parameters. Keys that are no texts are left out. -/
def keywordDefaultsOf (v : Value) : Exec NameMap := do
  match v with
  | .dict r =>
    return .ofList (((← get).dict r).entries.filterMap fun e =>
      match e.1 with
      | .str name => some (name.text, e.2)
      | _ => none)
  | _ => brokenRule "keyword defaults are not a dict"

def defaultsOf (v : Value) : Exec (List Value) :=
  match v.tuple? with
  | some items => pure items
  | none => brokenRule "defaults are not a tuple"

/-- Takes a part of a function from the stack if it is there. -/
def takePart {α : Type} (present : Bool) (absent : α) (read : Value → Exec α) (f : Frame) :
    Exec (α × Frame) := do
  if present then
    let (v, f) ← f.pop
    return (← read v, f)
  else return (absent, f)

def makeFunction (parts : Code.FunctionParts) (f : Frame) : Exec Action := do
  let (top, f) ← f.pop
  match top with
  | .code code =>
    let (closure, f) ← takePart parts.closure [] closureCells f
    let (keywordDefaults, f) ← takePart parts.keywordDefaults .empty keywordDefaultsOf f
    let (defaults, f) ← takePart parts.defaults [] defaultsOf f
    let id ← freshIdentity
    let function : FunctionValue := ⟨id, code, f.globals, defaults, keywordDefaults, closure⟩
    return .next (f.push (.function function))
  | _ => brokenRule "MakeFunction without a code object"

def raiseValue {α : Type} (v : Value) : Exec α :=
  match v with
  | .exception _ kind message => raise kind message
  | .exceptionType kind => raise kind ""
  | other => typeError ("exceptions must derive from Exception, not '" ++ other.typeName ++ "'")

def assertionMessage (s : Store) : Value → String
  | .none => ""
  | v => v.display s

/-- Does an instruction. The frame already points to the next one. -/
def perform (f : Frame) : Instr → Exec Action
  | .loadConst i => f.pushed (f.constant i)
  | .loadFast i => f.pushed (f.loadFast i)
  | .storeFast i => do
    let (v, f) ← f.pop
    return .next (← f.storeFast i v)
  | .loadDeref i => f.pushed (f.loadDeref i)
  | .storeDeref i => do
    let (v, f) ← f.pop
    setCell (← f.cell i) v
    return .next f
  | .loadClosure i => f.pushed (return .cell (← f.cell i))
  | .loadClassDeref i => f.pushed (f.loadClassDeref i)
  | .loadGlobal i => f.pushed (f.loadGlobal i)
  | .storeGlobal i => do
    let name ← f.name i
    let (v, f) ← f.pop
    setName f.globals name v
    return .next f
  | .loadName i => f.pushed (f.loadName i)
  | .storeName i => do
    let name ← f.name i
    let (v, f) ← f.pop
    setName (f.classSpace.getD f.globals) name v
    return .next f
  | .loadAttr i => do
    let name ← f.name i
    f.replace1 fun v => getAttribute v name
  | .storeAttr i => do
    let name ← f.name i
    let (object, f) ← f.pop
    let (v, f) ← f.pop
    setAttribute object name v
    return .next f
  | .loadSubscript => f.replace2 getItem
  | .storeSubscript => do
    let (index, f) ← f.pop
    let (container, f) ← f.pop
    let (v, f) ← f.pop
    setItem container index v
    return .next f
  | .unary op => f.replace1 (unary op)
  | .binary op => f.replace2 (binary op)
  | .compare op => f.replace2 fun l r => return .bool (← compareValues op l r)
  | .buildList n => do
    let (items, f) ← f.popMany n
    f.pushed (newList items.toArray)
  | .buildTuple n => do
    let (items, f) ← f.popMany n
    f.pushed (newTuple items)
  | .buildDict n => do
    let (flat, f) ← f.popMany (2 * n)
    f.pushed (do newDict (← entriesOfFlat .empty flat))
  | .unpackSequence n => do
    let (v, f) ← f.pop
    return .unpack v n f
  | .call n => do
    let (args, f) ← f.popMany n
    let (callee, f) ← f.pop
    return .invoke callee args [] f
  | .callKw n => keywordCall f n
  | .makeFunction bits => makeFunction (.ofBits bits) f
  | .loadBuildClass => f.pushed (return .builtin (some (← freshIdentity)) .buildClass)
  | .jump t => return .next (f.jump t)
  | .jumpIfFalse t => f.jumpWhen false t
  | .jumpIfTrue t => f.jumpWhen true t
  | .jumpIfFalseOrPop t => f.jumpWhenOrPop false t
  | .jumpIfTrueOrPop t => f.jumpWhenOrPop true t
  | .jumpForward n => return .next (f.jump (f.pc + n))
  | .getIter => f.replace1 makeIterator
  | .forIter t => do return .advance (← f.top) t f
  | .pop => do return .next (← f.pop).2
  | .dup => do f.pushed f.top
  | .dupTwo => do
    -- Only to find out whether two values are there.
    let (_, _) ← f.popMany 2
    return .next { f with stack := f.stack.take 2 ++ f.stack }
  | .rot2 => do
    let (a, f) ← f.pop
    let (b, f) ← f.pop
    return .next ((f.push a).push b)
  | .rot3 => do
    let (a, f) ← f.pop
    let (b, f) ← f.pop
    let (c, f) ← f.pop
    return .next (((f.push a).push c).push b)
  | .yieldValue => do
    let (v, f) ← f.pop
    return .yielded v f
  | .await => runtimeError "'await' is not supported by this runtime"
  | .raise => do raiseValue (← f.pop).1
  | .raiseAssert => do
    raise .assertionError (assertionMessage (← get) (← f.pop).1)
  | .returnValue => do
    let (v, f) ← f.pop
    return .returned v f
  | .snapshotLocals => f.pushed (do newDict (← dictOfNames (f.locals (← get))))

/-- Does the next instruction. -/
def step (f : Frame) : Exec Action :=
  match f.code.object.instructions[f.pc]? with
  | some i => perform { f with pc := f.pc + 1 } i
  | none => brokenRule (f.code.object.qualname ++ " ran past its last instruction")

end Lexiscope.Machine
