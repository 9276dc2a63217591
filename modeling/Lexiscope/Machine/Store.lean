import Lexiscope.Machine.Value
/-!
# The store

All that can change while a program runs: the contents of lists, dictionaries, cells,
namespaces, generators and iterators, the output, the depth of calls, and what observers have
seen. Things in the store are never removed, and a reference is an index that stays.
-/

namespace Lexiscope.Machine

/-- A body in execution. -/
structure Frame where
  /-- Distinct from the number of every other frame. -/
  id : Nat
  code : LoadedCode
  globals : SpaceRef
  /-- Fast local names, some of them not bound. -/
  fast : Array (Option Value)
  /-- The cells of the body's own names, then those of free names. -/
  cells : List CellRef
  /-- The namespace of a class whose body this is. -/
  classSpace : Option SpaceRef := none
  /-- Operands, the top first. -/
  stack : List Value := []
  /-- The index of the next instruction. -/
  pc : Nat := 0
  deriving Inhabited

/-- What a generator does. -/
inductive GeneratorState where
  | suspended (frame : Frame)
  | running
  | finished

instance : Inhabited GeneratorState := ⟨.finished⟩

/-- A body that yields values. -/
structure Generator where
  code : LoadedCode
  state : GeneratorState
  /-- The body has run at least once, so that a value of `yield` is awaited. -/
  started : Bool := false
  deriving Inhabited

/-- What an iterator draws its items from, and how far it has come. -/
inductive Source where
  /-- A list, whose later changes are seen. -/
  | list (r : ListRef) (index : Nat)
  /-- Items that do not change. -/
  | items (items : Array Value) (index : Nat)
  | range (r : Range) (index : Nat)
  | enumerate (inner : Value) (count : Int64)
  | zip (inners : List Value)
  deriving Inhabited

structure Iterator where
  source : Source
  busy : Bool := false
  deriving Inhabited

/-- A moment in the life of a frame. -/
inductive Moment where
  /-- The frame starts, or goes on after a yield. -/
  | enter
  /-- The frame has yielded. -/
  | suspend
  /-- The frame returns; its local names are still bound. -/
  | exit
  /-- The frame is left by an exception. -/
  | unwind
  deriving DecidableEq, Repr, Inhabited

def Moment.word : Moment → String
  | enter => "enter"
  | suspend => "suspend"
  | exit => "exit"
  | unwind => "unwind"

/-- A local name as it was seen: its name, the type of its value, and the value in text. -/
structure Sighting where
  name : Name
  type : Name
  text : String
  deriving DecidableEq, Repr, Inhabited

/-- A moment as a recorder writes it down. Frames are numbered in the order in which the
recorder saw them first. -/
structure Record where
  moment : Moment
  frame : Nat
  qualname : String
  locals : List Sighting
  deriving DecidableEq, Repr, Inhabited

/-- One who is told of every moment, and may tell the next observer. -/
inductive Observer where
  /-- Writes down all moments. -/
  | recorder (forwards : Bool) (seen : List Nat) (log : Array Record)
  /-- Keeps the local names of the first frame that runs the code, as they are when that
  frame returns. -/
  | capture (forwards : Bool) (target : Origin) (frame : Option Nat) (locals : Option NameMap)
  deriving Inhabited

inductive Output where
  | buffer (text : String)
  | silent
  deriving DecidableEq, Repr, Inhabited

def Output.text : Output → String
  | buffer text => text
  | silent => ""

def Output.write (o : Output) (text : String) : Output :=
  match o with
  | buffer old => buffer (old ++ text)
  | silent => silent

def Output.clear : Output → Output
  | buffer _ => buffer ""
  | silent => silent

/-- All that can change. -/
structure Store where
  lists : Array (Array Value) := #[]
  dicts : Array (OrderedMap Key Value) := #[]
  cells : Array (Option Value) := #[]
  spaces : Array NameMap := #[]
  generators : Array Generator := #[]
  iterators : Array Iterator := #[]
  /-- The next number that has not been given to anything. -/
  next : Nat := 0
  output : Output := .buffer ""
  depth : Nat := 0
  /-- The greatest number of frames that may run. -/
  limit : Nat := 1000
  /-- The observers, the one that is told first in front. -/
  observers : List Observer := []
  deriving Inhabited

namespace Store

def list (s : Store) (r : ListRef) : Array Value := s.lists.getD r.index #[]

def dict (s : Store) (r : DictRef) : OrderedMap Key Value := s.dicts.getD r.index .empty

/-- The value in a cell, if the name is bound. -/
def cell (s : Store) (r : CellRef) : Option Value := s.cells.getD r.index none

def space (s : Store) (r : SpaceRef) : NameMap := s.spaces.getD r.index .empty

def lookup (s : Store) (r : SpaceRef) (name : Name) : Option Value := (s.space r).get? name

def generator (s : Store) (r : GeneratorRef) : Generator := s.generators.getD r.index default

def iterator (s : Store) (r : IteratorRef) : Iterator := s.iterators.getD r.index default

/-- A bound on the nesting of containers that do not contain themselves. -/
def nesting (s : Store) : Nat := s.lists.size + s.dicts.size + 1

end Store

/-- A computation on the store that may stop. The store is kept also when it stops. -/
abbrev Exec (α : Type) := EStateM Halt Store α

namespace Exec

def raise {α : Type} (kind : ExceptionKind) (message : String) : Exec α :=
  throw (.raised { kind, message })

def typeError {α : Type} (message : String) : Exec α := raise .typeError message

def valueError {α : Type} (message : String) : Exec α := raise .valueError message

def runtimeError {α : Type} (message : String) : Exec α := raise .runtimeError message

def brokenRule {α : Type} (message : String) : Exec α :=
  throw (.raised { kind := .runtimeError, message, isInternal := true })

def orRaise {α : Type} (value : Option α) (kind : ExceptionKind) (message : String) : Exec α :=
  match value with
  | some a => pure a
  | none => raise kind message

def attempt {α : Type} (body : Exec α) : Exec (Except Halt α) := fun s =>
  match body s with
  | .ok a s => .ok (.ok a) s
  | .error halt s => .ok (.error halt) s

def settle {α : Type} : Except Halt α → Exec α
  | .ok a => pure a
  | .error halt => throw halt

def fresh : Exec Nat :=
  modifyGet fun s => (s.next, { s with next := s.next + 1 })

def freshIdentity : Exec Identity := return .fresh (← fresh)

def newStr (text : String) : Exec Value := return .str ⟨← freshIdentity, text⟩

def newTuple (items : List Value) : Exec Value := return .tuple (← freshIdentity) items

def newList (items : Array Value) : Exec Value :=
  modifyGet fun s => (.list ⟨s.lists.size⟩, { s with lists := s.lists.push items })

def newDict (entries : OrderedMap Key Value) : Exec Value :=
  modifyGet fun s => (.dict ⟨s.dicts.size⟩, { s with dicts := s.dicts.push entries })

def newCell (value : Option Value) : Exec CellRef :=
  modifyGet fun s => (⟨s.cells.size⟩, { s with cells := s.cells.push value })

def newSpace (names : NameMap) : Exec SpaceRef :=
  modifyGet fun s => (⟨s.spaces.size⟩, { s with spaces := s.spaces.push names })

def newGenerator (g : Generator) : Exec Value :=
  modifyGet fun s =>
    (.generator ⟨s.generators.size⟩, { s with generators := s.generators.push g })

def newIterator (source : Source) : Exec Value :=
  modifyGet fun s =>
    (.iterator ⟨s.iterators.size⟩, { s with iterators := s.iterators.push { source } })

def modifyList (r : ListRef) (f : Array Value → Array Value) : Exec Unit :=
  modify fun s => { s with lists := s.lists.modify r.index f }

def modifyDict (r : DictRef) (f : OrderedMap Key Value → OrderedMap Key Value) : Exec Unit :=
  modify fun s => { s with dicts := s.dicts.modify r.index f }

def setCell (r : CellRef) (value : Value) : Exec Unit :=
  modify fun s => { s with cells := s.cells.setIfInBounds r.index (some value) }

def setName (r : SpaceRef) (name : Name) (value : Value) : Exec Unit :=
  modify fun s => { s with spaces := s.spaces.modify r.index (·.insert name value) }

def removeName (r : SpaceRef) (name : Name) : Exec (Option Value) :=
  modifyGet fun s =>
    (s.lookup r name, { s with spaces := s.spaces.modify r.index (·.erase name) })

def setGenerator (r : GeneratorRef) (g : Generator) : Exec Unit :=
  modify fun s => { s with generators := s.generators.setIfInBounds r.index g }

def setIterator (r : IteratorRef) (i : Iterator) : Exec Unit :=
  modify fun s => { s with iterators := s.iterators.setIfInBounds r.index i }

def write (text : String) : Exec Unit :=
  modify fun s => { s with output := s.output.write text }

end Exec

/-- A dictionary with names as keys. Every key is a new text. -/
def Exec.dictOfNames (names : NameMap) : Exec (OrderedMap Key Value) := do
  let entries ← names.entries.mapM fun e => do
    return (Key.str ⟨← freshIdentity, e.1⟩, e.2)
  return ⟨entries⟩

mutual

/-- The value of a key. A tuple is new each time. -/
def Key.toValue : Key → Exec Value
  | .none => pure .none
  | .bool b => pure (.bool b)
  | .int n => pure (.int n)
  | .str s => pure (.str s)
  | .tuple items => do Exec.newTuple (← keyValues items)

def keyValues : List Key → Exec (List Value)
  | [] => pure []
  | k :: ks => do
    let v ← k.toValue
    return v :: (← keyValues ks)

end

/-- The key that a value is. Other values cannot be keys. -/
def Exec.key (v : Value) : Exec Key :=
  match v.toKey with
  | .ok k => pure k
  | .error part => typeError ("unhashable type: '" ++ part.typeName ++ "'")

end Lexiscope.Machine
