import Lexiscope.Machine.Store
/-!
# Frames

A frame holds the names of one body in execution. This module makes frames, reads and writes
their names, and lists the names that are bound.
-/

namespace Lexiscope.Machine

open Exec

/-- A frame that has not run yet. Its own cells are new and empty. -/
def Frame.make (code : LoadedCode) (globals : SpaceRef) (fast : Array (Option Value))
    (closure : List CellRef) (classSpace : Option SpaceRef) : Exec Frame := do
  let own ← code.object.cellvars.mapM fun _ => newCell none
  return { id := ← fresh, code, globals, fast, cells := own ++ closure, classSpace }

def emptySlots (code : LoadedCode) : Array (Option Value) :=
  Array.replicate code.object.varnames.size none

/-- The arguments of parameters that live in cells move from their slots into the cells. -/
def moveToCells (cells : List CellRef) (fast : Array (Option Value)) :
    List (Nat × Nat) → Exec (Array (Option Value))
  | [] => pure fast
  | (cell, slot) :: rest => do
    match cells[cell]?, (fast[slot]?).join with
    | some r, some value => setCell r value
    | _, _ => pure ()
    moveToCells cells (fast.setIfInBounds slot none) rest

/-- The local names that are bound: fast ones in the order of their slots, then those in
cells. The body of a class shows the namespace of the class. -/
def Frame.locals (f : Frame) (s : Store) : NameMap :=
  match f.classSpace with
  | some space => s.space space
  | none =>
    let fast := (f.code.object.varnames.toList.zip f.fast.toList).filterMap fun p =>
      p.2.map fun v => (p.1, v)
    let cells := (f.code.object.derefNames.zip f.cells).filterMap fun p =>
      (s.cell p.2).map fun v => (p.1, v)
    .ofList (fast ++ cells)

/-- The value of a name: a global, or else a built-in. -/
def Store.global (s : Store) (globals : SpaceRef) (name : Name) : Option Value :=
  (s.lookup globals name).or (builtinNames.get? name)

namespace Frame

def push (f : Frame) (v : Value) : Frame := { f with stack := v :: f.stack }

def underflow {α : Type} : Exec α := brokenRule "value stack underflow"

def outOfRange {α : Type} (what : String) (index : Nat) : Exec α :=
  brokenRule (what ++ " " ++ toString index ++ " out of range")

def top (f : Frame) : Exec Value :=
  match f.stack with
  | v :: _ => pure v
  | [] => underflow

def pop (f : Frame) : Exec (Value × Frame) :=
  match f.stack with
  | v :: stack => pure (v, { f with stack })
  | [] => underflow

/-- Takes several values, given in the order in which they were pushed. -/
def popMany (f : Frame) (count : Nat) : Exec (List Value × Frame) :=
  if f.stack.length < count then underflow
  else pure ((f.stack.take count).reverse, { f with stack := f.stack.drop count })

def constant (f : Frame) (index : Nat) : Exec Value :=
  match f.code.object.constants[index]? with
  | some .none => pure .none
  | some .ellipsis => pure .ellipsis
  | some (.bool b) => pure (.bool b)
  | some (.int n) => pure (.int n)
  | some (.float x) => pure (.float x)
  | some (.str text) => pure (.str ⟨.pooled f.code.pool index, text⟩)
  | some (.code c) => pure (.code (f.code.inner index c))
  | some (.names names) => do newTuple (← names.mapM newStr)
  | some (.marker m) => pure (.marker m)
  | none => outOfRange "constant index" index

def name (f : Frame) (index : Nat) : Exec Name :=
  match f.code.object.names[index]? with
  | some name => pure name
  | none => outOfRange "name index" index

def unboundLocal {α : Type} (name : Name) : Exec α :=
  throw (.raised {
    kind := .unboundLocalError
    message := "local variable '" ++ name ++ "' referenced before assignment"
    unbound := some name })

def loadFast (f : Frame) (slot : Nat) : Exec Value :=
  match f.fast[slot]?, f.code.object.varnames[slot]? with
  | some (some value), _ => pure value
  | some none, some name => unboundLocal name
  | _, _ => outOfRange "local slot" slot

def storeFast (f : Frame) (slot : Nat) (value : Value) : Exec Frame :=
  if slot < f.fast.size then pure { f with fast := f.fast.setIfInBounds slot (some value) }
  else outOfRange "local slot" slot

def cell (f : Frame) (index : Nat) : Exec CellRef :=
  match f.cells[index]? with
  | some r => pure r
  | none => outOfRange "deref slot" index

def derefName (f : Frame) (index : Nat) : Exec Name :=
  match f.code.object.derefName? index with
  | some name => pure name
  | none => outOfRange "deref slot" index

def loadDeref (f : Frame) (index : Nat) : Exec Value := do
  match (← get).cell (← f.cell index) with
  | some value => return value
  | none =>
    let name ← f.derefName index
    if f.code.object.isFreeSlot index then
      raise .nameError
        ("free variable '" ++ name ++ "' referenced before assignment in enclosing scope")
    else unboundLocal name

end Frame

end Lexiscope.Machine
