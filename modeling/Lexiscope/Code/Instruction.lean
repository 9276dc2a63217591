import Lexiscope.Grammar.Tree
/-!
# Instructions

The machine has a stack of values. Operands are indices into the pools of the code object
that an instruction belongs to, counts of stack entries, or targets of jumps.
-/

namespace Lexiscope.Code

open Grammar (BinaryOp UnaryOp CompareOp)

/-- Which parts of a function lie on the stack below its code. -/
structure FunctionParts where
  defaults : Bool := false
  keywordDefaults : Bool := false
  closure : Bool := false
  deriving DecidableEq, Repr, Inhabited

def FunctionParts.ofBits (n : Nat) : FunctionParts :=
  ⟨n.testBit 0, n.testBit 1, n.testBit 3⟩

/-- One step of the machine. -/
inductive Instr where
  | loadConst (index : Nat)
  | loadFast (slot : Nat)
  | storeFast (slot : Nat)
  | loadDeref (index : Nat)
  | storeDeref (index : Nat)
  /-- Pushes the cell itself. -/
  | loadClosure (index : Nat)
  /-- Looks in the namespace of the class first, then in the cell. -/
  | loadClassDeref (index : Nat)
  | loadGlobal (index : Nat)
  | storeGlobal (index : Nat)
  /-- Looks in the namespace of the class first, then in the globals. -/
  | loadName (index : Nat)
  | storeName (index : Nat)
  | loadAttr (index : Nat)
  | storeAttr (index : Nat)
  | loadSubscript
  | storeSubscript
  | unary (op : UnaryOp)
  | binary (op : BinaryOp)
  | compare (op : CompareOp)
  | buildList (count : Nat)
  | buildTuple (count : Nat)
  /-- Takes `count` keys, each with its value above it. -/
  | buildDict (count : Nat)
  /-- Replaces a sequence of `count` items by the items, the first on top. -/
  | unpackSequence (count : Nat)
  | call (count : Nat)
  /-- Calls with `count` arguments. The names on top of the stack belong to the last of
  them. -/
  | callKw (count : Nat)
  | makeFunction (bits : Nat)
  | loadBuildClass
  | jump (target : Nat)
  | jumpIfFalse (target : Nat)
  | jumpIfTrue (target : Nat)
  /-- Jumps and keeps the top if it is false, and takes it otherwise. -/
  | jumpIfFalseOrPop (target : Nat)
  /-- Jumps and keeps the top if it is true, and takes it otherwise. -/
  | jumpIfTrueOrPop (target : Nat)
  /-- Jumps over `count` instructions. -/
  | jumpForward (count : Nat)
  | getIter
  /-- Pushes the next item, or takes the exhausted iterator and jumps. -/
  | forIter (target : Nat)
  | pop
  | dup
  | dupTwo
  | rot2
  | rot3
  | yieldValue
  | await
  | raise
  | raiseAssert
  | returnValue
  /-- Pushes a dictionary of the bound local names. -/
  | snapshotLocals
  deriving DecidableEq, Repr, Inhabited

namespace Instr

def target? : Instr → Option Nat
  | jump t | jumpIfFalse t | jumpIfTrue t | jumpIfFalseOrPop t | jumpIfTrueOrPop t
  | forIter t => some t
  | _ => none

/-- The same jump to another place. What is no such jump stays. -/
def withTarget (i : Instr) (target : Nat) : Instr :=
  match i with
  | jump _ => jump target
  | jumpIfFalse _ => jumpIfFalse target
  | jumpIfTrue _ => jumpIfTrue target
  | jumpIfFalseOrPop _ => jumpIfFalseOrPop target
  | jumpIfTrueOrPop _ => jumpIfTrueOrPop target
  | forIter _ => forIter target
  | other => other

end Instr

end Lexiscope.Code
