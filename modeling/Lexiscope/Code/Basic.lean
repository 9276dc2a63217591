import Lexiscope.Code.Instruction
/-!
# Code objects

A code object is what a body compiles to: instructions, the pools that they refer to, and
the layout of the frame that runs them. The code of an inner body is a constant of the outer.
-/

namespace Lexiscope.Code

/-- A value that equals only itself. The label is for show. -/
structure Marker where
  id : Nat
  label : String
  deriving DecidableEq, Repr, Inhabited

def Marker.render (m : Marker) : String :=
  "<marker " ++ m.label ++ ">"

/-- A constant. `κ` is the type of code objects. -/
inductive Constant (κ : Type) where
  | none
  | ellipsis
  | bool (value : Bool)
  | int (value : Int64)
  | float (value : Double)
  | str (text : String)
  | code (code : κ)
  /-- The names of the keyword arguments of a call. -/
  | names (names : List Name)
  | marker (marker : Marker)
  deriving Inhabited

/-- Code objects that can be told apart, even if they are alike. -/
class Identified (κ : Type) where
  /-- The two are one and the same. -/
  same : κ → κ → Bool

/-- Two constants may share a place in a pool. Floats do so if they have the same bits, so
that zeros of different sign stay apart. A code object does so with itself alone. -/
def Constant.sharesSlot {κ : Type} [Identified κ] (a b : Constant κ) : Bool :=
  match a, b with
  | none, none => true
  | ellipsis, ellipsis => true
  | bool a, bool b => a == b
  | int a, int b => a == b
  | float a, float b => a == b
  | str a, str b => a == b
  | names a, names b => a == b
  | code a, code b => Identified.same a b
  | marker a, marker b => a == b
  | _, _ => false

/-- Properties of a code object that are fixed when it is compiled. -/
structure Flags where
  /-- Surplus positional arguments have a parameter. -/
  takesRest : Bool := false
  takesRestKeywords : Bool := false
  isGenerator : Bool := false
  isCoroutine : Bool := false
  isAsyncGenerator : Bool := false
  isNested : Bool := false
  deriving DecidableEq, Repr, Inhabited

namespace Flags

/-- The flags with their names, from the lowest bit on. -/
def named (f : Flags) : List (String × Bool) :=
  [("VARARGS", f.takesRest), ("VARKEYWORDS", f.takesRestKeywords),
    ("GENERATOR", f.isGenerator), ("COROUTINE", f.isCoroutine),
    ("ASYNC_GENERATOR", f.isAsyncGenerator), ("NESTED", f.isNested)]

def toBits (f : Flags) : Nat :=
  f.named.foldr (fun p n => 2 * n + p.2.toNat) 0

def ofBits (n : Nat) : Flags :=
  ⟨n.testBit 0, n.testBit 1, n.testBit 2, n.testBit 3, n.testBit 4, n.testBit 5⟩

def render (f : Flags) : String :=
  match (f.named.filter (·.2)).map (·.1) with
  | [] => "CodeFlags(0x0)"
  | names => "CodeFlags(" ++ String.intercalate " | " names ++ ")"

end Flags

/-- A compiled body. -/
structure Object where
  name : Name
  qualname : String
  instructions : Array Instr := #[]
  constants : Array (Constant Object) := #[]
  /-- Names of globals, members and class entries. -/
  names : Array Name := #[]
  /-- Names of the fast slots, the parameters first. -/
  varnames : Array Name := #[]
  cellvars : List Name := []
  /-- Names that live in cells of enclosing functions. -/
  freevars : List Name := []
  argCount : Nat := 0
  keywordOnlyCount : Nat := 0
  flags : Flags := {}
  /-- Parameters that live in cells: the cell and the slot that the argument arrives in. -/
  cellParams : List (Nat × Nat) := []
  deriving Inhabited

/-- A body is compiled once, and its code goes into one pool once: there it is new. -/
instance : Identified Object := ⟨fun _ _ => false⟩

theorem not_sharesSlot_code (k : Constant Object) (c : Object) :
    k.sharesSlot (.code c) = false := by
  cases k <;> rfl

namespace Object

/-- The names of all cells: the body's own first, then the free ones. -/
def derefNames (c : Object) : List Name := c.cellvars ++ c.freevars

def derefName? (c : Object) (index : Nat) : Option Name := c.derefNames[index]?

def isFreeSlot (c : Object) (index : Nat) : Bool :=
  c.cellvars.length ≤ index && index < c.derefNames.length

def paramCount (c : Object) : Nat :=
  c.argCount + c.keywordOnlyCount + c.flags.takesRest.toNat + c.flags.takesRestKeywords.toNat

/-- The jumps to fixed places, with the places that they stand at. -/
def jumps (c : Object) : List (Nat × Nat) :=
  c.instructions.toList.zipIdx.filterMap fun p => p.1.target?.map fun t => (p.2, t)

end Object

end Lexiscope.Code
