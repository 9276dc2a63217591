import Lexiscope.Code.Basic
import Lexiscope.Lexical.Fault
/-!
# Building a code object

A builder collects instructions and pools. A pool gives equal entries one place, and a place
once given stays. Jumps aim at labels, which may be bound after the jump is emitted; the
targets are put in at the end.
-/

namespace Lexiscope.Code

/-- A place in the code that jumps can aim at. -/
structure Label where
  index : Nat
  deriving DecidableEq, Repr, Inhabited

/-- A code object under construction. `κ` is the type of code objects. -/
structure Builder (κ : Type := Object) where
  instructions : Array Instr := #[]
  constants : Array (Constant κ) := #[]
  names : Array Name := #[]
  varnames : Array Name := #[]
  cellvars : List Name := []
  freevars : List Name := []
  labels : Array (Option Nat) := #[]
  /-- The jumps whose targets are still to be put in, with their labels. -/
  jumps : List (Nat × Label) := []
  deriving Inhabited

def poolName (pool : Array Name) (name : Name) : Nat × Array Name :=
  match pool.idxOf? name with
  | some i => (i, pool)
  | none => (pool.size, pool.push name)

namespace Builder

variable {κ : Type}

def constant [Identified κ] (b : Builder κ) (c : Constant κ) : Nat × Builder κ :=
  match b.constants.findIdx? (·.sharesSlot c) with
  | some i => (i, b)
  | none => (b.constants.size, { b with constants := b.constants.push c })

def name (b : Builder κ) (name : Name) : Nat × Builder κ :=
  let (i, names) := poolName b.names name
  (i, { b with names })

def varname (b : Builder κ) (name : Name) : Nat × Builder κ :=
  let (i, varnames) := poolName b.varnames name
  (i, { b with varnames })

def deref? (b : Builder κ) (name : Name) : Option Nat :=
  (b.cellvars ++ b.freevars).idxOf? name

def emit (b : Builder κ) (i : Instr) : Builder κ :=
  { b with instructions := b.instructions.push i }

def emitConst [Identified κ] (b : Builder κ) (c : Constant κ) : Builder κ :=
  let (i, b) := b.constant c
  b.emit (.loadConst i)

def newLabel (b : Builder κ) : Label × Builder κ :=
  (⟨b.labels.size⟩, { b with labels := b.labels.push none })

def bindLabel (b : Builder κ) (l : Label) : Builder κ :=
  { b with labels := b.labels.setIfInBounds l.index (some b.instructions.size) }

def emitJump (b : Builder κ) (jump : Nat → Instr) (l : Label) : Builder κ :=
  { b.emit (jump 0) with jumps := (b.instructions.size, l) :: b.jumps }

/-- The instructions with the targets of all jumps put in, or nothing if a label was never
bound. -/
def patched? (b : Builder κ) : Option (Array Instr) :=
  b.jumps.foldrM (fun j code => do
    let target ← (b.labels[j.2.index]?).join
    return code.modify j.1 (·.withTarget target)) b.instructions

end Builder

end Lexiscope.Code
