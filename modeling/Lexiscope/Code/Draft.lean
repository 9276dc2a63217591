import Lexiscope.Code.Builder
import Lexiscope.Lexical.Scope
/-!
# Code under generation

A draft is the state in which the code of one body is generated: its builder, and the scopes
of the inner bodies that have not been reached yet, in order of definition.
-/

namespace Lexiscope.Code

open Text (Span)
open Lexical (Scope)

/-- The state of generation for one body. -/
structure Draft where
  builder : Builder
  pending : List Scope
  deriving Inhabited

abbrev Generate (α : Type) := StateT Draft (Except CompileError) α

namespace Generate

def fail {α : Type} (fault : CompileFault) (span : Span) : Generate α :=
  fun _ => .error ⟨fault, span⟩

def build (f : Builder → Builder) : Generate Unit :=
  fun d => .ok ((), { d with builder := f d.builder })

def place {α : Type} (f : Builder → α × Builder) : Generate α := fun d =>
  let (a, builder) := f d.builder
  .ok (a, { d with builder })

def emit (i : Instr) : Generate Unit := build (·.emit i)

def emitConst (c : Constant Object) : Generate Unit := build (·.emitConst c)

def emitNamed (instr : Nat → Instr) (name : Name) : Generate Unit := do
  emit (instr (← place (·.name name)))

def newLabel : Generate Label := place (·.newLabel)

def bindLabel (l : Label) : Generate Unit := build (·.bindLabel l)

def emitJump (jump : Nat → Instr) (l : Label) : Generate Unit := build (·.emitJump jump l)

def deref (name : Name) (span : Span) : Generate Nat := fun d =>
  match d.builder.deref? name with
  | some i => .ok (i, d)
  | none => .error ⟨.noCell name, span⟩

def nextScope (span : Span) : Generate Scope := fun d =>
  match d.pending with
  | s :: pending => .ok (s, { d with pending })
  | [] => .error ⟨.scopeOutOfStep, span⟩

def loadName (s : Scope) (name : Name) (span : Span) : Generate Unit := do
  match s.symbol name with
  | .fast => emit (.loadFast (← place (·.varname name)))
  | .cell | .free => emit (.loadDeref (← deref name span))
  | .classFree => emit (.loadClassDeref (← deref name span))
  | .classLocal => emitNamed .loadName name
  | .globalImplicit =>
    if s.facts.kind = .classBody then emitNamed .loadName name else emitNamed .loadGlobal name
  | .globalExplicit => emitNamed .loadGlobal name

def storeName (s : Scope) (name : Name) (span : Span) : Generate Unit := do
  match s.symbol name with
  | .fast => emit (.storeFast (← place (·.varname name)))
  | .cell | .free => emit (.storeDeref (← deref name span))
  | .classLocal => emitNamed .storeName name
  | .globalExplicit | .globalImplicit => emitNamed .storeGlobal name
  | .classFree => fail (.storeToCaptured name) span

end Generate

def Draft.start (s : Scope) : Draft :=
  ⟨{ cellvars := s.cells, freevars := s.free }, s.children⟩

/-- The draft of a function: parameters take the first fast slots, and local names outside
cells the next ones. -/
def Draft.startFunction (s : Scope) : Draft :=
  let draft := Draft.start s
  let slots := (s.facts.params ++ s.plainLocals).foldl (fun b n => (b.varname n).2) draft.builder
  { draft with builder := slots }

/-- The parameters that live in cells, each with its cell and its slot. -/
def cellParams (s : Scope) : List (Nat × Nat) :=
  s.facts.params.zipIdx.filterMap fun p =>
    if s.symbol p.1 = .cell then
      ((s.cells ++ s.free).idxOf? p.1).map fun cell => (cell, p.2)
    else none

end Lexiscope.Code
