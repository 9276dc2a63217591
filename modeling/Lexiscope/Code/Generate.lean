import Lexiscope.Code.Draft
/-!
# Code for expressions and statements

The code of an expression leaves its value on the stack. The code of a statement leaves the
stack as it was. A `for` loop keeps its iterator on the stack while it runs, and a `while`
loop keeps nothing.
-/

namespace Lexiscope.Code

open Text (Span)
open Grammar (Expr Stmt Param Params BoolOp)
open Lexical (Scope)
open Generate

/-- The loop around a statement. -/
structure Loop where
  head : Label
  exit : Label
  /-- The iterator lies on the stack and goes when the loop is left. -/
  hasIterator : Bool

mutual

/-- Code that pushes the value of an expression. -/
def expression (s : Scope) : Expr → Generate Unit
  | .none _ => emitConst .none
  | .ellipsis _ => emitConst .ellipsis
  | .bool value _ => emitConst (.bool value)
  | .int value _ => emitConst (.int value)
  | .float value _ => emitConst (.float value)
  | .str text _ => emitConst (.str text)
  | .name name span => loadName s name span
  | .list items _ => do
    expressions s items
    emit (.buildList items.length)
  | .tuple items _ => do
    expressions s items
    emit (.buildTuple items.length)
  | .dict items _ => do
    entries s items
    emit (.buildDict items.length)
  | .member value attr _ => do
    expression s value
    emitNamed .loadAttr attr
  | .subscript value index _ => do
    expression s value
    expression s index
    emit .loadSubscript
  | .call callee args keywords _ => do
    expression s callee
    expressions s args
    keywordValues s keywords
    if keywords.isEmpty then emit (.call args.length)
    else
      emitConst (.names (keywords.map (·.1)))
      emit (.callKw (args.length + keywords.length))
  | .unary op operand _ => do
    expression s operand
    emit (.unary op)
  | .binary op left right _ => do
    expression s left
    expression s right
    emit (.binary op)
  | .compare op left right _ => do
    expression s left
    expression s right
    emit (.compare op)
  | .boolean op left right _ => do
    let stop ← newLabel
    expression s left
    emitJump (match op with | .and => .jumpIfFalseOrPop | .or => .jumpIfTrueOrPop) stop
    expression s right
    bindLabel stop
  | .conditional test body orelse _ => do
    let otherwise ← newLabel
    let stop ← newLabel
    expression s test
    emitJump .jumpIfFalse otherwise
    expression s body
    emitJump .jump stop
    bindLabel otherwise
    expression s orelse
    bindLabel stop
  | .yield value _ => do
    match value with
    | some value => expression s value
    | none => emitConst .none
    emit .yieldValue
  | .await value _ => do
    expression s value
    emit .await

def expressions (s : Scope) : List Expr → Generate Unit
  | [] => pure ()
  | e :: es => do
    expression s e
    expressions s es

def entries (s : Scope) : List (Expr × Expr) → Generate Unit
  | [] => pure ()
  | (key, value) :: es => do
    expression s key
    expression s value
    entries s es

def keywordValues (s : Scope) : List (Name × Expr) → Generate Unit
  | [] => pure ()
  | (_, value) :: es => do
    expression s value
    keywordValues s es

end

mutual

/-- Code that takes the top of the stack and stores it in a target. -/
def store (s : Scope) : Expr → Generate Unit
  | .name name span => storeName s name span
  | .member value attr _ => do
    expression s value
    emitNamed .storeAttr attr
  | .subscript value index _ => do
    expression s value
    expression s index
    emit .storeSubscript
  | .tuple items _ | .list items _ => do
    emit (.unpackSequence items.length)
    storeAll s items
  | e => fail .notAssignable e.span

/-- Code that stores the entries of the stack, from the top down, in targets. -/
def storeAll (s : Scope) : List Expr → Generate Unit
  | [] => pure ()
  | e :: es => do
    store s e
    storeAll s es

end

/-- Code that stores the top of the stack in every target. All but the last one store a
copy. -/
def storeChain (s : Scope) (span : Span) : List Expr → Generate Unit
  | [] => fail .noTarget span
  | [target] => store s target
  | target :: targets => do
    emit .dup
    store s target
    storeChain s span targets

/-- Code that combines the value of a target with another value and stores the result. The
object and the index of the target are evaluated once. -/
def augmented (s : Scope) (op : Grammar.BinaryOp) (value : Expr) : Expr → Generate Unit
  | .name name span => do
    loadName s name span
    expression s value
    emit (.binary op)
    storeName s name span
  | .member object attr _ => do
    expression s object
    emit .dup
    let slot ← place (·.name attr)
    emit (.loadAttr slot)
    expression s value
    emit (.binary op)
    emit .rot2
    emit (.storeAttr slot)
  | .subscript object index _ => do
    expression s object
    expression s index
    emit .dupTwo
    emit .loadSubscript
    expression s value
    emit (.binary op)
    emit .rot3
    emit .storeSubscript
  | e => fail .notAugmentable e.span

def positionalDefaults (s : Scope) (params : List Param) : Generate Bool := do
  let values := params.filterMap (·.default)
  if values.isEmpty then return false
  expressions s values
  emit (.buildTuple values.length)
  return true

def namedValues (s : Scope) : List (Name × Expr) → Generate Unit
  | [] => pure ()
  | (name, value) :: rest => do
    emitConst (.str name)
    expression s value
    namedValues s rest

/-- Code that pushes the dictionary of the defaults of keyword-only parameters, if there are
any. -/
def keywordDefaults (s : Scope) (params : List Param) : Generate Bool := do
  let values := params.filterMap fun p => p.default.map fun d => (p.name, d)
  if values.isEmpty then return false
  namedValues s values
  emit (.buildDict values.length)
  return true

def loadCells (span : Span) : List Name → Generate Unit
  | [] => pure ()
  | name :: names => do
    emit (.loadClosure (← deref name span))
    loadCells span names

/-- Code that pushes the tuple of the cells that a function shares, if there are any. -/
def closureOf (names : List Name) (span : Span) : Generate Bool := do
  if names.isEmpty then return false
  loadCells span names
  emit (.buildTuple names.length)
  return true

def FunctionParts.toBits (parts : FunctionParts) : Nat :=
  parts.defaults.toNat + 2 * parts.keywordDefaults.toNat + 8 * parts.closure.toNat

/-- Code that makes a function of a code object. The cells that it shares lie in a tuple
below it. -/
def makeFunction (code : Object) (defaults keywordDefaults : Bool) (span : Span) :
    Generate Unit := do
  let closure ← closureOf code.freevars span
  emitConst (.code code)
  emit (.makeFunction (FunctionParts.toBits { defaults, keywordDefaults, closure }))

/-- The code object of a finished body, which returns nothing unless it has returned
before. -/
def finish (draft : Draft) (span : Span) (object : Object) : Except CompileError Object :=
  -- Emitted also where every path has returned before, so that all labels have a place.
  let b := (draft.builder.emitConst .none).emit .returnValue
  match b.patched? with
  | some instructions =>
    .ok { object with
      instructions, constants := b.constants, names := b.names, varnames := b.varnames,
      cellvars := b.cellvars, freevars := b.freevars }
  | none => .error ⟨.unboundLabel, span⟩

def functionFlags (s : Scope) (params : Params) (isNested : Bool) : Flags where
  takesRest := params.rest.isSome
  takesRestKeywords := params.restKeywords.isSome
  isGenerator := !s.facts.isAsync && s.facts.isGenerator
  isCoroutine := s.facts.isAsync && !s.facts.isGenerator
  isAsyncGenerator := s.facts.isAsync && s.facts.isGenerator
  isNested

def functionObject (s : Scope) (name : Name) (params : Params) (isNested : Bool) : Object where
  name
  qualname := s.facts.qualname
  argCount := params.positional.length
  keywordOnlyCount := params.keywordOnly.length
  flags := functionFlags s params isNested
  cellParams := cellParams s

mutual

/-- The code of a statement inside loops, the innermost first. -/
def statement (s : Scope) (loops : List Loop) : Stmt → Generate Unit
  | .expr value _ => do
    expression s value
    emit .pop
  | .assign targets value span => do
    expression s value
    storeChain s span targets
  | .augAssign target op value _ => augmented s op value target
  | .define name params body _ span => do
    let hasDefaults ← positionalDefaults s params.positional
    let hasKeywordDefaults ← keywordDefaults s params.keywordOnly
    let inner ← nextScope span
    let (_, draft) ← block inner [] body (Draft.startFunction inner)
    let object := functionObject inner name params (s.facts.kind = .functionBody)
    let code ← finish draft inner.facts.span object
    makeFunction code hasDefaults hasKeywordDefaults span
    storeName s name span
  | .classDef name bases body span => do
    emit .loadBuildClass
    let inner ← nextScope span
    let (_, draft) ← block inner [] body (Draft.start inner)
    let code ← finish draft inner.facts.span { name, qualname := inner.facts.qualname }
    makeFunction code false false span
    emitConst (.str name)
    expressions s bases
    emit (.call (2 + bases.length))
    storeName s name span
  | .ret value span => do
    if s.facts.kind ≠ .functionBody then fail .returnOutside span
    match value with
    | some value => expression s value
    | none => emitConst .none
    emit .returnValue
  | .cond test body orelse _ => do
    let otherwise ← newLabel
    let stop ← newLabel
    expression s test
    emitJump .jumpIfFalse otherwise
    block s loops body
    if !orelse.isEmpty then emitJump .jump stop
    bindLabel otherwise
    block s loops orelse
    bindLabel stop
  | .loop test body _ => do
    let head ← newLabel
    let exit ← newLabel
    bindLabel head
    expression s test
    emitJump .jumpIfFalse exit
    block s (⟨head, exit, false⟩ :: loops) body
    emitJump .jump head
    bindLabel exit
  | .each target iter body _ => do
    let head ← newLabel
    let exit ← newLabel
    expression s iter
    emit .getIter
    bindLabel head
    emitJump .forIter exit
    store s target
    block s (⟨head, exit, true⟩ :: loops) body
    emitJump .jump head
    bindLabel exit
  | .brk span => do
    match loops with
    | [] => fail .breakOutside span
    | l :: _ =>
      if l.hasIterator then emit .pop
      emitJump .jump l.exit
  | .cont span => do
    match loops with
    | [] => fail .continueOutside span
    | l :: _ => emitJump .jump l.head
  | .pass _ | .global .. | .nonlocal .. => pure ()
  | .raise value _ => do
    expression s value
    emit .raise
  | .assert test message _ => do
    let holds ← newLabel
    expression s test
    emitJump .jumpIfTrue holds
    match message with
    | some message => expression s message
    | none => emitConst .none
    emit .raiseAssert
    bindLabel holds

def block (s : Scope) (loops : List Loop) : List Stmt → Generate Unit
  | [] => pure ()
  | stmt :: stmts => do
    statement s loops stmt
    block s loops stmts

end

/-- The code object of a module. The name given is its qualified name. -/
def compile (body : List Stmt) (name : Name) : Except CompileError Object := do
  let scope ← Lexical.analyze body
  let (_, draft) ← block scope [] body (Draft.start scope)
  finish draft scope.facts.span { name := scope.facts.name, qualname := name }

end Lexiscope.Code
