import Lexiscope.Grammar.Tree
import Lexiscope.Lexical.Fault
/-!
# What a body binds, uses and declares

A module, a function and a class each have a body. This module reads off a body which names
it binds, which it uses, which it declares `global` or `nonlocal`, and which bodies are
defined inside it.
-/

namespace Lexiscope.Lexical

open Text (Span)
open Grammar (Expr Stmt Param Params)

/-- What a body belongs to. -/
inductive BlockKind where
  | moduleBody
  | functionBody
  | classBody
  deriving DecidableEq, Repr, Inhabited

/-- What is known about a body by itself. The lists of names have no name twice, and are in
the order of first occurrence. -/
structure Facts where
  kind : BlockKind
  name : Name
  qualname : String
  span : Span
  /-- The parameters in slot order: positional, keyword-only, surplus, surplus keywords. -/
  params : List Name := []
  isGenerator : Bool := false
  isAsync : Bool := false
  bound : List Name := []
  used : List Name := []
  globals : List Name := []
  nonlocals : List Name := []
  deriving Repr, Inhabited

def Facts.localNames (f : Facts) : List Name :=
  f.bound.filter fun n => n ∉ f.globals && n ∉ f.nonlocals

def Facts.qualify (f : Facts) (name : Name) : String :=
  match f.kind with
  | .moduleBody => name
  | .functionBody => f.qualname ++ ".<locals>." ++ name
  | .classBody => f.qualname ++ "." ++ name

/-- The names of parameters in the order of their slots in a frame. -/
def slotOrder (p : Params) : List Name :=
  p.positional.map (·.name) ++ p.keywordOnly.map (·.name) ++ p.rest.toList ++
    p.restKeywords.toList

/-- A body with the bodies defined in it, in order of definition. -/
structure Block where
  facts : Facts
  children : List Block
  deriving Inhabited

mutual

def useExpr (f : Facts) : Expr → Except CompileError Facts
  | .none _ | .ellipsis _ | .bool .. | .int .. | .float .. | .str .. => .ok f
  | .name name _ => .ok { f with used := addName f.used name }
  | .list items _ | .tuple items _ => useExprs f items
  | .dict entries _ => useEntries f entries
  | .member value _ _ => useExpr f value
  | .subscript value index _ => do useExpr (← useExpr f value) index
  | .call callee args keywords _ => do
    useKeywords (← useExprs (← useExpr f callee) args) keywords
  | .unary _ operand _ => useExpr f operand
  | .binary _ left right _ | .compare _ left right _ | .boolean _ left right _ => do
    useExpr (← useExpr f left) right
  | .conditional test body orelse _ => do
    useExpr (← useExpr (← useExpr f test) body) orelse
  | .yield value span =>
    if f.kind = .functionBody then
      let f := { f with isGenerator := true }
      match value with
      | some value => useExpr f value
      | none => .ok f
    else .error ⟨.yieldOutside, span⟩
  | .await value span =>
    if f.kind = .functionBody ∧ f.isAsync then useExpr f value
    else .error ⟨.awaitOutside, span⟩

def useExprs (f : Facts) : List Expr → Except CompileError Facts
  | [] => .ok f
  | e :: es => do useExprs (← useExpr f e) es

def useEntries (f : Facts) : List (Expr × Expr) → Except CompileError Facts
  | [] => .ok f
  | (key, value) :: es => do useEntries (← useExpr (← useExpr f key) value) es

def useKeywords (f : Facts) : List (Name × Expr) → Except CompileError Facts
  | [] => .ok f
  | (_, value) :: es => do useKeywords (← useExpr f value) es

end

mutual

def bindTarget (f : Facts) : Expr → Except CompileError Facts
  | .name name _ => .ok { f with bound := addName f.bound name }
  | .tuple items _ | .list items _ => bindTargets f items
  | .member value _ _ => useExpr f value
  | .subscript value index _ => do useExpr (← useExpr f value) index
  | e => .error ⟨.notAssignable, e.span⟩

def bindTargets (f : Facts) : List Expr → Except CompileError Facts
  | [] => .ok f
  | e :: es => do bindTargets (← bindTarget f e) es

end

def useDefaults (f : Facts) (params : List Param) : Except CompileError Facts :=
  useExprs f (params.filterMap (·.default))

def declareGlobal (span : Span) (f : Facts) : List Name → Except CompileError Facts
  | [] => .ok f
  | name :: names =>
    if name ∈ f.params then .error ⟨.parameterAndGlobal name, span⟩
    else if name ∈ f.nonlocals then .error ⟨.nonlocalAndGlobal name, span⟩
    else declareGlobal span { f with globals := addName f.globals name } names

def declareNonlocal (span : Span) (f : Facts) : List Name → Except CompileError Facts
  | [] => .ok f
  | name :: names =>
    if name ∈ f.params then .error ⟨.parameterAndNonlocal name, span⟩
    else if name ∈ f.globals then .error ⟨.nonlocalAndGlobal name, span⟩
    else declareNonlocal span { f with nonlocals := addName f.nonlocals name } names

def Facts.ofFunction (outer : Facts) (name : Name) (params : Params) (isAsync : Bool)
    (span : Span) : Facts :=
  { kind := .functionBody, name, qualname := outer.qualify name, span,
    params := slotOrder params, isAsync, bound := distinctNames (slotOrder params) }

def Facts.ofClass (outer : Facts) (name : Name) (span : Span) : Facts :=
  { kind := .classBody, name, qualname := outer.qualify name, span }

mutual

def Block.read (b : Block) : Stmt → Except CompileError Block
  | .expr value _ | .raise value _ => do
    return { b with facts := ← useExpr b.facts value }
  | .assign targets value _ => do
    return { b with facts := ← bindTargets (← useExpr b.facts value) targets }
  | .augAssign target _ value _ => do
    return { b with facts := ← bindTarget (← useExpr (← useExpr b.facts value) target) target }
  | .define name params body isAsync span => do
    let facts ← useDefaults b.facts (params.positional ++ params.keywordOnly)
    let facts := { facts with bound := addName facts.bound name }
    let child ← Block.readAll ⟨facts.ofFunction name params isAsync span, []⟩ body
    return ⟨facts, b.children ++ [child]⟩
  | .classDef name bases body span => do
    let facts ← useExprs b.facts bases
    let facts := { facts with bound := addName facts.bound name }
    let child ← Block.readAll ⟨facts.ofClass name span, []⟩ body
    return ⟨facts, b.children ++ [child]⟩
  | .ret value _ =>
    match value with
    | some value => do return { b with facts := ← useExpr b.facts value }
    | none => .ok b
  | .cond test body orelse _ => do
    let b := { b with facts := ← useExpr b.facts test }
    Block.readAll (← Block.readAll b body) orelse
  | .loop test body _ => do
    Block.readAll { b with facts := ← useExpr b.facts test } body
  | .each target iter body _ => do
    Block.readAll { b with facts := ← bindTarget (← useExpr b.facts iter) target } body
  | .global names span => do
    return { b with facts := ← declareGlobal span b.facts names }
  | .nonlocal names span =>
    if b.facts.kind = .moduleBody then .error ⟨.nonlocalAtModule, span⟩
    else do return { b with facts := ← declareNonlocal span b.facts names }
  | .assert test message _ => do
    return { b with facts := ← useExprs (← useExpr b.facts test) message.toList }
  | .brk _ | .cont _ | .pass _ => .ok b

def Block.readAll (b : Block) : List Stmt → Except CompileError Block
  | [] => .ok b
  | s :: ss => do Block.readAll (← Block.read b s) ss

end

def Facts.ofModule : Facts where
  kind := .moduleBody
  name := "<module>"
  qualname := "<module>"
  span := .origin

def Block.ofModule (body : List Stmt) : Except CompileError Block :=
  Block.readAll ⟨.ofModule, []⟩ body

end Lexiscope.Lexical
