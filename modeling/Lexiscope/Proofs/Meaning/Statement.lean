import Lexiscope.Proofs.Code.Places
import Lexiscope.Proofs.Meaning.Expression
/-!
# The meaning of statements

What the execution of statements does, read off their trees. A statement completes, leaves the loop
around it, or goes on with its next round. There are no labels and no iterators on a stack here.
-/

namespace Lexiscope.Meaning

open Machine Exec
open Code (codePlaces)
open Grammar (Expr Stmt Param Params)
open Lexical (Scope)

/-- How a statement comes to an end, if the body goes on. -/
inductive Exit where
  | normal
  /-- The innermost loop ends. -/
  | broke
  /-- The innermost loop goes on with its next round. -/
  | continued
  deriving DecidableEq, Inhabited

section Targets

def writeName (s : Scope) (name : Name) (v : Value) (f : Frame) : Exec Frame :=
  match s.symbol name with
  | .fast => f.storeFast (slotOf f name) v
  | .cell | .free => do
    setCell (← f.cell (cellOf f name)) v
    return f
  | .classLocal => do
    setName (f.classSpace.getD f.globals) name v
    return f
  | .globalExplicit | .globalImplicit => do
    setName f.globals name v
    return f
  | .classFree => return f

def itemsOf (n count : Nat) (v : Value) : Exec (List.Vector Value count) := do
  let items ← collect n v
  if h : items.size = count then
    let vs : List.Vector Value count := ⟨items.toList, by rw [Array.length_toList, h]⟩
    return vs
  else if items.size < count then
    valueError ("not enough values to unpack (expected " ++ toString count ++ ", got " ++
      toString items.size ++ ")")
  else valueError ("too many values to unpack (expected " ++ toString count ++ ")")

mutual

def assignTo (n : Nat) (s : Scope) : Expr → Value → Tale Unit
  | .name name _, v => .bindName name v (writeName s name v)
  | .member value attr _, v => do
    let object ← evaluate n s value
    .doing (.setMember object attr v) (setAttribute object attr v)
  | .subscript value index _, v => do
    let container ← evaluate n s value
    let i ← evaluate n s index
    .doing (.setItem container i v) (setItem container i v)
  | .tuple items _, v | .list items _, v => do
    let vs ← Tale.doing (.unpack v items.length) (itemsOf n items.length v)
    assignAll n s items vs.toList
  | _, _ => pure ()

def assignAll (n : Nat) (s : Scope) : List Expr → List Value → Tale Unit
  | e :: es, v :: vs => do
    assignTo n s e v
    assignAll n s es vs
  | _, _ => pure ()

end

/-- Stores the same value in several targets, from left to right. -/
def assignChain (n : Nat) (s : Scope) (v : Value) : List Expr → Tale Unit
  | [] => pure ()
  | e :: es => do
    assignTo n s e v
    assignChain n s v es

/-- Combines the value of a target with another value and stores the result. The object and the
index of the target are evaluated once. -/
def augment (n : Nat) (s : Scope) (op : Grammar.BinaryOp) (value : Expr) : Expr → Tale Unit
  | .name name _ => do
    let v ← Tale.look name (readName s name)
    let w ← evaluate n s value
    let result ← Tale.doing (.binary op v w) (binary op v w)
    .bindName name result (writeName s name result)
  | .member target attr _ => do
    let object ← evaluate n s target
    let v ← Tale.doing (.member object attr) (getAttribute object attr)
    let w ← evaluate n s value
    let result ← Tale.doing (.binary op v w) (binary op v w)
    .doing (.setMember object attr result) (setAttribute object attr result)
  | .subscript target index _ => do
    let container ← evaluate n s target
    let i ← evaluate n s index
    let v ← Tale.doing (.item container i) (getItem container i)
    let w ← evaluate n s value
    let result ← Tale.doing (.binary op v w) (binary op v w)
    .doing (.setItem container i result) (setItem container i result)
  | _ => pure ()

end Targets

section Definitions

/-- A part that a function may be made with. -/
abbrev PartOf (present : Bool) := { part : Option Value // part.isSome = present }

def unlessAbsent (absent : Bool) (x : Tale Value) : Tale (PartOf !absent) :=
  if h : absent = true then pure ⟨none, by rw [h]; rfl⟩
  else do
    let v ← x
    return ⟨some v, by rw [Bool.eq_false_of_not_eq_true h]; rfl⟩

/-- The tuple of the defaults of positional parameters, if there are any. -/
def positionalTuple (n : Nat) (s : Scope) (params : List Param) :
    Tale (PartOf !(params.filterMap (·.default)).isEmpty) :=
  unlessAbsent _ do
    let vs ← evaluateAll n s (params.filterMap (·.default))
    .silently fun _ => newTuple vs.toList

def evaluateNamed (n : Nat) (s : Scope) :
    (es : List (Name × Expr)) → Tale (List.Vector Value (2 * es.length))
  | [] => pure .nil
  | (name, value) :: es => do
    let key ← Tale.silently (literal name)
    let v ← evaluate n s value
    let vs ← evaluateNamed n s es
    return key ::ᵥ v ::ᵥ vs

def namedDefaults (params : List Param) : List (Name × Expr) :=
  params.filterMap fun p => p.default.map fun d => (p.name, d)

/-- The dictionary of the defaults of keyword-only parameters, if there are any. -/
def keywordDict (n : Nat) (s : Scope) (params : List Param) :
    Tale (PartOf !(namedDefaults params).isEmpty) :=
  unlessAbsent _ do
    let flat ← evaluateNamed n s (namedDefaults params)
    .silently fun _ => do newDict (← entriesOfFlat .empty flat.toList)

/-- The code of an inner body, by the number of the bodies that are defined before it. -/
def innerCode (k : Nat) (f : Frame) : LoadedCode :=
  let place := (codePlaces f.code.object.constants)[k]?.getD 0
  match f.code.object.constants[place]? with
  | some (.code c) => f.code.inner place c
  | _ => default

def cellsOf : (names : List Name) → Frame → Exec (List.Vector CellRef names.length)
  | [], _ => pure .nil
  | name :: names, f => do
    let r ← f.cell (cellOf f name)
    let rs ← cellsOf names f
    return r ::ᵥ rs

/-- What a part of a function is read as, if it is there. -/
def readPart {α : Type} (absent : α) (read : Value → Exec α) : Option Value → Exec α
  | some v => read v
  | none => pure absent

def functionOf (code : LoadedCode) (closure : List CellRef) (defaults keywordDefaults : Option Value)
    (f : Frame) : Exec Value := do
  let keywordDefaults ← readPart .empty keywordDefaultsOf keywordDefaults
  let defaults ← readPart [] defaultsOf defaults
  let id ← freshIdentity
  return .function ⟨id, code, f.globals, defaults, keywordDefaults, closure⟩

/-- A function is made of the code of an inner body with the cells that the frame has for names. -/
def closureWith (names : List Name) (k : Nat) (defaults keywordDefaults : Option Value) (f : Frame) :
    Exec Value := do
  let closure ← cellsOf names f
  if names.isEmpty then functionOf (innerCode k f) closure.toList defaults keywordDefaults f
  else
    -- The cells come in a tuple that nobody gets to see.
    let _ ← freshIdentity
    functionOf (innerCode k f) closure.toList defaults keywordDefaults f

/-- A function is made of the code of an inner body. It shares the cells of the free names of the
code. -/
def closureOver (k : Nat) (defaults keywordDefaults : Option Value) (f : Frame) : Exec Value :=
  closureWith (innerCode k f).object.freevars k defaults keywordDefaults f

def define (n : Nat) (s : Scope) (name : Name) (params : Params) (k : Nat) : Tale Unit := do
  let defaults ← positionalTuple n s params.positional
  let keywordDefaults ← keywordDict n s params.keywordOnly
  let function ← Tale.silently (closureOver k defaults.1 keywordDefaults.1)
  .bindName name function (writeName s name function)

def defineClass (n : Nat) (s : Scope) (name : Name) (bases : List Expr) (k : Nat) : Tale Unit := do
  let builder ← Tale.silently fun _ => return .builtin (some (← freshIdentity)) .buildClass
  let body ← Tale.silently (closureOver k none none)
  let text ← Tale.silently (literal name)
  let bases ← evaluateAll n s bases
  let args := body :: text :: bases.toList
  let made ← Tale.doing (.call builder args []) (callValue n builder args [])
  .bindName name made (writeName s name made)

end Definitions

section Statements

def failAssertion (n : Nat) (s : Scope) (message : Option Expr) : Tale Unit := do
  let v ← match message with
    | some message => evaluate n s message
    | none => pure .none
  .silently fun _ => do raise .assertionError (assertionMessage (← get) v)

def check (n : Nat) (s : Scope) (test : Expr) (message : Option Expr) : Tale Unit := do
  let v ← evaluate n s test
  if (← Tale.truth v) = true then pure () else failAssertion n s message

/-- A loop goes round as long as there is something to begin a round with. Its rounds are bounded. -/
def goRound {α : Type} (start : Tale (Option α)) (round : α → Tale Exit) : Nat → Tale Unit
  | 0 => .silently fun _ => throw .outOfFuel
  | n + 1 => do
    match ← start with
    | none => pure ()
    | some a =>
      match ← round a with
      | .broke => pure ()
      | .normal | .continued => goRound start round n

def retest (n : Nat) (s : Scope) (test : Expr) : Tale (Option Unit) := do
  let v ← evaluate n s test
  let b ← Tale.truth v
  return if b then some () else none

def iterate (n : Nat) (s : Scope) (items : Expr) : Tale Value := do
  let v ← evaluate n s items
  .doing (.iterate v) (makeIterator v)

mutual

/-- The number of bodies that are defined by a statement, not counting those inside them. -/
def bodyCount : Stmt → Nat
  | .define .. | .classDef .. => 1
  | .cond _ body orelse _ => bodyCounts body + bodyCounts orelse
  | .loop _ body _ | .each _ _ body _ => bodyCounts body
  | _ => 0

/-- The number of bodies that are defined by statements. -/
def bodyCounts : List Stmt → Nat
  | [] => 0
  | stmt :: stmts => bodyCount stmt + bodyCounts stmts

end

mutual

/-- What a statement does. So many bodies are defined before it. -/
def execute (n : Nat) (s : Scope) : Stmt → Nat → Tale Exit
  | .expr value _, _ => do
    let _ ← evaluate n s value
    return .normal
  | .assign targets value _, _ => do
    let v ← evaluate n s value
    assignChain n s v targets
    return .normal
  | .augAssign target op value _, _ => do
    augment n s op value target
    return .normal
  | .define name params _ _ _, k => do
    define n s name params k
    return .normal
  | .classDef name bases _ _, k => do
    defineClass n s name bases k
    return .normal
  | .ret value _, _ => do
    let v ← match value with
      | some value => evaluate n s value
      | none => pure .none
    .returns v
  | .cond test body orelse _, k => do
    let v ← evaluate n s test
    if ← Tale.truth v then executeAll n s body k
    else executeAll n s orelse (k + bodyCounts body)
  | .loop test body _, k => do
    goRound (retest n s test) (fun _ => executeAll n s body k) n
    return .normal
  | .each target items body _, k => do
    let iterator ← iterate n s items
    let round := fun item => do
      assignTo n s target item
      executeAll n s body k
    goRound (.doing (.next iterator) (nextItem n iterator)) round n
    return .normal
  | .brk _, _ => return .broke
  | .cont _, _ => return .continued
  | .pass _, _ | .global .., _ | .nonlocal .., _ => return .normal
  | .raise value _, _ => do
    let v ← evaluate n s value
    .silently fun _ => raiseValue v
  | .assert test message _, _ => do
    check n s test message
    return .normal

def executeAll (n : Nat) (s : Scope) : List Stmt → Nat → Tale Exit
  | [], _ => return .normal
  | stmt :: stmts, k => do
    match ← execute n s stmt k with
    | .normal => executeAll n s stmts (k + bodyCount stmt)
    | exit => return exit

end

end Statements

end Lexiscope.Meaning
