import Mathlib.Data.Vector.Basic
import Lexiscope.Lexical.Scope
import Lexiscope.Proofs.Meaning.Tale
/-!
# The meaning of expressions

What the evaluation of an expression does, read off its tree: operands from left to right, then the
operation itself. There is no stack and no jump here, and names are found by their names.
-/

namespace Lexiscope.Meaning

open Machine Exec
open Grammar (Expr BoolOp)
open Lexical (Scope)

def slotOf (f : Frame) (name : Name) : Nat := (f.code.object.varnames.idxOf? name).getD 0

def cellOf (f : Frame) (name : Name) : Nat := (f.code.object.derefNames.idxOf? name).getD 0

def orUndefined (name : Name) : Option Value → Exec Value
  | some v => pure v
  | none => undefinedName name

def readGlobal (f : Frame) (name : Name) : Exec Value := do
  orUndefined name ((← get).global f.globals name)

/-- The value of a name of the class, or else of a global name. -/
def readClassName (f : Frame) (name : Name) : Exec Value := do
  let s ← get
  orUndefined name ((f.classValue? s name).or (s.global f.globals name))

def readName (s : Scope) (name : Name) (f : Frame) : Exec Value :=
  match s.symbol name with
  | .fast => f.loadFast (slotOf f name)
  | .cell | .free => f.loadDeref (cellOf f name)
  | .classFree => f.loadClassDeref (cellOf f name)
  | .classLocal => readClassName f name
  | .globalImplicit => if s.facts.kind = .classBody then readClassName f name else readGlobal f name
  | .globalExplicit => readGlobal f name

/-- A text of the program. Equal texts in one body are the same object. -/
def literal (text : String) (f : Frame) : Exec Value :=
  let slot := (f.code.object.constants.findIdx? (·.sharesSlot (.str text))).getD 0
  pure (.str ⟨.pooled f.code.pool slot, text⟩)

abbrev Texts (names : List Name) := { texts : List Str // texts.map (·.text) = names }

instance (names : List Name) : Inhabited (Texts names) :=
  ⟨names.map (⟨.fresh 0, ·⟩), by rw [List.map_map]; exact List.map_id names⟩

def nameTexts : (names : List Name) → Exec (Texts names)
  | [] => pure ⟨[], rfl⟩
  | name :: names => do
    let id ← freshIdentity
    let texts ← nameTexts names
    return ⟨⟨id, name⟩ :: texts.1, by rw [List.map_cons, texts.2]⟩

/-- The names of the keywords of a call become a tuple of texts. -/
def nameTuple (names : List Name) : Exec (Texts names × Identity) := do
  let texts ← nameTexts names
  return (texts, ← freshIdentity)

mutual

/-- The expression neither yields nor awaits. -/
def isPlain : Expr → Bool
  | .none _ | .ellipsis _ | .bool .. | .int .. | .float .. | .str .. | .name .. => true
  | .list items _ | .tuple items _ => arePlain items
  | .dict items _ => entriesPlain items
  | .member value _ _ => isPlain value
  | .subscript value index _ => isPlain value && isPlain index
  | .call callee args keywords _ => isPlain callee && arePlain args && keywordsPlain keywords
  | .unary _ operand _ => isPlain operand
  | .binary _ left right _ | .compare _ left right _ | .boolean _ left right _ =>
    isPlain left && isPlain right
  | .conditional test body orelse _ => isPlain test && isPlain body && isPlain orelse
  | .yield .. | .await .. => false

def arePlain : List Expr → Bool
  | [] => true
  | e :: es => isPlain e && arePlain es

def entriesPlain : List (Expr × Expr) → Bool
  | [] => true
  | (key, value) :: es => isPlain key && isPlain value && entriesPlain es

/-- The values of keyword arguments neither yield nor await. -/
def keywordsPlain : List (Name × Expr) → Bool
  | [] => true
  | (_, value) :: es => isPlain value && keywordsPlain es

end

/-- The truth of the left operand with which the right one is left out. -/
def decider : BoolOp → Bool
  | .and => false
  | .or => true

mutual

/-- The value of an expression. Calls have a bound on their nested steps. -/
def evaluate (n : Nat) (s : Scope) : Expr → Tale Value
  | .none _ => pure .none
  | .ellipsis _ => pure .ellipsis
  | .bool value _ => pure (.bool value)
  | .int value _ => pure (.int value)
  | .float value _ => pure (.float value)
  | .str text _ => .silently (literal text)
  | .name name _ => .look name (readName s name)
  | .list items _ => do
    let vs ← evaluateAll n s items
    .silently fun _ => newList vs.toList.toArray
  | .tuple items _ => do
    let vs ← evaluateAll n s items
    .silently fun _ => newTuple vs.toList
  | .dict items _ => do
    let flat ← evaluateEntries n s items
    .silently fun _ => do newDict (← entriesOfFlat .empty flat.toList)
  | .member value attr _ => do
    let v ← evaluate n s value
    .doing (.member v attr) (getAttribute v attr)
  | .subscript value index _ => do
    let v ← evaluate n s value
    let i ← evaluate n s index
    .doing (.item v i) (getItem v i)
  | .call callee args keywords _ => do
    let f ← evaluate n s callee
    let vs ← evaluateAll n s args
    let ws ← evaluateKeywords n s keywords
    let names := keywords.map (·.1)
    if names.isEmpty then .doing (.call f vs.toList []) (callValue n f vs.toList [])
    else
      -- Nobody gets to see the tuple of the names, but it takes identities.
      let _ ← Tale.silently fun _ => nameTuple names
      let ks := names.zip ws.toList
      .doing (.call f vs.toList ks) (callValue n f vs.toList ks)
  | .unary op operand _ => do
    let v ← evaluate n s operand
    .doing (.unary op v) (unary op v)
  | .binary op left right _ => do
    let v ← evaluate n s left
    let w ← evaluate n s right
    .doing (.binary op v w) (binary op v w)
  | .compare op left right _ => do
    let v ← evaluate n s left
    let w ← evaluate n s right
    .doing (.compare op v w) (.bool <$> compareValues op v w)
  | .boolean op left right _ => do
    let v ← evaluate n s left
    if (← Tale.truth v) = decider op then pure v else evaluate n s right
  | .conditional test body orelse _ => do
    let v ← evaluate n s test
    if ← Tale.truth v then evaluate n s body else evaluate n s orelse
  | .yield value _ => do
    let v ← match value with
      | some value => evaluate n s value
      | none => pure .none
    .yields v
  | .await value _ => do
    let _ ← evaluate n s value
    .silently fun _ => runtimeError "'await' is not supported by this runtime"

def evaluateAll (n : Nat) (s : Scope) : (es : List Expr) → Tale (List.Vector Value es.length)
  | [] => pure .nil
  | e :: es => do
    let v ← evaluate n s e
    let vs ← evaluateAll n s es
    return v ::ᵥ vs

def evaluateEntries (n : Nat) (s : Scope) :
    (es : List (Expr × Expr)) → Tale (List.Vector Value (2 * es.length))
  | [] => pure .nil
  | (key, value) :: es => do
    let k ← evaluate n s key
    let v ← evaluate n s value
    let vs ← evaluateEntries n s es
    return k ::ᵥ v ::ᵥ vs

def evaluateKeywords (n : Nat) (s : Scope) :
    (es : List (Name × Expr)) → Tale (List.Vector Value es.length)
  | [] => pure .nil
  | (_, value) :: es => do
    let v ← evaluate n s value
    let vs ← evaluateKeywords n s es
    return v ::ᵥ vs

end

end Lexiscope.Meaning
