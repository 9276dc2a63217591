import Lexiscope.Grammar.Cursor
import Lexiscope.Grammar.Tree
/-!
# Expressions from tokens

The levels of precedence, from the loosest: the conditional, `or`, `and`, `not`, the
comparisons, `+ -`, `* / // %`, the signs, `**`, `await`, the forms that follow an operand
(call, member, subscript), and the atoms. Comparisons do not chain. Operators of one level
associate to the left, only `**` to the right, and its exponent may have a sign.

The first argument of the recursive parsers bounds their nesting. Between two nested calls
that take no token there are fewer calls than levels, so that a multiple of the number of
tokens is enough.
-/

namespace Lexiscope.Grammar

open Text (Span)
open Lexiscope.Grammar.Parser

def Expr.join (make : Expr → Expr → Span → Expr) (left right : Expr) : Expr :=
  make left right (left.span.merge right.span)

def TokenKind.startsExpr : TokenKind → Bool
  | .ident _ | .int _ | .float _ | .str _ => true
  | .mark m =>
    m ∈ [.kwTrue, .kwFalse, .kwNone, .ellipsis, .lparen, .lbracket, .lbrace, .minus, .plus,
      .kwNot, .kwAwait]

def sumOp? : TokenKind → Option (Expr → Expr → Expr)
  | .mark .plus => some (Expr.join (.binary .add))
  | .mark .minus => some (Expr.join (.binary .sub))
  | _ => none

def productOp? : TokenKind → Option (Expr → Expr → Expr)
  | .mark .star => some (Expr.join (.binary .mul))
  | .mark .slash => some (Expr.join (.binary .div))
  | .mark .doubleSlash => some (Expr.join (.binary .floorDiv))
  | .mark .percent => some (Expr.join (.binary .mod))
  | _ => none

def andOp? : TokenKind → Option (Expr → Expr → Expr)
  | .mark .kwAnd => some (Expr.join (.boolean .and))
  | _ => none

def orOp? : TokenKind → Option (Expr → Expr → Expr)
  | .mark .kwOr => some (Expr.join (.boolean .or))
  | _ => none

def signOp? : TokenKind → Option UnaryOp
  | .mark .minus => some .neg
  | .mark .plus => some .pos
  | _ => none

def compareOp? (first second : TokenKind) : Option (CompareOp × Bool) :=
  match first with
  | .mark .eqEq => some (.eq, false)
  | .mark .notEq => some (.notEq, false)
  | .mark .lt => some (.lt, false)
  | .mark .ltE => some (.ltE, false)
  | .mark .gt => some (.gt, false)
  | .mark .gtE => some (.gtE, false)
  | .mark .kwIn => some (.in, false)
  | .mark .kwNot => if second.isMark .kwIn then some (.notIn, true) else none
  | .mark .kwIs => if second.isMark .kwNot then some (.isNot, true) else some (.is, false)
  | _ => none

namespace Level

def product (factor : Parser Expr) (n : Nat) : Parser Expr := do
  leftChain productOp? factor n (← factor)

def sum (factor : Parser Expr) (n : Nat) : Parser Expr := do
  leftChain sumOp? (product factor n) n (← product factor n)

/-- At most one comparison. -/
def comparison (factor : Parser Expr) (n : Nat) : Parser Expr := do
  let left ← sum factor n
  match compareOp? (← kind) (← peekKind) with
  | none => return left
  | some (op, takesBoth) =>
    if takesBoth then let _ ← advance
    let _ ← advance
    return Expr.join (.compare op) left (← sum factor n)

def negation (factor : Parser Expr) : Nat → Parser Expr
  | 0 => do failAt .tooDeep (← current).span
  | n + 1 => do
    if ← atMark .kwNot then
      let start := (← advance).span
      let operand ← negation factor n
      return .unary .not operand (start.merge operand.span)
    else comparison factor n

def conjunction (factor : Parser Expr) (n : Nat) : Parser Expr := do
  leftChain andOp? (negation factor n) n (← negation factor n)

def disjunction (factor : Parser Expr) (n : Nat) : Parser Expr := do
  leftChain orOp? (conjunction factor n) n (← conjunction factor n)

end Level

def adjacentStrings (text : String) (rest : List Token) (previous : Span) : String × Cursor :=
  match rest with
  | ⟨.str more, span⟩ :: rest => adjacentStrings (text ++ more) rest span
  | rest => (text, ⟨previous, rest⟩)

def joinStrings (text : String) : Parser String := fun c =>
  .ok (adjacentStrings text c.rest c.previous)

mutual

/-- A single expression: no bare tuple and no `yield`. -/
def expression : Nat → Parser Expr
  | 0 => do failAt .tooDeep (← current).span
  | n + 1 => do
    let body ← Level.disjunction (signed n) n
    if ← accept .kwIf then
      let test ← Level.disjunction (signed n) n
      let _ ← expect .kwElse
      let orelse ← expression n
      return .conditional test body orelse (body.span.merge orelse.span)
    else return body

def signed : Nat → Parser Expr
  | 0 => do failAt .tooDeep (← current).span
  | n + 1 => do
    match signOp? (← kind) with
    | some op =>
      let start := (← advance).span
      let operand ← signed n
      return .unary op operand (start.merge operand.span)
    | none =>
      let base ← awaited n
      if ← accept .doubleStar then
        return Expr.join (.binary .pow) base (← signed n)
      else return base

def awaited : Nat → Parser Expr
  | 0 => do failAt .tooDeep (← current).span
  | n + 1 => do
    if ← atMark .kwAwait then
      let start := (← advance).span
      let value ← awaited n
      return .await value (start.merge value.span)
    else operand n

/-- An atom with the calls, members and subscripts after it. -/
def operand : Nat → Parser Expr
  | 0 => do failAt .tooDeep (← current).span
  | n + 1 => do trailers n (← atom n)

/-- Any number of calls, members and subscripts of an expression. -/
def trailers : Nat → Expr → Parser Expr
  | 0, _ => do failAt .tooDeep (← current).span
  | n + 1, e => do
    match ← kind with
    | .mark .lparen =>
      let _ ← advance
      let (args, keywords) ← arguments n [] []
      let stop ← expect .rparen
      trailers n (.call e args keywords (e.span.merge stop))
    | .mark .dot =>
      let _ ← advance
      let attr ← identifier
      trailers n (.member e attr (← spanFrom e.span))
    | .mark .lbracket =>
      let _ ← advance
      let index ← expressionList n
      let stop ← expect .rbracket
      trailers n (.subscript e index (e.span.merge stop))
    | _ => return e

/-- The arguments of a call up to its closing parenthesis, after those already found. -/
def arguments : Nat → List Expr → List (Name × Expr) →
    Parser (List Expr × List (Name × Expr))
  | 0, _, _ => do failAt .tooDeep (← current).span
  | n + 1, args, keywords => do
    if ← atMark .rparen then return (args, keywords)
    match ← kind, (← peekKind).isMark .assign with
    | .ident name, true =>
      let start := (← advance).span
      let _ ← advance
      if keywords.any (·.1 == name) then failAt (.repeatedKeyword name) start
      let value ← expression n
      let keywords := keywords ++ [(name, value)]
      if ← accept .comma then arguments n args keywords else return (args, keywords)
    | _, _ =>
      let arg ← expression n
      if !keywords.isEmpty then failAt .positionalAfterKeyword arg.span
      let args := args ++ [arg]
      if ← accept .comma then arguments n args keywords else return (args, keywords)

def atom : Nat → Parser Expr
  | 0 => do failAt .tooDeep (← current).span
  | n + 1 => do
    let token ← advance
    let start := token.span
    match token.kind with
    | .ident name => return .name name start
    | .int value => return .int value start
    | .float value => return .float value start
    | .str text =>
      let text ← joinStrings text
      return .str text (← spanFrom start)
    | .mark .kwTrue => return .bool true start
    | .mark .kwFalse => return .bool false start
    | .mark .kwNone => return .none start
    | .mark .ellipsis => return .ellipsis start
    | .mark .lparen => parenthesised n start
    | .mark .lbracket =>
      let items ← sequence n .rbracket
      let _ ← expect .rbracket
      return .list items (← spanFrom start)
    | .mark .lbrace =>
      let entries ← dictEntries n
      return .dict entries (← spanFrom start)
    | other => failAt (.expectedExpression other) start

/-- What follows an opening parenthesis: nothing, a `yield`, an expression, or a tuple. A
parenthesised expression covers its parentheses, a `yield` does not. -/
def parenthesised : Nat → Span → Parser Expr
  | 0, _ => do failAt .tooDeep (← current).span
  | n + 1, start => do
    if ← accept .rparen then return .tuple [] (← spanFrom start)
    if ← atMark .kwYield then
      let inner ← yielded n
      let _ ← expect .rparen
      return inner
    let first ← expression n
    if ← accept .rparen then return first.withSpan (← spanFrom start)
    let _ ← expect .comma
    let items ← sequence n .rparen
    let _ ← expect .rparen
    return .tuple (first :: items) (← spanFrom start)

def sequence : Nat → Mark → Parser (List Expr)
  | 0, _ => do failAt .tooDeep (← current).span
  | n + 1, close => do
    if ← atMark close then return []
    let item ← expression n
    if ← accept .comma then return item :: (← sequence n close) else return [item]

/-- The entries of a dictionary and its closing brace. Line ends between them do not
count. -/
def dictEntries : Nat → Parser (List (Expr × Expr))
  | 0 => do failAt .tooDeep (← current).span
  | n + 1 => do
    skip [.newline]
    if ← accept .rbrace then return []
    let key ← expression n
    skip [.newline]
    let _ ← expect .colon
    skip [.newline]
    let value ← expression n
    skip [.newline]
    if ← accept .comma then return (key, value) :: (← dictEntries n)
    let _ ← expect .rbrace
    return [(key, value)]

/-- An expression, or several with commas between them, which are a tuple. -/
def expressionList : Nat → Parser Expr
  | 0 => do failAt .tooDeep (← current).span
  | n + 1 => do
    let first ← expression n
    if ← atMark .comma then
      let items ← moreItems n
      return .tuple (first :: items) (← spanFrom first.span)
    else return first

/-- The further items of a tuple without parentheses, each after its comma. -/
def moreItems : Nat → Parser (List Expr)
  | 0 => do failAt .tooDeep (← current).span
  | n + 1 => do
    if ← accept .comma then
      if (← kind).startsExpr then
        let item ← expression n
        return item :: (← moreItems n)
      else return []
    else return []

/-- The word `yield` with the value after it, if there is one. -/
def yielded : Nat → Parser Expr
  | 0 => do failAt .tooDeep (← current).span
  | n + 1 => do
    let start ← expect .kwYield
    if (← kind).startsExpr then
      let value ← expressionList n
      return .yield (some value) (← spanFrom start)
    else return .yield none (← spanFrom start)

end

def expressionListOrYield (n : Nat) : Parser Expr := do
  if ← atMark .kwYield then yielded n else expressionList n

end Lexiscope.Grammar
