import Lexiscope.Grammar.Lexer
/-!
# Reading tokens one by one

A parser reads tokens through a cursor, which knows the tokens still to come and the span of
the last one taken. The last token is never used up: past it the end of the source goes on.
-/

namespace Lexiscope.Grammar

open Text (Span)

/-- What is wrong with a sequence of tokens. -/
inductive SyntaxFault where
  | lexical (fault : LexFault)
  | expected (wanted : Mark) (found : TokenKind)
  | expectedExpression (found : TokenKind)
  | expectedIdentifier (found : TokenKind)
  | expectedStatementEnd (found : TokenKind)
  | expectedDef
  | unmatchedBrace
  | missingBrace
  | repeatedKeyword (name : Name)
  | positionalAfterKeyword
  | restKeywordsNotLast
  | duplicateStar
  | defaultBeforeRequired
  | duplicateParameter (name : Name)
  | notAssignable
  | tooDeep
  deriving Inhabited

def SyntaxFault.message : SyntaxFault → String
  | lexical fault => fault.message
  | expected wanted found => "expected `" ++ wanted.spelling ++ "`, found " ++ found.describe
  | expectedExpression found => "expected expression, found " ++ found.describe
  | expectedIdentifier found => "expected identifier, found " ++ found.describe
  | expectedStatementEnd found => "expected end of statement, found " ++ found.describe
  | expectedDef => "expected `def` after `async`"
  | unmatchedBrace => "unmatched `\x7d`"
  | missingBrace => "expected `\x7d` before end of input"
  | repeatedKeyword name => "keyword argument repeated: `" ++ name ++ "`"
  | positionalAfterKeyword => "positional argument follows keyword argument"
  | restKeywordsNotLast => "`**` parameter must be last"
  | duplicateStar => "duplicate `*` in parameters"
  | defaultBeforeRequired =>
    "parameter without a default follows parameter with a default"
  | duplicateParameter name => "duplicate parameter `" ++ name ++ "`"
  | notAssignable => "cannot assign to expression"
  | tooDeep => "nesting too deep"

/-- A fault and where it stands. -/
structure SyntaxError where
  fault : SyntaxFault
  span : Span
  deriving Inhabited

def SyntaxError.render (e : SyntaxError) : String :=
  e.fault.message ++ " at " ++ e.span.render

/-- The tokens to come and the span of the last one taken. -/
structure Cursor where
  previous : Span
  rest : List Token
  deriving Inhabited

def Cursor.current (c : Cursor) : Token :=
  match c.rest with
  | t :: _ => t
  | [] => ⟨.mark .eof, c.previous⟩

def Cursor.next (c : Cursor) : Cursor :=
  match c.rest with
  | t :: ts => ⟨t.span, ts⟩
  | [] => c

/-- A computation that takes tokens. -/
abbrev Parser (α : Type) := StateT Cursor (Except SyntaxError) α

namespace Parser

def failAt {α : Type} (fault : SyntaxFault) (span : Span) : Parser α :=
  fun _ => .error ⟨fault, span⟩

def current : Parser Token := fun c => .ok (c.current, c)

def kind : Parser TokenKind := fun c => .ok (c.current.kind, c)

def peekKind : Parser TokenKind := fun c => .ok (c.next.current.kind, c)

def previous : Parser Span := fun c => .ok (c.previous, c)

def advance : Parser Token := fun c => .ok (c.current, c.next)

def atMark (m : Mark) : Parser Bool := fun c => .ok (c.current.kind.isMark m, c)

def accept (m : Mark) : Parser Bool := fun c =>
  if c.current.kind.isMark m then .ok (true, c.next) else .ok (false, c)

def expect (m : Mark) : Parser Span := fun c =>
  if c.current.kind.isMark m then .ok (c.current.span, c.next)
  else .error ⟨.expected m c.current.kind, c.current.span⟩

def identifier : Parser Name := fun c =>
  match c.current.kind with
  | .ident name => .ok (name, c.next)
  | other => .error ⟨.expectedIdentifier other, c.current.span⟩

/-- Takes tokens as long as they are one of the marks given. -/
def skip (marks : List Mark) : Parser Unit := fun c =>
  let skipped := c.rest.takeWhile fun t => marks.any t.kind.isMark
  .ok ((), ⟨(skipped.getLast?.map (·.span)).getD c.previous, c.rest.drop skipped.length⟩)

def kindAfterNewlines : Parser TokenKind := fun c =>
  .ok (((c.rest.find? fun t => !t.kind.isMark .newline).map (·.kind)).getD (.mark .eof), c)

def spanFrom (start : Span) : Parser Span := do
  return start.merge (← previous)

/-- Operands joined from left to right by the operators that `combine?` knows. -/
def leftChain {α : Type} (combine? : TokenKind → Option (α → α → α)) (operand : Parser α) :
    Nat → α → Parser α
  | 0, _ => do failAt .tooDeep (← current).span
  | n + 1, left => do
    match combine? (← kind) with
    | none => return left
    | some combine =>
      let _ ← advance
      leftChain combine? operand n (combine left (← operand))

end Parser

end Lexiscope.Grammar
