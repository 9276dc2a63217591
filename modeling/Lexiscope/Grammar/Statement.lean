import Lexiscope.Grammar.Expression
/-!
# Statements from tokens

Compound statements carry their bodies in braces; simple ones end at a line end, a
semicolon, a closing brace or the end of the source.
-/

namespace Lexiscope.Grammar

open Text (Span)
open Lexiscope.Grammar.Parser

def augmentedOp? : TokenKind → Option BinaryOp
  | .mark .plusAssign => some .add
  | .mark .minusAssign => some .sub
  | .mark .starAssign => some .mul
  | .mark .slashAssign => some .div
  | .mark .doubleSlashAssign => some .floorDiv
  | .mark .percentAssign => some .mod
  | _ => none

mutual

/-- The first part of an expression that cannot be assigned to. Names, members and
subscripts can, and so can sequences of these where unpacking is allowed. -/
def Expr.unassignable? (unpacks : Bool) : Expr → Option Span
  | .name .. | .member .. | .subscript .. => none
  | .tuple items span | .list items span =>
    if unpacks then firstUnassignable? items else some span
  | e => some e.span

def firstUnassignable? : List Expr → Option Span
  | [] => none
  | e :: es => (e.unassignable? true).or (firstUnassignable? es)

end

def requireTarget (unpacks : Bool) (e : Expr) : Parser Unit :=
  match e.unassignable? unpacks with
  | some span => failAt .notAssignable span
  | none => pure ()

def skipSeparators : Parser Unit :=
  skip [.newline, .semicolon]

def TokenKind.endsStatement : TokenKind → Bool
  | .mark m => m ∈ [.newline, .semicolon, .rbrace, .eof]
  | _ => false

/-- Takes the end of a simple statement. A closing brace and the end of the source stay. -/
def endSimple : Parser Unit := do
  match ← kind with
  | .mark .newline | .mark .semicolon => let _ ← advance
  | .mark .rbrace | .mark .eof => pure ()
  | other => failAt (.expectedStatementEnd other) (← current).span

def moreNames : Nat → Parser (List Name)
  | 0 => do failAt .tooDeep (← current).span
  | n + 1 => do
    if ← accept .comma then
      let name ← identifier
      return name :: (← moreNames n)
    else return []

def nameList (n : Nat) : Parser (List Name) := do
  return (← identifier) :: (← moreNames n)

def assignedValues : Nat → Parser (List Expr)
  | 0 => do failAt .tooDeep (← current).span
  | n + 1 => do
    if ← accept .assign then
      let value ← expressionListOrYield n
      return value :: (← assignedValues n)
    else return []

/-- An expression for its effect, a chain of assignments, or an augmented assignment. -/
def expressionStatement (n : Nat) (start : Span) : Parser Stmt := do
  let first ← expressionListOrYield n
  match augmentedOp? (← kind) with
  | some op =>
    let _ ← advance
    requireTarget false first
    let value ← expressionListOrYield n
    return .augAssign first op value (← spanFrom start)
  | none =>
    let chain := first :: (← assignedValues n)
    let targets := chain.dropLast
    targets.forM (requireTarget true)
    match targets, chain.getLast? with
    | _ :: _, some value => return .assign targets value (← spanFrom start)
    | _, _ => return .expr first (← spanFrom start)

def simpleStatement (n : Nat) (start : Span) : Parser Stmt := do
  match ← kind with
  | .mark .kwReturn =>
    let _ ← advance
    if (← kind).endsStatement then return .ret none (← spanFrom start)
    let value ← expressionList n
    return .ret (some value) (← spanFrom start)
  | .mark .kwPass =>
    let _ ← advance
    return .pass (← spanFrom start)
  | .mark .kwBreak =>
    let _ ← advance
    return .brk (← spanFrom start)
  | .mark .kwContinue =>
    let _ ← advance
    return .cont (← spanFrom start)
  | .mark .kwGlobal =>
    let _ ← advance
    let names ← nameList n
    return .global names (← spanFrom start)
  | .mark .kwNonlocal =>
    let _ ← advance
    let names ← nameList n
    return .nonlocal names (← spanFrom start)
  | .mark .kwRaise =>
    let _ ← advance
    let value ← expression n
    return .raise value (← spanFrom start)
  | .mark .kwAssert =>
    let _ ← advance
    let test ← expression n
    let message ← if ← accept .comma then some <$> expression n else pure none
    return .assert test message (← spanFrom start)
  | _ => expressionStatement n start

/-- The parameters of a function up to the closing parenthesis, after those already found.
`keywordOnly` tells that a star has come. -/
def parameters : Nat → Params → Bool → Parser Params
  | 0, _, _ => do failAt .tooDeep (← current).span
  | n + 1, found, keywordOnly => do
    if ← atMark .rparen then return found
    let start := (← current).span
    if ← accept .doubleStar then
      let found := { found with restKeywords := some (← identifier) }
      let _ ← accept .comma
      if ← atMark .rparen then return found
      failAt .restKeywordsNotLast (← current).span
    else if ← accept .star then
      if keywordOnly then failAt .duplicateStar start
      let found ← match ← kind with
        | .ident name =>
          let _ ← advance
          pure { found with rest := some name }
        -- A star alone only makes what follows keyword-only.
        | _ => pure found
      if ← accept .comma then parameters n found true else return found
    else
      let name ← identifier
      let default ← if ← accept .assign then some <$> expression n else pure none
      let param : Param := ⟨name, default, ← spanFrom start⟩
      let found ←
        if keywordOnly then pure { found with keywordOnly := found.keywordOnly ++ [param] }
        else do
          if default.isNone && found.positional.any (·.default.isSome) then
            failAt .defaultBeforeRequired param.span
          pure { found with positional := found.positional ++ [param] }
      if ← accept .comma then parameters n found keywordOnly else return found

/-- The first name that occurs again in a list, in the order of the second occurrences. -/
def firstRepeated? (seen : List Name) : List Name → Option Name
  | [] => none
  | name :: names => if name ∈ seen then some name else firstRepeated? (name :: seen) names

def distinctParameters (n : Nat) : Parser Params := do
  let params ← parameters n {} false
  match firstRepeated? [] params.names with
  | some name => failAt (.duplicateParameter name) (← current).span
  | none => return params

def moreTargets : Nat → Parser (List Expr)
  | 0 => do failAt .tooDeep (← current).span
  | n + 1 => do
    if ← accept .comma then
      -- A last comma may stand before `in`.
      if ← atMark .kwIn then return []
      let item ← operand n
      return item :: (← moreTargets n)
    else return []

/-- The target of a loop. Its parts are operands, so that the word `in` is left. -/
def loopTarget (n : Nat) : Parser Expr := do
  let first ← operand n
  if ← atMark .comma then
    let items ← moreTargets n
    return .tuple (first :: items) (← spanFrom first.span)
  else return first

mutual

def statement : Nat → Parser Stmt
  | 0 => do failAt .tooDeep (← current).span
  | n + 1 => do
    let start := (← current).span
    match ← kind with
    | .mark .kwDef => definition n false start
    | .mark .kwAsync =>
      let _ ← advance
      if ← atMark .kwDef then definition n true start
      else failAt .expectedDef (← current).span
    | .mark .kwClass =>
      let _ ← advance
      let name ← identifier
      let bases ← if ← accept .lparen then do
          let bases ← sequence n .rparen
          let _ ← expect .rparen
          pure bases
        else pure []
      let body ← block n
      return .classDef name bases body (← spanFrom start)
    | .mark .kwIf =>
      let _ ← advance
      alternatives n start
    | .mark .kwWhile =>
      let _ ← advance
      let test ← expression n
      let body ← block n
      return .loop test body (← spanFrom start)
    | .mark .kwFor =>
      let _ ← advance
      let target ← loopTarget n
      requireTarget true target
      let _ ← expect .kwIn
      let iter ← expressionList n
      let body ← block n
      return .each target iter body (← spanFrom start)
    | _ =>
      let stmt ← simpleStatement n start
      endSimple
      return stmt

def definition : Nat → Bool → Span → Parser Stmt
  | 0, _, _ => do failAt .tooDeep (← current).span
  | n + 1, isAsync, start => do
    let _ ← expect .kwDef
    let name ← identifier
    let _ ← expect .lparen
    let params ← distinctParameters n
    let _ ← expect .rparen
    let body ← block n
    return .define name params body isAsync (← spanFrom start)

/-- What follows `if` or `elif`. Line ends may stand before the next alternative. -/
def alternatives : Nat → Span → Parser Stmt
  | 0, _ => do failAt .tooDeep (← current).span
  | n + 1, start => do
    let test ← expression n
    let body ← block n
    let orelse ← match ← kindAfterNewlines with
      | .mark .kwElif => do
        skip [.newline]
        let start := (← advance).span
        pure [← alternatives n start]
      | .mark .kwElse => do
        skip [.newline]
        let _ ← advance
        block n
      | _ => pure []
    return .cond test body orelse (← spanFrom start)

def block : Nat → Parser (List Stmt)
  | 0 => do failAt .tooDeep (← current).span
  | n + 1 => do
    let _ ← expect .lbrace
    blockRest n

def blockRest : Nat → Parser (List Stmt)
  | 0 => do failAt .tooDeep (← current).span
  | n + 1 => do
    skipSeparators
    if ← accept .rbrace then return []
    if ← atMark .eof then failAt .missingBrace (← current).span
    let stmt ← statement n
    return stmt :: (← blockRest n)

end

def statements : Nat → Parser (List Stmt)
  | 0 => do failAt .tooDeep (← current).span
  | n + 1 => do
    skipSeparators
    if ← atMark .eof then return []
    if ← atMark .rbrace then failAt .unmatchedBrace (← current).span
    let stmt ← statement n
    return stmt :: (← statements n)

/-- A bound on the nesting of the parsers for a number of tokens. -/
def nestingBound (tokens : Nat) : Nat := 8 * tokens + 8

def ofTokens (tokens : List Token) : Except SyntaxError (List Stmt) :=
  (statements (nestingBound tokens.length) ⟨.origin, tokens⟩).map Prod.fst

def parse (source : String) : Except SyntaxError (List Stmt) :=
  match lex source with
  | .ok tokens => ofTokens tokens
  | .error e => .error ⟨.lexical e.fault, e.span⟩

end Lexiscope.Grammar
