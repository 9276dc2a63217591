import Lexiscope.Decimal.Read
import Lexiscope.Grammar.Token
import Lexiscope.Text.Alphabetic
import Lexiscope.Text.Quoted
/-!
# From text to tokens

A source is cut into pieces from left to right. A piece is the longest one that its first
character allows; it is a token, a line end, or text that means nothing. A line end becomes
a token outside parentheses and brackets, once between two other tokens, and never at the
start. Braces do not count, since they hold statements as well as entries.
-/

namespace Lexiscope.Grammar

open Text (Span byteLength isAlphabetic isAlphanumeric)

/-- What is wrong with a text. -/
inductive LexFault where
  | unterminatedString
  | unknownEscape (c : Char)
  | invalidChar (c : Char)
  | malformedNumber (text : String)
  | unbalanced (c : Char)
  deriving DecidableEq, Repr, Inhabited

def LexFault.message : LexFault → String
  | unterminatedString => "unterminated string literal"
  | unknownEscape c => "unknown escape sequence `\\" ++ c.toString ++ "`"
  | invalidChar c => "unexpected character `" ++ c.toString ++ "`"
  | malformedNumber text => "malformed number `" ++ text ++ "`"
  | unbalanced c => "unbalanced `" ++ c.toString ++ "`"

/-- A fault and where it stands. -/
structure LexError where
  fault : LexFault
  span : Span
  deriving DecidableEq, Repr, Inhabited

def LexError.render (e : LexError) : String :=
  e.fault.message ++ " at " ++ e.span.render

/-- What a piece of the source is. -/
inductive Piece where
  | blank
  | lineEnd
  | token (kind : TokenKind)

/-- A fault with the numbers of characters from the start of the piece to its two ends. -/
structure LocalFault where
  fault : LexFault
  first : Nat
  last : Nat

/-- A piece with the number of characters that it takes after its first one, or a fault. -/
abbrev Scan (α : Type) := Except LocalFault (α × Nat)

def isWordChar (c : Char) : Bool := c == '_' || isAlphanumeric c

def isWordStart (c : Char) : Bool := c == '_' || isAlphabetic c

/-- A digit, or the underscore that may stand between digits. -/
def isDigitOrGap (c : Char) : Bool := c == '_' || c.isDigit

/-- The contents of a string literal after its opening quote. `taken` characters after the
quote have been read, and `text` holds their meaning in reverse. -/
def scanString (quote : Char) (text : List Char) (taken : Nat) : List Char → Scan String
  | [] => .error ⟨.unterminatedString, 0, taken + 1⟩
  | c :: cs =>
    if c == quote then .ok (String.ofList text.reverse, taken + 1)
    else if c == '\n' then .error ⟨.unterminatedString, 0, taken + 2⟩
    else if c == '\\' then
      match cs with
      | [] => .error ⟨.unterminatedString, 0, taken + 2⟩
      | e :: es =>
        match Text.Quoted.escape? e with
        | some meaning => scanString quote (meaning :: text) (taken + 2) es
        | none => .error ⟨.unknownEscape e, taken + 1, taken + 3⟩
    else scanString quote (c :: text) (taken + 1) cs

/-- The parts of a number: what starts it, a fraction, an exponent, and letters that do not
belong there. A point belongs to the number only before a digit. -/
structure NumberParts where
  whole : List Char
  fraction : List Char
  exponent : List Char
  excess : List Char

/-- The fraction at the start of a text: a point and digits, if a digit follows the point. -/
def fractionPart (cs : List Char) : List Char :=
  match cs with
  | '.' :: d :: _ =>
    if d.isDigit then '.' :: (cs.drop 1).takeWhile isDigitOrGap else []
  | _ => []

/-- The exponent at the start of a text, with digits or without. -/
def exponentPart (cs : List Char) : List Char :=
  match cs with
  | e :: rest =>
    if e == 'e' || e == 'E' then
      match rest with
      | s :: digits =>
        if s == '+' || s == '-' then e :: s :: digits.takeWhile isDigitOrGap
        else e :: rest.takeWhile isDigitOrGap
      | [] => [e]
    else []
  | [] => []

/-- The letters and numbers that stick to a number, if they start as a word does. -/
def excessPart (cs : List Char) : List Char :=
  match cs with
  | c :: _ => if isWordStart c then cs.takeWhile isWordChar else []
  | [] => []

def NumberParts.of (cs : List Char) : NumberParts :=
  let whole := cs.takeWhile isDigitOrGap
  let afterWhole := cs.drop whole.length
  let fraction := fractionPart afterWhole
  let afterFraction := afterWhole.drop fraction.length
  let exponent := exponentPart afterFraction
  ⟨whole, fraction, exponent, excessPart (afterFraction.drop exponent.length)⟩

def NumberParts.text (p : NumberParts) : List Char :=
  p.whole ++ p.fraction ++ p.exponent ++ p.excess

def readInt? (digits : List Char) : Option Int64 :=
  if digits.isEmpty || !digits.all Char.isDigit then none
  else
    let n := Decimal.digitsValue digits
    if n ≤ 9223372036854775807 then some (Int64.ofNat n) else none

/-- The number that a text starts with. It is an integer if it has neither fraction nor
exponent. -/
def scanNumber (cs : List Char) : Scan TokenKind :=
  let parts := NumberParts.of cs
  let text := parts.text
  let digits := text.filter (· != '_')
  let kind :=
    if parts.fraction.isEmpty && parts.exponent.isEmpty then
      (readInt? digits).map TokenKind.int
    else (Decimal.read? (String.ofList digits)).map TokenKind.float
  match kind with
  | some k => .ok (k, text.length - 1)
  | none => .error ⟨.malformedNumber (String.ofList text), 0, text.length⟩

/-- The operator or delimiter that a character starts, and how many more characters it
takes. -/
def scanMark? (c : Char) (cs : List Char) : Option (Mark × Nat) :=
  match c, cs with
  | '\x7b', _ => some (.lbrace, 0)
  | '\x7d', _ => some (.rbrace, 0)
  | '(', _ => some (.lparen, 0)
  | ')', _ => some (.rparen, 0)
  | '[', _ => some (.lbracket, 0)
  | ']', _ => some (.rbracket, 0)
  | ',', _ => some (.comma, 0)
  | ':', _ => some (.colon, 0)
  | ';', _ => some (.semicolon, 0)
  | '.', '.' :: '.' :: _ => some (.ellipsis, 2)
  | '.', _ => some (.dot, 0)
  | '+', '=' :: _ => some (.plusAssign, 1)
  | '+', _ => some (.plus, 0)
  | '-', '=' :: _ => some (.minusAssign, 1)
  | '-', _ => some (.minus, 0)
  | '*', '*' :: _ => some (.doubleStar, 1)
  | '*', '=' :: _ => some (.starAssign, 1)
  | '*', _ => some (.star, 0)
  | '/', '/' :: '=' :: _ => some (.doubleSlashAssign, 2)
  | '/', '/' :: _ => some (.doubleSlash, 1)
  | '/', '=' :: _ => some (.slashAssign, 1)
  | '/', _ => some (.slash, 0)
  | '%', '=' :: _ => some (.percentAssign, 1)
  | '%', _ => some (.percent, 0)
  | '=', '=' :: _ => some (.eqEq, 1)
  | '=', _ => some (.assign, 0)
  | '!', '=' :: _ => some (.notEq, 1)
  | '<', '=' :: _ => some (.ltE, 1)
  | '<', _ => some (.lt, 0)
  | '>', '=' :: _ => some (.gtE, 1)
  | '>', _ => some (.gt, 0)
  | _, _ => none

def scanWord (c : Char) (cs : List Char) : TokenKind × Nat :=
  let more := cs.takeWhile isWordChar
  let word := String.ofList (c :: more)
  match Mark.keyword? word with
  | some m => (.mark m, more.length)
  | none => (.ident word, more.length)

def scanPiece (c : Char) (cs : List Char) : Scan Piece :=
  if c == ' ' || c == '\t' || c == '\r' then .ok (.blank, 0)
  else if c == '\\' && cs.head? == some '\n' then .ok (.blank, 1)
  else if c == '\n' then .ok (.lineEnd, 0)
  else if c == '#' then .ok (.blank, (cs.takeWhile (· != '\n')).length)
  else if c == '"' || c == '\'' then
    (scanString c [] 0 cs).map fun r => (.token (.str r.1), r.2)
  else if c.isDigit then
    (scanNumber (c :: cs)).map fun r => (.token r.1, r.2)
  else if isWordStart c then
    let r := scanWord c cs
    .ok (.token r.1, r.2)
  else
    match scanMark? c cs with
    | some (m, more) => .ok (.token (.mark m), more)
    | none => .error ⟨.invalidChar c, 0, 1⟩

/-- The depth of parentheses and brackets after a token, which cannot fall below zero. -/
def depthAfter? (depth : Nat) (k : TokenKind) : Option Nat :=
  if k.isMark .lparen || k.isMark .lbracket then some (depth + 1)
  else if k.isMark .rparen || k.isMark .rbracket then
    if depth == 0 then none else some (depth - 1)
  else some depth

/-- The tokens, latest first, with a line end unless one would be redundant. -/
def addNewline (tokens : List Token) (offset : Nat) : List Token :=
  match tokens with
  | [] => []
  | t :: _ =>
    if t.kind.isMark .newline then tokens
    else ⟨.mark .newline, .ofOffsets offset (offset + 1)⟩ :: tokens

/-- The tokens of the text that starts at `offset`, after those already found. These are
kept latest first. -/
def lexFrom (offset depth : Nat) (tokens : List Token) (cs : List Char) :
    Except LexError (List Token) :=
  match cs with
  | [] =>
    .ok (⟨.mark .eof, .ofOffsets offset offset⟩ :: addNewline tokens offset).reverse
  | c :: cs =>
    match scanPiece c cs with
    | .error f =>
      let upTo (n : Nat) : Nat := offset + byteLength ((c :: cs).take n)
      .error ⟨f.fault, .ofOffsets (upTo f.first) (upTo f.last)⟩
    | .ok (piece, more) =>
      let next := offset + byteLength (c :: cs.take more)
      let rest := cs.drop more
      match piece with
      | .blank => lexFrom next depth tokens rest
      -- Inside parentheses and brackets a line may end anywhere.
      | .lineEnd =>
        lexFrom next depth (if depth == 0 then addNewline tokens offset else tokens) rest
      | .token kind =>
        match depthAfter? depth kind with
        | some depth => lexFrom next depth (⟨kind, .ofOffsets offset next⟩ :: tokens) rest
        | none => .error ⟨.unbalanced c, .ofOffsets offset (offset + 1)⟩
termination_by cs.length
decreasing_by all_goals simp only [List.length_cons, List.length_drop]; omega

/-- The tokens of a source. The last one ends the source, and a line end stands before it
unless there is no other token. -/
def lex (source : String) : Except LexError (List Token) :=
  lexFrom 0 0 [] source.toList

end Lexiscope.Grammar
