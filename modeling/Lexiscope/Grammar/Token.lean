import Lexiscope.Data.Names
import Lexiscope.Decimal.Layout
import Lexiscope.Text.Escaped
import Lexiscope.Text.Span
/-!
# Tokens

The tokens of the language, the spelling of each, and the words for it in messages.
-/

namespace Lexiscope

namespace Grammar

open Text (Span)

/-- The tokens with one spelling: keywords, delimiters, operators, and the two that end a
line and the source. -/
inductive Mark where
  | kwDef | kwClass | kwReturn | kwIf | kwElif | kwElse | kwWhile | kwFor | kwIn | kwNot
  | kwAnd | kwOr | kwIs | kwBreak | kwContinue | kwPass | kwGlobal | kwNonlocal | kwYield
  | kwAsync | kwAwait | kwRaise | kwAssert | kwTrue | kwFalse | kwNone
  | lparen | rparen | lbracket | rbracket | lbrace | rbrace
  | comma | colon | semicolon | dot | ellipsis
  | plus | minus | star | doubleStar | slash | doubleSlash | percent
  | assign | eqEq | notEq | lt | ltE | gt | gtE
  | plusAssign | minusAssign | starAssign | slashAssign | doubleSlashAssign | percentAssign
  | newline | eof
  deriving DecidableEq, Repr, Inhabited

namespace Mark

def keywords : List Mark :=
  [kwDef, kwClass, kwReturn, kwIf, kwElif, kwElse, kwWhile, kwFor, kwIn, kwNot, kwAnd, kwOr,
    kwIs, kwBreak, kwContinue, kwPass, kwGlobal, kwNonlocal, kwYield, kwAsync, kwAwait,
    kwRaise, kwAssert, kwTrue, kwFalse, kwNone]

/-- The spelling of a mark. A line end and the end of the source show as signs. -/
def spelling : Mark → String
  | kwDef => "def" | kwClass => "class" | kwReturn => "return" | kwIf => "if"
  | kwElif => "elif" | kwElse => "else" | kwWhile => "while" | kwFor => "for"
  | kwIn => "in" | kwNot => "not" | kwAnd => "and" | kwOr => "or" | kwIs => "is"
  | kwBreak => "break" | kwContinue => "continue" | kwPass => "pass"
  | kwGlobal => "global" | kwNonlocal => "nonlocal" | kwYield => "yield"
  | kwAsync => "async" | kwAwait => "await" | kwRaise => "raise" | kwAssert => "assert"
  | kwTrue => "True" | kwFalse => "False" | kwNone => "None"
  | lparen => "(" | rparen => ")" | lbracket => "[" | rbracket => "]"
  | lbrace => "\x7b" | rbrace => "\x7d"
  | comma => "," | colon => ":" | semicolon => ";" | dot => "." | ellipsis => "..."
  | plus => "+" | minus => "-" | star => "*" | doubleStar => "**" | slash => "/"
  | doubleSlash => "//" | percent => "%"
  | assign => "=" | eqEq => "==" | notEq => "!=" | lt => "<" | ltE => "<=" | gt => ">"
  | gtE => ">="
  | plusAssign => "+=" | minusAssign => "-=" | starAssign => "*=" | slashAssign => "/="
  | doubleSlashAssign => "//=" | percentAssign => "%="
  | newline => "\\n"
  | eof => "<eof>"

def describe : Mark → String
  | newline => "end of line"
  | eof => "end of input"
  | other => "`" ++ other.spelling ++ "`"

def keyword? (word : String) : Option Mark :=
  keywords.find? (·.spelling == word)

end Mark

/-- What a token is. -/
inductive TokenKind where
  | ident (name : Name)
  | int (value : Int64)
  | float (value : Double)
  | str (text : String)
  | mark (m : Mark)
  deriving Inhabited

namespace TokenKind

def isMark (k : TokenKind) (m : Mark) : Bool :=
  match k with
  | mark m' => m' == m
  | _ => false

def spelling : TokenKind → String
  | ident name => name
  | int value => toString value.toInt
  | float value => Decimal.plain.write value
  | str text => Text.Escaped.render text
  | mark m => m.spelling

def describe : TokenKind → String
  | ident name => "identifier `" ++ name ++ "`"
  | int value => "integer `" ++ toString value.toInt ++ "`"
  | float value => "float `" ++ Decimal.plain.write value ++ "`"
  | str _ => "string literal"
  | mark m => m.describe

end TokenKind

/-- A token and where it stands. -/
structure Token where
  kind : TokenKind
  span : Span
  deriving Inhabited

end Grammar

end Lexiscope
