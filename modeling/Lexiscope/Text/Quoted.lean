/-!
# String literals

A text is written between quotes so that reading the literal gives the text back. The quote
is the single one, unless the text holds a single quote and no double one.
-/

namespace Lexiscope.Text.Quoted

def quoteFor (cs : List Char) : Char :=
  if cs.contains '\'' && !cs.contains '"' then '"' else '\''

def encodeChar (quote c : Char) : List Char :=
  match c with
  | '\\' => ['\\', '\\']
  | '\n' => ['\\', 'n']
  | '\t' => ['\\', 't']
  | '\r' => ['\\', 'r']
  | c => if c == quote then ['\\', c] else [c]

def encode (cs : List Char) : List Char :=
  let quote := quoteFor cs
  quote :: cs.flatMap (encodeChar quote) ++ [quote]

/-- The character that a letter stands for after a backslash. -/
def escape? : Char → Option Char
  | 'n' => some '\n'
  | 't' => some '\t'
  | 'r' => some '\r'
  | '0' => some '\x00'
  | '\\' => some '\\'
  | '\'' => some '\''
  | '"' => some '"'
  | _ => none

def render (s : String) : String :=
  String.ofList (encode s.toList)

end Lexiscope.Text.Quoted
