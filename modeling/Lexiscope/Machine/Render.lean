import Lexiscope.Decimal.Layout
import Lexiscope.Machine.Store
import Lexiscope.Text.Quoted
/-!
# Values in text

A value is written as the program would write it where there is such a form: literals,
brackets and braces. Lists and dictionaries are read from the store, and a list inside a
list is one level deeper; there are no more levels than containers unless one contains
itself.
-/

namespace Lexiscope.Machine

def commaSeparated (texts : List String) : String := String.intercalate ", " texts

def boolText (b : Bool) : String := if b then "True" else "False"

/-- The text of a tuple. One item alone has a comma after it. -/
def tupleText (items : List String) : String :=
  match items with
  | [item] => "(" ++ item ++ ",)"
  | items => "(" ++ commaSeparated items ++ ")"

mutual

def Key.render : Key → String
  | .none => "None"
  | .bool b => boolText b
  | .int n => toString n.toInt
  | .str s => Text.Quoted.render s.text
  | .tuple items => tupleText (renderKeys items)

def renderKeys : List Key → List String
  | [] => []
  | k :: ks => k.render :: renderKeys ks

end

mutual

/-- The text of a value, given the texts of lists and dictionaries. -/
def Value.renderWith (s : Store) (list : ListRef → String) (dict : DictRef → String) :
    Value → String
  | .none => "None"
  | .ellipsis => "Ellipsis"
  | .bool b => boolText b
  | .int n => toString n.toInt
  | .float x => Decimal.guest x
  | .str t => Text.Quoted.render t.text
  | .list r => list r
  | .tuple _ items => tupleText (renderAllWith s list dict items)
  | .dict r => dict r
  | .range r => r.render
  | .function f => "<function " ++ f.code.object.qualname ++ ">"
  | .builtin _ b => "<built-in function " ++ b.name ++ ">"
  | .method _ receiver (.function f) =>
    "<bound method " ++ f.code.object.qualname ++ " of " ++
      receiver.renderWith s list dict ++ ">"
  | .method _ receiver (.builtin _ b) =>
    "<built-in method " ++ b.name ++ " of " ++ receiver.typeName ++ " object>"
  | .method _ _ callee => "<bound method " ++ callee.renderWith s list dict ++ ">"
  | .type c => "<class '" ++ c.name ++ "'>"
  | .object c _ => "<" ++ c.name ++ " object>"
  | .generator r => "<generator object " ++ (s.generator r).code.object.qualname ++ ">"
  | .iterator _ => "<iterator>"
  | .exception _ kind message =>
    kind.name ++ "(" ++ (if message.isEmpty then "" else Text.Quoted.render message) ++ ")"
  | .exceptionType kind => "<class '" ++ kind.name ++ "'>"
  | .cell _ => "<cell>"
  | .marker m => m.render
  | .code c => "<code object " ++ c.object.qualname ++ ">"

def renderAllWith (s : Store) (list : ListRef → String) (dict : DictRef → String) :
    List Value → List String
  | [] => []
  | v :: vs => v.renderWith s list dict :: renderAllWith s list dict vs

end

/-- The text of a value with at most so many levels of lists and dictionaries. -/
def Value.renderTo (s : Store) : Nat → Value → String
  | 0, v => v.renderWith s (fun _ => "[...]") (fun _ => "\x7b...\x7d")
  | n + 1, v =>
    v.renderWith s
      (fun r => "[" ++ commaSeparated ((s.list r).toList.map (renderTo s n)) ++ "]")
      (fun r => "\x7b" ++ commaSeparated ((s.dict r).entries.map fun e =>
        e.1.render ++ ": " ++ renderTo s n e.2) ++ "\x7d")

def Value.render (s : Store) (v : Value) : String := v.renderTo s s.nesting

/-- The text of a value for output: a text and the message of an exception stand without
quotes. -/
def Value.display (s : Store) : Value → String
  | .str t => t.text
  | .exception _ _ message => message
  | v => v.render s

end Lexiscope.Machine
