import Lexiscope.Capture.Options
import Lexiscope.Machine.Compare
import Lexiscope.Machine.Render
import Lexiscope.Text.Escaped
/-!
# Scopes

The scope of a call that is over: the outer names with the values that the call was given,
the names that it bound itself, and what it returned. Both together are one mapping, in which
an inner name hides an outer one.
-/

namespace Lexiscope.Capture

open Machine (Store Value NameMap)

/-- The names of a call that is over, and its value. -/
structure View where
  outer : NameMap
  inner : NameMap
  returned : Value
  /-- The options that a wrapper made with this scope inherits. -/
  options : Options
  deriving Inhabited

namespace View

def get? (v : View) (name : Name) : Option Value := (v.inner.get? name).or (v.outer.get? name)

def contains (v : View) (name : Name) : Bool := (v.get? name).isSome

/-- The entries of the inner names that are not outer names too. -/
def innerOnly (v : View) : List (Name × Value) :=
  v.inner.entries.filter fun e => !v.outer.contains e.1

/-- All names with their values: the outer names, then the others. -/
def entries (v : View) : List (Name × Value) :=
  v.outer.entries.map (fun e => (e.1, (v.inner.get? e.1).getD e.2)) ++ v.innerOnly

def keys (v : View) : List Name := v.entries.map Prod.fst

def size (v : View) : Nat := v.outer.size + v.innerOnly.length

def isEmpty (v : View) : Bool := v.outer.isEmpty && v.inner.isEmpty

def toMap (v : View) : NameMap := .ofList v.entries

def equalMap (s : Store) (v : View) (m : NameMap) : Bool := v.toMap.sameBy (Value.equal s) m

def equal (s : Store) (v w : View) : Bool := v.equalMap s w.toMap

def render (s : Store) (v : View) : String :=
  "Scope(\x7b" ++ Machine.commaSeparated (v.toMap.entries.map fun e =>
    Text.Quoted.render e.1 ++ ": " ++ e.2.render s) ++ "\x7d)"

def describePart (s : Store) (m : NameMap) : String :=
  "\x7b" ++ Machine.commaSeparated (m.entries.map fun e =>
    "Name(" ++ Text.Escaped.render e.1 ++ "): " ++ e.2.render s) ++ "\x7d"

def describe (s : Store) (v : View) : String :=
  "ScopeResult \x7b outer: " ++ describePart s v.outer ++ ", inner: " ++
    describePart s v.inner ++ ", return_value: " ++ v.returned.render s ++ " \x7d"

end View

end Lexiscope.Capture
