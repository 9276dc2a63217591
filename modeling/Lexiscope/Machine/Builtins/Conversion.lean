import Lexiscope.Decimal.Read
import Lexiscope.Machine.Builtins.Signature
import Lexiscope.Machine.Compare
import Lexiscope.Machine.Render
import Lexiscope.Text.Blank
/-!
# Conversions

The built-in functions that are named for a type: they make a value of that type from
another one.
-/

namespace Lexiscope.Machine

open Exec

/-- An integer from nothing, a text or a number. A float is cut toward zero, and what is
beyond 64 bits is the nearest integer. -/
def toInteger : Option Value → Exec Value
  | none => pure (.int 0)
  | some (.str s) =>
    match (Decimal.readInt? (Text.trim s.text).toList).bind Word.fit? with
    | some n => pure (.int n)
    | none =>
      valueError ("invalid literal for int() with base 10: " ++ Text.Quoted.render s.text)
  | some v =>
    match v.number? with
    | some (.int n) => pure (.int n)
    | some (.float x) =>
      if x.isFinite then pure (.int (Word.clamp (Decimal.truncate x)))
      else valueError "cannot convert float NaN or infinity to integer"
    | none =>
      typeError ("int() argument must be a string or a number, not '" ++ v.typeName ++ "'")

def toFloating : Option Value → Exec Value
  | none => pure (.float .zero)
  | some (.str s) =>
    match Decimal.read? (Text.trim s.text) with
    | some x => pure (.float x)
    | none =>
      valueError ("could not convert string to float: " ++ Text.Quoted.render s.text)
  | some v =>
    match v.number? with
    | some n => pure (.float n.toDouble)
    | none =>
      typeError ("float() argument must be a string or a number, not '" ++ v.typeName ++ "'")

def toBoolean (v : Option Value) : Exec Value := do
  let s ← get
  return .bool (v.any (·.isTruthy s))

def toText (v : Option Value) : Exec Value := do
  let s ← get
  newStr ((v.map (·.display s)).getD "")

def toList (supply : Supply) : Option Value → Exec Value
  | none => newList #[]
  | some v => do newList (← supply.all v)

/-- A tuple of the items of a value. A tuple stays the same. -/
def toTuple (supply : Supply) : Option Value → Exec Value
  | none => newTuple []
  | some (.tuple id items) => pure (.tuple id items)
  | some v => do newTuple (← supply.all v).toList

def entriesOfPairs (supply : Supply) (m : OrderedMap Key Value) :
    List Value → Exec (OrderedMap Key Value)
  | [] => pure m
  | pair :: pairs => do
    match (← supply.all pair).toList with
    | [k, v] => entriesOfPairs supply (m.insert (← key k) v) pairs
    | _ => valueError "dictionary update sequence element has wrong length"

def firstEntries (supply : Supply) : Option Value → Exec (OrderedMap Key Value)
  | none => pure .empty
  | some (.dict r) => return (← get).dict r
  | some pairs => do entriesOfPairs supply .empty (← supply.all pairs).toList

/-- A new dictionary: the entries of a dictionary or of pairs, then the keywords. -/
def toDict (supply : Supply) (v : Option Value) (keywords : Keywords) : Exec Value := do
  let entries ← firstEntries supply v
  let more ← keywords.mapM fun k => do
    return (Key.str ⟨← freshIdentity, k.1⟩, k.2)
  newDict (entries.insertAll more)

end Lexiscope.Machine
