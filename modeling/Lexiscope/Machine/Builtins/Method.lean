import Lexiscope.Machine.Builtins.Signature
import Lexiscope.Text.Casing
/-!
# Methods of built-in types

The receiver is the first argument.
-/

namespace Lexiscope.Machine

open Exec

def wrongReceiver {α : Type} (type : Name) : Exec α :=
  typeError ("descriptor requires a '" ++ type ++ "' object")

def receiverList : List Value → Exec ListRef
  | .list r :: _ => pure r
  | _ => wrongReceiver "list"

def receiverDict : List Value → Exec DictRef
  | .dict r :: _ => pure r
  | _ => wrongReceiver "dict"

def receiverText : List Value → Exec String
  | .str s :: _ => pure s.text
  | _ => wrongReceiver "str"

def appendItem (r : ListRef) (item : Value) : Exec Value := do
  modifyList r (·.push item)
  return .none

/-- Takes an item out of a list, the last one if no index is given. -/
def popItem (r : ListRef) (index : Option Value) : Exec Value := do
  let items := (← get).list r
  if items.isEmpty then raise .indexError "pop from empty list"
  let index ← match index with
    | some v => integerArgument "pop" v
    | none => pure (-1)
  let place := if index < 0 then index.toInt + items.size else index.toInt
  match if place < 0 then none else items[place.toNat]? with
  | none => raise .indexError "pop index out of range"
  | some item =>
    modifyList r (·.eraseIdxIfInBounds place.toNat)
    return item

def entryTuples (entries : List (Key × Value)) : Exec (List Value) :=
  entries.mapM fun e => do newTuple [← e.1.toValue, e.2]

def requireTexts : List (Value × Nat) → Exec (List String)
  | [] => pure []
  | (v, i) :: rest => do
    match v.text? with
    | some text => return text :: (← requireTexts rest)
    | none =>
      typeError ("sequence item " ++ toString i ++ ": expected str instance, " ++
        v.typeName ++ " found")

def callListMethod (b : Builtin) (args : List Value) (keywords : Keywords) : Exec Value := do
  if b == .listAppend then
    requirePositional b.name 2 2 args keywords
    appendItem (← receiverList args) (args.getD 1 .none)
  else
    requirePositional b.name 1 2 args keywords
    popItem (← receiverList args) args[1]?

def callDictMethod (b : Builtin) (args : List Value) (keywords : Keywords) : Exec Value := do
  match b with
  | .dictGet =>
    requirePositional b.name 2 3 args keywords
    let k ← key (args.getD 1 .none)
    let r ← receiverDict args
    return (((← get).dict r).get? k).getD (args.getD 2 .none)
  | _ =>
    requirePositional b.name 1 1 args keywords
    let entries := (← get).dict (← receiverDict args)
    match b with
    | .dictKeys => newList (← keyValues entries.keys).toArray
    | .dictValues => newList entries.values.toArray
    | _ => newList (← entryTuples entries.entries).toArray

def callStrMethod (supply : Supply) (b : Builtin) (args : List Value) (keywords : Keywords) :
    Exec Value := do
  match b with
  | .strJoin =>
    requirePositional b.name 2 2 args keywords
    let separator ← receiverText args
    let items ← supply.all (args.getD 1 .none)
    newStr (String.intercalate separator (← requireTexts items.toList.zipIdx))
  | _ =>
    requirePositional b.name 1 1 args keywords
    let text ← receiverText args
    newStr (if b == .strUpper then Text.toUpper text else Text.toLower text)

end Lexiscope.Machine
