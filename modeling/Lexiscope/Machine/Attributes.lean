import Lexiscope.Machine.Compare
import Lexiscope.Machine.Render
/-!
# Attributes and items

An instance has its own attributes, then those of its class; a function found in the class is
bound to the instance. A class is searched before the classes above it, depth first. Values
of built-in types have methods, which are bound anew on every access.
-/

namespace Lexiscope.Machine

open Exec

mutual

/-- The attribute of a class, its own or that of the first class above that has it. -/
def Class.lookup (s : Store) (name : Name) : Class → Option Value
  | .mk _ bases space => (s.lookup space name).or (lookupBases s name bases)

/-- The attribute in the first of several classes that has it. -/
def lookupBases (s : Store) (name : Name) : List Class → Option Value
  | [] => none
  | c :: cs => (c.lookup s name).or (lookupBases s name cs)

end

mutual

/-- The class lives in a given namespace or has such a class above. -/
def Class.isBelow (space : SpaceRef) : Class → Bool
  | .mk _ bases own => own == space || anyBelow space bases

def anyBelow (space : SpaceRef) : List Class → Bool
  | [] => false
  | c :: cs => c.isBelow space || anyBelow space cs

end

def builtinMethod? (v : Value) (name : Name) : Option Builtin :=
  match v with
  | .list _ => [Builtin.listAppend, .listPop].find? (·.name == name)
  | .dict _ => [Builtin.dictGet, .dictKeys, .dictValues, .dictItems].find? (·.name == name)
  | .str _ => [Builtin.strUpper, .strLower, .strJoin].find? (·.name == name)
  | _ => none

def bindTo (receiver callee : Value) : Exec Value :=
  return .method (← freshIdentity) receiver callee

def noAttribute {α : Type} (typeName : Name) (name : Name) : Exec α :=
  raise .attributeError ("'" ++ typeName ++ "' object has no attribute '" ++ name ++ "'")

def getAttribute (v : Value) (name : Name) : Exec Value := do
  let s ← get
  match v with
  | .object c attrs =>
    match s.lookup attrs name with
    | some value => return value
    | none =>
      match c.lookup s name with
      | some (.function f) => bindTo v (.function f)
      | some value => return value
      | none => noAttribute c.name name
  | .type c =>
    match c.lookup s name with
    | some value => return value
    | none =>
      let message := "type object '" ++ c.name ++ "' has no attribute '" ++ name ++ "'"
      if name == "__name__" then newStr c.name else raise .attributeError message
  | .function f =>
    if name == "__name__" then newStr f.code.object.name
    else if name == "__qualname__" then newStr f.code.object.qualname
    else noAttribute "function" name
  | .exception _ kind message =>
    if name == "args" then newTuple [← newStr message] else noAttribute kind.name name
  | other =>
    match builtinMethod? other name with
    | some b => bindTo other (.builtin (some (← freshIdentity)) b)
    | none => noAttribute other.typeName name

/-- Sets an attribute. Only instances and classes have attributes that can be set. -/
def setAttribute (v : Value) (name : Name) (value : Value) : Exec Unit :=
  match v with
  | .object _ attrs => setName attrs name value
  | .type c => setName c.space name value
  | other => noAttribute other.typeName name

/-- The place that an index means; a negative one counts from the end. -/
def resolveIndex (index : Value) (length : Nat) (what : String) : Exec Nat :=
  match index.number? with
  | some (.int i) =>
    let place := if i.toInt < 0 then i.toInt + length else i.toInt
    if 0 ≤ place ∧ place < length then pure place.toNat
    else raise .indexError (what ++ " index out of range")
  | _ => typeError (what ++ " indices must be integers, not " ++ index.typeName)

def getItem (container index : Value) : Exec Value := do
  let s ← get
  match container with
  | .list r =>
    let items := s.list r
    return items.getD (← resolveIndex index items.size "list") .none
  | .tuple _ items => return items.getD (← resolveIndex index items.length "tuple") .none
  | .str t =>
    let chars := t.text.toList
    let place ← resolveIndex index chars.length "string"
    newStr (String.ofList (chars.drop place |>.take 1))
  | .range r =>
    match r.get? (← resolveIndex index r.length "range object") with
    | some n => return .int n
    | none => raise .indexError "range object index out of range"
  | .dict r =>
    match (s.dict r).get? (← key index) with
    | some value => return value
    | none => raise .keyError (index.render s)
  | other => typeError ("'" ++ other.typeName ++ "' object is not subscriptable")

def setItem (container index value : Value) : Exec Unit := do
  match container with
  | .list r =>
    let place ← resolveIndex index ((← get).list r).size "list assignment"
    modifyList r (·.setIfInBounds place value)
  | .dict r =>
    let k ← key index
    modifyDict r (·.insert k value)
  | other => typeError ("'" ++ other.typeName ++ "' object does not support item assignment")

end Lexiscope.Machine
