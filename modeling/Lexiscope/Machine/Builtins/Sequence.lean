import Lexiscope.Machine.Attributes
import Lexiscope.Machine.Builtins.Signature
import Lexiscope.Machine.Iteration
import Lexiscope.Machine.Operators
/-!
# Built-ins on sequences and iterators

Length, extremes, sum, sorting and the making of iterators. Sorting inserts each item into
those before it, from the end, and stops at the first two items that have no order.
-/

namespace Lexiscope.Machine

open Exec

def lengthOf (v : Value) : Exec Value := do
  let s ← get
  match v with
  | .str t => return lengthValue t.text.length
  | .list r => return lengthValue (s.list r).size
  | .tuple _ items => return lengthValue items.length
  | .dict r => return lengthValue (s.dict r).size
  | .range r => return lengthValue r.length
  | other => typeError ("object of type '" ++ other.typeName ++ "' has no len()")

/-- The first item from which no later one differs in the wanted direction. -/
def bestOf (symbol : String) (wanted : Ordering) (best : Value) : List Value → Exec Value
  | [] => pure best
  | item :: items => do
    let o ← orderOf symbol item best
    bestOf symbol wanted (if o == wanted then item else best) items

def extreme (supply : Supply) (name : Name) (symbol : String) (wanted : Ordering)
    (args : List Value) : Exec Value := do
  let items ← match args with
    | [] => typeError (name ++ " expected at least 1 argument, got 0")
    | [v] => Array.toList <$> supply.all v
    | many => pure many
  match items with
  | [] => valueError (name ++ "() arg is an empty sequence")
  | first :: rest => bestOf symbol wanted first rest

def absolute (v : Value) : Exec Value :=
  match v.number? with
  | some (.int n) => checked (Word.abs? n) "abs"
  | some (.float x) => pure (.float x.abs)
  | none => typeError ("bad operand type for abs(): '" ++ v.typeName ++ "'")

def sumFrom (start : Value) : List Value → Exec Value
  | [] => pure start
  | item :: items => do sumFrom (← binary .add start item) items

def rangeOf (args : List Value) : Exec Value := do
  let make (start stop step : Int64) : Exec Value :=
    if step == 0 then valueError "range() arg 3 must not be zero"
    else pure (.range ⟨start, stop, step⟩)
  match ← args.mapM (integerArgument "range") with
  | [stop] => make 0 stop 1
  | [start, stop] => make start stop 1
  | [start, stop, step] => make start stop step
  | _ => typeError "range expected at most 3 arguments"

/-- An item put before the greater ones of a list in descending order, or the item and one
of the list that have no order. -/
def insertSorted (s : Store) (item : Value) : List Value → Except (Value × Value) (List Value)
  | [] => .ok [item]
  | v :: vs =>
    match item.order s v with
    | none => .error (item, v)
    | some .lt => (insertSorted s item vs).map (v :: ·)
    | some _ => .ok (item :: v :: vs)

/-- The items in descending order after those of a list in descending order. -/
def insertionSort (s : Store) (sorted : List Value) :
    List Value → Except (Value × Value) (List Value)
  | [] => .ok sorted
  | item :: items =>
    match insertSorted s item sorted with
    | .error pair => .error pair
    | .ok sorted => insertionSort s sorted items

def sortItems (items : List Value) (descending : Bool) : Exec Value := do
  match insertionSort (← get) [] items with
  | .error (a, b) => unordered "<" a b
  | .ok sorted => newList (if descending then sorted else sorted.reverse).toArray

def readReverse (s : Store) (descending : Bool) : Keywords → Exec Bool
  | [] => pure descending
  | (keyword, v) :: rest =>
    if keyword == "reverse" then readReverse s (v.isTruthy s) rest
    else unexpectedKeyword "sorted" keyword

def readStart (count : Int64) : Keywords → Exec Int64
  | [] => pure count
  | (keyword, v) :: rest => do
    if keyword == "start" then readStart (← integerArgument "enumerate" v) rest
    else unexpectedKeyword "enumerate" keyword

def nextOf (supply : Supply) (v : Value) (fallback : Option Value) : Exec Value := do
  match v with
  | .iterator _ | .generator _ =>
    match (← supply.next v).or fallback with
    | some item => return item
    | none => raise .stopIteration ""
  | other => typeError ("'" ++ other.typeName ++ "' object is not an iterator")

def readLayout (separator terminator : String) : Keywords → Exec (String × String)
  | [] => pure (separator, terminator)
  | (keyword, v) :: rest => do
    let read (old : String) : Exec String :=
      match v with
      | .none => pure old
      | .str s => pure s.text
      | other => typeError (keyword ++ " must be None or a string, not " ++ other.typeName)
    if keyword == "sep" then readLayout (← read separator) terminator rest
    else if keyword == "end" then readLayout separator (← read terminator) rest
    else unexpectedKeyword "print" keyword

def printLine (args : List Value) (keywords : Keywords) : Exec Value := do
  let (separator, terminator) ← readLayout " " "\n" keywords
  let s ← get
  write (String.intercalate separator (args.map (·.display s)))
  write terminator
  return .none

def notClass {α : Type} : Exec α :=
  typeError "isinstance() arg 2 must be a type or tuple of types"

mutual

def isInstance (v : Value) : Value → Exec Bool
  | .tuple _ classes => isInstanceOfAny v classes
  | .type c =>
    match v with
    | .object d _ => pure (d.isBelow c.space)
    | _ => pure false
  | .exceptionType kind =>
    match v with
    | .exception _ k _ => pure (k.isA kind)
    | _ => pure false
  | .builtin _ .int =>
    match v with
    | .int _ | .bool _ => pure true
    | _ => pure false
  | .builtin _ b =>
    match b with
    | .list | .tuple | .dict | .str | .float | .bool | .range => pure (b.name == v.typeName)
    | _ => notClass
  | _ => notClass

/-- A value is an instance of the first class that decides it. -/
def isInstanceOfAny (v : Value) : List Value → Exec Bool
  | [] => pure false
  | c :: cs => do if ← isInstance v c then return true else isInstanceOfAny v cs

end

end Lexiscope.Machine
