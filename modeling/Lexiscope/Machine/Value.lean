import Lexiscope.Code.Basic
import Lexiscope.Data.OrderedMap
import Lexiscope.Machine.Exception
import Lexiscope.Machine.Range
/-!
# Values

Values that can change lie in a store, and a value of the program only refers to them. All
other values are held as they are. Where the operator `is` can tell two equal ones apart,
they carry an identity.
-/

namespace Lexiscope.Machine

/-- Where a code object comes from: a unit that was compiled or put together by itself, or a
constant of another code object. -/
inductive Origin where
  | unit (number : Nat)
  | inner (outer : Origin) (slot : Nat)
  deriving DecidableEq, Repr, Inhabited

/-- What makes two equal values the same or not: a number given once, or a place in a pool
of constants. -/
inductive Identity where
  | fresh (number : Nat)
  | pooled (pool : Origin) (slot : Nat)
  deriving DecidableEq, Repr, Inhabited

/-- A code object with its identity. The constants may belong to another code object, from
which this one was made. -/
structure LoadedCode where
  id : Origin
  pool : Origin
  object : Code.Object
  deriving Inhabited

def LoadedCode.inner (c : LoadedCode) (slot : Nat) (object : Code.Object) : LoadedCode :=
  ⟨.inner c.pool slot, .inner c.pool slot, object⟩

structure ListRef where
  index : Nat
  deriving DecidableEq, Repr, Inhabited

/-- A dictionary in the store. -/
structure DictRef where
  index : Nat
  deriving DecidableEq, Repr, Inhabited

structure CellRef where
  index : Nat
  deriving DecidableEq, Repr, Inhabited

/-- A namespace in the store. -/
structure SpaceRef where
  index : Nat
  deriving DecidableEq, Repr, Inhabited

/-- A generator in the store. -/
structure GeneratorRef where
  index : Nat
  deriving DecidableEq, Repr, Inhabited

/-- An iterator in the store. -/
structure IteratorRef where
  index : Nat
  deriving DecidableEq, Repr, Inhabited

/-- A text with its identity. -/
structure Str where
  id : Identity
  text : String
  deriving DecidableEq, Repr, Inhabited

/-- A class: its own namespace, and the classes that are searched after it, depth first. The
namespace is also its identity. -/
inductive Class where
  | mk (name : Name) (bases : List Class) (space : SpaceRef)
  deriving Inhabited

namespace Class

def name : Class → Name
  | mk name _ _ => name

def bases : Class → List Class
  | mk _ bases _ => bases

def space : Class → SpaceRef
  | mk _ _ space => space

end Class

/-- The built-in functions and methods. -/
inductive Builtin where
  | print | len | min | max | abs | sum | range | list | tuple | dict | str | int | float
  | bool | repr | next | iter | sorted | enumerate | zip | isinstance
  | buildClass
  | listAppend | listPop
  | dictGet | dictKeys | dictValues | dictItems
  | strUpper | strLower | strJoin
  deriving DecidableEq, Repr, Inhabited

def Builtin.name : Builtin → Name
  | print => "print" | len => "len" | min => "min" | max => "max" | abs => "abs"
  | sum => "sum" | range => "range" | list => "list" | tuple => "tuple" | dict => "dict"
  | str => "str" | int => "int" | float => "float" | bool => "bool" | repr => "repr"
  | next => "next" | iter => "iter" | sorted => "sorted" | enumerate => "enumerate"
  | zip => "zip" | isinstance => "isinstance"
  | buildClass => "__build_class__"
  | listAppend => "append" | listPop => "pop"
  | dictGet => "get" | dictKeys => "keys" | dictValues => "values" | dictItems => "items"
  | strUpper => "upper" | strLower => "lower" | strJoin => "join"

/-- A function of the program: code with all that was captured when it was defined. `α` is
the type of values. -/
structure Function (α : Type) where
  id : Identity
  code : LoadedCode
  globals : SpaceRef
  defaults : List α := []
  keywordDefaults : OrderedMap Name α := ⟨[]⟩
  closure : List CellRef := []
  deriving Inhabited

/-- A value of the program. -/
inductive Value where
  | none
  | ellipsis
  | bool (b : Bool)
  | int (n : Int64)
  | float (x : Double)
  | str (s : Str)
  | list (r : ListRef)
  | tuple (id : Identity) (items : List Value)
  | dict (r : DictRef)
  | range (r : Range)
  | function (f : Function Value)
  /-- A built-in function. Those of the table of built-ins have no identity of their own. -/
  | builtin (id : Option Identity) (b : Builtin)
  | method (id : Identity) (receiver callee : Value)
  | type (c : Class)
  /-- An instance of a class with the namespace of its attributes, its identity. -/
  | object (c : Class) (attrs : SpaceRef)
  | generator (r : GeneratorRef)
  | iterator (r : IteratorRef)
  | exception (id : Identity) (kind : ExceptionKind) (message : String)
  | exceptionType (kind : ExceptionKind)
  | cell (r : CellRef)
  | marker (m : Code.Marker)
  | code (c : LoadedCode)
  deriving Inhabited

/-- A function of the program with its captured values. -/
abbrev FunctionValue := Function Value

abbrev NameMap := OrderedMap Name Value

/-- The keyword arguments of a call. A name may occur twice. -/
abbrev Keywords := List (Name × Value)

/-- The built-in functions that a program finds by name. -/
def Builtin.functions : List Builtin :=
  [print, len, min, max, abs, sum, range, list, tuple, dict, str, int, float, bool, repr, next,
    iter, sorted, enumerate, zip, isinstance]

/-- The names that are defined everywhere: functions, then classes of exceptions. -/
def builtinNames : NameMap :=
  .ofList (Builtin.functions.map (fun b => (b.name, .builtin none b)) ++
    ExceptionKind.all.map fun k => (k.name, .exceptionType k))

namespace Value

def typeName : Value → Name
  | none => "NoneType"
  | ellipsis => "ellipsis"
  | bool _ => "bool"
  | int _ => "int"
  | float _ => "float"
  | str _ => "str"
  | list _ => "list"
  | tuple .. => "tuple"
  | dict _ => "dict"
  | range _ => "range"
  | function _ => "function"
  | builtin .. => "builtin_function_or_method"
  | method .. => "method"
  | type _ => "type"
  | object c _ => c.name
  | generator _ => "generator"
  | iterator _ => "iterator"
  | exception _ kind _ => kind.name
  | exceptionType _ => "type"
  | cell _ => "cell"
  | marker _ => "marker"
  | code _ => "code"

def function? : Value → Option FunctionValue
  | function f => some f
  | _ => Option.none

def text? : Value → Option String
  | str s => some s.text
  | _ => Option.none

def tuple? : Value → Option (List Value)
  | tuple _ items => some items
  | _ => Option.none

end Value

/-- A number as operators see it. -/
inductive Number where
  | int (n : Int64)
  | float (x : Double)

def Number.toDouble : Number → Double
  | int n => .ofInt64 n
  | float x => x

/-- The number that a value is; a truth value counts as an integer. -/
def Value.number? : Value → Option Number
  | bool b => some (.int (if b then 1 else 0))
  | int n => some (.int n)
  | float x => some (.float x)
  | _ => Option.none

/-- A value that a dictionary can have as a key. -/
inductive Key where
  | none
  | bool (b : Bool)
  | int (n : Int64)
  | str (s : Str)
  | tuple (items : List Key)
  deriving Inhabited

namespace Key

mutual

/-- Two keys are equal whatever the identities of their texts are. -/
def same : Key → Key → Bool
  | none, none => true
  | bool a, bool b => a == b
  | int a, int b => a == b
  | str a, str b => a.text == b.text
  | tuple as, tuple bs => sameAll as bs
  | _, _ => false

def sameAll : List Key → List Key → Bool
  | [], [] => true
  | a :: as, b :: bs => same a b && sameAll as bs
  | _, _ => false

end

instance : BEq Key := ⟨same⟩

mutual

theorem same_refl : (k : Key) → k.same k = true
  | none => rfl
  | bool b => by simp [same]
  | int n => by simp [same]
  | str s => by simp [same]
  | tuple ks => by simp [same, sameAll_refl ks]

theorem sameAll_refl : (ks : List Key) → sameAll ks ks = true
  | [] => rfl
  | k :: ks => by simp [sameAll, same_refl k, sameAll_refl ks]

end

mutual

theorem same_symm : (a b : Key) → a.same b = true → b.same a = true
  | none, b, h => by cases b <;> simp_all [same]
  | bool _, b, h => by cases b <;> simp_all [same]
  | int _, b, h => by cases b <;> simp_all [same]
  | str _, b, h => by cases b <;> simp_all [same]
  | tuple as, b, h => by
    cases b with
    | tuple bs => exact sameAll_symm as bs h
    | _ => simp [same] at h

theorem sameAll_symm : (as bs : List Key) → sameAll as bs = true → sameAll bs as = true
  | [], bs, h => by cases bs <;> simp_all [sameAll]
  | a :: as, bs, h => by
    cases bs with
    | nil => simp [sameAll] at h
    | cons b bs =>
      simp only [sameAll, Bool.and_eq_true] at h ⊢
      exact ⟨same_symm a b h.1, sameAll_symm as bs h.2⟩

end

mutual

theorem same_trans : (a b c : Key) → a.same b = true → b.same c = true → a.same c = true
  | none, b, c, h, g => by cases b <;> cases c <;> simp_all [same]
  | bool _, b, c, h, g => by cases b <;> cases c <;> simp_all [same]
  | int _, b, c, h, g => by cases b <;> cases c <;> simp_all [same]
  | str _, b, c, h, g => by cases b <;> cases c <;> simp_all [same]
  | tuple as, b, c, h, g => by
    cases b with
    | tuple bs =>
      cases c with
      | tuple cs => exact sameAll_trans as bs cs h g
      | _ => simp [same] at g
    | _ => simp [same] at h

theorem sameAll_trans : (as bs cs : List Key) → sameAll as bs = true → sameAll bs cs = true →
    sameAll as cs = true
  | [], bs, cs, h, g => by cases bs <;> cases cs <;> simp_all [sameAll]
  | a :: as, bs, cs, h, g => by
    cases bs with
    | nil => simp [sameAll] at h
    | cons b bs =>
      cases cs with
      | nil => simp [sameAll] at g
      | cons c cs =>
        simp only [sameAll, Bool.and_eq_true] at h g ⊢
        exact ⟨same_trans a b c h.1 g.1, sameAll_trans as bs cs h.2 g.2⟩

end

instance : EquivBEq Key where
  rfl := same_refl _
  symm := same_symm _ _
  trans := same_trans _ _ _

end Key

mutual

/-- The key that a value is, or the part of it that no dictionary can have in a key. -/
def Value.toKey : Value → Except Value Key
  | .none => .ok .none
  | .bool b => .ok (.bool b)
  | .int n => .ok (.int n)
  | .str s => .ok (.str s)
  | .tuple _ items => (toKeys items).map .tuple
  | v => .error v

def toKeys : List Value → Except Value (List Key)
  | [] => .ok []
  | v :: vs => do
    let k ← v.toKey
    return k :: (← toKeys vs)

end

end Lexiscope.Machine
