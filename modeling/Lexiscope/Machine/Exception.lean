import Lexiscope.Grammar.Token
/-!
# Exceptions

The kinds of exceptions, which kind is a special case of which, and an exception on its way
out of a program.
-/

namespace Lexiscope.Machine

/-- The built-in exception classes. -/
inductive ExceptionKind where
  | exception | nameError | unboundLocalError | typeError | valueError | zeroDivisionError
  | overflowError | keyError | indexError | attributeError | assertionError | runtimeError
  | recursionError | stopIteration
  deriving DecidableEq, Repr, Inhabited

namespace ExceptionKind

/-- All kinds, the most general first. -/
def all : List ExceptionKind :=
  [exception, nameError, unboundLocalError, typeError, valueError, zeroDivisionError,
    overflowError, keyError, indexError, attributeError, assertionError, runtimeError,
    recursionError, stopIteration]

def name : ExceptionKind → Name
  | exception => "Exception"
  | nameError => "NameError"
  | unboundLocalError => "UnboundLocalError"
  | typeError => "TypeError"
  | valueError => "ValueError"
  | zeroDivisionError => "ZeroDivisionError"
  | overflowError => "OverflowError"
  | keyError => "KeyError"
  | indexError => "IndexError"
  | attributeError => "AttributeError"
  | assertionError => "AssertionError"
  | runtimeError => "RuntimeError"
  | recursionError => "RecursionError"
  | stopIteration => "StopIteration"

def ofName? (name : Name) : Option ExceptionKind :=
  all.find? (·.name == name)

/-- The class next above, if there is one. -/
def base? : ExceptionKind → Option ExceptionKind
  | exception => none
  | unboundLocalError => some nameError
  | recursionError => some runtimeError
  | _ => some exception

def isA (k other : ExceptionKind) : Bool :=
  k == other || other == exception || k.base? == some other

end ExceptionKind

/-- An exception on its way out. -/
structure Raised where
  kind : ExceptionKind
  message : String
  /-- The local name whose value was missing, if the machine itself found that. -/
  unbound : Option Name := none
  /-- The machine found that the code breaks its rules. No program raises such an exception
  itself. -/
  isInternal : Bool := false
  deriving DecidableEq, Repr, Inhabited

def Raised.render (e : Raised) : String :=
  e.kind.name ++ ": " ++ e.message

/-- Why a run stopped without a value. -/
inductive Halt where
  /-- The program raised an exception. -/
  | raised (e : Raised)
  /-- An iterator was advanced while it was being advanced. -/
  | reentered
  /-- A count went past the integers of 64 bits. -/
  | countOverflow
  /-- An operation on integers that was taken to be in range was not. -/
  | trapped
  /-- A text or a sequence would be too long to be held. -/
  | tooLong
  /-- A code object has more parameters than slots. -/
  | malformedCode
  /-- The bound on the number of steps was reached. -/
  | outOfFuel
  deriving DecidableEq, Repr, Inhabited

/-- The machine stopped because the code breaks its rules. -/
def Halt.isInternal : Halt → Bool
  | raised e => e.isInternal
  | malformedCode => true
  | _ => false

def Halt.message : Halt → String
  | raised e => e.render
  | reentered => "iterator is already being advanced"
  | countOverflow => "count is out of range"
  | trapped => "integer operation is out of range"
  | tooLong => "sequence is too long"
  | malformedCode => "more parameters than local slots"
  | outOfFuel => "too many steps"

end Lexiscope.Machine
