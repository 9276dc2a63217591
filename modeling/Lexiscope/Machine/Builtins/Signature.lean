import Lexiscope.Machine.Arguments
/-!
# How built-ins take their arguments

Most built-in functions take a number of positional arguments between two bounds and no
keywords. A keyword is refused before the arguments are counted.
-/

namespace Lexiscope.Machine

open Exec

/-- How a built-in gets at the items of an iterable value and at the next item of an
iterator. Both may run code of the program. -/
structure Supply where
  all : Value → Exec (Array Value)
  next : Value → Exec (Option Value)

def unexpectedKeyword {α : Type} (function keyword : Name) : Exec α :=
  typeError (function ++ "() got an unexpected keyword argument '" ++ keyword ++ "'")

def refuseKeywords (function : Name) (keywords : Keywords) : Exec Unit :=
  match keywords with
  | [] => pure ()
  | (keyword, _) :: _ => unexpectedKeyword function keyword

def requireCount (function : Name) (least most : Nat) (args : List Value) : Exec Unit :=
  let given := args.length
  let refuse (bound : String) (n : Nat) : Exec Unit :=
    typeError (function ++ "() takes " ++ bound ++ " " ++ toString n ++ " argument" ++
      plural n ++ " (" ++ toString given ++ " given)")
  if least ≤ given ∧ given ≤ most then pure ()
  else if least = most then refuse "exactly" least
  else if given < least then refuse "at least" least
  else refuse "at most" most

def requirePositional (function : Name) (least most : Nat) (args : List Value)
    (keywords : Keywords) : Exec Unit := do
  refuseKeywords function keywords
  requireCount function least most args

def integerArgument (function : Name) (v : Value) : Exec Int64 :=
  match v.number? with
  | some (.int n) => pure n
  | _ => typeError (function ++ "() argument must be an int, not '" ++ v.typeName ++ "'")

def lengthValue (n : Nat) : Value := .int (Word.clamp n)

end Lexiscope.Machine
