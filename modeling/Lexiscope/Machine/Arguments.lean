import Lexiscope.Machine.Frame
/-!
# Arguments and parameters

The arguments of a call fill the slots of the parameters: positional arguments first, then
keywords, then defaults. Surplus arguments go to the parameters that take them, if there are
any.
-/

namespace Lexiscope.Machine

open Exec

def plural (n : Nat) : String := if n == 1 then "" else "s"

def quotedNames (names : List Name) : String :=
  String.intercalate ", " (names.map fun n => "'" ++ n ++ "'")

/-- Slots of parameters, filled or not. -/
abbrev Slots := List (Option Value)

/-- Arguments from left to right in the first slots. The slots that are left are empty. -/
def fillPositional : Nat → List Value → Slots
  | 0, _ => []
  | n + 1, [] => none :: fillPositional n []
  | n + 1, v :: vs => some v :: fillPositional n vs

/-- What keeps a keyword from being taken. -/
inductive KeywordFault where
  /-- The parameter has a value. -/
  | filled (name : Name)
  /-- The surplus keyword came before. -/
  | repeated (name : Name)
  /-- No parameter takes the keyword. -/
  | unexpected (name : Name)
  deriving DecidableEq, Repr, Inhabited

def KeywordFault.message (function : Name) : KeywordFault → String
  | filled name => function ++ "() got multiple values for argument '" ++ name ++ "'"
  | repeated name =>
    function ++ "() got multiple values for keyword argument '" ++ name ++ "'"
  | unexpected name => function ++ "() got an unexpected keyword argument '" ++ name ++ "'"

def fillKeywords (names : List Name) (takesRest : Bool) :
    Slots → NameMap → Keywords → Except KeywordFault (Slots × NameMap)
  | slots, extra, [] => .ok (slots, extra)
  | slots, extra, (name, value) :: rest =>
    match names.idxOf? name with
    | some i =>
      if (slots[i]?).join.isSome then .error (.filled name)
      else fillKeywords names takesRest (slots.set i (some value)) extra rest
    | none =>
      if !takesRest then .error (.unexpected name)
      else if extra.contains name then .error (.repeated name)
      else fillKeywords names takesRest slots (extra.insert name value) rest

def fillDefaults : Slots → List (Option Value) → Slots
  | slot :: slots, default :: defaults => slot.or default :: fillDefaults slots defaults
  | slots, _ => slots

/-- The defaults of positional parameters, one for each. They belong to the last ones. -/
def alignDefaults (count : Nat) (defaults : List Value) : List (Option Value) :=
  List.replicate (count - defaults.length) none ++ (defaults.take count).map some

def missingNames (names : List Name) (slots : Slots) : List Name :=
  (names.zip slots).filterMap fun p => if p.2.isNone then some p.1 else none

def requireFilled (function : Name) (what : String) (names : List Name) (slots : Slots) :
    Exec Unit :=
  match missingNames names slots with
  | [] => pure ()
  | missing =>
    typeError (function ++ "() missing " ++ toString missing.length ++ " required " ++ what ++
      " argument" ++ plural missing.length ++ ": " ++ quotedNames missing)

/-- Code made by hand may have more parameters than local slots. It is found out when the first
parameter without a slot is reached. -/
def requireSlots (code : Code.Object) (count : Nat) : Exec Unit :=
  if code.varnames.size < count then throw .malformedCode else pure ()

def refuseSurplus (code : Code.Object) (given : Nat) : Exec Unit :=
  if !code.flags.takesRest && code.argCount < given then
    typeError (code.name ++ "() takes " ++ toString code.argCount ++ " positional argument" ++
      plural code.argCount ++ " but " ++ toString given ++
      (if given == 1 then " was" else " were") ++ " given")
  else pure ()

/-- The value of a parameter that takes surplus arguments, if there is such a parameter. -/
def surplus (code : Code.Object) (isTaken : Bool) (slots : Nat) (value : Exec Value) :
    Exec (Option Value) :=
  if isTaken then do
    requireSlots code slots
    return some (← value)
  else pure none

def takeKeywords (code : Code.Object) (names : List Name) (slots : Slots)
    (keywords : Keywords) : Exec (Slots × NameMap) := do
  requireSlots code (if keywords.isEmpty then 0 else code.argCount + code.keywordOnlyCount)
  match fillKeywords names code.flags.takesRestKeywords slots .empty keywords with
  | .error fault => typeError (fault.message code.name)
  | .ok taken => return taken

def bindArguments (f : FunctionValue) (args : List Value) (keywords : Keywords) :
    Exec (Array (Option Value)) := do
  let code := f.code.object
  let count := code.argCount
  let named := count + code.keywordOnlyCount
  let names := code.varnames.toList.take named
  requireSlots code (min args.length count)
  refuseSurplus code args.length
  let rest ← surplus code code.flags.takesRest (named + 1) (newTuple (args.drop count))
  let (slots, extra) ←
    takeKeywords code names (fillPositional code.varnames.size (args.take count)) keywords
  let restKeywords ← surplus code code.flags.takesRestKeywords code.paramCount
    (do newDict (← dictOfNames extra))
  requireSlots code count
  let positional := fillDefaults (slots.take count) (alignDefaults count f.defaults)
  requireFilled code.name "positional" (names.take count) positional
  requireSlots code named
  let keywordOnly := fillDefaults ((slots.take named).drop count)
    ((names.drop count).map f.keywordDefaults.get?)
  requireFilled code.name "keyword-only" (names.drop count) keywordOnly
  let params := positional ++ keywordOnly ++ (rest.toList ++ restKeywords.toList).map some
  return (params ++ List.replicate (code.varnames.size - params.length) none).toArray

end Lexiscope.Machine
