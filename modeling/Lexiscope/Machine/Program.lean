import Lexiscope.Code.Generate
import Lexiscope.Grammar.Statement
import Lexiscope.Machine.Run
/-!
# Loading a module

A module is read, compiled and run with an empty namespace, which holds its globals then.
-/

namespace Lexiscope.Machine

/-- Why a module could not be loaded. -/
inductive LoadError where
  | unreadable (e : Grammar.SyntaxError)
  | uncompilable (e : CompileError)
  | halted (halt : Halt)

/-- A module that was loaded. -/
structure Module where
  name : String
  globals : SpaceRef
  deriving DecidableEq, Repr, Inhabited

def Exec.unitOf (object : Code.Object) : Exec LoadedCode := do
  let id := Origin.unit (← Exec.fresh)
  return ⟨id, id, object⟩

def runUnit (fuel : Nat) (code : LoadedCode) : Exec SpaceRef := do
  let globals ← Exec.newSpace .empty
  runModule fuel code globals
  return globals

def Exec.outcome {α : Type} (body : Exec α) (s : Store) : Except Halt α × Store :=
  match body s with
  | .ok a s => (.ok a, s)
  | .error halt s => (.error halt, s)

def load (fuel : Nat) (source name : String) (s : Store) : Except LoadError Module × Store :=
  match Grammar.parse source with
  | .error e => (.error (.unreadable e), s)
  | .ok body =>
    match Code.compile body name with
    | .error e => (.error (.uncompilable e), s)
    | .ok object =>
      let run : Exec SpaceRef := do runUnit fuel (← Exec.unitOf object)
      match run.outcome s with
      | (.error halt, s) => (.error (.halted halt), s)
      | (.ok globals, s) => (.ok ⟨name, globals⟩, s)

def LoadError.message : LoadError → String
  | unreadable e => "syntax error: " ++ e.render
  | uncompilable e => "compile error: " ++ e.render
  | halted halt => "error while running module: " ++ halt.message

end Lexiscope.Machine
