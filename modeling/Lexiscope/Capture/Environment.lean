import Lexiscope.Capture.Requirements
import Lexiscope.Machine.Compare
/-!
# Environments

An environment has a value for each outer name that one can be found for. Mappings that are
given come first, the latest before the others; then the environment underneath, if there is
one; then the cells of the function for closure names and its globals for global names.
Built-in names are left to the machine, and what is left is missing.
-/

namespace Lexiscope.Capture

open Machine (Store Value NameMap FunctionValue builtinNames)

/-- Where the outer names of a function come from. Closure names and global names are found
apart, since one name may be of both sorts. -/
structure Environment where
  /-- All values that were found; of two for one name, that of the closure. -/
  outer : NameMap := .empty
  missing : List Name := []
  /-- Global names that are built-in and have no other value. -/
  builtins : List Name := []
  cells : NameMap := .empty
  globals : NameMap := .empty
  deriving Inhabited

/-- One mapping from several; later ones win. -/
def merge (mappings : List NameMap) : NameMap :=
  mappings.foldl (fun m n => m.insertAll n.entries) .empty

def closureValues (s : Store) (f : FunctionValue) : List (Name × Option Value) :=
  (f.code.object.freevars.zip f.closure).map fun p => (p.1, s.cell p.2)

/-- What values are looked for in. -/
structure Sources where
  supplied : NameMap
  base : Option Environment
  /-- The values in the cells of the function, if they may be used. -/
  cells : NameMap
  /-- The globals of the function, if they may be used. -/
  globals : NameMap

namespace Sources

def ofFunction (s : Store) (base : Option Environment) (f : FunctionValue)
    (mappings : List NameMap) (useClosures useGlobals : Bool) : Sources where
  supplied := merge mappings
  base := base
  cells := if useClosures then
      .ofList ((closureValues s f).filterMap fun p => p.2.map fun v => (p.1, v))
    else .empty
  globals := if useGlobals then s.space f.globals else .empty

def closure? (s : Sources) (name : Name) : Option Value :=
  (s.supplied.get? name).or ((s.base.bind (·.cells.get? name)).or (s.cells.get? name))

def global? (s : Sources) (name : Name) : Option Value :=
  (s.supplied.get? name).or ((s.base.bind (·.globals.get? name)).or (s.globals.get? name))

end Sources

def found (lookup : Name → Option Value) (names : List Name) : NameMap :=
  .ofList (names.filterMap fun name => (lookup name).map fun v => (name, v))

def unfound (lookup : Name → Option Value) (names : List Name) : List Name :=
  names.filter fun name => (lookup name).isNone

/-- The entries of a map and those of another one for names that the first does not have. -/
def join (m n : NameMap) : NameMap :=
  n.entries.foldl (fun m e => if m.contains e.1 then m else m.insert e.1 e.2) m

namespace Environment

def resolve (r : Requirements) (s : Sources) : Environment :=
  let cells := found s.closure? r.closures
  let globals := found s.global? r.globals
  let rest := unfound s.global? r.globals
  let missing := distinctNames
    (unfound s.closure? r.closures ++ rest.filter fun n => !builtinNames.contains n)
  { cells, globals, missing
    builtins := rest.filter builtinNames.contains
    outer := (join cells globals).filter fun n _ => !missing.contains n }

def isComplete (e : Environment) : Bool := e.missing.isEmpty

def equal (s : Store) (a b : Environment) : Bool :=
  a.outer.sameBy (Value.equal s) b.outer && sameNames a.missing b.missing &&
    sameNames a.builtins b.builtins && a.cells.sameBy (Value.equal s) b.cells &&
    a.globals.sameBy (Value.equal s) b.globals

end Environment

end Lexiscope.Capture
