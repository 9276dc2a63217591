import Lexiscope.Lexical.Block
/-!
# Where names live

A name that a function binds belongs to the whole function. A name that is used and not
bound belongs to the nearest enclosing function that binds it; classes are passed over. Where
there is none it is global. A function keeps the names that inner bodies share in cells, and
every body between passes them on.
-/

namespace Lexiscope.Lexical

/-- How a body reads and writes a name. -/
inductive Symbol where
  /-- In a slot of the function's frame. -/
  | fast
  /-- In a cell of the function, shared with inner bodies. -/
  | cell
  /-- In a cell of an enclosing function. -/
  | free
  /-- Global by declaration. -/
  | globalExplicit
  /-- Bound nowhere in sight: global, or a built-in. -/
  | globalImplicit
  /-- In the namespace of the class. -/
  | classLocal
  /-- Read in a class, and in a cell of an enclosing function. -/
  | classFree
  deriving DecidableEq, Repr, Inhabited

/-- A body whose names have been resolved. -/
structure Scope where
  facts : Facts
  /-- The local names that inner bodies share. -/
  cells : List Name
  /-- The names of enclosing functions that the body or an inner one uses. -/
  free : List Name
  children : List Scope
  deriving Inhabited

namespace Scope

def symbol (s : Scope) (name : Name) : Symbol :=
  if name ∈ s.facts.globals then .globalExplicit
  else
    match s.facts.kind with
    | .moduleBody => .globalImplicit
    | .functionBody =>
      if name ∈ s.cells then .cell
      else if name ∈ s.free then .free
      else if name ∈ s.facts.bound then .fast
      else .globalImplicit
    | .classBody =>
      if name ∈ s.facts.nonlocals then .free
      else if name ∈ s.facts.bound then .classLocal
      else if name ∈ s.free then .classFree
      else .globalImplicit

def plainLocals (s : Scope) : List Name :=
  s.facts.localNames.filter fun n => n ∉ s.facts.params && n ∉ s.cells

end Scope

/-- The names that a body takes from the functions around it by its own statements. -/
def Facts.freeNames (f : Facts) (visible : Name → Bool) : List Name :=
  (f.nonlocals ++ f.used.filter fun n =>
    n ∉ f.bound && n ∉ f.globals && visible n).foldl addName []

/-- A function around binds the name. -/
def visibleIn (enclosing : List (List Name)) (n : Name) : Bool := enclosing.any (n ∈ ·)

/-- The local names of the functions around the bodies inside a body. -/
def Facts.inside (f : Facts) (enclosing : List (List Name)) : List (List Name) :=
  if f.kind = .functionBody then f.localNames :: enclosing else enclosing

/-- The names that a body takes from the functions around it, if each that is declared
`nonlocal` is found there. A module takes none. -/
def Facts.takeFree (f : Facts) (enclosing : List (List Name)) :
    Except CompileError (List Name) :=
  if f.kind = .moduleBody then .ok []
  else
    match f.nonlocals.find? fun n => !visibleIn enclosing n with
    | some name => .error ⟨.noNonlocalBinding name, f.span⟩
    | none => .ok (f.freeNames (visibleIn enclosing))

/-- The cells and free names of a body, with those that the inner bodies ask for. -/
def Facts.share (f : Facts) (free : List Name) (children : List Scope) :
    List Name × List Name :=
  let wanted := children.flatMap (·.free)
  let isOwn (n : Name) : Bool := f.kind = .functionBody && n ∈ f.localNames
  ((wanted.filter isOwn).foldl addName [], (wanted.filter fun n => !isOwn n).foldl addName free)

mutual

/-- The scope of a body. `enclosing` holds the local names of the functions around it. -/
def Block.resolve (enclosing : List (List Name)) : Block → Except CompileError Scope
  | ⟨facts, children⟩ => do
    let free ← facts.takeFree enclosing
    let children ← resolveAll (facts.inside enclosing) children
    let (cells, free) := facts.share free children
    return { facts, cells, free, children }

def resolveAll (enclosing : List (List Name)) : List Block → Except CompileError (List Scope)
  | [] => .ok []
  | b :: bs => do
    let scope ← b.resolve enclosing
    return scope :: (← resolveAll enclosing bs)

end

/-- The scope of a module, with the scopes of all bodies inside it. -/
def analyze (body : List Grammar.Stmt) : Except CompileError Scope := do
  (← Block.ofModule body).resolve []

end Lexiscope.Lexical
