import Lexiscope.Code.Basic
/-!
# Outer names of a body

A body needs values for its own free names, and for the global names that it reads or that
are read in a body defined inside it, at any depth. A name that a class body stores is its
own and not counted there.
-/

namespace Lexiscope.Capture

open Code (Instr Constant Object)

/-- What a body inside another one is made into. -/
inductive InnerKind where
  | functionBody
  | classBody
  deriving DecidableEq, Repr, Inhabited

/-- The places in the pool of names that a body stores as names of its class. -/
def storedNames (instructions : List Instr) : List Nat :=
  instructions.filterMap fun i =>
    match i with
    | .storeName n => some n
    | _ => none

def ownReads (names : Array Name) (stored : List Nat) (instructions : List Instr) : List Name :=
  instructions.filterMap fun i =>
    match i with
    | .loadGlobal n => names[n]?
    -- A stored name does not count, not even where it is read before it is stored.
    | .loadName n => if n ∈ stored then none else names[n]?
    | _ => none

/-- The code in the pool that functions are made of, in the order in which they are made. -/
def madeBodies (isCode : Nat → Bool) (classAhead : Bool) (last : Option Nat) :
    List Instr → List (Nat × InnerKind)
  | [] => []
  | .loadConst i :: rest => madeBodies isCode classAhead (if isCode i then some i else last) rest
  | .loadBuildClass :: rest => madeBodies isCode true last rest
  | .makeFunction _ :: rest =>
    -- The code is the constant that was loaded last.
    let made := last.map fun i => (i, if classAhead then InnerKind.classBody else .functionBody)
    made.toList ++ madeBodies isCode false none rest
  | _ :: rest => madeBodies isCode classAhead last rest

def isCode {κ : Type} : Constant κ → Bool
  | .code _ => true
  | _ => false

/-- The bodies in a pool, each once: first those that functions are made of, then the others,
which count as functions. -/
def innerBodies (constants : List (Constant Object)) (instructions : List Instr) :
    List (Nat × InnerKind) :=
  let made := madeBodies (fun i => constants[i]?.any isCode) false none instructions
  let other := ((List.range constants.length).filter fun i => constants[i]?.any isCode).map
    fun i => (i, InnerKind.functionBody)
  (made ++ other).foldl
    (fun seen p => if seen.any (·.1 == p.1) then seen else seen ++ [p]) []

mutual

def globalReads (kind : InnerKind) : Object → List Name
  | ⟨_, _, instructions, ⟨constants⟩, names, _, _, _, _, _, _, _⟩ =>
    let code := instructions.toList
    let stored := if kind = .classBody then storedNames code else []
    let inner := poolReads constants
    ownReads names stored code ++
      (innerBodies constants code).flatMap fun p =>
        match inner[p.1]? with
        | some reads => reads p.2
        | none => []

def poolReads : List (Constant Object) → List (InnerKind → List Name)
  | [] => []
  | c :: cs => constantReads c :: poolReads cs

def constantReads : Constant Object → InnerKind → List Name
  | .code c, kind => globalReads kind c
  | _, _ => []

end

/-- The outer names of a body. A name may be of both sorts. -/
structure Requirements where
  closures : List Name
  /-- The global names read in the body and inside it. -/
  globals : List Name
  deriving DecidableEq, Repr, Inhabited

namespace Requirements

def ofCode (c : Object) : Requirements :=
  ⟨distinctNames c.freevars, distinctNames (globalReads .functionBody c)⟩

def names (r : Requirements) : List Name := r.closures ++ r.globals

def isClosure (r : Requirements) (name : Name) : Bool := r.closures.contains name

def size (r : Requirements) : Nat := r.closures.length + r.globals.length

def isEmpty (r : Requirements) : Bool := r.closures.isEmpty && r.globals.isEmpty

end Requirements

end Lexiscope.Capture
