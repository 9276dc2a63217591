import Lexiscope.Grammar.Token
/-!
# Faults of compilation

What can be wrong with a module whose grammar is right. The last six causes are guards
between the parts of the compiler.
-/

namespace Lexiscope

open Text (Span)

/-- What is wrong with a module. -/
inductive CompileFault where
  | yieldOutside
  | awaitOutside
  | returnOutside
  | breakOutside
  | continueOutside
  | nonlocalAtModule
  | noNonlocalBinding (name : Name)
  | parameterAndGlobal (name : Name)
  | parameterAndNonlocal (name : Name)
  | nonlocalAndGlobal (name : Name)
  | notAssignable
  | notAugmentable
  | noTarget
  | noCell (name : Name)
  | storeToCaptured (name : Name)
  | unboundLabel
  | scopeOutOfStep
  deriving DecidableEq, Repr, Inhabited

def CompileFault.message : CompileFault → String
  | yieldOutside => "'yield' outside function"
  | awaitOutside => "'await' outside async function"
  | returnOutside => "'return' outside function"
  | breakOutside => "'break' outside loop"
  | continueOutside => "'continue' not properly in loop"
  | nonlocalAtModule => "nonlocal declaration not allowed at module level"
  | noNonlocalBinding name => "no binding for nonlocal '" ++ name ++ "' found"
  | parameterAndGlobal name => "name '" ++ name ++ "' is parameter and global"
  | parameterAndNonlocal name => "name '" ++ name ++ "' is parameter and nonlocal"
  | nonlocalAndGlobal name => "name '" ++ name ++ "' is nonlocal and global"
  | notAssignable => "cannot assign to expression"
  | notAugmentable => "illegal target for augmented assignment"
  | noTarget => "assignment without target"
  | noCell name => "no cell for '" ++ name ++ "'"
  | storeToCaptured name => "cannot store to captured name '" ++ name ++ "'"
  | unboundLabel => "jump to unbound label"
  | scopeOutOfStep => "scope tree out of step with body"

/-- A fault and where it stands. -/
structure CompileError where
  fault : CompileFault
  span : Span
  deriving DecidableEq, Repr, Inhabited

def CompileError.render (e : CompileError) : String :=
  e.fault.message ++ " at " ++ e.span.render

end Lexiscope
