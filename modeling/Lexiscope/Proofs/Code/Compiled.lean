import Lexiscope.Proofs.Code.Statements
import Lexiscope.Proofs.Machine.Closed
/-!
# Compiled code

The code of a module and of all bodies in it. Being sound it keeps inside itself.
-/

namespace Lexiscope.Code

/-- The code of a module that was read and compiled, or of a body in it. -/
inductive Object.Compiled : Object → Prop where
  | unit {source : String} {body : List Grammar.Stmt} {name : Name} {c : Object} :
    Grammar.parse source = .ok body → compile body name = .ok c → c.Compiled
  | inner {c d : Object} : c.Compiled → .code d ∈ c.constants → d.Compiled

theorem Object.Compiled.sound {c : Object} (h : c.Compiled) : c.Sound := by
  induction h with
  | unit hparse hcompile => exact (compile_sound hparse hcompile).1
  | inner _ hd ih => exact ih.inner hd

theorem Object.Sound.closed {c : Object} (h : c.Sound) : c.Closed := by
  cases h with
  | mk layout hlaid => exact hlaid.closed

end Lexiscope.Code
