import Lexiscope.Proofs.Machine.Creation
import Lexiscope.Proofs.Machine.Paths
/-!
# Stores that grow

Cells and namespaces are added and never removed, whatever runs.
-/

namespace Lexiscope.Machine

open Exec

/-- No cell and no namespace has been removed. -/
structure Store.Grows (s t : Store) : Prop where
  cells : s.cells.size ≤ t.cells.size
  spaces : s.spaces.size ≤ t.spaces.size

theorem Store.Grows.refl (s : Store) : s.Grows s := ⟨Nat.le_refl _, Nat.le_refl _⟩

theorem Store.Grows.trans {s t u : Store} (h : s.Grows t) (h' : t.Grows u) : s.Grows u :=
  ⟨Nat.le_trans h.cells h'.cells, Nat.le_trans h.spaces h'.spaces⟩

theorem Store.Grows.of_eq {s t : Store} (hcells : t.cells = s.cells) (hspaces : t.spaces = s.spaces) :
    s.Grows t :=
  ⟨Nat.le_of_eq (congrArg Array.size hcells.symm), Nat.le_of_eq (congrArg Array.size hspaces.symm)⟩

theorem Store.Calm.grows {s t : Store} (h : s.Calm t) : s.Grows t := ⟨h.cells, h.spaces⟩

def Change.growing : Change where
  rel := Store.Grows
  trans := Store.Grows.trans
  mild h := .of_eq h.cells h.spaces

section Steady

variable {α : Type} {n : Nat}

theorem growing_entered (s : Store) (f : Frame) : Change.growing.rel s (s.entered f) :=
  ⟨Nat.le_refl _, Nat.le_refl _⟩

theorem growing_left (s : Store) (q : Stopped) : Change.growing.rel s (s.left q) :=
  ⟨Nat.le_refl _, Nat.le_refl _⟩

instance : Change.growing.Wakes where
  newGenerator _ := ⟨fun _ => ⟨Nat.le_refl _, Nat.le_refl _⟩⟩
  setGenerator _ _ := ⟨fun _ => ⟨Nat.le_refl _, Nat.le_refl _⟩⟩

theorem growing_steady : Change.growing.Steady := by
  apply Change.steady_of_calm
  · exact Store.Calm.grows
  · exact growing_entered
  · exact growing_left
  · exact fun g => allows_newGenerator
  · exact allows_resume growing_entered growing_left

end Steady

/-- When a body goes on after a yield, nothing has been removed meanwhile. -/
def Event.Grows : Event → Prop
  | .turn .. => True
  | .yield _ left back => left.Grows back

theorem grows_of_step {f : Frame} {s t : Store} {a : Action} (h : step f s = .ok a t) : s.Grows t :=
  (growing_steady.step f).ok h

theorem Course.grows {f g : Frame} {s t : Store} {es : List Event} (h : Course f s es g t)
    (hes : ∀ e ∈ es, e.Grows) : s.Grows t := by
  induction h with
  | here => exact .refl _
  | @turn f s a u n g v es h w hstep hact _ ih =>
    have hrest := ih fun e he => hes e (List.mem_cons_of_mem _ he)
    have hturn : u.Grows v := ((growing_steady.runsAt n).act a).ok hact
    exact ((grows_of_step hstep).trans hturn).trans hrest
  | yield hstep _ ih =>
    have hrest := ih fun e he => hes e (List.mem_cons_of_mem _ he)
    have hback := hes _ List.mem_cons_self
    exact ((grows_of_step hstep).trans hback).trans hrest

end Lexiscope.Machine
