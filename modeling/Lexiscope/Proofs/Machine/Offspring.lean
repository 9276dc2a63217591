import Lexiscope.Proofs.Machine.Sparing
/-!
# Where closures come from

A compiled body makes functions with cells of its own frame only. So what a function makes, and what is
made by that, has no cells but those of its frames.
-/

namespace Lexiscope.Machine

open Code (Instr Kind Kinds)
open Likeness

/-- A value of a kind that has cells in it has only these. -/
def MadeOf (cells : List CellRef) (v : Value) : Kind → Prop
  | .cell => ∃ r ∈ cells, v = .cell r
  | .cells _ => ∃ id, ∃ rs : List CellRef, v = .tuple id (rs.map .cell) ∧ ∀ r ∈ rs, r ∈ cells
  | _ => True

section Closures

variable {cells : List CellRef} {f : Frame} {s t : Store} {v : FunctionValue}

theorem cells_of_madeOf {items : List Value} {n : Nat}
    (h : List.Forall₂ (MadeOf cells) items (List.replicate n .cell)) :
    ∃ rs : List CellRef, items = rs.map .cell ∧ ∀ r ∈ rs, r ∈ cells := by
  induction n generalizing items with
  | zero =>
    cases h
    exact ⟨[], rfl, by simp⟩
  | succ n ih =>
    obtain ⟨v, rest, ⟨r, hr, rfl⟩, hrest, rfl⟩ := List.forall₂_cons_right_iff.1 h
    obtain ⟨rs, rfl, hrs⟩ := ih hrest
    exact ⟨r :: rs, rfl, List.forall_mem_cons.2 ⟨hr, hrs⟩⟩

theorem reading_madeOf (cells : List CellRef) : Reading (MadeOf cells) where
  any _ := trivial
  dict _ := trivial
  loads := by
    intro k i c κ v hκ _
    cases κ <;> cases k <;> simp only [Kind.Describes] at hκ
    all_goals trivial
  tuple := by
    intro κ taken τ htaken hκ id
    cases κ <;> simp only [Kind.Holds] at hκ
    case any | tuple => trivial
    case cells n =>
      subst hκ
      obtain ⟨rs, rfl, hrs⟩ := cells_of_madeOf htaken
      refine ⟨id, rs.reverse, by rw [List.map_reverse], fun r hr => hrs r (List.mem_reverse.1 hr)⟩

theorem closure_madeOf {parts : Code.FunctionParts} {free : Nat} {rest : List Value}
    {closure : List CellRef} (h : List.Forall₂ (MadeOf cells) rest (parts.kinds free))
    (hlie : PartsLie parts closure rest []) : ∀ r ∈ closure, r ∈ cells := by
  obtain ⟨s, t, hs, hempty, -, -⟩ := hlie
  unfold Code.FunctionParts.kinds at h
  cases hclosure : parts.closure with
  | false => simp [hempty hclosure]
  | true =>
    rw [hclosure] at h hs
    obtain ⟨v, rest, ⟨id, rs, rfl, hrs⟩, -, rfl⟩ := List.forall₂_cons_right_iff.1 h
    obtain ⟨w, hw, id', rfl⟩ := hs
    simp only [List.cons.injEq, Value.tuple.injEq] at hw
    have hcell : Function.Injective Value.cell := fun _ _ heq => Value.cell.inj heq
    obtain rfl := List.map_injective_iff.2 hcell hw.1.2
    exact hrs

/-- A function is made with cells of the frame in which it is made, if the operands there are laid out
for the instruction. -/
theorem Makes.closure {p : Code.Pools} {next target : Kinds → Prop} {κs : Kinds}
    (h : Makes f s v t) (hstack : List.Forall₂ (MadeOf f.cells) f.stack κs) {i : Instr}
    (hi : f.code.object.instructions[f.pc]? = some i) (hsuits : i.Suits p next target κs) :
    ∀ r ∈ v.closure, r ∈ f.cells := by
  obtain ⟨bits, g, rest, hi', hstep, hg⟩ := h
  obtain rfl := Option.some.inj (hi.symm.trans hi')
  obtain ⟨j, hj, hsize, hdoes⟩ := performs_of_step hstep
  obtain rfl : j = .makeFunction bits := Option.some.inj (hj.symm.trans hi)
  obtain ⟨id, code, closure, keywordDefaults, defaults, rest', htaken, hlie, -, -, ha⟩ := hdoes
  cases ha
  cases hg
  obtain ⟨τ, σ, rfl, hlength, ⟨c, -, rfl, -⟩, -⟩ := hsuits
  have htop := List.forall₂_take_append _ _ _ hstack
  rw [hlength] at htop
  dsimp only at htaken
  rw [htaken] at htop
  exact closure_madeOf (List.forall₂_cons.1 htop).2 hlie

end Closures

/-- A frame of the function, made and run at any time after the store, has come to this. -/
def Reaches (x : FunctionValue) (s : Store) (g : Frame) (w : Store) : Prop :=
  ∃ s' f t t' es, s.Grows s' ∧ Opened x s' f t ∧ t.Grows t' ∧ Course f t' es g w ∧
    ∀ e ∈ es, e.Grows

/-- The function, and those that are made in frames of it, in frames of these, and so on. -/
inductive Offspring (v : FunctionValue) (s : Store) : FunctionValue → Store → Prop where
  | self : Offspring v s v s
  | made {x t g w y u} : Offspring v s x t → Reaches x t g w → Makes g w y u → Offspring v s y u

end Lexiscope.Machine
