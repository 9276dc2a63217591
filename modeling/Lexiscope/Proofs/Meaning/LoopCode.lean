import Lexiscope.Proofs.Meaning.Control
import Lexiscope.Proofs.Meaning.Statement
/-!
# The code of loops

A loop has its head, where each of its rounds begins, and its exit. A round takes at least one turn,
so that a loop that never ends takes more turns than there is a bound for.
-/

namespace Lexiscope.Meaning

open Machine Exec
open Code
open Generate
open Generates (generate_bind_eq_ok)

section Rounds

variable {α β : Type} {n m : Nat} {c : Object} {pc : Nat} {σ τ : List Value} {goal : α → Nat × List Value}

/-- From a place in the code, with operands on the stack, the code does what the tale tells, and
takes at least one turn. So what is done next may take one turn less. -/
def Advances (n : Nat) (c : Object) (pc : Nat) (σ : List Value) (x : Tale α)
    (goal : α → Nat × List Value) : Prop :=
  ∀ ⦃β : Type⦄ (y : α → Tale β) (goal' : β → Nat × List Value) (m : Nat), m < n →
    (∀ a f s, f.code.object = c →
      Matches True n c goal' m (f.placed (goal a).1 (goal a).2) s (y a f s)) →
    ∀ f s, f.code.object = c → Matches True n c goal' (m + 1) (f.placed pc σ) s ((x >>= y) f s)

theorem Realizes.advances {x : Tale α} {y : α → Tale β} {goal' : β → Nat × List Value}
    (hx : Realizes True n c pc σ x goal)
    (hy : ∀ a, Advances n c (goal a).1 (goal a).2 (y a) goal') :
    Advances n c pc σ (x >>= y) goal' := by
  intro γ z goal'' m hm hz f s hf
  rw [Tale.bind_assoc]
  exact ((hx f s hf).mono hm).bind fun a f s hf => hy a z goal'' m hm hz f s hf

theorem advances_next {i : Instr} {x : Tale α} (hi : c.instructions[pc]? = some i)
    (hds : instrDeeds c i σ = [])
    (hperform : ∀ f s, f.code.object = c → ∃ a, x f s = .ended (.ok a) f s [] ∧
      perform (f.placed (pc + 1) σ) i s = .ok (.next (f.placed (goal a).1 (goal a).2)) s) :
    Advances n c pc σ x goal := by
  intro β y goal' m hm hy f s hf
  obtain ⟨a, hx, hperform⟩ := hperform f s hf
  change Matches _ _ _ _ _ _ _ ((x f s).bind y)
  rw [hx]
  exact (walk_next hi hf hds hperform).matches (hy a f s hf)

theorem Asks.advances {d : Deed} {x : Exec α} (h : Asks n c pc σ d x goal) :
    Advances n c pc σ (.doing d x) goal := by
  intro β y goal' m hm hy f s hf
  change Matches _ _ _ _ _ _ _ (((Tale.silently (fun _ => x) f s).after [d]).bind y)
  cases hx : x s with
  | ok v t =>
    rw [Tale.silently_ok hx]
    exact (h.walk hf hx).matches (hy v f t hf)
  | error e t =>
    rw [Tale.silently_error hx]
    exact h.stopped hf hx

/-- Rounds come to an end at the exit of the loop. -/
theorem realizes_goRound {head exit : Nat} {ρ : List Value} {κ : α → List Value}
    {start : Tale (Option α)} {round : α → Tale Exit}
    (hstart : Advances n c head ρ start (·.elim (exit, σ) fun a => (pc, κ a)))
    (hround : ∀ a, Realizes True n c pc (κ a) (round a) fun
      | .broke => (exit, σ)
      | .normal | .continued => (head, ρ)) :
    Realizes True n c head ρ (goRound start round n) fun _ => (exit, σ) := by
  have hleave : Realizes True n c exit σ (pure ()) fun _ => (exit, σ) := realizes_pure rfl
  have hrounds : ∀ m ≤ n, ∀ f s, f.code.object = c →
      Matches True n c (fun _ => (exit, σ)) m (f.placed head ρ) s (goRound start round m f s) := by
    intro m hm
    induction m with
    | zero => exact fun f s hf => .tired trivial .here (Nat.le_refl 0)
    | succ m ih =>
      refine hstart _ _ m hm fun a f s hf => ?_
      cases a with
      | none => exact (hleave f s hf).mono (Nat.le_of_lt hm)
      | some a =>
        refine ((hround a f s hf).mono (Nat.le_of_lt hm)).bind fun e f s hf => ?_
        cases e with
        | broke => exact (hleave f s hf).mono (Nat.le_of_lt hm)
        | normal | continued => exact ih (Nat.le_of_lt hm) f s hf
  exact hrounds n (Nat.le_refl n)

/-- A test comes to its end where the round goes on, or at the exit of the loop. -/
theorem advances_retest {t : Nat} {v : Value} (hat : c.instructions[pc]? = some (.jumpIfFalse t)) :
    Advances n c pc (v :: σ) (do return if ← Tale.truth v then some () else none)
      (·.elim (t, σ) fun _ => (pc + 1, σ)) := by
  refine advances_next hat rfl fun f s hf => ⟨if v.isTruthy s then some () else none, rfl, ?_⟩
  refine (jumpWhen_placed f (pc + 1) v σ false t s).trans ?_
  cases v.isTruthy s <;> rfl

theorem advances_nextItem {t : Nat} {iterator : Value}
    (hat : c.instructions[pc]? = some (.forIter t)) :
    Advances n c pc (iterator :: σ) (.doing (.next iterator) (nextItem n iterator))
      (·.elim (t, σ) fun item => (pc + 1, item :: iterator :: σ)) := by
  refine (asks (a := fun f => .advance iterator t (f.placed (pc + 1) (iterator :: σ)))
    (ρ := iterator :: σ) hat rfl (fun f s => rfl) (fun f => rfl) fun f s => ?_).advances
  have hadvanced : (do advanced (f.placed (pc + 1) (iterator :: σ)) t (← nextItem n iterator)) =
      (fun item => item.elim (f.placed t σ) fun item => f.placed (pc + 1) (item :: iterator :: σ)) <$>
        nextItem n iterator := by
    rw [map_eq_pure_bind]
    congr 1
    funext item
    cases item <;> rfl
  simp only [act]
  rw [attempt_bind, hadvanced]
  cases hitem : nextItem n iterator s with
  | ok item u =>
    rw [map_ok hitem]
    cases item <;> rfl
  | error e u =>
    rw [map_error hitem]
    rfl

end Rounds

/-- Where a statement inside loops leads to, by its exit. A loop that is left takes its iterator with
it. Outside of loops nothing breaks or continues. -/
def wayOut : List Loop → List Value → Exit → Option Label × List Value
  | _, σ, .normal => (none, σ)
  | l :: _, σ, .broke => (some l.exit, if l.hasIterator then σ.tail else σ)
  | l :: _, σ, .continued => (some l.head, σ)
  | [], σ, .broke | [], σ, .continued => (some default, σ)

/-- Code that goes round. Before the first round something is got ready. -/
theorem lowers_loop {α β γ : Type} [Inhabited α] [Inhabited γ] {n k : Nat} {σ : List Value}
    {loops : List Loop} {ready test : Generate Unit} {j : Nat → Instr} {b : Bool}
    {r : Loop → Generate Unit} {x : Tale α} {y : α → Tale β} {z : α → β → Tale (Option γ)}
    {body : α → γ → Nat → Tale Exit} {ρ : α → List Value} {τ : α → β → List Value}
    {κ : α → γ → List Value} (hready : Computes True n ready σ x ρ)
    (htest : ∀ a, Computes True n test (ρ a) (y a) (τ a))
    (hjump : ∀ (c : Object) (pc t : Nat) (a : α) (v : β),
      c.instructions[pc]? = some ((j 0).withTarget t) →
        Advances n c pc (τ a v) (z a v) (·.elim (t, σ) fun i => (pc + 1, κ a i)))
    (hround : ∀ a i l, l.hasIterator = b →
      Lowers True n (r l) k (κ a i) (body a i) (wayOut (l :: loops) (ρ a)))
    (hσ : ∀ a, σ = if b then (ρ a).tail else ρ a) :
    Lowers True n (do
        let head ← newLabel
        let exit ← newLabel
        ready
        bindLabel head
        test
        emitJump j exit
        r ⟨head, exit, b⟩
        emitJump .jump head
        bindLabel exit) k σ
      (fun m => do
        let a ← x
        goRound (y a >>= z a) (body a · m) n) fun _ => (none, σ) := by
  intro d d' hrun
  obtain ⟨head, e₁, hlabel, hrun⟩ := generate_bind_eq_ok hrun
  obtain ⟨rfl, rfl⟩ := newLabel_ok hlabel
  obtain ⟨exit, e₂, hlabel, hrun⟩ := generate_bind_eq_ok hrun
  obtain ⟨rfl, rfl⟩ := newLabel_ok hlabel
  obtain ⟨⟨⟩, d₁, hrun₁, hrun⟩ := generate_bind_eq_ok hrun
  obtain ⟨⟨⟩, e₃, hbind, hrun⟩ := generate_bind_eq_ok hrun
  obtain rfl := bindLabel_ok hbind
  obtain ⟨⟨⟩, d₂, hrun₂, hrun⟩ := generate_bind_eq_ok hrun
  obtain ⟨⟨⟩, e₄, hemit, hrun⟩ := generate_bind_eq_ok hrun
  obtain rfl := emitJump_ok hemit
  obtain ⟨⟨⟩, d₃, hrun₃, hrun⟩ := generate_bind_eq_ok hrun
  obtain ⟨⟨⟩, e₅, hemit, hbind⟩ := generate_bind_eq_ok hrun
  obtain rfl := emitJump_ok hemit
  obtain rfl := bindLabel_ok hbind
  obtain ⟨hextends₁, hcount₁, hx⟩ := hready hrun₁
  -- What is generated is the same for all values, so for the builder any value will do.
  obtain ⟨hextends₂, hcount₂, -⟩ := htest default hrun₂
  have hpiece := fun a i => hround a i ⟨_, _, b⟩ rfl hrun₃
  obtain ⟨hextends₃, hcount₃, -⟩ := hpiece default default
  have hright := hextends₂.trans ((extends_emitJump _ _ _).trans
    (hextends₃.trans (extends_emitJump d₃.builder .jump d.builder.newLabel.1)))
  obtain ⟨hhead, hexit, hextends⟩ := extends_labels hextends₁ hright
  refine ⟨hextends, ?_, fun c place htidy hends => ?_⟩
  · change d₃.builder.codeCount = d.builder.codeCount + k
    rw [hcount₃]
    exact congrArg (· + k) (hcount₂.trans hcount₁)
  obtain ⟨hends, hplace⟩ := hends.ofBindLabel hexit
  obtain ⟨hends₃, hback⟩ := hends.ofEmitJump
  obtain ⟨hends₂, hat⟩ := (hextends₃.ends hends₃).ofEmitJump
  obtain ⟨hends₁, hplace'⟩ := (hextends₂.ends hends₂).ofBindLabel hhead
  have htidy₀ := (Builder.extends_newLabel _).tidy ((Builder.extends_newLabel _).tidy htidy)
  have htidy₁ := (Builder.grows_bindLabel hhead).tidy (hextends₁.tidy htidy₀)
  have htidy₂ := (extends_emitJump d₂.builder j d.builder.newLabel.2.newLabel.1).tidy
    (hextends₂.tidy htidy₁)
  refine (hx c place htidy₀ hends₁).bind fun a => ?_
  have hstart := ((htest a hrun₂).2.2 c place htidy₁ hends₂).advances fun v =>
    hjump c _ _ a v hat
  -- By induction over rounds: each of them starts where the test stands, with the same operands.
  refine realizes_goRound (hplace ▸ hstart) fun i => ?_
  have hbody := (hpiece a i).2.2 c place htidy₂ hends₃
  rw [size_emitJump, show Builder.codeCount (d₂.builder.emitJump j _) = d.builder.codeCount from
    hcount₂.trans hcount₁] at hbody
  refine hbody.onward fun e => ?_
  cases e with
  | normal => exact .inr ⟨_, hback, Prod.ext hplace'.symm rfl⟩
  | broke => exact .inl (Prod.ext hplace.symm (hσ a))
  | continued => exact .inl (Prod.ext hplace'.symm rfl)

end Lexiscope.Meaning
