import Lexiscope.Proofs.Code.Growth
import Lexiscope.Proofs.Code.Places
import Lexiscope.Proofs.Meaning.Expression
import Lexiscope.Proofs.Meaning.Walk
/-!
# Code that does what is told

Generated code does what a tale tells if it does so wherever it stands in a finished body. Pieces of
code one after another do one thing after another.
-/

namespace Lexiscope.Meaning

open Machine
open Code
open Generate
open Lexical (Scope)

/-- Where code leads to, at its end or where a label stands. -/
def arrival (place : Label → Nat) (pc : Nat) : Option Label × List Value → Nat × List Value
  | (l, σ) => (l.elim pc place, σ)

/-- The generated code extends what was there, by so many code objects of inner bodies. In the
finished body it starts from the operands, does what the tale tells, and comes to its end or to a
label, with the operands that belong to the end of the tale. The tale may depend on the number of the
inner bodies before. -/
def Lowers {α : Type} (mayTire : Prop) (n : Nat) (g : Generate Unit) (bodies : Nat) (σ : List Value)
    (x : Nat → Tale α) (goal : α → Option Label × List Value) : Prop :=
  ∀ ⦃d d'⦄, g d = .ok ((), d') → d.builder.Extends d'.builder ∧
    d'.builder.codeCount = d.builder.codeCount + bodies ∧
    ∀ c place, d.builder.Tidy → d'.builder.Ends c place →
      Realizes mayTire n c d.builder.instructions.size σ (x d.builder.codeCount)
        fun a => arrival place d'.builder.instructions.size (goal a)

/-- The generated code has no inner bodies, and comes to its end. -/
abbrev Computes {α : Type} (mayTire : Prop) (n : Nat) (g : Generate Unit) (σ : List Value) (x : Tale α)
    (τ : α → List Value) : Prop :=
  Lowers mayTire n g 0 σ (fun _ => x) fun a => (none, τ a)

section Rules

variable {α β : Type} {mayTire : Prop} {n k m : Nat} {g h : Generate Unit} {σ : List Value} {x : Nat → Tale α}
  {goal : α → Option Label × List Value} {goal' : β → Option Label × List Value}

/-- Code after code. What leaves the first piece for a label leaves both. -/
theorem Lowers.followedBy {y : α → Nat → Tale β} (a₀ : α) (h₀ : (goal a₀).1 = none)
    (hg : Lowers mayTire n g k σ x goal)
    (hh : ∀ a τ, goal a = (none, τ) → Lowers mayTire n h m τ (y a) goal')
    (haside : ∀ a l τ i, goal a = (some l, τ) → ∃ b, y a i = pure b ∧ goal' b = (some l, τ)) :
    Lowers mayTire n (g >>= fun _ => h) (k + m) σ (fun i => x i >>= fun a => y a (i + k)) goal' := by
  intro d d' hrun
  obtain ⟨⟨⟩, e, hrun₁, hrun₂⟩ := Generates.generate_bind_eq_ok hrun
  obtain ⟨hextends₁, hcount₁, hrealizes₁⟩ := hg hrun₁
  obtain ⟨hextends₂, hcount₂, -⟩ := hh a₀ _ (Prod.ext h₀ rfl) hrun₂
  refine ⟨hextends₁.trans hextends₂, by omega, fun c place htidy hends => ?_⟩
  refine (hrealizes₁ c place htidy (hextends₂.ends hends)).bind fun a => ?_
  cases ha : goal a with
  | mk l τ =>
    cases l with
    | none =>
      rw [← hcount₁]
      exact (hh a τ ha hrun₂).2.2 c place (hextends₁.tidy htidy) hends
    | some l =>
      obtain ⟨b, hb, hgoal⟩ := haside a l τ (d.builder.codeCount + k) ha
      rw [hb]
      refine realizes_pure ?_
      rw [hgoal]
      rfl

theorem Lowers.andThen [Inhabited α] {τ : α → List Value} {y : α → Nat → Tale β}
    (hg : Lowers mayTire n g k σ x fun a => (none, τ a))
    (hh : ∀ a, Lowers mayTire n h m (τ a) (y a) goal') :
    Lowers mayTire n (g >>= fun _ => h) (k + m) σ (fun i => x i >>= fun a => y a (i + k)) goal' :=
  hg.followedBy default rfl (fun a ρ ha => by cases ha; exact hh a) fun a l ρ i ha => by cases ha

theorem Lowers.andCompute [Inhabited α] {τ : α → List Value} {y : α → Tale β}
    (hg : Lowers mayTire n g k σ x fun a => (none, τ a))
    (hh : ∀ a, Lowers mayTire n h 0 (τ a) (fun _ => y a) goal') :
    Lowers mayTire n (g >>= fun _ => h) k σ (fun i => x i >>= y) goal' :=
  hg.andThen (m := 0) (y := fun a _ => y a) hh

theorem Computes.andThen [Inhabited α] {x : Tale α} {τ : α → List Value} {y : α → Nat → Tale β}
    (hg : Computes mayTire n g σ x τ) (hh : ∀ a, Lowers mayTire n h m (τ a) (y a) goal') :
    Lowers mayTire n (g >>= fun _ => h) m σ (fun i => x >>= fun a => y a i) goal' := by
  have hboth := Lowers.andThen hg hh
  rwa [Nat.zero_add] at hboth

theorem Computes.thenOnly {a : α} {τ : List Value} {y : Nat → Tale β}
    (hg : Computes mayTire n g σ (pure a) fun _ => τ) (hh : Lowers mayTire n h m τ y goal') :
    Lowers mayTire n (g >>= fun _ => h) m σ y goal' := by
  have hboth := @Computes.andThen _ _ mayTire n m g h σ goal' ⟨a⟩ (pure a) (fun _ => τ)
    (fun _ => y) hg fun _ => hh
  simpa only [Tale.pure_bind] using hboth

theorem Lowers.congr {x' : Nat → Tale α} (hg : Lowers mayTire n g k σ x goal)
    (hx : ∀ ⦃d d'⦄, g d = .ok ((), d') → ∀ (c : Object) (place : Label → Nat),
      d'.builder.Ends c place → ∀ f s, f.code.object = c →
        x d.builder.codeCount f s = x' d.builder.codeCount f s) :
    Lowers mayTire n g k σ x' goal := by
  intro d d' hrun
  obtain ⟨hextends, hcount, hrealizes⟩ := hg hrun
  refine ⟨hextends, hcount, fun c place htidy hends f s hf => ?_⟩
  rw [← hx hrun c place hends f s hf]
  exact hrealizes c place htidy hends f s hf

theorem lowers_apart {γ : Type} {g : Generate γ} {h : γ → Generate Unit}
    (hg : ∀ d a d', g d = .ok (a, d') → d'.builder = d.builder)
    (hh : ∀ a, Lowers mayTire n (h a) k σ x goal) : Lowers mayTire n (g >>= h) k σ x goal := by
  intro d d' hrun
  obtain ⟨a, e, hapart, hrun⟩ := Generates.generate_bind_eq_ok hrun
  have hlowers := hh a hrun
  rwa [hg d a e hapart] at hlowers

theorem lowers_nothing {a : α} (ha : goal a = (none, σ)) :
    Lowers mayTire n (pure ()) 0 σ (fun _ => pure a) goal := by
  intro d d' hrun
  cases hrun
  refine ⟨.refl _, rfl, fun c place _ _ => realizes_pure ?_⟩
  rw [ha]
  rfl

theorem Lowers.andReturn {f : α → β} (hg : Lowers mayTire n g k σ x goal) (hf : ∀ a, goal' (f a) = goal a) :
    Lowers mayTire n g k σ (fun i => x i >>= fun a => pure (f a)) goal' := by
  intro d d' hrun
  obtain ⟨hextends, hcount, hrealizes⟩ := hg hrun
  refine ⟨hextends, hcount, fun c place htidy hends => ?_⟩
  refine (hrealizes c place htidy hends).bind fun a => realizes_pure ?_
  rw [hf]

theorem Lowers.of_eq {x' : Nat → Tale α} {σ' : List Value} (hg : Lowers mayTire n g k σ x goal)
    (hσ : σ = σ') (hx : x = x') : Lowers mayTire n g k σ' x' goal := hσ ▸ hx ▸ hg

theorem lowers_fail {fault : CompileFault} {span : Text.Span} :
    Lowers mayTire n (Generate.fail fault span) k σ x goal := by
  intro d d' hrun
  cases hrun

end Rules

section Emitting

variable {α : Type} {mayTire : Prop} {n : Nat} {σ : List Value} {x : Tale α} {τ : α → List Value}

theorem lowers_emit {i : Instr} {goal : α → Option Label × List Value}
    (hi : ∀ (c : Object) (place : Label → Nat) (pc : Nat), c.instructions[pc]? = some i →
      Realizes mayTire n c pc σ x fun a => arrival place (pc + 1) (goal a)) :
    Lowers mayTire n (emit i) 0 σ (fun _ => x) goal := by
  intro d d' hrun
  cases hrun
  refine ⟨Builder.extends_push _ _ none, rfl, fun c place htidy hends => ?_⟩
  simp only [Builder.emit, Array.size_push]
  exact hi c place _ (Builder.Ends.ofEmit hends htidy).2

theorem computes_emit {i : Instr}
    (hi : ∀ (c : Object) (pc : Nat), c.instructions[pc]? = some i →
      Realizes mayTire n c pc σ x fun a => (pc + 1, τ a)) :
    Computes mayTire n (emit i) σ x τ :=
  lowers_emit fun c _ pc hat => hi c pc hat

theorem lowers_placed {bodies : Nat} {y : Nat → Tale α} {f : Builder → Nat × Builder}
    {instr : Nat → Instr}
    (hf : ∀ b : Builder, b.Extends (f b).2 ∧ (f b).2.codeCount = b.codeCount + bodies ∧
      (f b).2.instructions = b.instructions)
    (hi : ∀ (b : Builder) (c : Object) (place : Label → Nat) (pc : Nat), (f b).2.Ends c place →
      c.instructions[pc]? = some (instr (f b).1) →
        Realizes mayTire n c pc σ (y b.codeCount) fun a => (pc + 1, τ a)) :
    Lowers mayTire n (do emit (instr (← Generate.place f))) bodies σ y fun a => (none, τ a) := by
  intro d d' hrun
  cases hrun
  obtain ⟨hextends, hcount, hinstructions⟩ := hf d.builder
  refine ⟨hextends.trans (Builder.extends_push _ _ none), hcount, fun c place htidy hends => ?_⟩
  obtain ⟨hends, hat⟩ := Builder.Ends.ofEmit hends (hextends.tidy htidy)
  rw [hinstructions] at hat
  simp only [Builder.emit, Array.size_push, hinstructions]
  exact hi d.builder c place _ hends hat

theorem computes_named {instr : Nat → Instr} {name : Name}
    (hi : ∀ (c : Object) (pc i : Nat), c.names[i]? = some name →
      c.instructions[pc]? = some (instr i) → Realizes mayTire n c pc σ x fun a => (pc + 1, τ a)) :
    Computes mayTire n (emitNamed instr name) σ x τ := by
  exact lowers_placed (fun b => ⟨Builder.extends_name b name, rfl, rfl⟩)
    fun b c _ pc hends hat => hi c pc _
      (hends.names _ name (getElem?_of_idxOf? (Builder.poolName_idxOf? b.names name))) hat

theorem computes_slot {instr : Nat → Instr} {name : Name}
    (hi : ∀ (c : Object) (pc i : Nat), c.varnames.idxOf? name = some i →
      c.instructions[pc]? = some (instr i) → Realizes mayTire n c pc σ x fun a => (pc + 1, τ a)) :
    Computes mayTire n (do emit (instr (← Generate.place (·.varname name)))) σ x τ :=
  lowers_placed (fun b => ⟨Builder.extends_varname b name, rfl, rfl⟩)
    fun b c _ pc hends hat => hi c pc _
      (hends.varnames.idxOf? (Builder.poolName_idxOf? b.varnames name)) hat

theorem computes_cell {instr : Nat → Instr} {name : Name} {span : Text.Span}
    (hi : ∀ (c : Object) (pc i : Nat), c.derefNames.idxOf? name = some i →
      c.instructions[pc]? = some (instr i) → Realizes mayTire n c pc σ x fun a => (pc + 1, τ a)) :
    Computes mayTire n (do emit (instr (← deref name span))) σ x τ := by
  intro d d' hrun
  obtain ⟨i, e, hderef, hemit⟩ := Generates.generate_bind_eq_ok hrun
  unfold deref at hderef
  split at hderef
  · rename_i hi'
    cases hderef
    cases hemit
    refine ⟨Builder.extends_push _ _ none, rfl, fun c place htidy hends => ?_⟩
    obtain ⟨hends, hat⟩ := Builder.Ends.ofEmit hends htidy
    simp only [Builder.emit, Array.size_push]
    refine hi c _ i ?_ hat
    rw [Object.derefNames, hends.cellvars, hends.freevars]
    exact hi'
  · cases hderef

theorem computes_constant {k : Constant Object} (hk : k.sharesSlot k = true)
    (hi : ∀ (c : Object) (pc i : Nat), c.constants.findIdx? (·.sharesSlot k) = some i →
      c.instructions[pc]? = some (.loadConst i) → Realizes mayTire n c pc σ x fun a => (pc + 1, τ a)) :
    Computes mayTire n (emitConst k) σ x τ := by
  have hcode : ∀ c, k ≠ .code c := by
    rintro c rfl
    cases hk
  refine lowers_placed (f := (·.constant k)) (fun b => ?_)
    fun b c place pc hends hat => ?_
  · refine ⟨Builder.extends_constant b k, codeCount_constant b hcode, ?_⟩
    unfold Builder.constant
    split <;> rfl
  · exact hi c pc _ (hends.constants.findIdx? (Builder.constant_findIdx? b hk)) hat

end Emitting

end Lexiscope.Meaning
