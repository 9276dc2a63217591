import Lexiscope.Proofs.Meaning.Instructions
/-!
# Code with jumps

Code that branches, goes round, or leaves out a part does what is told of its parts.
-/

namespace Lexiscope.Meaning

open Machine Exec
open Code
open Generate
open Generates (generate_bind_eq_ok)

variable {α : Type} {mayTire : Prop} {n k m : Nat} {σ : List Value} {c : Object}

section Onward

variable {goal goal' : α → Nat × List Value}

/-- Where the code comes to an end there may be a jump to where it should come to. -/
theorem Matches.onward {g : Frame} {s : Store} {told : Told α} (h : Matches mayTire n c goal m g s told)
    (honward : ∀ a, goal' a = goal a ∨
      ∃ t, c.instructions[(goal a).1]? = some (.jump t) ∧ goal' a = (t, (goal a).2)) :
    Matches mayTire n c goal' m g s told := by
  induction h with
  | @done _ k g s ds a f t hwalk hcode =>
    rcases honward a with heq | ⟨u, hat, heq⟩
    · exact .done (heq ▸ hwalk) hcode
    · have hjump : Walk n 1 (f.placed (goal a).1 (goal a).2) t [] (f.placed u (goal a).2) t :=
        walk_next hat hcode rfl rfl
      refine .done (k := k + 1) (f := f) ?_ hcode
      rw [heq, ← List.append_nil ds]
      exact hwalk.trans hjump
  | stopped hwalk hturn => exact .stopped hwalk hturn
  | tired htire hwalk hk => exact .tired htire hwalk hk
  | yielded hwalk hstep _ ih => exact .yielded hwalk hstep ih

theorem Realizes.onward {pc : Nat} {x : Tale α} (h : Realizes mayTire n c pc σ x goal)
    (honward : ∀ a, goal' a = goal a ∨
      ∃ t, c.instructions[(goal a).1]? = some (.jump t) ∧ goal' a = (t, (goal a).2)) :
    Realizes mayTire n c pc σ x goal' :=
  fun f s hf => (h f s hf).onward honward

end Onward

section Labels

variable {d d' : Draft} {l : Label} {b b' b'' : Builder} {jump : Nat → Instr}
  {place : Label → Nat}

theorem newLabel_ok (h : newLabel d = .ok (l, d')) :
    l = d.builder.newLabel.1 ∧ d' = { d with builder := d.builder.newLabel.2 } := by
  cases h
  exact ⟨rfl, rfl⟩

theorem bindLabel_ok (h : bindLabel l d = .ok ((), d')) :
    d' = { d with builder := d.builder.bindLabel l } := by
  cases h
  rfl

theorem emitJump_ok (h : emitJump jump l d = .ok ((), d')) :
    d' = { d with builder := d.builder.emitJump jump l } := by
  cases h
  rfl

theorem extends_emitJump (b : Builder) (jump : Nat → Instr) (l : Label) :
    b.Extends (b.emitJump jump l) :=
  Builder.extends_push b (jump 0) (some l)

theorem size_emitJump (b : Builder) (jump : Nat → Instr) (l : Label) :
    (b.emitJump jump l).instructions.size = b.instructions.size + 1 := by
  simp [Builder.emitJump, Builder.emit]

/-- A part of the code between a jump to a new label and the place where the label is bound. -/
theorem extends_skip (h : b.newLabel.2.Extends b')
    (h' : (b'.emitJump jump b.newLabel.1).Extends b'') :
    b.newLabel.2.Extends b'' ∧ b.Extends (b''.bindLabel b.newLabel.1) := by
  have hall := h.trans ((extends_emitJump b' jump b.newLabel.1).trans h')
  exact ⟨hall, ((Builder.extends_newLabel b).trans hall).bindLabel (Nat.le_refl _)
    (hall.unbound (Builder.unbound_newLabel b))⟩

/-- Code that leaves out its second half if the operand that the first half leaves has a truth. -/
theorem computes_skip {β : Type} {g h : Generate Unit} {truth : Bool} {x : Tale Value} {y : Tale β}
    {a : Value → β} {τ : β → List Value} (hg : Computes mayTire n g σ x fun v => v :: σ)
    (hjump : ∀ (c : Object) (pc t : Nat) (v : Value),
      c.instructions[pc]? = some ((jump 0).withTarget t) →
        Realizes mayTire n c pc (v :: σ) (Tale.truth v) fun b =>
          if b = truth then (t, τ (a v)) else (pc + 1, σ))
    (hh : Computes mayTire n h σ y τ) :
    Computes mayTire n (do
        let stop ← newLabel
        g
        emitJump jump stop
        h
        bindLabel stop) σ
      (do
        let v ← x
        if (← Tale.truth v) = truth then pure (a v) else y) τ := by
  intro d d' hrun
  obtain ⟨stop, d₁, h₁, hrun⟩ := generate_bind_eq_ok hrun
  obtain ⟨⟨⟩, d₂, h₂, hrun⟩ := generate_bind_eq_ok hrun
  obtain ⟨⟨⟩, d₃, h₃, hrun⟩ := generate_bind_eq_ok hrun
  obtain ⟨⟨⟩, d₄, h₄, h₅⟩ := generate_bind_eq_ok hrun
  obtain ⟨rfl, rfl⟩ := newLabel_ok h₁
  obtain ⟨hextends₂, hcount₂, hx⟩ := hg h₂
  obtain rfl := emitJump_ok h₃
  obtain ⟨hextends₄, hcount₄, hy⟩ := hh h₄
  obtain rfl := bindLabel_ok h₅
  obtain ⟨hall, hextends⟩ := extends_skip hextends₂ hextends₄
  refine ⟨hextends, hcount₄.trans hcount₂, fun c place htidy hends => ?_⟩
  obtain ⟨hends₄, hplace⟩ := hends.ofBindLabel (hall.unbound (Builder.unbound_newLabel _))
  obtain ⟨hends₂, hat⟩ := (hextends₄.ends hends₄).ofEmitJump
  have htidy₁ := (Builder.extends_newLabel d.builder).tidy htidy
  have htidy₂ := hextends₂.tidy htidy₁
  -- If the jump is done, the code after it is not looked at.
  refine (hx c place htidy₁ hends₂).bind fun v => ?_
  refine (hjump c _ _ v hat).bind fun b => ?_
  split
  · refine realizes_pure ?_
    rw [hplace]
    rfl
  · have hrest := hy c place ((extends_emitJump _ _ _).tidy htidy₂) hends₄
    rwa [size_emitJump] at hrest

/-- Two labels are made. The first one is bound, and later the second one. -/
theorem extends_labels {left right : Builder} (h : b.newLabel.2.newLabel.2.Extends left)
    (h' : (left.bindLabel b.newLabel.1).Extends right) :
    left.Unbound b.newLabel.1 ∧ right.Unbound b.newLabel.2.newLabel.1 ∧
      b.Extends (right.bindLabel b.newLabel.2.newLabel.1) := by
  have hfirst := ((Builder.extends_newLabel b.newLabel.2).trans h).unbound
    (Builder.unbound_newLabel b)
  have hsecond := h'.unbound (Builder.Unbound.bindLabel
    (h.unbound (Builder.unbound_newLabel b.newLabel.2)) (m := b.newLabel.1)
    (by simp [Builder.newLabel]))
  have hall := (Builder.extends_newLabel b).trans ((Builder.extends_newLabel b.newLabel.2).trans h)
  refine ⟨hfirst, hsecond, ?_⟩
  refine ((hall.bindLabel (Nat.le_refl _) hfirst).trans h').bindLabel ?_ hsecond
  simp [Builder.newLabel]

/-- Code of which one of two parts is done. There is a jump over the second part, unless nothing is
generated for it. -/
theorem lowers_branches {β : Type} {g g₁ g₂ : Generate Unit} {o : Bool} {x : Tale Value}
    {y z : Nat → Tale β} {goal : β → Option Label × List Value}
    (hg : Computes mayTire n g σ x fun v => v :: σ) (h₁ : Lowers mayTire n g₁ k σ y goal)
    (h₂ : Lowers mayTire n g₂ m σ z goal) (hskips : o = false → g₂ = pure ()) :
    Lowers mayTire n (do
        let otherwise ← newLabel
        let stop ← newLabel
        g
        emitJump .jumpIfFalse otherwise
        g₁
        if o then emitJump .jump stop
        bindLabel otherwise
        g₂
        bindLabel stop) (k + m) σ
      (fun i => do
        let v ← x
        if ← Tale.truth v then y i else z (i + k)) goal := by
  intro d d' hrun
  obtain ⟨otherwise, e₁, hl₁, hrun⟩ := generate_bind_eq_ok hrun
  obtain ⟨rfl, rfl⟩ := newLabel_ok hl₁
  obtain ⟨stop, e₂, hl₂, hrun⟩ := generate_bind_eq_ok hrun
  obtain ⟨rfl, rfl⟩ := newLabel_ok hl₂
  obtain ⟨⟨⟩, d₁, hrun₁, hrun⟩ := generate_bind_eq_ok hrun
  obtain ⟨⟨⟩, e₃, hjump, hrun⟩ := generate_bind_eq_ok hrun
  obtain rfl := emitJump_ok hjump
  obtain ⟨⟨⟩, d₂, hrun₂, hrun⟩ := generate_bind_eq_ok hrun
  -- The builder after the first part, with the jump over the second one if there is to be one.
  let left := if o then d₂.builder.emitJump .jump d.builder.newLabel.2.newLabel.1 else d₂.builder
  replace hrun : (do
      bindLabel d.builder.newLabel.1
      g₂
      bindLabel d.builder.newLabel.2.newLabel.1 : Generate Unit) { d₂ with builder := left } =
        .ok ((), d') := by
    cases o <;> exact hrun
  obtain ⟨⟨⟩, e₄, hbind, hrun⟩ := generate_bind_eq_ok hrun
  obtain rfl := bindLabel_ok hbind
  obtain ⟨⟨⟩, d₃, hrun₃, hbind⟩ := generate_bind_eq_ok hrun
  obtain rfl := bindLabel_ok hbind
  obtain ⟨hextends₁, hcount₁, hx⟩ := hg hrun₁
  obtain ⟨hextends₂, hcount₂, hy⟩ := h₁ hrun₂
  obtain ⟨hextends₃, hcount₃, hz⟩ := h₂ hrun₃
  have hleft : d₂.builder.Extends left ∧ left.codeCount = d₂.builder.codeCount := by
    cases o
    · exact ⟨.refl _, rfl⟩
    · exact ⟨extends_emitJump _ _ _, rfl⟩
  have hopen := hextends₁.trans ((extends_emitJump _ _ _).trans (hextends₂.trans hleft.1))
  obtain ⟨hotherwise, hstop, hextends⟩ := extends_labels hopen hextends₃
  replace hcount₁ : d₁.builder.codeCount = d.builder.codeCount := hcount₁
  replace hcount₂ : left.codeCount = d.builder.codeCount + k :=
    hleft.2.trans (hcount₂.trans (congrArg (· + k) hcount₁))
  replace hcount₃ : d₃.builder.codeCount = left.codeCount + m := hcount₃
  refine ⟨hextends, ?_, fun c place htidy hends => ?_⟩
  · exact hcount₃.trans (by rw [hcount₂, Nat.add_assoc])
  obtain ⟨hends₃, hplace⟩ := hends.ofBindLabel hstop
  obtain ⟨hends_left, hplace'⟩ := (hextends₃.ends hends₃).ofBindLabel hotherwise
  have hends₂ := hleft.1.ends hends_left
  obtain ⟨hends₁, hat⟩ := (hextends₂.ends hends₂).ofEmitJump
  have htidy₁ := (Builder.extends_newLabel _).tidy ((Builder.extends_newLabel _).tidy htidy)
  have htidy₂ := (extends_emitJump d₁.builder .jumpIfFalse d.builder.newLabel.1).tidy
    (hextends₁.tidy htidy₁)
  have htidy₃ := (Builder.grows_bindLabel hotherwise).tidy (hleft.1.tidy (hextends₂.tidy htidy₂))
  refine (hx c place htidy₁ hends₁).bind fun v => ?_
  refine (realizes_jumpIf (t := place d.builder.newLabel.1) hat
    (.inl ⟨rfl, rfl⟩)).bind fun truth => ?_
  cases truth with
  | true =>
    have hthen := hy c place htidy₂ hends₂
    rw [size_emitJump, show (d₁.builder.emitJump .jumpIfFalse d.builder.newLabel.1).codeCount =
      d.builder.codeCount from hcount₁] at hthen
    refine hthen.onward fun b => ?_
    obtain ⟨l, τ⟩ := goal b
    cases l with
    | some l => exact .inl rfl
    | none =>
      -- The first part comes to its end. Either nothing stands between there and the end of all, or a jump
      -- leads over what does.
      cases o with
      | false =>
        rw [hskips rfl] at hrun₃
        cases hrun₃
        exact .inl rfl
      | true =>
        obtain ⟨-, hat⟩ := hends_left.ofEmitJump
        refine .inr ⟨place d.builder.newLabel.2.newLabel.1, hat, ?_⟩
        rw [hplace]
        rfl
  | false =>
    have helse := hz c place htidy₃ hends₃
    rw [show (left.bindLabel d.builder.newLabel.1).codeCount = _ from hcount₂] at helse
    rw [if_pos rfl, hplace']
    exact helse

end Labels

end Lexiscope.Meaning
