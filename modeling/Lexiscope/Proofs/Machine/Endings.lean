import Lexiscope.Proofs.Machine.Course
/-!
# Endings without regard to fuel

Two computations that are given fuel are compared by what they end with when they have enough of
it. How much the one needs says nothing of how much the other does.
-/

namespace Lexiscope.Machine

/-- Two computations end alike: what the one ends with is related to what the other ends with
when it has enough fuel, and the other way round. -/
structure EndAlike {α β : Type} (r : α → β → Prop) (spent : α → Prop) (spent' : β → Prop)
    (x : Nat → α) (y : Nat → β) : Prop where
  forth : ∀ n, ¬ spent (x n) → ∃ m, ∀ k, m ≤ k → r (x n) (y k)
  back : ∀ n, ¬ spent' (y n) → ∃ m, ∀ k, m ≤ k → r (x k) (y n)

namespace EndAlike

variable {α β γ δ : Type} {r : α → β → Prop} {q : γ → δ → Prop} {spent : α → Prop}
  {spent' : β → Prop} {x : Nat → α} {y : Nat → β}

theorem const {a : α} {b : β} (h : r a b) :
    EndAlike r spent spent' (fun _ => a) (fun _ => b) :=
  ⟨fun _ _ => ⟨0, fun _ _ => h⟩, fun _ _ => ⟨0, fun _ _ => h⟩⟩

theorem never (hx : ∀ n, spent (x n)) (hy : ∀ n, spent' (y n)) :
    EndAlike r spent spent' x y :=
  ⟨fun n hn => absurd (hx n) hn, fun n hn => absurd (hy n) hn⟩

/-- What is done with the ends keeps them related, and does not make up for a want of fuel. -/
theorem map {f : α → γ} {g : β → δ} {p : γ → Prop} {p' : δ → Prop}
    (h : EndAlike r spent spent' x y) (hf : ∀ a, spent a → p (f a))
    (hg : ∀ b, spent' b → p' (g b)) (hq : ∀ a b, r a b → q (f a) (g b)) :
    EndAlike q p p' (fun n => f (x n)) (fun n => g (y n)) where
  forth n hn := by
    obtain ⟨m, hm⟩ := h.forth n fun hs => hn (hf _ hs)
    exact ⟨m, fun k hk => hq _ _ (hm k hk)⟩
  back n hn := by
    obtain ⟨m, hm⟩ := h.back n fun hs => hn (hg _ hs)
    exact ⟨m, fun k hk => hq _ _ (hm k hk)⟩

theorem and_right {p : β → Prop} (h : EndAlike r spent spent' x y) (hp : ∀ n, p (y n)) :
    EndAlike (fun a b => r a b ∧ p b) spent spent' x y where
  forth n hn := by
    obtain ⟨m, hm⟩ := h.forth n hn
    exact ⟨m, fun k hk => ⟨hm k hk, hp k⟩⟩
  back n hn := by
    obtain ⟨m, hm⟩ := h.back n hn
    exact ⟨m, fun k hk => ⟨hm k hk, hp n⟩⟩

/-- One computation ends like a second one, and that one like a third. -/
theorem trans {q : β → γ → Prop} {spent'' : γ → Prop} {z : Nat → γ}
    (h : EndAlike r spent spent' x y) (h' : EndAlike q spent' spent'' y z)
    (hr : ∀ a b, r a b → ¬ spent a → ¬ spent' b) (hq : ∀ b c, q b c → ¬ spent'' c → ¬ spent' b) :
    EndAlike (fun a c => ∃ b, r a b ∧ ¬ spent' b ∧ q b c) spent spent'' x z where
  forth n hn := by
    obtain ⟨m, hm⟩ := h.forth n hn
    have hxy := hm m (Nat.le_refl m)
    have hy := hr _ _ hxy hn
    obtain ⟨k, hk⟩ := h'.forth m hy
    exact ⟨k, fun j hj => ⟨_, hxy, hy, hk j hj⟩⟩
  back n hn := by
    obtain ⟨m, hm⟩ := h'.back n hn
    have hyz := hm m (Nat.le_refl m)
    have hy := hq _ _ hyz hn
    obtain ⟨k, hk⟩ := h.back m hy
    exact ⟨k, fun j hj => ⟨_, hk j hj, hy, hyz⟩⟩

theorem succ (h : EndAlike r spent spent' (fun n => x (n + 1)) (fun n => y (n + 1)))
    (hx : spent (x 0)) (hy : spent' (y 0)) : EndAlike r spent spent' x y where
  forth n hn := by
    cases n with
    | zero => exact absurd hx hn
    | succ n =>
      obtain ⟨m, hm⟩ := h.forth n hn
      refine ⟨m + 1, fun k hk => ?_⟩
      obtain ⟨k, rfl⟩ : ∃ k', k = k' + 1 := ⟨k - 1, by omega⟩
      exact hm k (by omega)
  back n hn := by
    cases n with
    | zero => exact absurd hy hn
    | succ n =>
      obtain ⟨m, hm⟩ := h.back n hn
      refine ⟨m + 1, fun k hk => ?_⟩
      obtain ⟨k, rfl⟩ : ∃ k', k = k' + 1 := ⟨k - 1, by omega⟩
      exact hm k (by omega)

end EndAlike

/-- A computation stopped for want of fuel. -/
def RanOut {α : Type} (a : EStateM.Result Halt Store α) : Prop := ∃ s, a = .error .outOfFuel s

def andThen {α β : Type} (f : α → Exec β) :
    EStateM.Result Halt Store α → EStateM.Result Halt Store β
  | .ok a s => f a s
  | .error e s => .error e s

theorem bind_run {α β : Type} (x : Exec α) (f : α → Exec β) (s : Store) :
    (x >>= f) s = andThen f (x s) := by
  cases hx : x s with
  | ok a t => exact bind_ok hx
  | error e t => exact bind_error hx

theorem RanOut.andThen {α β : Type} (f : α → Exec β) {a : EStateM.Result Halt Store α}
    (h : RanOut a) : RanOut (andThen f a) := by
  obtain ⟨s, rfl⟩ := h
  exact ⟨s, rfl⟩

/-- Two computations that follow each other both run out of fuel or end alike. -/
theorem Likeness.Alike.both {α : Type} {p : α → Prop}
    {code : LoadedCode → LoadedCode → Prop} {observers : List Observer → List Observer → Prop}
    {x : Exec α} {s t : Store} (h : (loose code observers).Alike s t)
    (hx : (loose code observers).Agree p x x)
    (hx' : (loose (fun c d => code d c) (fun o o' => observers o' o)).Agree p x x) :
    RanOut (x s) ∧ RanOut (x t) ∨
      (∃ a u v, x s = .ok a u ∧ x t = .ok a v ∧ p a ∧ (loose code observers).Alike u v) ∨
      ∃ e u v, x s = .error e u ∧ x t = .error e v ∧ (loose code observers).Alike u v := by
  have hst := hx h
  have hts := hx' h.flip
  generalize x s = a at hst hts ⊢
  generalize x t = b at hst hts ⊢
  cases hst with
  | ok hab _ ha =>
    obtain ⟨rfl, hp⟩ := hab
    exact .inr (.inl ⟨_, _, _, rfl, rfl, hp, ha⟩)
  | error _ _ ha => exact .inr (.inr ⟨_, _, _, rfl, rfl, ha⟩)
  | outOfFuel =>
    cases hts with
    | error _ _ ha => exact .inl ⟨⟨_, rfl⟩, ⟨_, rfl⟩⟩
    | outOfFuel => exact .inl ⟨⟨_, rfl⟩, ⟨_, rfl⟩⟩

/-- What is bound stays so when a body runs, and so do generators that have started. -/
theorem before_of_execute {n : Nat} {f : Frame} {s u : Store} {k : Completion × Frame}
    (h : execute n f s = .ok k u) : s.Before u := by
  have hself := (Likeness.same_steady.runsAt (Nat.le_refl n)).execute f trivial
    (Likeness.alike_refl s)
  rw [h] at hself
  cases hself with
  | ok _ hb _ => exact hb

theorem execute_succ {s : Store} (h : ¬ s.limit < s.depth + 1) (n : Nat) (f : Frame) :
    execute (n + 1) f s = andThen leaveFrame (runFrame n f (s.entered f)) := by
  obtain ⟨r, u, hrun⟩ := runFrame_total n f (s.entered f)
  rw [execute_run h hrun, hrun]
  rfl

end Lexiscope.Machine
