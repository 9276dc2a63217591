import Lexiscope.Proofs.Machine.Likeness
import Lexiscope.Proofs.Machine.Turn
/-!
# Outcomes that are values

A frame that stops, and an attempt that failed, are values of the machine and no halts. Such a
computation follows another one unless its value says that the fuel was used up.
-/

namespace Lexiscope.Machine

open Exec

/-- The frame stopped for want of fuel. -/
def Stopped.IsSpent (r : Stopped) : Prop := r.result = .error .outOfFuel

def Turn.IsSpent : Turn → Prop
  | .goes _ => False
  | .stops r => r.IsSpent

namespace Likeness

variable (L : Likeness)

/-- How a computation that does not halt ended is followed by how another one did: with related
values in stores that are alike. A spent value is followed by all. -/
inductive Tried {α β : Type} (spent : α → Prop) (r : α → β → Prop) (start : Store) :
    EStateM.Result Halt Store α → EStateM.Result Halt Store β → Prop where
  | ok {a b s t} : r a b → start.Before s → L.Alike s t →
    Tried spent r start (.ok a s) (.ok b t)
  | spent {a s e} : spent a → Tried spent r start (.ok a s) e

/-- From stores that are alike, the second computation follows the first. Neither halts. -/
def Tries {α β : Type} (spent : α → Prop) (r : α → β → Prop) (x : Exec α) (y : Exec β) :
    Prop :=
  ∀ ⦃s t⦄, L.Alike s t → L.Tried spent r s (x s) (y t)

/-- Outcomes with related values, or the same halt. -/
inductive SameOutcome {α β : Type} (r : α → β → Prop) : Except Halt α → Except Halt β → Prop
  | ok {a b} : r a b → SameOutcome r (.ok a) (.ok b)
  | error {h} : L.halt h → SameOutcome r (.error h) (.error h)

variable {L} {α β γ δ : Type} {r : α → β → Prop} {q : γ → δ → Prop} {spent : α → Prop}
  {spent' : γ → Prop}

theorem Tried.after {start mid : Store} {a : EStateM.Result Halt Store α}
    {b : EStateM.Result Halt Store β} (hs : start.Before mid) (h : L.Tried spent r mid a b) :
    L.Tried spent r start a b := by
  cases h with
  | ok hr hb ha => exact .ok hr (hs.trans hb) ha
  | spent hx => exact .spent hx

theorem tries_pure {a : α} {b : β} (h : r a b) : L.Tries spent r (pure a) (pure b) :=
  fun s _ hst => .ok h (.refl s) hst

theorem tries_attempt {x : Exec α} {y : Exec β} (h : L.Follows r x y) :
    L.Tries (· = .error .outOfFuel) (L.SameOutcome r) (attempt x) (attempt y) := by
  intro s t hst
  have hxy := h hst
  unfold attempt
  revert hxy
  generalize x s = a
  generalize y t = b
  intro hxy
  cases hxy with
  | ok hr hb ha => exact .ok (.ok hr) hb ha
  | error hh hb ha => exact .ok (.error hh) hb ha
  | outOfFuel => exact .spent rfl

/-- Goes on after values that are related. What comes after a spent value is spent. -/
theorem Tries.bind {x : Exec α} {y : Exec β} {f : α → Exec γ} {g : β → Exec δ}
    (hx : L.Tries spent r x y) (hf : ∀ a b, r a b → L.Tries spent' q (f a) (g b))
    (hspent : ∀ a s, spent a → ∃ c u, f a s = .ok c u ∧ spent' c) :
    L.Tries spent' q (x >>= f) (y >>= g) := by
  intro s t hst
  have hxy := hx hst
  cases hxs : x s with
  | error e u =>
    rw [hxs] at hxy
    cases hxy
  | ok a u =>
    rw [hxs] at hxy
    rw [bind_ok hxs]
    generalize hyt : y t = b at hxy
    cases hxy with
    | ok hr hb ha =>
      rw [bind_ok hyt]
      exact (hf _ _ hr ha).after hb
    | spent ha =>
      obtain ⟨c, v, hc, hcs⟩ := hspent a u ha
      rw [hc]
      exact .spent hcs

theorem Tries.settle {x : Exec α} {y : Exec β} {f : α → Exec γ} {g : β → Exec δ}
    (hx : L.Tries spent r x y) (hf : ∀ a b, r a b → L.Follows q (f a) (g b))
    (hspent : ∀ a s, spent a → ∃ u, f a s = .error .outOfFuel u) :
    L.Follows q (x >>= f) (y >>= g) := by
  intro s t hst
  have hxy := hx hst
  cases hxs : x s with
  | error e u =>
    rw [hxs] at hxy
    cases hxy
  | ok a u =>
    rw [hxs] at hxy
    rw [bind_ok hxs]
    generalize hyt : y t = b at hxy
    cases hxy with
    | ok hr hb ha =>
      rw [bind_ok hyt]
      exact (hf _ _ hr ha).after hb
    | spent ha =>
      obtain ⟨v, hv⟩ := hspent a u ha
      rw [hv]
      exact .outOfFuel

theorem follows_settle {a : Except Halt α} {b : Except Halt β} (h : L.SameOutcome r a b) :
    L.Follows r (settle a) (settle b) := by
  cases h with
  | ok hr => exact follows_pure hr
  | error hh => exact follows_throw hh

theorem tries_attempted {x : Exec α} {y : Exec β} {f : Except Halt α → Exec γ}
    {g : Except Halt β → Exec δ} (hx : L.Follows r x y)
    (hok : ∀ a b, r a b → L.Tries spent' q (f (.ok a)) (g (.ok b)))
    (herror : ∀ h, L.halt h → L.Tries spent' q (f (.error h)) (g (.error h)))
    (hspent : ∀ s, ∃ c u, f (.error .outOfFuel) s = .ok c u ∧ spent' c) :
    L.Tries spent' q (attempt x >>= f) (attempt y >>= g) := by
  refine (tries_attempt hx).bind (fun a b hab => ?_) ?_
  · cases hab with
    | ok hr => exact hok _ _ hr
    | error hh => exact herror _ hh
  · rintro a s rfl
    exact hspent s

end Likeness

end Lexiscope.Machine
