import Lexiscope.Proofs.Capture.Mechanisms
/-!
# Streams that are drained

A stream that is over gives no more values and runs nothing. To drain one is to draw from it until it is
over: it comes to the same scope, or to the same error.
-/

namespace Lexiscope.Capture

open Machine Machine.Likeness

section Draining

variable {g g' h k : Stream} {s t u : Store} {i : Item} {items : List Item} {n m : Nat} {e : CaptureError}
  {view : View} {vs : List Value}

theorem eq_of_ofHalt {e : Halt} (h : CaptureError.ofHalt e = .body .outOfFuel) : e = .outOfFuel := by
  unfold CaptureError.ofHalt at h
  split at h
  · split at h <;> cases h
  · cases h
    rfl

theorem resume_mono {r : GeneratorRef} (hnm : n ≤ m) (h : ¬ RanOut (resume n r s)) :
    resume m r s = resume n r s := by
  have hfollows := (same_steady.runsAt hnm).resume r
  cases hn : resume n r s with
  | ok k t =>
    obtain ⟨_, hm, rfl, -⟩ := hfollows.ok_same hn
    exact hm
  | error e t =>
    refine hfollows.error_same hn ?_
    rintro rfl
    exact h ⟨t, hn⟩

theorem next_mono (hnm : n ≤ m) (h : g.next n s = .ok (i, k) t)
    (hi : i ≠ .failed (.body .outOfFuel)) : g.next m s = .ok (i, k) t := by
  cases hg : g.isFinished with
  | true =>
    rw [next_finished hg] at h ⊢
    exact h
  | false =>
    have hrun : ¬ RanOut (resume n g.generator (g.probe.enter true s)) := by
      rintro ⟨u, hspent⟩
      rw [next_run hg, hspent] at h
      cases h
      exact hi rfl
    rw [next_run hg] at h ⊢
    rwa [resume_mono hnm hrun]

theorem next_total (hg : g.isFinished = false) (n : Nat) (s : Store) :
    ∃ i k t, g.next n s = .ok (i, k) t := by
  rw [next_run hg]
  cases resume n g.generator (g.probe.enter true s) with
  | error e u => exact ⟨_, _, _, rfl⟩
  | ok c u => cases c <;> exact ⟨_, _, _, rfl⟩

/-- What an unfinished stream comes to: it goes on, has a scope, or is over without one. -/
theorem next_unfinished (hg : g.isFinished = false) (h : g.next n s = .ok (i, k) t) :
    (∃ v, i = .value v ∧ k.isFinished = false ∧ k.view = g.view) ∨
      (i = .ended ∧ k.isFinished = true ∧ ∃ view, k.view = some view) ∨
      ∃ e, i = .failed e ∧ k.isFinished = true ∧ k.view = g.view := by
  rw [next_run hg] at h
  generalize resume n g.generator (g.probe.enter true s) = a at h
  cases a with
  | error e u =>
    cases h
    exact .inr (.inr ⟨_, rfl, rfl, rfl⟩)
  | ok c u =>
    cases c with
    | yielded v =>
      cases h
      exact .inl ⟨v, rfl, hg, rfl⟩
    | returned v =>
      simp only [drawn, Stream.ending] at h
      split at h
      · cases h
        exact .inr (.inl ⟨rfl, rfl, _, rfl⟩)
      · cases h
        exact .inr (.inr ⟨_, rfl, rfl, rfl⟩)

theorem draws_finished (hg : g.isFinished = true) (h : Draws g s items k u) :
    k = g ∧ u = s ∧ items = List.replicate items.length .ended := by
  induction h with
  | none => exact ⟨rfl, rfl, rfl⟩
  | next hnext _ _ ih =>
    rw [next_finished hg] at hnext
    cases hnext
    obtain ⟨rfl, rfl, hitems⟩ := ih hg
    refine ⟨rfl, rfl, ?_⟩
    rw [List.length_cons, List.replicate_succ, ← hitems]

theorem Draws.append {items' : List Item} (h : Draws g s items k t) (h' : Draws k t items' g' u) :
    Draws g s (items ++ items') g' u := by
  induction h with
  | none => exact h'
  | next hnext hi _ ih => exact .next hnext hi (ih h')

/-- Draining a stream comes to this, if there is enough fuel. -/
def Stream.Drains (g : Stream) (s : Store) (a : EStateM.Result CaptureError Store View) : Prop :=
  ∃ m, ∀ n, m ≤ n → g.drain n n s = a

theorem drain_succ (h : g.next n s = .ok (i, k) t) (m : Nat) : g.drain n (m + 1) s =
    match i with
    | .value _ => k.drain n m t
    | .failed e => .error e t
    | .ended => Engine.settle (k.view.elim (.error (.malformed k.seed.function)) .ok) t := by
  have hnext : Engine.ofExec (g.next n) s = .ok (i, k) t := by
    unfold Engine.ofExec
    rw [h]
  change (Engine.ofExec (g.next n) >>= _) s = _
  rw [engine_bind_ok hnext]
  cases i <;> rfl

/-- A stream is drained to what it is drained to after values have been drawn from it. -/
theorem drain_of_draws {a : EStateM.Result CaptureError Store View}
    (h : Draws g s (vs.map .value) k t)
    (hk : ∃ m, ∀ n l, m ≤ n → m ≤ l → k.drain n l t = a) :
    ∃ m, ∀ n l, m ≤ n → m ≤ l → g.drain n l s = a := by
  induction vs generalizing g s with
  | nil =>
    cases h
    exact hk
  | cons v vs ih =>
    cases h with
    | @next n _ _ _ h t' _ _ _ hnext hi hrest =>
      obtain ⟨m, hm⟩ := ih hrest
      refine ⟨max n m + 1, fun j l hj hl => ?_⟩
      obtain ⟨l, rfl⟩ : ∃ l', l = l' + 1 := ⟨l - 1, by omega⟩
      rw [drain_succ (next_mono (m := j) (by omega) hnext hi)]
      exact hm j l (by omega) (by omega)

theorem draws_last (h : Draws g s (vs.map .value ++ [i]) k u) :
    ∃ h t n, Draws g s (vs.map .value) h t ∧ h.next n t = .ok (i, k) u ∧
      i ≠ .failed (.body .outOfFuel) := by
  induction vs generalizing g s with
  | nil =>
    cases h with
    | next hnext hi hrest =>
      cases hrest
      exact ⟨g, s, _, .none, hnext, hi⟩
  | cons v vs ih =>
    cases h with
    | next hnext hi hrest =>
      obtain ⟨h, t, n, hdraws, hlast, hi'⟩ := ih hrest
      exact ⟨h, t, n, .next hnext hi hdraws, hlast, hi'⟩

/-- When values are drawn until the end, draining comes to the scope that there is then. -/
theorem drains_of_ended (h : Draws g s (vs.map .value ++ [.ended]) k u) (hview : k.view = some view) :
    g.Drains s (.ok view u) := by
  obtain ⟨h, t, n, hdraws, hlast, hi⟩ := draws_last h
  have hend : ∃ m, ∀ j l, m ≤ j → m ≤ l → h.drain j l t = .ok view u := by
    refine ⟨n + 1, fun j l hj hl => ?_⟩
    obtain ⟨l, rfl⟩ : ∃ l', l = l' + 1 := ⟨l - 1, by omega⟩
    rw [drain_succ (next_mono (m := j) (by omega) hlast hi), hview]
    rfl
  obtain ⟨m, hm⟩ := drain_of_draws hdraws hend
  exact ⟨m, fun j hj => hm j j hj hj⟩

theorem drains_of_failed (h : Draws g s (vs.map .value ++ [.failed e]) k u) :
    g.Drains s (.error e u) := by
  obtain ⟨h, t, n, hdraws, hlast, hi⟩ := draws_last h
  have hend : ∃ m, ∀ j l, m ≤ j → m ≤ l → h.drain j l t = .error e u := by
    refine ⟨n + 1, fun j l hj hl => ?_⟩
    obtain ⟨l, rfl⟩ : ∃ l', l = l' + 1 := ⟨l - 1, by omega⟩
    rw [drain_succ (next_mono (m := j) (by omega) hlast hi)]
  obtain ⟨m, hm⟩ := drain_of_draws hdraws hend
  exact ⟨m, fun j hj => hm j j hj hj⟩

theorem draws_of_drain (hg : g.isFinished = false) {a : EStateM.Result CaptureError Store View}
    (h : g.drain n m s = a) (ha : ∀ u, a ≠ .error (.body .outOfFuel) u) :
    ∃ (vs : List Value) (k : Stream) (u : Store), (∃ view, a = .ok view u ∧ k.view = some view ∧
        Draws g s (vs.map .value ++ [.ended]) k u) ∨
      ∃ e, a = .error e u ∧ Draws g s (vs.map .value ++ [.failed e]) k u := by
  induction m generalizing g s with
  | zero =>
    refine absurd h.symm ?_
    exact ha s
  | succ m ih =>
    obtain ⟨i, k, t, hnext⟩ := next_total hg n s
    rw [drain_succ hnext] at h
    rcases next_unfinished hg hnext with ⟨v, rfl, hk, -⟩ | ⟨rfl, -, view, hview⟩ | ⟨e, rfl, -, -⟩
    · obtain ⟨vs, k', u, hends⟩ := ih hk h
      refine ⟨v :: vs, k', u, hends.imp ?_ ?_⟩
      · rintro ⟨view, rfl, hview, hdraws⟩
        exact ⟨view, rfl, hview, .next hnext (by simp) hdraws⟩
      · rintro ⟨e, rfl, hdraws⟩
        exact ⟨e, rfl, .next hnext (by simp) hdraws⟩
    · rw [hview] at h
      exact ⟨[], k, t, .inl ⟨view, h.symm, hview, .next hnext (by simp) .none⟩⟩
    · have he : Item.failed e ≠ .failed (.body .outOfFuel) := by
        rintro ⟨⟩
        exact ha t h.symm
      exact ⟨[], k, t, .inr ⟨e, h.symm, .next hnext he .none⟩⟩

/-- Draining an unfinished stream comes to a scope if drawing its values one by one does. -/
theorem drains_scope_iff (hg : g.isFinished = false) : g.Drains s (.ok view u) ↔
    ∃ (vs : List Value) (k : Stream), Draws g s (vs.map .value ++ [.ended]) k u ∧
      k.view = some view := by
  constructor
  · rintro ⟨m, hm⟩
    have hdrain := hm m (Nat.le_refl m)
    obtain ⟨vs, k, u', hends⟩ := draws_of_drain hg hdrain fun _ => nofun
    rcases hends with ⟨view', hview, hk, hdraws⟩ | ⟨e, he, -⟩
    · cases hview
      exact ⟨vs, k, hdraws, hk⟩
    · cases he
  · rintro ⟨vs, k, hdraws, hk⟩
    exact drains_of_ended hdraws hk

theorem drains_error_iff (hg : g.isFinished = false) (he : e ≠ .body .outOfFuel) :
    g.Drains s (.error e u) ↔
      ∃ (vs : List Value) (k : Stream), Draws g s (vs.map .value ++ [.failed e]) k u := by
  constructor
  · rintro ⟨m, hm⟩
    have hdrain := hm m (Nat.le_refl m)
    have hspent : ∀ u', EStateM.Result.error (α := View) e u ≠ .error (.body .outOfFuel) u' := by
      rintro u' ⟨⟩
      exact he rfl
    obtain ⟨vs, k, u', hends⟩ := draws_of_drain hg hdrain hspent
    rcases hends with ⟨view, hview, -⟩ | ⟨e', he', hdraws⟩
    · cases hview
    · cases he'
      exact ⟨vs, k, hdraws⟩
  · rintro ⟨vs, k, hdraws⟩
    exact drains_of_failed hdraws

end Draining

end Lexiscope.Capture
