import Lexiscope.Proofs.Capture.Simulation
import Lexiscope.Proofs.Machine.Closed
/-!
# Runs of instrumented bodies

A run of a body in closed code and that of the instrumented body end alike: whatever ends the one
ends the other.
-/

namespace Lexiscope.Capture

open Code (Instr Object Marker)
open Machine Machine.Likeness

/-- How an instrumented body stopped, compared with the body itself. -/
inductive Rewritten (d : LoadedCode) (marker : Marker) :
    Stopped → Store → Stopped → Store → Prop where
  | yielded {g v u} : Rewritten d marker ⟨g, .ok (.yielded v)⟩ u
      ⟨g.withCode d, .ok (.yielded v)⟩ u
  | returned {g v u g' id u'} : Snapshots (g.locals u) u u' →
      Rewritten d marker ⟨g, .ok (.returned v)⟩ u
        ⟨g', .ok (.returned (.tuple id [v, .dict ⟨u.dicts.size⟩, .marker marker]))⟩ u'
  | error {g g' e u u'} : (u' = u ∨ ∃ names, Snapshots names u u') →
      Rewritten d marker ⟨g, .error e⟩ u ⟨g', .error e⟩ u'

section Runs

variable {f : Frame} {d : LoadedCode} {marker : Marker}

theorem turn_return (h : Instruments f.code d marker)
    (hi : f.code.object.instructions[f.pc]? = some .returnValue) {n : Nat} {s u : Store}
    {x : Turn} (hturn : turn n f s = .ok x u) :
    ∃ r r' u', x = .stops r ∧ ¬ r.IsSpent ∧
      (∀ m, runFrame (m + 5) (f.withCode d) s = .ok r' u') ∧ Rewritten d marker r u r' u' := by
  cases hs : f.stack with
  | nil =>
    rw [turn_error (step_underflow hi hs s)] at hturn
    cases hturn
    obtain ⟨g, t, hrun, hsnapshots⟩ := runFrame_tail_underflow h hs hi s
    refine ⟨_, ⟨g, _⟩, t, rfl, ?_, fun m => ?_, .error (.inr ⟨_, hsnapshots⟩)⟩
    · rintro ⟨⟩
    · rw [show m + 5 = m + 1 + 4 by omega]
      exact hrun (m + 1)
  | cons v rest =>
    rw [turn_ok (step_returns hi hs s)] at hturn
    cases hturn
    obtain ⟨g, id, t, hrun, hsnapshots⟩ := runFrame_tail h hs hi s
    refine ⟨_, _, t, rfl, ?_, hrun, .returned hsnapshots⟩
    rintro ⟨⟩

theorem tries_kept (h : Instruments f.code d marker) {i : Instr}
    (hi : f.code.object.instructions[f.pc]? = some i) (hne : i ≠ .returnValue) {n m : Nat}
    (hnm : n ≤ m) :
    same.Tries Turn.IsSpent (fun x y => y = x.withCode d ∧ same.Turns f.code x) (turn n f)
      (turn m (f.withCode d)) :=
  tries_turn same_steady.toLawful (same_steady.runsAt hnm) (follows_kept h hi hne)

theorem runFrame_rewritten (h : Instruments f.code d marker) (hc : f.code.object.Closed)
    (hf : f.InRange) {n : Nat} {s u : Store} {r : Stopped} (hrun : runFrame n f s = .ok r u)
    (hr : ¬ r.IsSpent) :
    ∃ r' u', (∀ m, runFrame (m + n + 4) (f.withCode d) s = .ok r' u') ∧
      Rewritten d marker r u r' u' := by
  induction n generalizing f s with
  | zero =>
    cases hrun
    exact absurd rfl hr
  | succ n ih =>
    obtain ⟨x, t, hturn⟩ := turn_total n f s
    have hi := Array.getElem?_eq_getElem hf
    -- A return leads to the tail. All other instructions are the same in both bodies.
    by_cases hreturn : f.code.object.instructions[f.pc] = .returnValue
    · rw [hreturn] at hi
      obtain ⟨r₀, r', u', rfl, -, hrun', hrewritten⟩ := turn_return h hi hturn
      rw [runFrame_stops hturn] at hrun
      cases hrun
      refine ⟨r', u', fun m => ?_, hrewritten⟩
      rw [show m + (n + 1) + 4 = m + n + 5 by omega]
      exact hrun' (m + n)
    · have hkept : ∀ m, n ≤ m → _ := fun m hm => tries_kept h hi hreturn hm
      cases x with
      | goes g =>
        rw [runFrame_goes hturn] at hrun
        obtain ⟨hbody, hg⟩ := inRange_of_goes hc hturn
        obtain ⟨r', u', hrun', hrewritten⟩ := ih (hbody.code ▸ h) (hbody.code ▸ hc) hg hrun
        refine ⟨r', u', fun m => ?_, hrewritten⟩
        obtain ⟨y, hy, rfl, -⟩ := (hkept (m + n + 4) (by omega)).ok_same hturn fun hs => hs
        rw [show m + (n + 1) + 4 = m + n + 4 + 1 by omega, runFrame_goes hy]
        exact hrun' m
      | stops r₀ =>
        rw [runFrame_stops hturn] at hrun
        cases hrun
        refine ⟨⟨r.frame.withCode d, r.result⟩, u, fun m => ?_, ?_⟩
        · obtain ⟨y, hy, rfl, -⟩ := (hkept (m + n + 4) (by omega)).ok_same hturn hr
          rw [show m + (n + 1) + 4 = m + n + 4 + 1 by omega]
          exact runFrame_stops hy
        · obtain ⟨g, e | ⟨v | v⟩⟩ := r
          · exact .error (.inl rfl)
          · exact absurd (returns_of_step (step_of_returned hturn)) (by rw [hi]; simpa using hreturn)
          · exact .yielded

/-- If the run of the instrumented body was not stopped for want of fuel, then neither is that of
the body. -/
theorem runFrame_of_rewritten (h : Instruments f.code d marker) (hc : f.code.object.Closed)
    (hf : f.InRange) {n : Nat} {s u' : Store} {r' : Stopped}
    (hrun : runFrame n (f.withCode d) s = .ok r' u') (hr : ¬ r'.IsSpent) :
    ∃ r u, runFrame n f s = .ok r u ∧ ¬ r.IsSpent := by
  induction n generalizing f s with
  | zero =>
    cases hrun
    exact absurd rfl hr
  | succ n ih =>
    have hi := Array.getElem?_eq_getElem hf
    by_cases hreturn : f.code.object.instructions[f.pc] = .returnValue
    · rw [hreturn] at hi
      obtain ⟨x, t, hturn⟩ := turn_total n f s
      obtain ⟨r, -, -, rfl, hspent, -, -⟩ := turn_return h hi hturn
      exact ⟨r, t, runFrame_stops hturn, hspent⟩
    · obtain ⟨y, t, hturn⟩ := turn_total n (f.withCode d) s
      -- The code is changed back: what the instrumented body does is done by the body.
      have hback : same.Follows (fun a b => b = a.withCode f.code ∧ same.Acts d a)
          (step (f.withCode d)) (step ((f.withCode d).withCode f.code)) := by
        refine loose_step (f := f.withCode d) same_steady.toLawful h.samePools.symm
          (h.kept hi hreturn) hi fun k hk => ?_
        rw [hk] at hi
        exact (h.constant hi).symm
      have hturns := tries_turn (f := f.withCode d) same_steady.toLawful
        (same_steady.runsAt (Nat.le_refl n)) hback
      cases y with
      | goes g =>
        rw [runFrame_goes hturn] at hrun
        obtain ⟨x, hx, rfl, hg⟩ := hturns.ok_same hturn fun hs => hs
        obtain ⟨-, hrange⟩ := inRange_of_goes hc hx
        have hself : (g.withCode f.code).withCode d = g := by
          rw [show d = g.code from hg.2.symm]
          rfl
        rw [← hself] at hrun
        obtain ⟨r, u, hrun', hspent⟩ := ih (f := g.withCode f.code) h hc hrange hrun
        exact ⟨r, u, (runFrame_goes hx).trans hrun', hspent⟩
      | stops r₀ =>
        rw [runFrame_stops hturn] at hrun
        cases hrun
        obtain ⟨x, hx, rfl, -⟩ := hturns.ok_same hturn hr
        exact ⟨_, _, runFrame_stops hx, hr⟩

end Runs

end Lexiscope.Capture
