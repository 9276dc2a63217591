import Lexiscope.Proofs.Capture.Readiness
/-!
# Bodies that are watched and bodies that are not

An observer in front of the others makes no difference to the frames that run under it. When the body
of a generator goes on under one, it ends as it would do without, and the observer has the local names
with which the body returns.
-/

namespace Lexiscope.Capture

open Code (Marker)
open Machine Machine.Likeness

/-- How the execution of a body that is watched ended, and how that of the body by itself did. -/
inductive WatchEnds (f : Frame) : EStateM.Result Halt Store (Completion × Frame) →
    EStateM.Result Halt Store (Completion × Frame) → Prop where
  | yielded {v g s t} : f.SameBody g → (watching f.code.id (some f.id)).Alike t s →
    WatchEnds f (.ok (.yielded v, g) s) (.ok (.yielded v, g) t)
  | returned {v g s t rest} :
    s.observers = .capture true f.code.id (some f.id) (some (g.locals t)) :: rest →
    WatchEnds f (.ok (.returned v, g) s) (.ok (.returned v, g) t)
  | error {e s t} : WatchEnds f (.error e s) (.error e t)

section Execution

variable {f : Frame} {frame : Option Nat} {s t : Store}

/-- How the run of a frame that is watched ended, and how that of the frame by itself did. -/
def RunsWatched (f : Frame) (a b : EStateM.Result Halt Store Stopped) : Prop :=
  ∃ r u v, a = .ok r u ∧ b = .ok r v ∧ (watching f.code.id (some f.id)).Alike v u ∧
    ∀ k, r.result = .ok k → f.SameBody r.frame

theorem runFrame_watchedAlike (hc : f.code.object.Closed)
    (ha : (watching f.code.id (some f.id)).Alike t s) :
    EndAlike (RunsWatched f) Exhausted Exhausted (fun n => runFrame n f s)
      (fun n => runFrame n f t) := by
  constructor
  · intro n hn
    obtain ⟨r, u, hr⟩ := runFrame_total n f s
    rw [hr, not_exhausted] at hn
    obtain ⟨v, hv, ha'⟩ := runFrame_watched ha hr hn
    refine ⟨n, fun k hk => ⟨r, u, v, hr, runFrame_mono hk hv hn, ha', fun k hk => ?_⟩⟩
    exact (sameBody_of_runFrame hc hr hk).1
  · intro n hn
    obtain ⟨r, v, hv⟩ := runFrame_total n f t
    rw [hv, not_exhausted] at hn
    obtain ⟨u, hr, ha'⟩ := runFrame_watching ha hv hn
    refine ⟨n, fun k hk => ⟨r, u, v, runFrame_mono hk hr hn, hv, ha', fun k hk => ?_⟩⟩
    exact (sameBody_of_runFrame hc hv hk).1

theorem watchEnds_left {r : Stopped} {u v : Store}
    (hbody : ∀ k, r.result = .ok k → f.SameBody r.frame)
    (ha : (watching f.code.id (some f.id)).Alike v u) :
    WatchEnds f (leaveFrame r u) (leaveFrame r v) := by
  rw [leaveFrame_run, leaveFrame_run]
  obtain ⟨g, result⟩ := r
  cases result with
  | error e => exact .error
  | ok k =>
    have hsame : f.SameBody g := hbody k rfl
    cases k with
    | yielded x => exact .yielded hsame (alike_left ha _)
    | returned x =>
      obtain ⟨rest, ho⟩ := observers_left (v := x) (g := g) (hsame.id ▸ ha)
      exact .returned (hsame.id ▸ ho)

theorem execute_watchedAlike (hc : f.code.object.Closed)
    (ha : (watching f.code.id frame).Alike t s) (hframe : frame = none ∨ frame = some f.id) :
    EndAlike (WatchEnds f) RanOut RanOut (fun n => execute n f s) (fun n => execute n f t) := by
  refine .succ ?_ ⟨s, rfl⟩ ⟨t, rfl⟩
  have hlimit : s.limit = t.limit := by rw [ha.rest]
  have hdepth : s.depth = t.depth := by rw [ha.rest]
  by_cases hfull : t.limit < t.depth + 1
  · simp only [execute_full hfull, execute_full (s := s) (by omega), hlimit]
    exact .const .error
  · simp only [execute_succ hfull, execute_succ (s := s) (by omega)]
    have hspent : ∀ a, Exhausted a → RanOut (andThen leaveFrame a) := by
      rintro _ ⟨r, u, rfl, hr⟩
      refine ⟨u.left r, ?_⟩
      rw [andThen, leaveFrame_run, show r.result = _ from hr]
    refine (runFrame_watchedAlike hc (alike_entered ha hframe)).map hspent hspent ?_
    rintro _ _ ⟨r, u, v, rfl, rfl, ha', hbody⟩
    exact watchEnds_left hbody ha'

end Execution

end Lexiscope.Capture
