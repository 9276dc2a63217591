import Lexiscope.Proofs.Capture.InstrumentedRun
import Lexiscope.Proofs.Capture.SameEffects
import Lexiscope.Proofs.Machine.Endings
/-!
# Bodies that are watched

A body runs under an observer that takes down its local names, and the instrumented body runs
without one. Both executions end alike.
-/

namespace Lexiscope.Capture

open Code (Marker)
open Machine Machine.Likeness

/-- Stores that differ in an observer in front, which watches a frame or still waits for one. -/
def watching (target : Origin) (frame : Option Nat) : Likeness :=
  loose (fun c d => c.object.qualname = d.object.qualname)
    fun _ o => ∃ locals rest, o = .capture true target frame locals :: rest

variable {target : Origin} {id : Nat}

theorem watching_lawful {frame : Option Nat} : (watching target frame).Lawful :=
  loose_lawful (fun _ => rfl) fun _ _ h => h

theorem tellAll_capture (s : Store) (moment : Moment) (f : Frame) (locals : Option NameMap)
    (rest : List Observer) :
    ∃ locals' rest',
      tellAll s moment f (.capture true target (some id) locals :: rest) =
        .capture true target (some id) locals' :: rest' := by
  cases moment with
  | exit =>
    by_cases hid : id = f.id
    · exact ⟨some (f.locals s), tellAll s .exit f rest, by simp [tellAll, Observer.told,
        Observer.forwards, hid]⟩
    · exact ⟨locals, tellAll s .exit f rest, by simp [tellAll, Observer.told,
        Observer.forwards, hid]⟩
  | enter | suspend | unwind => exact ⟨locals, _, rfl⟩

theorem watching_steady : (watching target (some id)).Steady := by
  refine loose_steady watching_lawful ?_
  intro moment f s t h
  obtain ⟨locals, rest, ho⟩ := h.observers
  rw [ho]
  exact tellAll_capture t moment f locals rest

def watched (target : Origin) (frame : Option Nat) : Likeness :=
  loose (fun c d => d.object.qualname = c.object.qualname)
    fun o _ => ∃ locals rest, o = .capture true target frame locals :: rest

theorem watched_steady : (watched target (some id)).Steady := by
  refine loose_steady (loose_lawful (fun _ => rfl) fun _ _ h => h.symm) ?_
  intro moment f s t h
  obtain ⟨locals, rest, ho⟩ := h.observers
  rw [ho]
  exact tellAll_capture s moment f locals rest

section Runs

variable {f : Frame} {n : Nat} {s t : Store} {r : Stopped}

theorem runFrame_watching (h : (watching target (some id)).Alike s t) {u : Store}
    (hrun : runFrame n f s = .ok r u) (hr : ¬ r.IsSpent) :
    ∃ v, runFrame n f t = .ok r v ∧ (watching target (some id)).Alike u v := by
  have hfollows := (watching_steady.runsAt (Nat.le_refl n)).runFrame f trivial h
  rw [hrun] at hfollows
  generalize runFrame n f t = y at hfollows
  cases hfollows with
  | ok hab _ ha => exact ⟨_, by rw [hab.1], ha⟩
  | spent hspent => exact absurd hspent hr

theorem runFrame_watched (h : (watching target (some id)).Alike s t) {v : Store}
    (hrun : runFrame n f t = .ok r v) (hr : ¬ r.IsSpent) :
    ∃ u, runFrame n f s = .ok r u ∧ (watching target (some id)).Alike u v := by
  have hfollows := (watched_steady.runsAt (Nat.le_refl n)).runFrame f trivial h.flip
  rw [hrun] at hfollows
  generalize runFrame n f s = y at hfollows
  cases hfollows with
  | ok hab _ ha => exact ⟨_, by rw [hab.1], ha.flip⟩
  | spent hspent => exact absurd hspent hr

end Runs

/-- A value was returned by a body that was watched, and beside its local names by the
instrumented body. -/
structure Captured (target : Origin) (marker : Marker) (names : NameMap) (w v : Value)
    (s t : Store) : Prop where
  value : ∃ id r, w = .tuple id [v, .dict r, .marker marker] ∧
    Probe.namesOf (s.dict r).entries = some names.entries
  nodup : names.keys.Nodup
  effects : SameEffects none s t
  observers : ∃ frame rest, t.observers = .capture true target frame (some names) :: rest

/-- How the execution of an instrumented body ended, and how that of the watched body did. -/
inductive BodyEnds (d : LoadedCode) (marker : Marker) (f : Frame) :
    EStateM.Result Halt Store (Completion × Frame) →
    EStateM.Result Halt Store (Completion × Frame) → Prop where
  | yielded {g v s t} : f.SameBody g → g.InRange →
    (watching f.code.id (some f.id)).Alike s t →
    BodyEnds d marker f (.ok (.yielded v, g.withCode d) s) (.ok (.yielded v, g) t)
  | returned {names w v g g' s t} : Captured f.code.id marker names w v s t →
    BodyEnds d marker f (.ok (.returned w, g') s) (.ok (.returned v, g) t)
  | error {e s t} : SameEffects none s t → BodyEnds d marker f (.error e s) (.error e t)

section Execution

variable {f : Frame} {d : LoadedCode} {marker : Marker} {frame : Option Nat} {s t : Store}

theorem alike_entered (h : (watching f.code.id frame).Alike s t)
    (hframe : frame = none ∨ frame = some f.id) :
    (watching f.code.id (some f.id)).Alike (s.entered (f.withCode d)) (t.entered f) := by
  obtain ⟨locals, rest, ho⟩ := h.observers
  have hdepth : t.depth = s.depth := by rw [h.rest]
  have hobservers : ∃ locals rest, (t.entered f).observers =
      .capture true f.code.id (some f.id) locals :: rest := by
    refine ⟨locals, tellAll { t with depth := t.depth + 1 } .enter f rest, ?_⟩
    change tellAll _ _ _ t.observers = _
    rw [ho]
    rcases hframe with rfl | rfl <;> simp [tellAll, Observer.told, Observer.forwards]
  obtain ⟨-, ha⟩ := h.change (f := fun u => { u with depth := u.depth + 1 }) (fun _ _ _ => rfl)
    (.of_eq rfl rfl) (loose_values _)
  exact ha.withObservers hobservers

theorem alike_left {r : Stopped} (h : (watching target (some id)).Alike s t)
    (o : List Observer) :
    (watching target (some id)).Alike { s with depth := s.depth - 1, observers := o }
      (t.left r) := by
  obtain ⟨locals, rest, ho⟩ := h.observers
  have hobservers : ∃ locals rest, (t.left r).observers =
      .capture true target (some id) locals :: rest := by
    change ∃ _ _, tellAll _ _ _ t.observers = _
    rw [ho]
    exact tellAll_capture t r.moment r.frame locals rest
  obtain ⟨-, ha⟩ := h.change (f := fun u => { u with depth := u.depth - 1 }) (fun _ _ _ => rfl)
    (.of_eq rfl rfl) (loose_values _)
  exact ha.withObservers hobservers

theorem nodup_locals (hf : f.classSpace = none) : (f.locals s).keys.Nodup := by
  unfold Frame.locals
  rw [hf]
  exact OrderedMap.nodup_keys_ofList _

/-- When the frame returns, the watcher takes down its local names. -/
theorem observers_left {g : Frame} {v : Value} (h : (watching target (some g.id)).Alike s t) :
    ∃ rest, (t.left ⟨g, .ok (.returned v)⟩).observers =
      .capture true target (some g.id) (some (g.locals s)) :: rest := by
  obtain ⟨locals, rest, ho⟩ := h.observers
  have hlocals : g.locals t = g.locals s := locals_alike (.refl g.code) h
  change ∃ _, tellAll _ _ _ t.observers = _
  rw [ho]
  exact ⟨_, by simp [tellAll, Observer.told, Observer.forwards, Stopped.moment, hlocals]; rfl⟩

theorem dict_snapshots {names : NameMap} {u : Store} (h : Snapshots names s u) :
    Probe.namesOf (u.dict ⟨s.dicts.size⟩).entries = some names.entries := by
  obtain ⟨entries, next, rfl, -, hnames⟩ := h
  rw [Store.dict, getD_push, if_pos rfl]
  exact hnames

theorem bodyEnds_left {r r' : Stopped} {u u' v : Store} (hspace : f.classSpace = none)
    (hbody : ∀ k, r.result = .ok k →
      f.SameBody r.frame ∧ ((∃ v, k = .yielded v) → r.frame.InRange))
    (hrewritten : Rewritten d marker r u r' u')
    (ha : (watching f.code.id (some f.id)).Alike u v) :
    BodyEnds d marker f (leaveFrame r' u') (leaveFrame r v) := by
  rw [leaveFrame_run, leaveFrame_run]
  cases hrewritten with
  | @yielded g x u =>
    obtain ⟨hsame, hrange⟩ := hbody _ rfl
    exact .yielded hsame (hrange ⟨x, rfl⟩) (alike_left ha _)
  | @returned g x u g' id u' hsnapshots =>
    obtain ⟨hsame, -⟩ := hbody _ rfl
    obtain ⟨entries, next, rfl, hnext, hnames⟩ := hsnapshots
    obtain ⟨rest, ho⟩ := observers_left (v := x) (hsame.id ▸ ha)
    have hleft : Snapshots (g.locals u) { u with depth := u.depth - 1 }
        { u with depth := u.depth - 1, dicts := u.dicts.push ⟨entries⟩, next } :=
      ⟨entries, next, rfl, hnext, hnames⟩
    have heffects : SameEffects none
        { u with depth := u.depth - 1, dicts := u.dicts.push ⟨entries⟩, next }
        (v.left ⟨g, .ok (.returned x)⟩) :=
      .of_snapshots (fun _ _ h => h) (alike_left ha u.observers) hleft
    have hdict := dict_snapshots hleft
    refine .returned ⟨⟨_, _, rfl, hdict⟩,
      nodup_locals (hsame.classSpace.trans hspace), heffects.withObservers _ _, _, rest, ho⟩
  | @error g g' e u u' hsnapshots =>
    refine .error ?_
    have halike := alike_left (r := ⟨g, .error e⟩) ha (u'.left ⟨g', .error e⟩).observers
    rcases hsnapshots with rfl | ⟨names, entries, next, rfl, hnext, hnames⟩
    · exact .of_alike (fun _ _ h => h) halike
    · exact .of_snapshots (fun _ _ h => h) halike ⟨entries, next, rfl, hnext, hnames⟩

/-- How the run of an instrumented body ended, and how that of the watched body did. -/
def RunEnds (d : LoadedCode) (marker : Marker) (f : Frame)
    (a b : EStateM.Result Halt Store Stopped) : Prop :=
  ∃ r' u' r u v, a = .ok r' u' ∧ b = .ok r v ∧ Rewritten d marker r u r' u' ∧
    (watching f.code.id (some f.id)).Alike u v ∧
    ∀ k, r.result = .ok k → f.SameBody r.frame ∧ ((∃ v, k = .yielded v) → r.frame.InRange)

def Exhausted (a : EStateM.Result Halt Store Stopped) : Prop := ∃ r s, a = .ok r s ∧ r.IsSpent

theorem not_exhausted {r : Stopped} {u : Store} :
    ¬ Exhausted (.ok r u) ↔ ¬ r.IsSpent := by
  refine not_congr ⟨?_, fun h => ⟨r, u, rfl, h⟩⟩
  rintro ⟨_, _, h, hs⟩
  cases h
  exact hs

theorem runFrame_endAlike (h : Instruments f.code d marker) (hc : f.code.object.Closed)
    (hf : f.InRange) (ha : (watching f.code.id (some f.id)).Alike s t) :
    EndAlike (RunEnds d marker f) Exhausted Exhausted (fun n => runFrame n (f.withCode d) s)
      (fun n => runFrame n f t) := by
  constructor
  · intro n hn
    obtain ⟨r', u', hr'⟩ := runFrame_total n (f.withCode d) s
    simp only [hr', not_exhausted] at hn ⊢
    obtain ⟨r, u, hr, hspent⟩ := runFrame_of_rewritten h hc hf hr' hn
    obtain ⟨r'', u'', hr'', hrewritten⟩ := runFrame_rewritten h hc hf hr hspent
    have hsame := (runFrame_mono (m := 0 + n + 4) (by omega) hr' hn).symm.trans (hr'' 0)
    cases hsame
    obtain ⟨v, hv, ha'⟩ := runFrame_watching ha hr hspent
    refine ⟨n, fun k hk => ⟨r', u', r, u, v, rfl, runFrame_mono hk hv hspent, hrewritten, ha', ?_⟩⟩
    exact fun k => sameBody_of_runFrame hc hr
  · intro n hn
    obtain ⟨r, v, hv⟩ := runFrame_total n f t
    simp only [hv, not_exhausted] at hn ⊢
    obtain ⟨u, hr, ha'⟩ := runFrame_watched ha hv hn
    obtain ⟨r', u', hr', hrewritten⟩ := runFrame_rewritten h hc hf hr hn
    refine ⟨n + 4, fun k hk => ⟨r', u', r, u, v, ?_, rfl, hrewritten, ha', ?_⟩⟩
    · obtain ⟨j, rfl⟩ : ∃ j, k = j + n + 4 := ⟨k - (n + 4), by omega⟩
      exact hr' j
    · exact fun k => sameBody_of_runFrame hc hr

theorem execute_endAlike (h : Instruments f.code d marker) (hc : f.code.object.Closed)
    (hf : f.InRange) (hspace : f.classSpace = none)
    (ha : (watching f.code.id frame).Alike s t) (hframe : frame = none ∨ frame = some f.id) :
    EndAlike (BodyEnds d marker f) RanOut RanOut (fun n => execute n (f.withCode d) s)
      (fun n => execute n f t) := by
  refine .succ ?_ ⟨s, rfl⟩ ⟨t, rfl⟩
  have hlimit : t.limit = s.limit := by rw [ha.rest]
  have hdepth : t.depth = s.depth := by rw [ha.rest]
  by_cases hfull : s.limit < s.depth + 1
  · simp only [execute_full hfull, execute_full (s := t) (by omega), hlimit]
    exact .const (.error (.of_alike (fun _ _ h => h) ha))
  · simp only [execute_succ hfull, execute_succ (s := t) (by omega)]
    have hspent : ∀ a, Exhausted a → RanOut (andThen leaveFrame a) := by
      rintro _ ⟨r, u, rfl, hr⟩
      refine ⟨u.left r, ?_⟩
      rw [andThen, leaveFrame_run, show r.result = _ from hr]
    refine (runFrame_endAlike h hc hf (alike_entered ha hframe)).map hspent hspent ?_
    rintro _ _ ⟨r', u', r, u, v, rfl, rfl, hrewritten, ha', hbody⟩
    exact bodyEnds_left hspace hbody hrewritten ha'

end Execution

end Lexiscope.Capture
