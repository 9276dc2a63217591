import Mathlib.Data.List.Induction
import Lexiscope.Proofs.Capture.Hosted
/-!
# Captures that nobody sees

A capture puts its observer in front for one step, and takes it away after that, however the step
ended. Meanwhile it and the others are told of the same moments; it takes down the names of the
frame that it watches where that frame returns, and it makes no difference to anything else.
-/

namespace Lexiscope.Capture

open Machine Machine.Likeness

/-- A frame that runs the code has been entered. -/
def enters (target : Origin) (n : Notice) : Bool :=
  n.moment == .enter && n.frame.code.id == target

/-- What an observer watches and has taken down, after it was told: the first frame that was entered
with the code, unless it watched one before, and the names of this frame as they were when it
returned. -/
structure Captures (target : Origin) (frame : Option Nat) (locals : Option NameMap)
    (ns : List Notice) (frame' : Option Nat) (locals' : Option NameMap) : Prop where
  watched : frame' = frame.or ((ns.find? (enters target)).map (·.frame.id))
  taken : ∀ n ∈ ns, n.moment = .exit → frame' = some n.frame.id →
    locals' = some (n.frame.locals n.store)
  /-- Nothing is taken down if the frame does not return. -/
  kept : (∀ n ∈ ns, n.moment = .exit → frame' ≠ some n.frame.id) → locals' = locals

section Orderly

variable {told : List Report} {m : Moment} {id : Nat}

/-- A frame that has returned comes to no moment any more. -/
theorem lastTold_exit (h : Orderly told) (hexit : (.exit, id) ∈ told) :
    lastTold told id = some .exit := by
  induction h with
  | nil => cases hexit
  | @snoc told m other _ hm ih =>
    by_cases hother : other = id
    · subst hother
      rcases List.mem_append.1 hexit with hexit | hexit
      · rw [ih hexit] at hm
        exact hm.elim
      · cases List.mem_singleton.1 hexit
        exact lastTold_snoc_self
    · rw [lastTold_snoc_of_ne hother]
      rcases List.mem_append.1 hexit with hexit | hexit
      · exact ih hexit
      · cases List.mem_singleton.1 hexit
        exact absurd rfl hother

theorem orderly_snoc (h : Orderly (told ++ [(m, id)])) : Orderly told ∧ (.exit, id) ∉ told := by
  generalize hall : told ++ [(m, id)] = all at h
  cases h with
  | nil => simp at hall
  | snoc htold hm =>
    obtain ⟨rfl, hlast⟩ := List.append_inj' hall rfl
    cases hlast
    refine ⟨htold, fun hexit => ?_⟩
    rw [lastTold_exit htold hexit] at hm
    exact hm.elim

end Orderly

section Watching

variable {target : Origin} {frame frame' : Option Nat} {locals locals' : Option NameMap}
  {ns : List Notice} {n : Notice}

theorem notMem_exit (h : (Moment.exit, n.frame.id) ∉ reports ns) {m : Notice} (hm : m ∈ ns)
    (hexit : m.moment = .exit) : m.frame.id ≠ n.frame.id := by
  intro heq
  apply h
  rw [← heq, ← hexit]
  exact List.mem_map_of_mem hm

theorem Captures.watched_snoc (h : Captures target frame locals ns frame' locals') (n : Notice) :
    frame.or (((ns ++ [n]).find? (enters target)).map (·.frame.id)) =
      frame'.or (if enters target n then some n.frame.id else none) := by
  rw [h.watched, List.find?_append, Option.or_assoc]
  congr 1
  cases ns.find? (enters target) with
  | some first => rfl
  | none =>
    cases hn : enters target n with
    | true => simp [hn]
    | false => simp [hn]

theorem Captures.watched_skip (h : Captures target frame locals ns frame' locals')
    (hn : enters target n = false) :
    frame' = frame.or (((ns ++ [n]).find? (enters target)).map (·.frame.id)) := by
  rw [h.watched_snoc n, hn]
  exact Option.or_none.symm

theorem Captures.kept_snoc (h : Captures target frame locals ns frame' locals')
    (hnone : ∀ m ∈ ns ++ [n], m.moment = .exit → frame' ≠ some m.frame.id) : locals' = locals :=
  h.kept fun m hm => hnone m (List.mem_append_left _ hm)

/-- A frame that is entered is watched if it runs the code and none is watched. -/
theorem Captures.enter (h : Captures target frame locals ns frame' locals')
    (hn : n.moment = .enter) (hleft : (.exit, n.frame.id) ∉ reports ns) :
    Captures target frame locals (ns ++ [n])
      (if frame'.isNone && n.frame.code.id == target then some n.frame.id else frame') locals' := by
  have hexits : ∀ m ∈ ns ++ [n], m.moment = .exit → m ∈ ns := by
    intro m hm hexit
    rcases List.mem_append.1 hm with hm | hm
    · exact hm
    · rw [List.mem_singleton.1 hm, hn] at hexit
      cases hexit
  have hwatched := h.watched_snoc n
  have hstarts : enters target n = (n.frame.code.id == target) := by simp [enters, hn]
  rw [hstarts] at hwatched
  cases frame' with
  | some id =>
    refine ⟨hwatched.symm, ?_, ?_⟩
    · intro m hm hexit hid
      exact h.taken m (hexits m hm hexit) hexit hid
    · exact h.kept_snoc
  | none =>
    refine ⟨hwatched.symm, ?_, fun _ => h.kept fun _ _ _ => (Option.some_ne_none _).symm⟩
    intro m hm hexit hid
    -- The frame that is entered has not returned before.
    have hne := notMem_exit hleft (hexits m hm hexit) hexit
    dsimp only [Option.isNone_none, Bool.true_and] at hid
    split at hid
    · exact absurd (Option.some.inj hid).symm hne
    · cases hid

theorem Captures.exit (h : Captures target frame locals ns frame' locals')
    (hn : n.moment = .exit) (hleft : (.exit, n.frame.id) ∉ reports ns) :
    Captures target frame locals (ns ++ [n]) frame'
      (if frame' == some n.frame.id then some (n.frame.locals n.store) else locals') := by
  have hstarts : enters target n = false := by simp [enters, hn]
  by_cases hframe : frame' = some n.frame.id
  · rw [if_pos (beq_iff_eq.2 hframe)]
    refine ⟨h.watched_skip hstarts, ?_, ?_⟩
    · intro m hm hexit hid
      rcases List.mem_append.1 hm with hm | hm
      · -- A frame does not return twice.
        have hsame : n.frame.id = m.frame.id := Option.some.inj (hframe.symm.trans hid)
        exact absurd hsame.symm (notMem_exit hleft hm hexit)
      · rw [List.mem_singleton.1 hm]
    · intro hnone
      exact absurd hframe (hnone n (by simp) hn)
  · rw [if_neg fun heq => hframe (beq_iff_eq.1 heq)]
    refine ⟨h.watched_skip hstarts, ?_, h.kept_snoc⟩
    intro m hm hexit hid
    rcases List.mem_append.1 hm with hm | hm
    · exact h.taken m hm hexit hid
    · rw [List.mem_singleton.1 hm] at hid
      exact absurd hid hframe

theorem Captures.other (h : Captures target frame locals ns frame' locals')
    (hn : n.moment = .suspend ∨ n.moment = .unwind) :
    Captures target frame locals (ns ++ [n]) frame' locals' := by
  have hstarts : enters target n = false := by rcases hn with hn | hn <;> simp [enters, hn]
  refine ⟨h.watched_skip hstarts, ?_, h.kept_snoc⟩
  intro m hm hexit hid
  rcases List.mem_append.1 hm with hm | hm
  · exact h.taken m hm hexit hid
  · rw [List.mem_singleton.1 hm] at hexit
    rcases hn with hn | hn <;> rw [hn] at hexit <;> cases hexit

/-- What the observer of a capture holds on to and has taken down after it was told. -/
theorem captures (horderly : Orderly (reports ns)) : ∃ frame' locals',
    (Observer.capture true target frame locals).toldEach ns = .capture true target frame' locals' ∧
    Captures target frame locals ns frame' locals' := by
  induction ns using List.reverseRecOn with
  | nil => exact ⟨frame, locals, rfl, by simp, by simp, fun _ => rfl⟩
  | append_singleton ns n ih =>
    rw [reports_append] at horderly
    obtain ⟨hbefore, hleft⟩ := orderly_snoc horderly
    obtain ⟨frame', locals', htold, hcaptures⟩ := ih hbefore
    rw [Observer.toldEach_append, htold]
    change ∃ _ _, (Observer.capture true target frame' locals').told _ _ _ = _ ∧ _
    unfold Observer.told
    cases hn : n.moment with
    | enter =>
      refine ⟨_, locals', ?_, hcaptures.enter hn hleft⟩
      dsimp only
      split <;> rfl
    | exit =>
      refine ⟨frame', _, ?_, hcaptures.exit hn hleft⟩
      dsimp only
      split <;> rfl
    | suspend => exact ⟨frame', locals', rfl, hcaptures.other (.inl hn)⟩
    | unwind => exact ⟨frame', locals', rfl, hcaptures.other (.inr hn)⟩

end Watching

section Steps

variable {α : Type} {step : Exec α} {s u : Store} {outcome : Except Halt α} {p : Probe}

theorem attempt_after (step : Exec α) (s : Store) :
    ∃ outcome, Exec.attempt step s = .ok outcome (step.after s) := by
  cases h : step s with
  | ok a u => exact ⟨.ok a, by rw [attempt_ok h, after_ok h]⟩
  | error e u => exact ⟨.error e, by rw [attempt_error h, after_error h]⟩

theorem during_attempt (h : Exec.attempt step (p.enter true s) = .ok outcome u) :
    p.during true step s = .ok (outcome, p.seen u) (p.leave u) := by
  rw [Probe.during_run]
  cases hstep : step (p.enter true s) with
  | ok a v =>
    rw [attempt_ok hstep] at h
    cases h
    rfl
  | error e v =>
    rw [attempt_error hstep] at h
    cases h
    rfl

/-- Without the observer in front the step ends in the same way, and so do the others. -/
theorem attempt_hidden (hstep : Hosted step) {o : Observer} (ho : o.forwards = true)
    (h : Exec.attempt step (s.under (o :: s.observers)) = .ok outcome u)
    (houtcome : outcome ≠ .error .outOfFuel) :
    Exec.attempt step s = .ok outcome (u.under u.observers.tail) := by
  have hself : (loose (· = ·) fun _ _ => True).Alike s s := (alike_refl s).withObservers trivial
  have hstart : (hearing (o :: s.observers) s.observers).Alike (s.under (o :: s.observers)) s :=
    hself.withObservers ⟨[], rfl, rfl⟩
  -- What came of both runs differs in the observers only, and these have been told the same.
  have hends : ∀ {v w}, (hearing (o :: s.observers) s.observers).Alike v w →
      w = v.under v.observers.tail := by
    intro v w hvw
    obtain ⟨ns, hv, hw⟩ := hvw.observers
    rw [tellEach_cons, if_pos ho] at hv
    rw [under_eq_of_alike hvw, hw, hv]
    rfl
  have hsteps := agree_hosted hstep (o :: s.observers) s.observers hstart
  cases hx : step (s.under (o :: s.observers)) with
  | ok a v =>
    rw [attempt_ok hx] at h
    cases h
    rw [hx] at hsteps
    generalize hy : step s = y at hsteps
    cases hsteps with
    | ok hab _ hvw =>
      obtain ⟨rfl, -⟩ := hab
      rw [attempt_ok hy, hends hvw]
  | error e v =>
    rw [attempt_error hx] at h
    cases h
    rw [hx] at hsteps
    generalize hy : step s = y at hsteps
    cases hsteps with
    | error _ _ hvw => rw [attempt_error hy, hends hvw]
    | outOfFuel => exact absurd rfl houtcome

end Steps

def recursing : String := "def f(n) \x7b if n \x7b return f(n - 1) \x7d\n return n \x7d"

def recursingStore (c : Code.Object) : Store :=
  Stage.after ⟨60, .module ⟨.unit 0, .unit 0, c⟩ ⟨0⟩, watchedStore⟩

def recursingWrapper (c : Code.Object) : Option Wrapped :=
  match (recursingStore c).lookup ⟨0⟩ "f" with
  | some (.function f) =>
    match Wrapped.ofFunction f [] { mechanism := .trace } (recursingStore c) with
    | .ok w _ => some w
    | .error _ _ => none
  | _ => none

def innerCall (w : Wrapped) : Exec (Except Halt Value × Probe) :=
  w.start.2.around (w.body 50 [.int 2] [])

/-- The outermost call was captured, while another capture was around that. -/
def takesOutermost (c : Code.Object) (w : Wrapped) : Bool :=
  match (Probe.trace w.function.code.id none none).during true (innerCall w) (recursingStore c) with
  | .ok (.ok (.ok (.int r), .trace _ _ (some names)), .trace _ _ (some names')) _ =>
    match names.get? "n", names'.get? "n" with
    | some (.int n), some (.int m) => r == 0 && n == 2 && m == 2
    | _, _ => false
  | _ => false

end Lexiscope.Capture
