import Lexiscope.Proofs.Machine.Recording
import Lexiscope.Proofs.Machine.Rules
import Lexiscope.Proofs.Machine.Stages
/-!
# What a recorder sees

A host runs one thing after the other, and may have a recorder installed while it does. Whatever it
runs, the recorder sees complete groups of moments, and at every point of a run the depth of calls is
the number of entries that are still open.
-/

namespace Lexiscope.Machine

/-- What a host may do with a store: change the observers, make calm changes, or run something. -/
inductive HostStep : Store → Store → Prop where
  | observe {s observers} : HostStep s { s with observers }
  | prepare {s t} : s.Calm t → HostStep s t
  | run {g : Stage} : g.task.IsWhole → HostStep g.store g.after

/-- A store to which a host may come. -/
inductive Visited : Store → Prop where
  | start {output limit} : Visited { output, limit }
  | step {s t} : Visited s → HostStep s t → Visited t

/-- A store to which a host may come after it has installed a recorder, which is now at the place. It
may put observers in front that let the recorder know, and take them away. -/
inductive Recording : Nat → Store → Prop where
  | install {place s} : Visited s → Recorded place s.observers [] #[] → Recording place s
  | prepare {place s t} : Recording place s → s.Calm t → Recording place t
  | ran {place} {g : Stage} : Recording place g.store → g.task.IsWhole → Recording place g.after
  | cover {place s o} : Recording place s → o.forwards = true →
    Recording (place + 1) { s with observers := o :: s.observers }
  | uncover {place s o os} : Recording (place + 1) s → s.observers = o :: os →
    Recording place { s with observers := os }

section Hosts

variable {s t : Store} {told : List Report} {place : Nat} {observers : List Observer}

theorem Situation.Apart.afresh (h : Situation.Apart ⟨s, told, []⟩) : Situation.Apart ⟨s, [], []⟩ := by
  constructor
  · simp
  · exact h.held_lt
  · exact h.held_inj
  · intro r f _
    exact .inl rfl
  · simp
  · exact .nil
  · exact .nil

theorem Situation.Apart.observed (h : Situation.Apart ⟨s, told, []⟩) :
    Situation.Apart ⟨{ s with observers }, told, []⟩ :=
  ⟨h.told_lt, h.held_lt, h.held_inj, h.held_last, h.active_last, h.nodup, h.orderly⟩

theorem Situation.Apart.calm (h : Situation.Apart ⟨s, told, []⟩) (hcalm : s.Calm t) :
    Situation.Apart ⟨t, told, []⟩ :=
  (Advance.calm hcalm).apart h

/-- When a host comes, no frame is open, and the frames of generators are apart. -/
theorem Visited.apart (h : Visited s) : Situation.Apart ⟨s, [], []⟩ ∧ s.depth = 0 := by
  induction h with
  | start =>
    refine ⟨⟨by simp, ?_, ?_, ?_, by simp, .nil, .nil⟩, rfl⟩
    · intro r f hr
      cases hr
    · intro r q f g hr
      cases hr
    · intro r f hr
      cases hr
  | step _ hstep ih =>
    obtain ⟨happart, hdepth⟩ := ih
    cases hstep with
    | observe => exact ⟨happart.observed, hdepth⟩
    | prepare hcalm => exact ⟨happart.calm hcalm, hcalm.depth.trans hdepth⟩
    | run hg =>
      obtain ⟨inner, hinner, hpath⟩ := (Stage.At.whole hg).after happart
      have hbalanced := hpath.balanced
      exact ⟨(hpath.apart happart).afresh, hbalanced.depth.trans hdepth⟩

theorem Recording.history (h : Recording place s) : ∃ told seen log, Situation.Apart ⟨s, told, []⟩ ∧
    Situation.Written ⟨s, told, []⟩ place seen log ∧ Nested told ∧ s.depth = 0 := by
  induction h with
  | install hvisited hrecorded =>
    obtain ⟨happart, hdepth⟩ := hvisited.apart
    exact ⟨[], [], #[], happart, ⟨hrecorded, by simp, by simp, rfl⟩, .nil, hdepth⟩
  | @prepare place s t _ hcalm ih =>
    obtain ⟨told, seen, log, happart, hwritten, hnested, hdepth⟩ := ih
    have hstep : Advance ⟨s, told, []⟩ ⟨t, told, []⟩ := .calm hcalm
    obtain ⟨seen', log', hwritten', -⟩ := hstep.written hwritten
    exact ⟨told, seen', log', hstep.apart happart, hwritten', hnested, hcalm.depth.trans hdepth⟩
  | ran _ hg ih =>
    obtain ⟨told, seen, log, happart, hwritten, hnested, hdepth⟩ := ih
    obtain ⟨inner, hinner, hpath⟩ := (Stage.At.whole hg).after happart
    obtain ⟨seen', log', hwritten', -⟩ := hpath.written hwritten
    refine ⟨told ++ inner, seen', log', hpath.apart happart, hwritten', hnested.append hinner, ?_⟩
    exact hpath.balanced.depth.trans hdepth
  | cover _ hforwards ih =>
    obtain ⟨told, seen, log, happart, ⟨hrecorded, hwrote⟩, hnested, hdepth⟩ := ih
    exact ⟨told, seen, log, happart.observed, ⟨.behind hforwards hrecorded, hwrote⟩, hnested, hdepth⟩
  | uncover _ hobservers ih =>
    obtain ⟨told, seen, log, happart, ⟨hrecorded, hwrote⟩, hnested, hdepth⟩ := ih
    dsimp only at hrecorded
    rw [hobservers] at hrecorded
    cases hrecorded with
    | behind _ hrecorded =>
      exact ⟨told, seen, log, happart.observed, ⟨hrecorded, hwrote⟩, hnested, hdepth⟩

end Hosts

/-- Either as many frames are running as may, and the frame is refused without any change of the
store; or the frame is entered, runs and is left. -/
def Metered (n : Nat) (f : Frame) (s : Store) : Prop :=
  s.limit ≤ s.depth ∧ execute (n + 1) f s = .error (.raised {
      kind := .recursionError
      message := "maximum recursion depth exceeded (limit " ++ toString s.limit ++ ")" }) s ∨
    s.depth < s.limit ∧ ∃ q u, runFrame n f (s.entered f) = .ok q u ∧
      execute (n + 1) f s = leaveFrame q u

theorem execute_metered (n : Nat) (f : Frame) (s : Store) : Metered n f s := by
  by_cases hroom : s.depth < s.limit
  · obtain ⟨q, u, hrun⟩ := runFrame_total n f (s.entered f)
    have hnotFull : ¬ s.limit < s.depth + 1 := by omega
    exact .inr ⟨hroom, q, u, hrun, execute_run hnotFull hrun⟩
  · have hfull : s.limit < s.depth + 1 := by omega
    exact .inl ⟨Nat.le_of_not_lt hroom, execute_full hfull n f⟩

/-- What the recorder at the place has seen when the machine comes to a stage, and what it sees until
the stage is over. -/
structure Stage.Seen (h : Stage) (place : Nat) (seen : List Nat) (log : Array Record) : Prop where
  recorded : Recorded place h.store.observers seen log
  orderly : Orderly (moments log)
  /-- The depth of calls is the number of entries that are open. The frame that runs is the one that
  was entered last. -/
  opens : ∃ ids, Opens (moments log) ids ∧ h.store.depth = ids.length ∧
    ∀ f, h.task = .frame f → ids.head? = some (seen.idxOf f.id)
  groups : ∃ seen' log' inner, Recorded place h.after.observers seen' log' ∧
    moments log' = moments log ++ inner ∧ Nested inner

section Seeing

variable {place : Nat} {g h : Stage} {σ τ : Situation} {n : Nat} {f : Frame} {t : Store}
  {numbers : List Nat} {log : Array Record}

theorem Stage.At.counts (hh : h.At τ) : h.store.depth = τ.store.depth ∧
    h.store.limit = τ.store.limit ∧ h.store.next = τ.store.next := by
  cases hh with
  | whole | frame | new => exact ⟨rfl, rfl, rfl⟩
  | woken hwake =>
    obtain ⟨_, _, _, rfl⟩ := wake_eq_ok hwake
    exact ⟨rfl, rfl, rfl⟩

theorem Stage.At.seen (hh : h.At τ) (hτ : τ.Apart) (hwritten : τ.Written place numbers log)
    (hopens : Opens τ.told τ.active) (hdepth : τ.store.depth = τ.active.length) :
    h.Seen place numbers log := by
  obtain ⟨hrecorded, hwrote⟩ := hwritten
  obtain ⟨inner, hinner, hafter⟩ := hh.after hτ
  obtain ⟨numbers', log', ⟨hrecorded', hwrote'⟩, hsame⟩ := hafter.written ⟨hrecorded, hwrote⟩
  constructor
  · cases hh with
    | woken hwake =>
      obtain ⟨_, _, _, rfl⟩ := wake_eq_ok hwake
      exact hrecorded
    | whole | frame | new => exact hrecorded
  · exact hwrote.orderly hτ.orderly
  · refine ⟨_, hwrote.opens hopens, ?_, ?_⟩
    · rw [hh.counts.1, hdepth, List.length_map]
    · intro f hf
      cases hh with
      | whole htask =>
        dsimp only at hf
        rw [hf] at htask
        exact htask.elim
      | frame =>
        cases hf
        rfl
      | new | woken => cases hf
  · exact ⟨numbers', log', _, hrecorded', hwrote.later hwrote' hsame,
      hinner.map fun id => numbers'.idxOf id⟩

/-- What holds when the machine comes to a stage of a run that a host asks for. -/
theorem Recording.comes (hrec : Recording place g.store) (hg : g.task.IsWhole) (hh : g.Comes h) :
    h.store.depth ≤ h.store.limit ∧ h.after.depth = h.store.depth ∧
      ∃ numbers log, h.Seen place numbers log ∧ ∀ id ∈ numbers, id < h.store.next := by
  obtain ⟨told, numbers, log, happart, hwritten, hnested, hdepth⟩ := hrec.history
  obtain ⟨τ, hpath, -, hat⟩ := (Stage.At.whole hg).comes happart hh
  have hτ : τ.Apart := hpath.apart happart
  obtain ⟨numbers', log', hwritten', -⟩ := Path.written hpath hwritten
  obtain ⟨⟨new, htold, hopens⟩, hopened, -, hbound⟩ := Path.balanced hpath
  obtain ⟨inner, -, hafter⟩ := hat.after hτ
  have hover := (Path.balanced (hpath.trans hafter)).depth
  dsimp only at hover hopened hbound
  rw [hdepth, Nat.zero_add] at hover hopened
  obtain ⟨hstore, hlimit, hnext⟩ := hat.counts
  refine ⟨?_, ?_, numbers', log', ?_, ?_⟩
  · rw [hstore, hlimit]
    apply hbound
    rw [hdepth]
    exact Nat.zero_le _
  · rw [hover, hstore, hopened]
  · have hall := hopens.prepend hnested
    rw [← htold] at hall
    exact hat.seen hτ hwritten' hall hopened
  · intro id hid
    obtain ⟨m, hm⟩ := hwritten'.wrote.reported id hid
    rw [hnext]
    exact hτ.told_lt (m, id) hm

/-- A frame that was seen is executed only when its generator is resumed. -/
theorem resumed_of_seen (hrec : Recording place g.store) (hg : g.task.IsWhole) (hh : g.Comes h)
    (hask : h.Asks ⟨n, .execute f, t⟩) (hseen : Recorded place t.observers numbers log)
    (hmem : f.id ∈ numbers) : ∃ r, h.task = .resume r ∧ wake r h.store = .ok f t := by
  rcases hask.executed with ⟨r, hr, hwake⟩ | ⟨htask, hcalm, hle, hlt⟩
  · refine ⟨r, ?_, hwake⟩
    rw [hr]
  · obtain ⟨-, -, numbers', log', hbefore, hold⟩ := hrec.comes hg hh
    rw [hcalm.observers] at hseen
    obtain ⟨rfl, -⟩ := hbefore.recorded.unique hseen
    have hlt := hold f.id hmem
    omega

end Seeing

def pausing : String := "def g() \x7b yield 1 \x7d\nx = g()"

def watchedStore : Store := { spaces := #[.empty], observers := [.recorder false [] #[]] }

theorem visited_watchedStore : Visited watchedStore := by
  have hcalm : Store.Calm {} { spaces := #[.empty] } := by
    constructor
    all_goals first | rfl | exact Nat.zero_le _
  exact (Visited.start.step (.prepare hcalm)).step .observe

theorem recording_watchedStore : Recording 0 watchedStore :=
  .install visited_watchedStore .front

def runsPausing (c : Code.Object) : Stage := ⟨60, .module ⟨.unit 0, .unit 0, c⟩ ⟨0⟩, watchedStore⟩

def wakesAfter (c : Code.Object) : Bool :=
  match wake ⟨0⟩ (runsPausing c).after with
  | .ok _ t => t.depth < t.limit
  | .error _ _ => false

end Lexiscope.Machine
