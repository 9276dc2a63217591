import Mathlib.Data.List.Basic
import Lexiscope.Proofs.Machine.Balance
/-!
# What a recorder writes down

A recorder that is told of everything writes down the moments of frames in the order in which they
come, with numbers of its own for the frames. So what holds of the reports holds of its log.
-/

namespace Lexiscope.Machine

open Exec

/-- The moments in a log, with the numbers that the recorder gave. -/
def moments (log : Array Record) : List Report := log.toList.map fun r => (r.moment, r.frame)

/-- The observer at the place is a recorder with the log, and all in front of it forward. -/
inductive Recorded : Nat → List Observer → List Nat → Array Record → Prop where
  | front {forwards seen log os} : Recorded 0 (.recorder forwards seen log :: os) seen log
  | behind {place o os seen log} : o.forwards = true → Recorded place os seen log →
    Recorded (place + 1) (o :: os) seen log

/-- The reports are what a recorder has written down since it was new. -/
structure Wrote (told : List Report) (seen : List Nat) (log : Array Record) : Prop where
  known : ∀ e ∈ told, e.2 ∈ seen
  reported : ∀ id ∈ seen, ∃ m, (m, id) ∈ told
  log : moments log = told.map fun e => (e.1, seen.idxOf e.2)

theorem Recorded.unique {place : Nat} {os : List Observer} {seen seen' : List Nat}
    {log log' : Array Record} (h : Recorded place os seen log) (h' : Recorded place os seen' log') :
    seen' = seen ∧ log' = log := by
  induction h with
  | front =>
    cases h'
    exact ⟨rfl, rfl⟩
  | behind _ _ ih =>
    cases h' with
    | behind _ hrecorded => exact ih hrecorded

section Numbering

variable {seen : List Nat} {id other : Nat}

theorem numberFrame_old (h : id ∈ seen) : numberFrame seen id = (seen.idxOf id, seen) := by
  have hfound : seen.idxOf? id = some (seen.idxOf id) := by
    rw [List.idxOf_eq_getD_idxOf?]
    obtain ⟨n, hn⟩ := Option.isSome_iff_exists.1 (List.isSome_idxOf?.2 h)
    rw [hn]
    rfl
  unfold numberFrame
  rw [hfound]

theorem numberFrame_new (h : id ∉ seen) : numberFrame seen id = (seen.length, seen ++ [id]) := by
  unfold numberFrame
  rw [List.idxOf?_eq_none_iff.2 h]

theorem numberFrame_fst : (numberFrame seen id).1 = (numberFrame seen id).2.idxOf id := by
  by_cases h : id ∈ seen
  · rw [numberFrame_old h]
  · rw [numberFrame_new h, List.idxOf_append_of_notMem h]
    simp

theorem mem_numberFrame : other ∈ (numberFrame seen id).2 ↔ other ∈ seen ∨ other = id := by
  by_cases h : id ∈ seen
  · rw [numberFrame_old h]
    constructor
    · exact .inl
    · rintro (hmem | rfl)
      · exact hmem
      · exact h
  · rw [numberFrame_new h]
    simp

theorem idxOf_numberFrame (h : other ∈ seen) :
    (numberFrame seen id).2.idxOf other = seen.idxOf other := by
  by_cases hid : id ∈ seen
  · rw [numberFrame_old hid]
  · rw [numberFrame_new hid]
    exact List.idxOf_append_of_mem h

end Numbering

section Telling

variable {place : Nat} {os : List Observer} {seen : List Nat} {log : Array Record} {s : Store}
  {m : Moment} {f : Frame} {told : List Report} {σ τ : Situation}

theorem told_forwards (o : Observer) : (o.told s m f).forwards = o.forwards := by
  cases o with
  | recorder forwards seen log => rfl
  | capture forwards target frame locals =>
    unfold Observer.told
    cases m with
    | enter | exit =>
      dsimp only
      split <;> rfl
    | suspend | unwind => rfl

theorem Recorded.tellAll (h : Recorded place os seen log) :
    ∃ log', Recorded place (tellAll s m f os) (numberFrame seen f.id).2 log' ∧
      moments log' = moments log ++ [(m, (numberFrame seen f.id).1)] := by
  induction h with
  | front =>
    refine ⟨_, .front, ?_⟩
    simp only [moments, Array.toList_push, List.map_append, List.map_cons, List.map_nil]
    rfl
  | @behind place o os seen log ho _ ih =>
    obtain ⟨log', hrecorded, hlog⟩ := ih
    refine ⟨log', ?_, hlog⟩
    have hforwards : (o.told s m f).forwards = true := by rw [told_forwards, ho]
    have htold : Machine.tellAll s m f (o :: os) = o.told s m f :: Machine.tellAll s m f os := by
      rw [Machine.tellAll, if_pos ho]
    rw [htold]
    exact .behind hforwards hrecorded

theorem Wrote.snoc {log' : Array Record} (h : Wrote told seen log)
    (hlog : moments log' = moments log ++ [(m, (numberFrame seen f.id).1)]) :
    Wrote (told ++ [(m, f.id)]) (numberFrame seen f.id).2 log' := by
  constructor
  · intro e he
    rw [mem_numberFrame]
    rcases List.mem_append.1 he with he | he
    · exact .inl (h.known e he)
    · rw [List.mem_singleton.1 he]
      exact .inr rfl
  · intro id hid
    rcases mem_numberFrame.1 hid with hid | rfl
    · obtain ⟨m', hm'⟩ := h.reported id hid
      exact ⟨m', List.mem_append_left _ hm'⟩
    · exact ⟨m, by simp⟩
  · rw [hlog, h.log, List.map_append, numberFrame_fst]
    congr 1
    apply List.map_congr_left
    intro e he
    rw [idxOf_numberFrame (h.known e he)]

/-- The recorder at the place has written down what was told. -/
structure Situation.Written (σ : Situation) (place : Nat) (seen : List Nat) (log : Array Record) :
    Prop where
  recorded : Recorded place σ.store.observers seen log
  wrote : Wrote σ.told seen log

/-- The frames that were seen are still seen, with the same numbers. -/
def Renumbers (seen seen' : List Nat) : Prop :=
  ∀ id ∈ seen, id ∈ seen' ∧ seen'.idxOf id = seen.idxOf id

theorem Renumbers.refl (seen : List Nat) : Renumbers seen seen :=
  fun _ hid => ⟨hid, rfl⟩

theorem Renumbers.trans {seen seen' seen'' : List Nat} (h : Renumbers seen seen')
    (h' : Renumbers seen' seen'') : Renumbers seen seen'' := by
  intro id hid
  obtain ⟨hmem, heq⟩ := h id hid
  obtain ⟨hmem', heq'⟩ := h' id hmem
  exact ⟨hmem', heq'.trans heq⟩

theorem renumbers_numberFrame {id : Nat} : Renumbers seen (numberFrame seen id).2 :=
  fun _ hid => ⟨mem_numberFrame.2 (.inl hid), idxOf_numberFrame hid⟩

theorem Advance.written (h : Advance σ τ) (hσ : σ.Written place seen log) :
    ∃ seen' log', τ.Written place seen' log' ∧ Renumbers seen seen' := by
  obtain ⟨hrecorded, hwrote⟩ := hσ
  cases h with
  | calm hcalm =>
    refine ⟨seen, log, ⟨?_, hwrote⟩, .refl seen⟩
    dsimp only
    rwa [hcalm.observers]
  | start _ _ =>
    obtain ⟨log', hrecorded', hlog⟩ := hrecorded.tellAll
    exact ⟨_, log', ⟨hrecorded', hwrote.snoc hlog⟩, renumbers_numberFrame⟩
  | goOn hwake _ =>
    obtain ⟨_, _, _, rfl⟩ := wake_eq_ok hwake
    obtain ⟨log', hrecorded', hlog⟩ := hrecorded.tellAll
    exact ⟨_, log', ⟨hrecorded', hwrote.snoc hlog⟩, renumbers_numberFrame⟩
  | stop q =>
    obtain ⟨log', hrecorded', hlog⟩ := hrecorded.tellAll
    exact ⟨_, log', ⟨hrecorded', hwrote.snoc hlog⟩, renumbers_numberFrame⟩
  | @rest s told active q v r hq =>
    obtain ⟨log', hrecorded', hlog⟩ := hrecorded.tellAll (m := q.moment) (f := q.frame)
    have hmoment : q.moment = .suspend := by
      unfold Stopped.moment
      rw [hq]
    rw [hmoment] at hlog
    exact ⟨_, log', ⟨hrecorded', hwrote.snoc hlog⟩, renumbers_numberFrame⟩
  | keep _ => exact ⟨seen, log, ⟨hrecorded, hwrote⟩, .refl seen⟩
  | drop _ => exact ⟨seen, log, ⟨hrecorded, hwrote⟩, .refl seen⟩

theorem Path.written (h : Path σ τ) (hσ : σ.Written place seen log) :
    ∃ seen' log', τ.Written place seen' log' ∧ Renumbers seen seen' := by
  induction h with
  | refl => exact ⟨seen, log, hσ, .refl seen⟩
  | tail _ hstep ih =>
    obtain ⟨seen', log', hwritten, hseen⟩ := ih
    obtain ⟨seen'', log'', hwritten', hseen'⟩ := hstep.written hwritten
    exact ⟨seen'', log'', hwritten', hseen.trans hseen'⟩

theorem Wrote.later {told' : List Report} {seen' : List Nat} {log' : Array Record}
    (h : Wrote told seen log) (h' : Wrote (told ++ told') seen' log') (hseen : Renumbers seen seen') :
    moments log' = moments log ++ told'.map fun e => (e.1, seen'.idxOf e.2) := by
  rw [h'.log, h.log, List.map_append]
  congr 1
  apply List.map_congr_left
  intro e he
  rw [(hseen _ (h.known e he)).2]

theorem Wrote.orderly (h : Wrote told seen log) (htold : Orderly told) : Orderly (moments log) := by
  rw [h.log]
  apply htold.map (f := fun id => seen.idxOf id)
  intro e he e' _ heq
  exact (List.idxOf_inj (h.known e he)).1 heq

theorem Wrote.nested (h : Wrote told seen log) (htold : Nested told) : Nested (moments log) := by
  rw [h.log]
  exact htold.map fun id => seen.idxOf id

theorem Wrote.opens {ids : List Nat} (h : Wrote told seen log) (htold : Opens told ids) :
    Opens (moments log) (ids.map fun id => seen.idxOf id) := by
  rw [h.log]
  exact htold.map fun id => seen.idxOf id

end Telling

end Lexiscope.Machine
