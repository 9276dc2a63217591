import Lexiscope.Proofs.Machine.Balance
import Lexiscope.Proofs.Machine.Closed
import Lexiscope.Proofs.Machine.Making
import Lexiscope.Proofs.Machine.Runs
/-!
# Runs are paths

Every run of the machine is a path of steps at whose end the same frames are open as at its start. A
frame is entered right after it was made, or right after its generator was woken.
-/

namespace Lexiscope.Machine

open Exec

/-- The changes that are paths with the same frames open at both ends. -/
def Change.path : Change where
  rel s t := ∀ told, Situation.Apart ⟨s, told, []⟩ →
    ∃ told', Path ⟨s, told, []⟩ ⟨t, told', []⟩
  trans := by
    intro s t u h h' told htold
    obtain ⟨told', hpath⟩ := h told htold
    obtain ⟨told'', hpath'⟩ := h' told' (hpath.apart htold)
    exact ⟨told'', hpath.trans hpath'⟩
  mild := by
    intro s t h told _
    exact ⟨told, .single (.calm h.toQuiet.calm)⟩

theorem Change.path_of_calm {s t : Store} (h : s.Calm t) : Change.path.rel s t := by
  intro told _
  exact ⟨told, .single (.calm h)⟩

instance : Change.path.Loose := ⟨fun h => Change.path_of_calm h.calm⟩

theorem allows_of_calm {α : Type} {x : Exec α} (h : Change.calm.Allows x) : Change.path.Allows x :=
  h.mono fun _ _ => Change.path_of_calm

section Calm

theorem calm_newCell {value : Option Value} : Change.calm.Allows (newCell value) := by
  constructor
  intro s
  refine ⟨rfl, rfl, rfl, rfl, Nat.le_refl _, ?_, Nat.le_refl _⟩
  change s.cells.size ≤ (s.cells.push value).size
  simp

theorem calm_newSpace {names : NameMap} : Change.calm.Allows (newSpace names) := by
  constructor
  intro s
  refine ⟨rfl, rfl, rfl, rfl, Nat.le_refl _, Nat.le_refl _, ?_⟩
  change s.spaces.size ≤ (s.spaces.push names).size
  simp

theorem calm_setCell {r : CellRef} {v : Value} : Change.calm.Allows (setCell r v) := by
  constructor
  intro s
  refine ⟨rfl, rfl, rfl, rfl, Nat.le_refl _, ?_, Nat.le_refl _⟩
  change s.cells.size ≤ (s.cells.setIfInBounds r.index (some v)).size
  simp

theorem calm_setName {r : SpaceRef} {n : Name} {v : Value} : Change.calm.Allows (setName r n v) := by
  constructor
  intro s
  refine ⟨rfl, rfl, rfl, rfl, Nat.le_refl _, Nat.le_refl _, ?_⟩
  change s.spaces.size ≤ (s.spaces.modify r.index (·.insert n v)).size
  simp

instance : Change.calm.Writes where
  newCell _ := calm_newCell
  newSpace _ := calm_newSpace
  setCell _ _ := calm_setCell
  setName _ _ _ := calm_setName

theorem calm_step {f : Frame} : Change.calm.Allows (step f) := allows_step_of_writes f

theorem calm_make {code : LoadedCode} {globals : SpaceRef} {fast : Array (Option Value)}
    {closure : List CellRef} {space : Option SpaceRef} :
    Change.calm.Allows (Frame.make code globals fast closure space) :=
  allows_make

theorem calm_enterFunction {f : FunctionValue} {args : List Value} {keywords : Keywords} :
    Change.calm.Allows (enterFunction f args keywords) :=
  allows_enterFunction

theorem calm_enterClassBody {f : FunctionValue} {space : SpaceRef} :
    Change.calm.Allows (enterClassBody f space) :=
  allows_enterClassBody

end Calm

section Frames

variable {s t u : Store} {f g : Frame} {n : Nat}

theorem id_of_make {code : LoadedCode} {globals : SpaceRef} {fast : Array (Option Value)}
    {closure : List CellRef} {space : Option SpaceRef}
    (h : Frame.make code globals fast closure space s = .ok f t) : s.next ≤ f.id ∧ f.id < t.next := by
  rw [make_eq] at h
  cases h
  exact ⟨Nat.le_refl _, Nat.lt_succ_self _⟩

theorem id_of_enterFunction {v : FunctionValue} {args : List Value} {keywords : Keywords}
    (h : enterFunction v args keywords s = .ok f t) : s.next ≤ f.id ∧ f.id < t.next := by
  obtain ⟨fast, s₁, hfast, h⟩ := bind_eq_ok h
  obtain ⟨g, s₂, hmake, h⟩ := bind_eq_ok h
  obtain ⟨slots, s₃, hmove, h⟩ := bind_eq_ok h
  have hbound : s.Calm s₁ := Change.Allows.ok (c := Change.calm) inferInstance hfast
  have hmoved : s₂.Calm s₃ := Change.Allows.ok (c := Change.calm) inferInstance hmove
  obtain ⟨hle, hlt⟩ := id_of_make hmake
  cases h
  exact ⟨Nat.le_trans hbound.next hle, Nat.lt_of_lt_of_le hlt hmoved.next⟩

def Turn.frame : Turn → Frame
  | .goes f => f
  | .stops q => q.frame

theorem id_of_act {a : Action} {x : Turn} (h : act n a s = .ok x t) : x.frame.id = a.frame.id := by
  cases a with
  | next f | returned v f | yielded v f =>
    cases h
    rfl
  | invoke callee args keywords f =>
    simp only [act] at h
    rw [attempt_bind] at h
    cases hcall : callValue n callee args keywords s <;> rw [hcall] at h <;> cases h <;> rfl
  | unpack v count f =>
    simp only [act] at h
    rw [attempt_bind] at h
    cases hcall : (collect n v >>= unpackOnto f count) s with
    | error e u =>
      rw [hcall] at h
      cases h
      rfl
    | ok g u =>
      rw [hcall] at h
      cases h
      obtain ⟨items, _, _, hitems⟩ := bind_eq_ok hcall
      rw [Turn.frame, (unpackOnto_ok hitems).1]
      rfl
  | advance iterator target f =>
    simp only [act] at h
    rw [attempt_bind] at h
    cases hcall : (nextItem n iterator >>= advanced f target) s with
    | error e u =>
      rw [hcall] at h
      cases h
      rfl
    | ok g u =>
      rw [hcall] at h
      cases h
      obtain ⟨item, _, _, hitem⟩ := bind_eq_ok hcall
      rcases advanced_ok hitem with ⟨v, rfl⟩ | ⟨v, rest, _, rfl⟩
      · rfl
      · rfl

theorem id_of_runFrame {q : Stopped} (h : runFrame n f s = .ok q t) : q.frame.id = f.id := by
  induction n generalizing f s with
  | zero =>
    cases h
    rfl
  | succ n ih =>
    obtain ⟨x, u, hturn⟩ := turn_total n f s
    have hid : x.frame.id = f.id := by
      cases hstep : step f s with
      | error e v =>
        rw [turn_error hstep] at hturn
        cases hturn
        rfl
      | ok a v =>
        rw [turn_ok hstep] at hturn
        have hbody := (successors_of_step hstep).1
        exact (id_of_act hturn).trans hbody.id
    cases x with
    | goes g =>
      rw [runFrame_goes hturn] at h
      exact (ih h).trans hid
    | stops q' =>
      rw [runFrame_stops hturn] at h
      cases h
      exact hid

/-- A frame is refused without a change of the store, or entered and left. -/
theorem execute_cases (n : Nat) (f : Frame) (s : Store) : (∃ e, execute n f s = .error e s) ∨
    s.depth < s.limit ∧ ∃ m q u, n = m + 1 ∧ runFrame m f (s.entered f) = .ok q u ∧
      execute n f s = leaveFrame q u := by
  cases n with
  | zero => exact .inl ⟨.outOfFuel, rfl⟩
  | succ m =>
    by_cases hfull : s.limit < s.depth + 1
    · exact .inl ⟨_, execute_full hfull m f⟩
    · obtain ⟨q, u, hrun⟩ := runFrame_total m f (s.entered f)
      exact .inr ⟨by omega, m, q, u, rfl, hrun, execute_run hfull hrun⟩

theorem after_leaveFrame (q : Stopped) (s : Store) : (leaveFrame q).after s = s.left q := by
  unfold Exec.after
  rw [leaveFrame_run]
  cases q.result <;> rfl

/-- A frame is executed with changes of a sort, if it is run, entered and left with such changes. -/
theorem allows_execute {c : Change} (hentered : ∀ s f, c.rel s (s.entered f))
    (hleft : ∀ s q, c.rel s (s.left q)) (hruns : ∀ m < n, ∀ f, c.Allows (runFrame m f)) (f : Frame) :
    c.Allows (execute n f) := by
  constructor
  intro s
  rcases execute_cases n f s with ⟨e, hrefused⟩ | ⟨_, m, q, u, rfl, hrun, hexecute⟩
  · rw [after_error hrefused]
    exact c.refl s
  · have hbody := (hruns m (Nat.lt_succ_self m) f).ok hrun
    have hafter : (execute (m + 1) f).after s = u.left q := by
      rw [← after_leaveFrame]
      unfold Exec.after
      rw [hexecute]
    rw [hafter]
    exact c.trans (c.trans (hentered s f) hbody) (hleft u q)

end Frames

section Entering

variable {s t u : Store} {told : List Report} {f : Frame} {n : Nat} {q : Stopped}

theorem Situation.Apart.forget {active : List Nat} (h : Situation.Apart ⟨s, told, active⟩) :
    Situation.Apart ⟨s, told, []⟩ :=
  ⟨h.told_lt, h.held_lt, h.held_inj, h.held_last, by simp, .nil, h.orderly⟩

theorem Situation.Apart.unknown (h : Situation.Apart ⟨s, told, []⟩) (hcalm : s.Calm t)
    (hle : s.next ≤ f.id) (hlt : f.id < t.next) : Situation.Unknown ⟨t, told, []⟩ f.id := by
  refine ⟨hlt, ?_, ?_⟩
  · intro m hm
    have hold := h.told_lt _ hm
    dsimp only at hold
    omega
  · intro r g hr heq
    have hr' : s.Holds r g := by
      unfold Store.Holds Store.generator at hr ⊢
      rwa [← hcalm.generators]
    have hold := h.held_lt r g hr'
    dsimp only at hold
    omega

theorem path_of_runFrame {m : Nat} (hruns : Change.path.Allows (runFrame m f))
    (happart : Situation.Apart ⟨s.entered f, told, [f.id]⟩)
    (hrun : runFrame m f (s.entered f) = .ok q u) :
    ∃ told', Path ⟨s.entered f, told, [f.id]⟩ ⟨u, told', [q.frame.id]⟩ := by
  obtain ⟨told', hpath⟩ := hruns.ok hrun told happart.forget
  rw [id_of_runFrame hrun]
  exact ⟨told', hpath.inside [f.id]⟩

theorem path_of_execute (hruns : ∀ m < n, ∀ f, Change.path.Allows (runFrame m f)) (hcalm : s.Calm t)
    (hle : s.next ≤ f.id) (hlt : f.id < t.next) : Change.path.rel s ((execute n f).after t) := by
  intro told happart
  have hmade : Path ⟨s, told, []⟩ ⟨t, told, []⟩ := .single (.calm hcalm)
  rcases execute_cases n f t with ⟨e, hrefused⟩ | ⟨hroom, m, q, u, rfl, hrun, hexecute⟩
  · rw [after_error hrefused]
    exact ⟨told, hmade⟩
  · have hentered := hmade.tail (.start (happart.unknown hcalm hle hlt) hroom)
    obtain ⟨told', hbody⟩ := path_of_runFrame (hruns m (Nat.lt_succ_self m) f)
      (Path.apart hentered happart) hrun
    have hafter : (execute (m + 1) f).after t = u.left q := by
      rw [← after_leaveFrame]
      unfold Exec.after
      rw [hexecute]
    rw [hafter]
    exact ⟨_, (hentered.trans hbody).tail (.stop q)⟩

theorem path_of_made {α : Type} {make : Exec Frame} {k : Completion × Frame → Exec α}
    (hruns : ∀ m < n, ∀ f, Change.path.Allows (runFrame m f)) (hmake : Change.calm.Allows make)
    (hid : ∀ {s t f}, make s = .ok f t → s.next ≤ f.id ∧ f.id < t.next)
    (hk : ∀ r, Change.path.Allows (k r)) : Change.path.Allows (make >>= fun f => execute n f >>= k) := by
  constructor
  intro s
  cases hmade : make s with
  | error e t =>
    rw [after_error (bind_error hmade)]
    exact Change.path_of_calm (hmake.error hmade)
  | ok f t =>
    obtain ⟨hle, hlt⟩ := hid hmade
    have hexecuted := path_of_execute hruns (hmake.ok hmade) hle hlt
    cases hexecute : execute n f t with
    | error e u =>
      rw [after_error hexecute] at hexecuted
      rw [after_error ((bind_ok hmade).trans (bind_error hexecute))]
      exact hexecuted
    | ok r u =>
      rw [after_ok hexecute] at hexecuted
      have hafter : (make >>= fun f => execute n f >>= k).after s = (k r).after u := by
        unfold Exec.after
        rw [bind_ok hmade, bind_ok hexecute]
      rw [hafter]
      exact Change.path.trans hexecuted ((hk r).after u)

theorem path_of_kept {make : Exec Frame} {code : LoadedCode} (hmake : Change.calm.Allows make)
    (hid : ∀ {s t f}, make s = .ok f t → s.next ≤ f.id ∧ f.id < t.next) :
    Change.path.Allows (make >>= fun f => newGenerator { code, state := .suspended f }) := by
  constructor
  intro s
  cases hmade : make s with
  | error e t =>
    rw [after_error (bind_error hmade)]
    exact Change.path_of_calm (hmake.error hmade)
  | ok f t =>
    obtain ⟨hle, hlt⟩ := hid hmade
    have hcalm := hmake.ok hmade
    have hafter : (make >>= fun f => newGenerator { code, state := .suspended f }).after s =
        (newGenerator { code, state := .suspended f }).after t := by
      unfold Exec.after
      rw [bind_ok hmade]
    rw [hafter]
    intro told happart
    have hkept : Advance ⟨t, told, []⟩
        ⟨(newGenerator { code, state := .suspended f }).after t, told, []⟩ :=
      .keep (happart.unknown hcalm hle hlt)
    exact ⟨told, .head (.calm hcalm) (.single hkept)⟩

def Stopped.outcome (q : Stopped) : Except Halt (Completion × Frame) :=
  q.result.map fun k => (k, q.frame)

theorem attempt_leaveFrame (q : Stopped) (s : Store) :
    attempt (leaveFrame q) s = .ok q.outcome (s.left q) := by
  have hrun := leaveFrame_run q s
  unfold Stopped.outcome
  cases hq : q.result with
  | ok k =>
    rw [hq] at hrun
    exact attempt_ok hrun
  | error e =>
    rw [hq] at hrun
    exact attempt_error hrun

/-- The frame of a generator is left, and the generator holds it if it has yielded. -/
theorem path_of_settled (told' : List Report) (r : GeneratorRef) :
    ∃ told'', Path ⟨u, told', [q.frame.id]⟩
      ⟨(setState r (.after q.outcome)).after (u.left q), told'', []⟩ := by
  have hfinished : Path ⟨u, told', [q.frame.id]⟩
      ⟨(setState r .finished).after (u.left q), told' ++ [(q.moment, q.frame.id)], []⟩ :=
    (Relation.ReflTransGen.single (.stop q)).tail (.drop fun _ => GeneratorState.noConfusion)
  obtain ⟨g, result⟩ := q
  cases result with
  | error e => exact ⟨_, hfinished⟩
  | ok k =>
    cases k with
    | returned v => exact ⟨_, hfinished⟩
    | yielded v => exact ⟨_, .single (.rest (q := ⟨g, .ok (.yielded v)⟩) r rfl)⟩

theorem after_resume {r : GeneratorRef} {outcome : Except Halt (Completion × Frame)}
    (hwake : wake r s = .ok f t) (h : attempt (execute n f) t = .ok outcome u) :
    (resume (n + 1) r).after s = (setState r (.after outcome)).after u := by
  unfold Exec.after resume
  rw [bind_ok hwake, bind_ok h]
  cases outcome <;> rfl

theorem wake_cases (r : GeneratorRef) (s : Store) :
    (∃ e, wake r s = .error e s) ∨ ∃ f t, wake r s = .ok f t := by
  rw [Likeness.wake_run]
  cases (s.generator r).state with
  | suspended f => exact .inr ⟨_, _, rfl⟩
  | running | finished => exact .inl ⟨_, rfl⟩

theorem path_of_resume (hruns : ∀ m < n, ∀ f, Change.path.Allows (runFrame m f)) (r : GeneratorRef) :
    Change.path.Allows (resume (n + 1) r) := by
  constructor
  intro s
  rcases wake_cases r s with ⟨e, hwake⟩ | ⟨f, t, hwake⟩
  · have hnot : resume (n + 1) r s = .error e s := by
      unfold resume
      exact bind_error hwake
    rw [after_error hnot]
    exact Change.path.refl s
  intro told happart
  rcases execute_cases n f t with ⟨e, hrefused⟩ | ⟨hroom, m, q, u, rfl, hrun, hexecute⟩
  · obtain ⟨g, hg, hid, ht⟩ := wake_eq_ok hwake
    have hwoken : Path ⟨s, told, []⟩ ⟨t, told, []⟩ := by
      rw [ht]
      exact .single (.drop fun _ => GeneratorState.noConfusion)
    rw [after_resume hwake (attempt_error hrefused)]
    exact ⟨told, hwoken.tail (.drop fun _ => GeneratorState.noConfusion)⟩
  · have hentered : Path ⟨s, told, []⟩ ⟨t.entered f, told ++ [(.enter, f.id)], [f.id]⟩ :=
      .single (.goOn hwake hroom)
    obtain ⟨told', hbody⟩ := path_of_runFrame (hruns m (Nat.lt_succ_self m) f)
      (hentered.apart happart) hrun
    have hattempt : attempt (execute (m + 1) f) t = .ok q.outcome (u.left q) := by
      rw [← attempt_leaveFrame]
      unfold attempt
      rw [hexecute]
    obtain ⟨told'', hsettled⟩ := path_of_settled (u := u) (q := q) told' r
    rw [after_resume hwake hattempt]
    exact ⟨told'', (hentered.trans hbody).trans hsettled⟩

end Entering

section Runs

variable {n : Nat}

/-- Generators may be made and set with changes of the sort. -/
class Change.Wakes (c : Change) : Prop where
  newGenerator (g : Generator) : c.Allows (newGenerator g)
  setGenerator (r : GeneratorRef) (g : Generator) : c.Allows (setGenerator r g)

section Waking

variable {c : Change} [hc : c.Wakes]

instance allows_newGenerator {g : Generator} : c.Allows (newGenerator g) := hc.newGenerator g

instance allows_setGenerator {r : GeneratorRef} {g : Generator} : c.Allows (setGenerator r g) :=
  hc.setGenerator r g

instance allows_wake {r : GeneratorRef} : c.Allows (wake r) := by
  unfold wake
  refine allows_get.bind fun s => ?_
  dsimp only
  split <;> infer_instance

instance allows_setState {r : GeneratorRef} {state : GeneratorState} :
    c.Allows (setState r state) := by
  unfold setState
  infer_instance

theorem allows_resume (hentered : ∀ s f, c.rel s (s.entered f)) (hleft : ∀ s q, c.rel s (s.left q))
    (hruns : ∀ m < n, ∀ f, c.Allows (runFrame m f)) (r : GeneratorRef) :
    c.Allows (resume (n + 1) r) := by
  have hexecute := allows_execute hentered hleft hruns
  unfold resume
  infer_instance

end Waking

/-- A sort of changes that writes belong to allows all that the machine does, if it allows frames to be
entered and left, generators to be made and resumed, and iterators to be advanced. -/
theorem Change.steady_of_writes {c : Change} [c.Writes] (hentered : ∀ s f, c.rel s (s.entered f))
    (hleft : ∀ s q, c.rel s (s.left q)) (hgenerator : ∀ g, c.Allows (newGenerator g))
    (hnext : ∀ {n}, (∀ m ≤ n, c.RunsAt m) → ∀ v, c.Allows (nextItem (n + 1) v))
    (hresume : ∀ {n}, (∀ m < n, ∀ f, c.Allows (runFrame m f)) → ∀ r, c.Allows (resume (n + 1) r)) :
    c.Steady := by
  constructor
  · exact allows_step_of_writes
  · exact allows_newSpace
  · intro n hruns f args keywords
    unfold callFunction
    dsimp only
    split
    · exact allows_throw_bind
    refine allows_enterFunction.bind fun g => ?_
    cases f.code.object.flags.isGenerator
    case true => exact hgenerator _
    case false =>
      refine (allows_execute hentered hleft hruns g).bind fun r => ?_
      split <;> infer_instance
  · intro n hruns args
    unfold buildClass
    split
    · refine allows_requireClasses.bind fun bases => allows_newSpace.bind fun space => ?_
      refine allows_enterClassBody.bind fun f => ?_
      exact (allows_execute hentered hleft hruns f).bind fun _ => allows_pure
    · infer_instance
  · exact hnext
  · exact hresume

/-- A sort of changes that calm ones belong to allows all that the machine does, if it allows frames to
be entered and left, and generators to be made and resumed. -/
theorem Change.steady_of_calm {c : Change} (hcalm : ∀ {s t : Store}, s.Calm t → c.rel s t)
    (hentered : ∀ s f, c.rel s (s.entered f)) (hleft : ∀ s q, c.rel s (s.left q))
    (hgenerator : ∀ g, c.Allows (newGenerator g))
    (hresume : ∀ {n}, (∀ m < n, ∀ f, c.Allows (runFrame m f)) → ∀ r, c.Allows (resume (n + 1) r)) :
    c.Steady := by
  have hloose : c.Loose := ⟨fun h => hcalm h.calm⟩
  have hwrites : c.Writes := by
    constructor
    · exact fun _ => calm_newCell.mono fun _ _ => hcalm
    · exact fun _ => calm_newSpace.mono fun _ _ => hcalm
    · exact fun _ _ => calm_setCell.mono fun _ _ => hcalm
    · exact fun _ _ _ => calm_setName.mono fun _ _ => hcalm
  exact Change.steady_of_writes hentered hleft hgenerator Change.RunsAt.nextItem_succ hresume

instance path_step {f : Frame} : Change.path.Allows (step f) := allows_of_calm calm_step

instance path_newSpace {names : NameMap} : Change.path.Allows (newSpace names) :=
  allows_of_calm calm_newSpace

theorem path_of_callFunction (hruns : ∀ m < n, ∀ f, Change.path.Allows (runFrame m f))
    (f : FunctionValue) (args : List Value) (keywords : Keywords) :
    Change.path.Allows (callFunction (n + 1) f args keywords) := by
  unfold callFunction
  dsimp only
  split
  · exact allows_throw_bind
  cases f.code.object.flags.isGenerator
  case true => exact path_of_kept calm_enterFunction id_of_enterFunction
  case false =>
    exact path_of_made hruns calm_enterFunction id_of_enterFunction fun r => by
      split <;> infer_instance

theorem path_of_buildClass (hruns : ∀ m < n, ∀ f, Change.path.Allows (runFrame m f))
    (args : List Value) : Change.path.Allows (buildClass (n + 1) args) := by
  unfold buildClass
  split
  · refine allows_requireClasses.bind fun bases => path_newSpace.bind fun space => ?_
    exact path_of_made hruns calm_enterClassBody id_of_make fun _ => allows_pure
  · infer_instance

theorem path_steady : Change.path.Steady where
  step _ := path_step
  newSpace := path_newSpace
  callFunction := path_of_callFunction
  buildClass := path_of_buildClass
  nextItem := Change.RunsAt.nextItem_succ
  resume := path_of_resume

end Runs

end Lexiscope.Machine
