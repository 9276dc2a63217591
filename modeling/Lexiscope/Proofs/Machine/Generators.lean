import Lexiscope.Proofs.Machine.Hosts
/-!
# Generators

A generator is suspended, runs, or is finished. It runs from the moment it is woken until its frame has
stopped, and what is resumed meanwhile finds it running. Nothing but a resumption makes anything of a
generator, and each one takes it up as the one before has left it.
-/

namespace Lexiscope.Machine

open Exec
open Likeness (getD_push getD_setIfInBounds wake_run)

/-- A resumption of the generator: its frame is executed, and it is then what the outcome makes of
it. -/
inductive Activated (r : GeneratorRef) : Generator → Generator → Prop where
  | activated {s f t n outcome u} : wake r s = .ok f t → attempt (execute n f) t = .ok outcome u →
    Activated r (s.generator r) { s.generator r with state := .after outcome, started := true }

abbrev Onward (r : GeneratorRef) : Generator → Generator → Prop := Relation.ReflTransGen (Activated r)

/-- Generators have gone onward, and none has been removed. -/
structure Store.Onward (s t : Store) : Prop where
  size : s.generators.size ≤ t.generators.size
  generator : ∀ r, r.index < s.generators.size → Machine.Onward r (s.generator r) (t.generator r)

theorem Store.Onward.trans {s t u : Store} (h : s.Onward t) (h' : t.Onward u) : s.Onward u := by
  constructor
  · exact Nat.le_trans h.size h'.size
  · intro r hr
    exact (h.generator r hr).trans (h'.generator r (Nat.lt_of_lt_of_le hr h.size))

theorem Store.Onward.of_eq {s t : Store} (h : t.generators = s.generators) : s.Onward t := by
  constructor
  · exact Nat.le_of_eq (congrArg Array.size h.symm)
  · intro r _
    unfold Store.generator
    rw [h]

def Change.onward : Change := ⟨Store.Onward, Store.Onward.trans, fun h => .of_eq h.generators⟩

instance : Change.onward.Loose := ⟨fun h => .of_eq h.generators⟩

section Single

variable {s t u : Store} {r q : GeneratorRef} {f : Frame} {n : Nat} {G G' : Generator}

theorem generator_set {g : Generator} : ((setGenerator r g).after s).generator q =
    if q = r ∧ q.index < s.generators.size then g else s.generator q := by
  change (s.generators.setIfInBounds r.index g).getD q.index default = _
  rw [getD_setIfInBounds]
  by_cases hq : q = r
  · subst hq
    simp [Store.generator]
  · have hindex : r.index ≠ q.index := fun h => hq (congrArg GeneratorRef.mk h.symm)
    simp [hq, hindex, Store.generator]

/-- A generator that is woken was suspended. It runs from then on, and the others are as they were. -/
theorem woken (h : wake r s = .ok f t) : r.index < s.generators.size ∧
    (∃ g, (s.generator r).state = .suspended g ∧
      f = if (s.generator r).started then g.push .none else g) ∧
    t.generators.size = s.generators.size ∧
    t.generator r = { s.generator r with state := .running, started := true } ∧
    ∀ q, q ≠ r → t.generator q = s.generator q := by
  rw [wake_run] at h
  cases hstate : (s.generator r).state with
  | running | finished =>
    rw [hstate] at h
    cases h
  | suspended g =>
    rw [hstate] at h
    have hin := Likeness.suspended_inBounds hstate
    cases h
    refine ⟨hin, ⟨g, rfl, rfl⟩, Array.size_setIfInBounds, ?_, fun q hq => ?_⟩
    · exact (generator_set (g := { s.generator r with state := .running, started := true })).trans
        (if_pos ⟨rfl, hin⟩)
    · exact (generator_set (g := { s.generator r with state := .running, started := true })).trans
        (if_neg fun h => hq h.1)

theorem Activated.suspended (h : Activated r G G') : ∃ g, G.state = .suspended g := by
  cases h with
  | activated hwake _ =>
    obtain ⟨-, ⟨g, hg, -⟩, -⟩ := woken hwake
    exact ⟨g, hg⟩

theorem Onward.still (h : Onward r G G') (hG : ∀ g, G.state ≠ .suspended g) : G' = G := by
  rcases h.cases_head with rfl | ⟨H, hactivated, -⟩
  · rfl
  · obtain ⟨g, hg⟩ := hactivated.suspended
    exact absurd hg (hG g)

end Single

section Steady

variable {s t u : Store} {r q : GeneratorRef} {f : Frame} {n : Nat} {α : Type}

theorem onward_of_calm {x : Exec α} (h : Change.calm.Allows x) : Change.onward.Allows x :=
  h.mono fun _ _ hcalm => Store.Onward.of_eq hcalm.generators

theorem onward_entered (s : Store) (f : Frame) : Change.onward.rel s (s.entered f) := by
  apply Store.Onward.of_eq
  rfl

theorem onward_left (s : Store) (q : Stopped) : Change.onward.rel s (s.left q) := by
  apply Store.Onward.of_eq
  rfl

theorem onward_execute (hruns : ∀ m < n, ∀ f, Change.onward.Allows (runFrame m f)) (f : Frame) :
    Change.onward.Allows (execute n f) :=
  allows_execute onward_entered onward_left hruns f

theorem attempt_total {α : Type} (x : Exec α) (s : Store) :
    ∃ outcome, attempt x s = .ok outcome (x.after s) := by
  cases h : x s with
  | ok a t => exact ⟨_, (attempt_ok h).trans (by rw [after_ok h])⟩
  | error e t => exact ⟨_, (attempt_error h).trans (by rw [after_error h])⟩

theorem onward_resume (hruns : ∀ m < n, ∀ f, Change.onward.Allows (runFrame m f)) (r : GeneratorRef) :
    Change.onward.Allows (resume (n + 1) r) := by
  constructor
  intro s
  rcases wake_cases r s with ⟨e, hwake⟩ | ⟨f, t, hwake⟩
  · have hnot : resume (n + 1) r s = .error e s := by
      unfold resume
      exact bind_error hwake
    rw [after_error hnot]
    exact Change.onward.refl s
  obtain ⟨hin, -, hsize, hrunning, hothers⟩ := woken hwake
  obtain ⟨outcome, hattempt⟩ := attempt_total (execute n f) t
  obtain ⟨hgrown, hbody⟩ := (onward_execute hruns f).after t
  have hset : (setState r (.after outcome)).after ((execute n f).after t) =
      (setGenerator r { ((execute n f).after t).generator r with state := .after outcome }).after
        ((execute n f).after t) := rfl
  rw [after_resume hwake hattempt, hset]
  have hkept := hbody r (hsize.symm ▸ hin)
  rw [hrunning] at hkept
  have hstill := hkept.still fun _ => GeneratorState.noConfusion
  constructor
  · change _ ≤ (((execute n f).after t).generators.setIfInBounds _ _).size
    rw [Array.size_setIfInBounds]
    omega
  · intro q hq
    rw [generator_set]
    split
    · rename_i h
      obtain ⟨rfl, -⟩ := h
      rw [hstill]
      exact .single (.activated hwake hattempt)
    · rename_i h
      have hne : q ≠ r := fun heq => h ⟨heq, by omega⟩
      have honward := hbody q (by omega)
      rwa [hothers q hne] at honward

theorem onward_newGenerator {g : Generator} : Change.onward.Allows (newGenerator g) := by
  constructor
  intro s
  have hafter : (newGenerator g).after s = { s with generators := s.generators.push g } := rfl
  rw [hafter]
  constructor
  · rw [Array.size_push]
    exact Nat.le_succ _
  · intro r hr
    change Onward r _ ((s.generators.push g).getD r.index default)
    rw [getD_push, if_neg (Nat.ne_of_lt hr)]
    exact .refl

theorem onward_steady : Change.onward.Steady := by
  apply Change.steady_of_calm
  · exact fun hcalm => Store.Onward.of_eq hcalm.generators
  · exact onward_entered
  · exact onward_left
  · exact fun g => onward_newGenerator
  · exact onward_resume

end Steady

section Stages

variable {g h : Stage} {s t u : Store} {r : GeneratorRef} {f f' : Frame} {n k : Nat}

/-- A generator that is not suspended is the same at every stage of the run. -/
theorem still_of_comes (hh : g.Comes h) (hin : r.index < g.store.generators.size)
    (hstill : ∀ f, (g.store.generator r).state ≠ .suspended f) :
    h.store.generator r = g.store.generator r ∧ r.index < h.store.generators.size := by
  induction hh with
  | refl => exact ⟨rfl, hin⟩
  | @tail p q _ hask ih =>
    obtain ⟨hsame, hin'⟩ := ih
    have hstill' : ∀ f, (p.store.generator r).state ≠ .suspended f := by
      rw [hsame]
      exact hstill
    have hallowed := hask.allowed onward_steady (fun hcalm => .of_eq hcalm.generators)
      fun _ _ => .of_eq rfl
    rcases hallowed with honward | ⟨r', f, -, -, hwake⟩
    · have hlater : Onward r (p.store.generator r) (q.store.generator r) := honward.generator r hin'
      exact ⟨(hlater.still hstill').trans hsame, Nat.lt_of_lt_of_le hin' honward.size⟩
    · obtain ⟨-, ⟨f', hf', -⟩, hsize, -, hothers⟩ := woken hwake
      have hne : r ≠ r' := by
        rintro rfl
        exact hstill' f' hf'
      rw [hothers r hne, hsize]
      exact ⟨hsame, hin'⟩

/-- From when it is woken until its frame has stopped, a generator runs. -/
theorem running_inside (hwake : wake r s = .ok f t) (hh : Stage.Comes ⟨n, .execute f, t⟩ h) :
    (h.store.generator r).state = .running := by
  obtain ⟨hin, -, hsize, hrunning, -⟩ := woken hwake
  have hin' : r.index < t.generators.size := hsize.symm ▸ hin
  have hstill : ∀ f, (t.generator r).state ≠ .suspended f := by
    rw [hrunning]
    exact fun _ => GeneratorState.noConfusion
  obtain ⟨hsame, -⟩ := still_of_comes hh hin' hstill
  rw [hsame]
  dsimp only
  rw [hrunning]

theorem onward_stage (g : Stage) : g.store.Onward g.after := by
  obtain ⟨n, task, s⟩ := g
  have hframes : ∀ n, ∀ m < n, ∀ f, Change.onward.Allows (runFrame m f) :=
    fun n m _ => (onward_steady.runsAt m).runFrame
  by_cases htask : task.IsWhole
  · refine onward_steady.whole (fun n code globals => ?_) htask
    refine (onward_of_calm calm_make).bind fun f => (onward_execute (hframes n) f).bind fun r => ?_
    split <;> infer_instance
  · cases task with
    | frame f => exact ((onward_steady.runsAt n).runFrame f).after s
    | execute f => exact (onward_execute (hframes n) f).after s
    | _ => exact absurd trivial htask

theorem HostStep.onward (h : HostStep s t) : s.Onward t := by
  cases h with
  | observe => exact .of_eq rfl
  | prepare hcalm => exact .of_eq hcalm.generators
  | run _ => exact onward_stage _

/-- No frame is executed while it runs. -/
theorem ne_of_comes (hs : Visited g.store) (hg : g.task.IsWhole) (ha : g.Comes ⟨n, .frame f, s⟩)
    (hb : Stage.Comes ⟨n, .frame f, s⟩ ⟨k, .execute f', t⟩) : f'.id ≠ f.id := by
  obtain ⟨happart, -⟩ := hs.apart
  obtain ⟨σ, hpath, -, hat⟩ := (Stage.At.whole hg).comes happart ha
  have hσ := Path.apart hpath happart
  obtain ⟨τ, hpath', hactive, hat'⟩ := hat.comes hσ hb
  have hτ := hpath'.apart hσ
  have hopen : f.id ∈ τ.active := by
    apply hactive.subset
    cases hat with
    | whole htask => exact htask.elim
    | frame => exact List.mem_cons_self
  cases hat' with
  | whole htask => exact htask.elim
  | new hunknown =>
    intro heq
    have htold := mem_of_lastTold (hτ.active_last _ hopen)
    rw [← heq] at htold
    exact hunknown.told _ htold
  | woken hwake =>
    obtain ⟨g, hg, hid, -⟩ := wake_eq_ok hwake
    rw [hid]
    exact hτ.held_ne_active hg hopen

end Stages

/-- The frame with which a generator goes on that holds the frame. The value of a yield is nothing. -/
def Generator.resumed (g : Generator) (f : Frame) : Frame := if g.started then f.push .none else f

def Completion.item : Completion → Option Value
  | .yielded v => some v
  | .returned _ => none

/-- What a resumption comes to. -/
inductive Resumes (n : Nat) (r : GeneratorRef) (s : Store) :
    EStateM.Result Halt Store Completion → Prop where
  /-- The generator runs already. -/
  | executing : (s.generator r).state = .running →
    Resumes n r s (.error (.raised ⟨.valueError, "generator already executing", none, false⟩) s)
  | finished : (s.generator r).state = .finished →
    Resumes n r s (.error (.raised ⟨.stopIteration, "", none, false⟩) s)
  /-- The frame goes on, and the generator runs until it stops. -/
  | goesOn {f t outcome u w} : (s.generator r).state = .suspended f →
    wake r s = .ok ((s.generator r).resumed f) t →
    attempt (execute n ((s.generator r).resumed f)) t = .ok outcome u →
    (u.generator r).state = .running → setState r (.after outcome) u = .ok () w →
    w.generator r = { s.generator r with state := .after outcome, started := true } →
    Resumes n r s (match outcome with
      | .ok (k, _) => .ok k w
      | .error e => .error e w)

section Resuming

variable {s t u : Store} {r : GeneratorRef} {f g : Frame} {n : Nat} {v : Value}

theorem resume_running (h : (s.generator r).state = .running) (n : Nat) : resume (n + 1) r s =
    .error (.raised ⟨.valueError, "generator already executing", none, false⟩) s := by
  apply bind_error
  rw [wake_run, h]
  rfl

theorem resume_finished (h : (s.generator r).state = .finished) (n : Nat) : resume (n + 1) r s =
    .error (.raised ⟨.stopIteration, "", none, false⟩) s := by
  apply bind_error
  rw [wake_run, h]
  rfl

theorem resume_resumes (n : Nat) (r : GeneratorRef) (s : Store) :
    Resumes n r s (resume (n + 1) r s) := by
  cases hstate : (s.generator r).state with
  | running =>
    rw [resume_running hstate]
    exact .executing hstate
  | finished =>
    rw [resume_finished hstate]
    exact .finished hstate
  | suspended f =>
    obtain ⟨t, hwake⟩ : ∃ t, wake r s = .ok ((s.generator r).resumed f) t := by
      rw [wake_run, hstate]
      exact ⟨_, rfl⟩
    obtain ⟨outcome, hattempt⟩ := attempt_total (execute n ((s.generator r).resumed f)) t
    obtain ⟨u, hu⟩ : ∃ u, (execute n ((s.generator r).resumed f)).after t = u := ⟨_, rfl⟩
    rw [hu] at hattempt
    obtain ⟨hin, -, hsize, hrunning, -⟩ := woken hwake
    have honward : t.Onward u := hu ▸ onward_stage ⟨n, .execute ((s.generator r).resumed f), t⟩
    -- The generator runs meanwhile, and nobody else changes a generator that is not suspended.
    have hkept := honward.generator r (hsize.symm ▸ hin)
    rw [hrunning] at hkept
    have hsame := hkept.still fun _ => GeneratorState.noConfusion
    have hset : setState r (.after outcome) u = .ok () ((setState r (.after outcome)).after u) := rfl
    have hleft : ((setState r (.after outcome)).after u).generator r =
        { s.generator r with state := .after outcome, started := true } := by
      have hinU : r.index < u.generators.size := Nat.lt_of_lt_of_le (hsize.symm ▸ hin) honward.size
      refine (generator_set (g := { u.generator r with state := .after outcome })).trans ?_
      rw [if_pos ⟨rfl, hinU⟩, hsame]
    have hrunningU : (u.generator r).state = .running := by rw [hsame]
    have hends := Resumes.goesOn (n := n) hstate hwake hattempt hrunningU hset hleft
    have hresume : resume (n + 1) r s = match outcome with
        | .ok (k, _) => .ok k ((setState r (.after outcome)).after u)
        | .error e => .error e ((setState r (.after outcome)).after u) := by
      unfold resume
      rw [bind_ok hwake, bind_ok hattempt, bind_ok hset]
      cases outcome <;> rfl
    rw [hresume]
    exact hends

/-- The next item of a generator is the next value that its body yields. -/
theorem nextItem_generator (h : (s.generator r).state ≠ .finished) (n : Nat) :
    nextItem (n + 1) (.generator r) s = (Completion.item <$> resume n r) s := by
  have hget : (get : Exec Store) s = .ok s s := rfl
  unfold nextItem
  refine (bind_ok hget).trans ?_
  rw [map_eq_pure_bind]
  cases hstate : (s.generator r).state with
  | finished => contradiction
  | suspended | running =>
    refine congrFun (bind_congr fun k => ?_) s
    cases k <;> rfl

theorem nextItem_finished (h : (s.generator r).state = .finished) (n : Nat) :
    nextItem (n + 1) (.generator r) s = .ok none s := by
  have hget : (get : Exec Store) s = .ok s s := rfl
  unfold nextItem
  refine (bind_ok hget).trans ?_
  rw [h]
  rfl

theorem no_asks_of_finished (h : (s.generator r).state = .finished) (n : Nat) (g : Stage) :
    ¬ Stage.Asks ⟨n, .resume r, s⟩ g := by
  intro hask
  cases hask with
  | wakes hwake =>
    obtain ⟨-, ⟨f, hf, -⟩, -⟩ := woken hwake
    simp [h] at hf

/-- A frame that has yielded stands right after the instruction that yields. Its names are as they were
there, and only the value has been taken from its stack. -/
theorem yielded_frame (h : execute n f t = .ok (.yielded v, g) u) : ∃ es b w rest,
    Course f (t.entered f) es b w ∧ b.code.object.instructions[b.pc]? = some .yieldValue ∧
      b.stack = v :: rest ∧ g = { b with pc := b.pc + 1, stack := rest } := by
  rcases execute_cases n f t with ⟨e, hrefused⟩ | ⟨-, m, q, w, rfl, hrun, hexecute⟩
  · rw [hrefused] at h
    cases h
  rw [hexecute, leaveFrame_run] at h
  obtain ⟨b, result⟩ := q
  cases result with
  | error e => cases h
  | ok k =>
    cases h
    rcases course_of_runFrame hrun with hspent | ⟨es, b, w, m, hcourse, hturn⟩
    · cases hspent
    obtain ⟨i, hi, hsize, hdoes⟩ := Likeness.performs_of_step (step_of_yielded hturn)
    obtain rfl := eq_yield_of_does hdoes
    obtain ⟨x, htaken, haction⟩ := hdoes
    cases hstack : b.stack with
    | nil =>
      rw [hstack] at htaken
      cases htaken
    | cons y rest =>
      rw [hstack] at htaken
      cases htaken
      cases haction
      refine ⟨es, b, w, rest, hcourse, hi, hstack, ?_⟩
      simp [Frame.drop, Code.Instr.takes, hstack]

end Resuming

section Histories

variable {s t : Store} {r : GeneratorRef} {g h : Stage}

theorem onward_of_steps (h : Relation.ReflTransGen HostStep s t) : s.Onward t := by
  induction h with
  | refl => exact Change.onward.refl s
  | tail _ hstep ih => exact ih.trans hstep.onward

/-- A generator that is finished is finished at every stage of every later run. -/
theorem finished_later (hin : r.index < s.generators.size) (hs : (s.generator r).state = .finished)
    (hsteps : Relation.ReflTransGen HostStep s g.store) (hh : g.Comes h) :
    (h.store.generator r).state = .finished := by
  have honward := onward_of_steps hsteps
  have hsame : g.store.generator r = s.generator r := by
    apply (honward.generator r hin).still
    simp [hs]
  have hstill : ∀ f, (g.store.generator r).state ≠ .suspended f := by simp [hsame, hs]
  obtain ⟨hlater, -⟩ := still_of_comes hh (Nat.lt_of_lt_of_le hin honward.size) hstill
  rw [hlater, hsame, hs]

end Histories

/-- Generators are safe, whatever resumes them or asks for their items, and wherever it does.
A resumption comes to what the state of the generator says, and a generator that runs already is not
changed by it, nor is anything else. The generator runs from when it is woken until its frame has
stopped, and its frame is not executed meanwhile. A frame that has yielded is held as it was at the
yield, right after it, and nothing but the next resumption makes anything of it. A generator that is
finished stays so at every stage of every later run, and nothing is run for it. -/
theorem generators_safe :
    (∀ n r s, Resumes n r s (resume (n + 1) r s)) ∧
    (∀ n r s, (s.generator r).state ≠ .finished →
      nextItem (n + 1) (.generator r) s = (Completion.item <$> resume n r) s) ∧
    (∀ {r s f t n h}, wake r s = .ok f t → Stage.Comes ⟨n, .execute f, t⟩ h →
      (h.store.generator r).state = .running) ∧
    (∀ {g : Stage} {n f s k f' t}, Visited g.store → g.task.IsWhole → g.Comes ⟨n, .frame f, s⟩ →
      f'.id = f.id → ¬ Stage.Comes ⟨n, .frame f, s⟩ ⟨k, .execute f', t⟩) ∧
    (∀ {n f t v g u}, execute n f t = .ok (.yielded v, g) u → ∃ es b w rest,
      Course f (t.entered f) es b w ∧ b.code.object.instructions[b.pc]? = some .yieldValue ∧
      b.stack = v :: rest ∧ g = { b with pc := b.pc + 1, stack := rest }) ∧
    (∀ {s t}, HostStep s t → s.Onward t) ∧ (∀ g : Stage, g.store.Onward g.after) ∧
    ∀ {r s} {g h : Stage}, r.index < s.generators.size → (s.generator r).state = .finished →
      Relation.ReflTransGen HostStep s g.store → g.Comes h →
      (h.store.generator r).state = .finished ∧
      ∀ n, resume (n + 1) r h.store =
          .error (.raised ⟨.stopIteration, "", none, false⟩) h.store ∧
        nextItem (n + 1) (.generator r) h.store = .ok none h.store ∧
        ∀ k, ¬ Stage.Asks ⟨n, .resume r, h.store⟩ k := by
  refine ⟨resume_resumes, ?_, running_inside, ?_, yielded_frame, HostStep.onward, onward_stage, ?_⟩
  · intro n r s hs
    exact nextItem_generator hs n
  · intro g n f s k f' t hs hg ha hid hb
    exact ne_of_comes hs hg ha hb hid
  · intro r s g h hin hs hsteps hh
    have hfinished := finished_later hin hs hsteps hh
    refine ⟨hfinished, fun n => ⟨?_, ?_, ?_⟩⟩
    · exact resume_finished hfinished n
    · exact nextItem_finished hfinished n
    · exact no_asks_of_finished hfinished n

/-- A module that makes a generator, which yields once and then asks for its own next item. -/
def selfish : String := "def g() \x7b\n yield 1\n next(x)\n\x7d\nx = g()"

def selfishMade (c : Code.Object) : Store :=
  Stage.after ⟨60, .module ⟨.unit 0, .unit 0, c⟩ ⟨0⟩, watchedStore⟩

def selfishYields (c : Code.Object) : Bool :=
  match wake ⟨0⟩ (selfishMade c) with
  | .error _ _ => false
  | .ok f t => t.depth < t.limit &&
    match execute 50 f t with
    | .ok (.yielded _, _) _ => true
    | _ => false

def selfishFailed (c : Code.Object) : Store :=
  Stage.after ⟨51, .resume ⟨0⟩, Stage.after ⟨51, .resume ⟨0⟩, selfishMade c⟩⟩

def selfishEnds (c : Code.Object) : Bool :=
  0 < (selfishFailed c).generators.size &&
    match ((selfishFailed c).generator ⟨0⟩).state with
    | .finished => true
    | _ => false

theorem generators_safe_selfish : ∃ c f t v g u, moduleCode selfish = some c ∧
    wake ⟨0⟩ (selfishMade c) = .ok f t ∧ (t.generator ⟨0⟩).state = .running ∧
    resume 51 ⟨0⟩ t =
      .error (.raised ⟨.valueError, "generator already executing", none, false⟩) t ∧
    (∀ k t', ¬ Stage.Comes ⟨49, .frame f, t.entered f⟩ ⟨k, .execute f, t'⟩) ∧
    execute 50 f t = .ok (.yielded v, g) u ∧
    (∃ es b w rest, Course f (t.entered f) es b w ∧
      b.code.object.instructions[b.pc]? = some .yieldValue ∧
      b.stack = v :: rest ∧ g = { b with pc := b.pc + 1, stack := rest }) ∧
    (selfishMade c).Onward (selfishFailed c) ∧
    ∀ n, resume (n + 1) ⟨0⟩ (selfishFailed c) =
      .error (.raised ⟨.stopIteration, "", none, false⟩) (selfishFailed c) := by
  have hruns : (moduleCode selfish).any (fun c => selfishYields c && selfishEnds c) = true := by
    decide +kernel
  obtain ⟨c, hc, hruns⟩ := (Option.any_eq_true _ _).1 hruns
  obtain ⟨hyields, hends⟩ := Bool.and_eq_true_iff.1 hruns
  obtain ⟨hresumes, -, hrunning, hapart, hyielded, hstep, -, hfinished⟩ := generators_safe
  unfold selfishYields at hyields
  split at hyields
  · cases hyields
  rename_i f t hwake
  obtain ⟨hroom, hyields⟩ := Bool.and_eq_true_iff.1 hyields
  split at hyields
  case h_2 => cases hyields
  rename_i v g u hyield
  have hrun : (t.generator ⟨0⟩).state = .running := hrunning hwake (n := 50) .refl
  have hagain := hresumes 50 ⟨0⟩ t
  generalize hresult : resume 51 ⟨0⟩ t = result at hagain
  have hvisited : Visited (selfishMade c) := by
    have hwhole : Task.IsWhole (.module ⟨.unit 0, .unit 0, c⟩ ⟨0⟩) := trivial
    exact visited_watchedStore.step (.run (g := ⟨60, _, _⟩) hwhole)
  have hcomes : Stage.Comes ⟨51, .resume ⟨0⟩, selfishMade c⟩ ⟨49, .frame f, t.entered f⟩ :=
    (Relation.ReflTransGen.single (.wakes hwake)).tail (.enters (of_decide_eq_true hroom))
  have hresume : HostStep (selfishMade c) (Stage.after ⟨51, .resume ⟨0⟩, selfishMade c⟩) :=
    .run (g := ⟨51, .resume ⟨0⟩, selfishMade c⟩) trivial
  have hresume' : HostStep _ (selfishFailed c) := .run (g := ⟨51, .resume ⟨0⟩, _⟩) trivial
  unfold selfishEnds at hends
  obtain ⟨hin, hends⟩ := Bool.and_eq_true_iff.1 hends
  split at hends
  case h_2 => cases hends
  rename_i hstate
  have hover := hfinished (g := ⟨51, .resume ⟨0⟩, selfishFailed c⟩) (of_decide_eq_true hin) hstate
    .refl .refl
  refine ⟨c, f, t, v, g, u, hc, hwake, hrun, ?_, ?_, hyield, hyielded hyield,
    (hstep hresume).trans (hstep hresume'), fun n => (hover.2 n).1⟩
  · cases hagain with
    | executing => exact hresult
    | finished h | goesOn h => simp [hrun] at h
  · intro k t'
    exact hapart (g := ⟨51, .resume ⟨0⟩, selfishMade c⟩) hvisited trivial hcomes rfl

end Lexiscope.Machine
