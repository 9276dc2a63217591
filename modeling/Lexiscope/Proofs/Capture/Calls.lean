import Lexiscope.Capture.Stream
import Lexiscope.Proofs.Capture.Watching
/-!
# Calls of instrumented functions

A function is called while its body is watched, and the function with the instrumented body
without that. A generator is left suspended by such a call, and it is resumed in the same two
ways.
-/

namespace Lexiscope.Capture

open Code (Marker)
open Machine Machine.Likeness

def withCode (f : FunctionValue) (d : LoadedCode) : FunctionValue := { f with code := d }

section Entering

variable {f : FunctionValue} {d : LoadedCode} {marker : Marker}

theorem enterFunction_withCode (h : Instruments f.code d marker) (args : List Value)
    (keywords : Keywords) (s : Store) : enterFunction (withCode f d) args keywords s =
      andThen (fun g => pure (g.withCode d)) (enterFunction f args keywords s) := by
  have hbind : bindArguments (withCode f d) args keywords = bindArguments f args keywords := by
    unfold bindArguments withCode refuseSurplus takeKeywords surplus requireSlots
    simp only [h.object, Code.Object.paramCount]
    rfl
  have hmake : ∀ fast, Frame.make d f.globals fast f.closure none =
      Frame.make f.code f.globals fast f.closure none >>= fun g => pure (g.withCode d) := by
    intro fast
    unfold Frame.make
    simp only [h.object, bind_assoc, pure_bind]
    rfl
  rw [← bind_run]
  unfold enterFunction
  rw [hbind, show (withCode f d).code = d from rfl, show (withCode f d).globals = f.globals from rfl,
    show (withCode f d).closure = f.closure from rfl]
  simp only [hmake, h.object, bind_assoc, pure_bind]
  rfl

theorem classSpace_entered {args : List Value} {keywords : Keywords} {g : Frame} {s u : Store}
    (h : enterFunction f args keywords s = .ok g u) : g.classSpace = none := by
  unfold enterFunction at h
  obtain ⟨fast, t, -, h⟩ := bind_eq_ok h
  obtain ⟨frame, t', hframe, h⟩ := bind_eq_ok h
  obtain ⟨moved, t'', -, h⟩ := bind_eq_ok h
  obtain ⟨own, t₁, -, hframe⟩ := bind_eq_ok hframe
  obtain ⟨id, t₂, -, hframe⟩ := bind_eq_ok hframe
  cases hframe
  cases h
  rfl

end Entering

def awake (s : Store) (r : GeneratorRef) : Store :=
  withGenerator s r { s.generator r with state := .running, started := true }

/-- In the one store a generator is suspended in an instrumented body, in the other one in the
body itself. -/
structure Parted (r : GeneratorRef) (f : Frame) (d : LoadedCode) (marker : Marker)
    (s t : Store) : Prop where
  instruments : Instruments f.code d marker
  closed : f.code.object.Closed
  inRange : f.InRange
  classSpace : f.classSpace = none
  left : (s.generator r).state = .suspended (f.withCode d)
  right : (t.generator r).state = .suspended f
  started : (t.generator r).started = (s.generator r).started
  title : (s.generator r).code.object.qualname = (t.generator r).code.object.qualname
  alike : (loose (fun c d => c.object.qualname = d.object.qualname) fun _ _ => True).Alike
    (awake s r) (awake t r)

theorem Parted.withObservers {r : GeneratorRef} {f : Frame} {d : LoadedCode} {marker : Marker}
    {s t : Store} (h : Parted r f d marker s t) (o p : List Observer) :
    Parted r f d marker { s with observers := o } { t with observers := p } where
  instruments := h.instruments
  closed := h.closed
  inRange := h.inRange
  classSpace := h.classSpace
  left := h.left
  right := h.right
  started := h.started
  title := h.title
  alike := h.alike.withObservers trivial

/-- The call of a function that is not a coroutine or the like. -/
def entered (f : FunctionValue) (n : Nat) (g : Frame) : Exec Value :=
  if f.code.object.flags.isGenerator then
    Exec.newGenerator { code := f.code, state := .suspended g }
  else do
    match (← execute n g).1 with
    | .returned v => return v
    | .yielded _ => Exec.brokenRule "yield from a non-generator body"

theorem entered_generator {f : FunctionValue} (hf : f.code.object.flags.isGenerator = true)
    (n : Nat) (g : Frame) :
    entered f n g = Exec.newGenerator { code := f.code, state := .suspended g } :=
  if_pos hf

/-- What a body gives that is not to yield. -/
def concluding : Completion × Frame → Exec Value
  | (.returned v, _) => return v
  | (.yielded _, _) => Exec.brokenRule "yield from a non-generator body"

theorem entered_other {f : FunctionValue} (hf : f.code.object.flags.isGenerator = false)
    (n : Nat) (g : Frame) : entered f n g = execute n g >>= concluding := by
  have hentered : entered f n g = execute n g >>= fun k =>
      match k.1 with
      | .returned v => return v
      | .yielded _ => Exec.brokenRule "yield from a non-generator body" := by
    unfold entered
    rw [if_neg (by simp [hf])]
  rw [hentered]
  congr 1
  funext ⟨k, _⟩
  cases k <;> rfl

theorem callFunction_succ {f : FunctionValue} (hc : checkBody f.code.object = .ok ()) (n : Nat)
    (args : List Value) (keywords : Keywords) (s : Store) :
    callFunction (n + 1) f args keywords s =
      andThen (entered f n) (enterFunction f args keywords s) := by
  have hflags : (f.code.object.flags.isCoroutine || f.code.object.flags.isAsyncGenerator) =
      false := by
    unfold checkBody at hc
    split at hc
    · cases hc
    · split at hc
      · cases hc
      · simp_all
  unfold callFunction
  simp only [hflags, Bool.false_eq_true, if_false]
  rw [← bind_run]
  unfold entered
  rfl

/-- How the call of an instrumented function ended, and how that of the function did. -/
inductive CallEnds (f : FunctionValue) (d : LoadedCode) (marker : Marker) :
    EStateM.Result Halt Store Value → EStateM.Result Halt Store Value → Prop where
  | captured {names w v s t} : f.code.object.flags.isGenerator = false →
    Captured f.code.id marker names w v s t → CallEnds f d marker (.ok w s) (.ok v t)
  | suspended {r g s t locals rest} : f.code.object.flags.isGenerator = true →
    g.code = f.code → Parted r g d marker s t →
    t.observers = .capture true f.code.id none locals :: rest →
    CallEnds f d marker (.ok (.generator r) s) (.ok (.generator r) t)
  | error {e s t} : SameEffects none s t → CallEnds f d marker (.error e s) (.error e t)

section Calls

variable {f : FunctionValue} {d : LoadedCode} {marker : Marker} {s t : Store}

theorem generator_push (s : Store) (g : Generator) :
    ({ s with generators := s.generators.push g } : Store).generator ⟨s.generators.size⟩ = g := by
  rw [Store.generator, getD_push, if_pos rfl]

theorem parted_new {frame : Option Nat} {g : Frame} (h : Instruments f.code d marker)
    (hc : f.code.object.Closed) (hg : g.code = f.code) (hpc : g.pc = 0)
    (hspace : g.classSpace = none) (ha : (watching f.code.id frame).Alike s t) :
    Parted ⟨s.generators.size⟩ g d marker
      { s with generators := s.generators.push { code := d, state := .suspended (g.withCode d) } }
      { t with generators := t.generators.push { code := f.code, state := .suspended g } } := by
  have hsize : t.generators.size = s.generators.size := ha.size
  have hs := generator_push s { code := d, state := .suspended (g.withCode d) }
  have ht := generator_push t { code := f.code, state := .suspended g }
  rw [hsize] at ht
  have htitle : d.object.qualname = f.code.object.qualname := by rw [h.object]
  refine ⟨hg ▸ h, hg ▸ hc, ?_, hspace, by rw [hs], by rw [ht], by rw [hs, ht], ?_, ?_⟩
  · rw [Frame.InRange, hpc, hg]
    exact hc.nonempty
  · rw [hs, ht]
    exact htitle
  · refine ⟨?_, loose_values _, ?_, fun q => ?_, trivial⟩
    · rw [ha.rest]
      rfl
    · simp [awake, withGenerator, hsize]
    · simp only [awake, generator_withGenerator, hs, ht, Array.size_push, hsize]
      split
      · exact ⟨htitle, rfl, rfl, fun _ _ => trivial⟩
      · rename_i hq
        have hq' : q.index ≠ s.generators.size := fun hi => hq ⟨hi.symm, by omega⟩
        simp only [Store.generator, getD_push, hsize, if_neg hq']
        have hr := ha.generator q
        exact ⟨hr.code, hr.state, hr.started, fun _ _ => trivial⟩

theorem callFunction_endAlike (h : Instruments f.code d marker) (hc : f.code.object.Closed)
    (hbody : checkBody f.code.object = .ok ()) (ha : (watching f.code.id none).Alike s t)
    (args : List Value) (keywords : Keywords) :
    EndAlike (CallEnds f d marker) RanOut RanOut
      (fun n => callFunction n (withCode f d) args keywords s)
      (fun n => callFunction n f args keywords t) := by
  have hbody' : checkBody d.object = .ok () := by
    rw [h.object]
    exact hbody
  refine .succ ?_ ⟨s, rfl⟩ ⟨t, rfl⟩
  simp only [callFunction_succ hbody, callFunction_succ (f := withCode f d) hbody',
    enterFunction_withCode h]
  -- Arguments are bound before any code of the body runs, so both calls make the same frame.
  have hagree : ∀ {L : Likeness}, L.Lawful → (∀ h, L.halt h) → (∀ v, L.value v) →
      L.Agree (fun g => g.code = f.code ∧ g.pc = 0) (enterFunction f args keywords)
        (enterFunction f args keywords) := by
    intro L hL hhalt hvalue
    refine (agree_enterFunction hL (.inl hhalt) (fun _ _ => hvalue _) (fun _ _ => hvalue _)
      (fun _ _ => hvalue _) fun _ _ => hvalue _).mono ?_
    exact fun g hg => ⟨hg.code, hg.pc⟩
  have hboth := ha.both (x := enterFunction f args keywords)
    (hagree watching_lawful (fun _ => trivial) fun _ => trivial)
    (hagree (loose_lawful (fun _ => rfl) fun _ _ h => h.symm) (fun _ => trivial) fun _ => trivial)
  rcases hboth with ⟨hs, ht⟩ | ⟨g, u, v, hs, ht, ⟨hg, hpc⟩, ha'⟩ | ⟨e, u, v, hs, ht, ha'⟩
  · exact .never (fun n => (hs.andThen _).andThen _) fun n => ht.andThen _
  · have hspace := classSpace_entered hs
    simp only [hs, ht, andThen]
    change EndAlike _ _ _ (fun n => entered (withCode f d) n (g.withCode d) u) _
    have hkind : (withCode f d).code.object.flags = f.code.object.flags := by
      change d.object.flags = f.code.object.flags
      rw [h.object]
    cases hgenerator : f.code.object.flags.isGenerator with
    | true =>
      obtain ⟨locals, rest, ho⟩ := ha'.observers
      have hends := CallEnds.suspended hgenerator hg (parted_new h hc hg hpc hspace ha') ho
      have hsize : v.generators.size = u.generators.size := ha'.size
      have hnew : ∀ c, Exec.newGenerator c v = .ok (.generator ⟨u.generators.size⟩)
          { v with generators := v.generators.push c } := by
        intro c
        rw [← hsize]
        rfl
      simp only [entered_generator hgenerator, entered_generator (hkind ▸ hgenerator), hnew]
      exact .const hends
    | false =>
      have hrange : g.InRange := by
        rw [Frame.InRange, hpc, hg]
        exact hc.nonempty
      have hwatched : (watching g.code.id none).Alike u v := hg ▸ ha'
      have hends := execute_endAlike (hg ▸ h) (hg ▸ hc) hrange hspace hwatched (.inl rfl)
      simp only [entered_other hgenerator, entered_other (hkind ▸ hgenerator), bind_run]
      refine hends.map (fun _ hr => hr.andThen _) (fun _ hr => hr.andThen _) ?_
      intro a b hab
      cases hab with
      | yielded _ _ ha => exact .error (.of_alike (fun _ _ h => h) ha)
      | returned hcaptured => exact .captured hgenerator (hg ▸ hcaptured)
      | error heffects => exact .error heffects
  · simp only [hs, ht, andThen]
    exact .const (.error (.of_alike (fun _ _ h => h) ha'))

end Calls

def resumed (r : GeneratorRef) :
    EStateM.Result Halt Store (Completion × Frame) → EStateM.Result Halt Store Completion
  | .ok k u => .ok k.1 (withState u r (.after (.ok k)))
  | .error e u => .error e (withState u r .finished)

def wakened (isStarted : Bool) (f : Frame) : Frame := if isStarted then f.push .none else f

theorem resume_succ {r : GeneratorRef} {f : Frame} {s : Store}
    (h : (s.generator r).state = .suspended f) (n : Nat) :
    resume (n + 1) r s =
      resumed r (execute n (wakened (s.generator r).started f) (awake s r)) := by
  have hwake : wake r s = .ok (wakened (s.generator r).started f) (awake s r) := by
    rw [wake_run, h]
    rfl
  unfold resume
  rw [bind_ok hwake, attempt_bind]
  cases execute n (wakened (s.generator r).started f) (awake s r) with
  | ok k u => rfl
  | error e u => rfl

/-- How a step of a generator with an instrumented body ended, and how that of the generator
did. -/
inductive ResumeEnds (r : GeneratorRef) (d : LoadedCode) (marker : Marker) (f : Frame) :
    EStateM.Result Halt Store Completion → EStateM.Result Halt Store Completion → Prop where
  | yielded {g v s t locals rest} : f.SameBody g → Parted r g d marker s t →
    t.observers = .capture true f.code.id (some f.id) locals :: rest →
    ResumeEnds r d marker f (.ok (.yielded v) s) (.ok (.yielded v) t)
  | returned {names w v s t} : Captured f.code.id marker names w v s t →
    ResumeEnds r d marker f (.ok (.returned w) s) (.ok (.returned v) t)
  | error {e s t} : SameEffects none s t →
    ResumeEnds r d marker f (.error e s) (.error e t)

section Resuming

variable {r : GeneratorRef} {f : Frame} {d : LoadedCode} {marker : Marker} {s t : Store}

theorem awake_withState {s : Store} (state : GeneratorState) (hr : r.index < s.generators.size) :
    awake (withState s r state) r = awake s r := by
  have hg : (withState s r state).generator r = { s.generator r with state } := by
    rw [withState, generator_withGenerator, if_pos ⟨rfl, hr⟩]
  unfold awake
  rw [hg]
  unfold withState withGenerator
  simp

theorem inBounds_of_started (h : (s.generator r).started = true) :
    r.index < s.generators.size := by
  refine Nat.lt_of_not_le fun hi => ?_
  rw [Store.generator, Array.getD_eq_getD_getElem?, Array.getElem?_eq_none hi] at h
  cases h

theorem parted_yielded {g : Frame} {frame : Option Nat} {u v : Store}
    (h : Parted r f d marker u v)
    (hg : f.SameBody g) (hrange : g.InRange) (hr : r.index < t.generators.size)
    (ha : (watching f.code.id frame).Alike s t) :
    Parted r g d marker (withState s r (.suspended (g.withCode d)))
      (withState t r (.suspended g)) := by
  have hsize : t.generators.size = s.generators.size := ha.size
  have hs : ∀ state, (withState s r state).generator r = { s.generator r with state } := by
    intro state
    rw [withState, generator_withGenerator, if_pos ⟨rfl, by omega⟩]
  have ht : ∀ state, (withState t r state).generator r = { t.generator r with state } := by
    intro state
    rw [withState, generator_withGenerator, if_pos ⟨rfl, hr⟩]
  have hsame := ha.generator r
  refine ⟨hg.code ▸ h.instruments, hg.code ▸ h.closed, hrange, hg.classSpace.trans h.classSpace,
    by rw [hs], by rw [ht], by rw [hs, ht, hsame.started], ?_, ?_⟩
  · rw [hs, ht]
    exact hsame.code
  · rw [awake_withState _ (by omega), awake_withState _ hr]
    have hset : (watching f.code.id frame).SameGenerator
        { s.generator r with state := .running, started := true }
        { t.generator r with state := .running, started := true } :=
      ⟨hsame.code, rfl, rfl, fun _ _ => trivial⟩
    obtain ⟨-, hawake⟩ := ha.setGenerator r hset fun _ => rfl
    exact hawake.withObservers trivial

theorem resume_endAlike {frame : Option Nat} {locals : Option NameMap} {rest : List Observer}
    (h : Parted r f d marker s t)
    (ho : t.observers = .capture true f.code.id frame locals :: rest)
    (hframe : frame = none ∨ frame = some f.id) :
    EndAlike (ResumeEnds r d marker f) RanOut RanOut (fun n => resume n r s)
      (fun n => resume n r t) := by
  refine .succ ?_ ⟨s, rfl⟩ ⟨t, rfl⟩
  simp only [resume_succ h.left, resume_succ h.right, h.started]
  generalize (s.generator r).started = isStarted
  have hbody : f.SameBody (wakened isStarted f) := by
    cases isStarted <;> exact ⟨rfl, rfl, rfl, rfl, rfl⟩
  have hrange : (wakened isStarted f).InRange := by
    cases isStarted <;> exact h.inRange
  have hcode : wakened isStarted (f.withCode d) = (wakened isStarted f).withCode d := by
    cases isStarted <;> rfl
  have hwatched : (watching (wakened isStarted f).code.id frame).Alike (awake s r) (awake t r) := by
    rw [hbody.code]
    exact h.alike.withObservers ⟨locals, rest, ho⟩
  have hends := execute_endAlike (show Instruments _ d marker from hbody.code ▸ h.instruments)
    (hbody.code ▸ h.closed) hrange (hbody.classSpace.trans h.classSpace) hwatched
    (hbody.id ▸ hframe)
  have hstarted : ((awake t r).generator r).started = true := by
    rw [awake, generator_withGenerator, if_pos ⟨rfl, suspended_inBounds h.right⟩]
  have hbounds : ∀ n k u, execute n (wakened isStarted f) (awake t r) = .ok k u →
      r.index < u.generators.size :=
    fun n k u hrun => inBounds_of_started ((before_of_execute hrun).started r hstarted)
  rw [hcode]
  refine (hends.and_right (p := fun b => ∀ k u, b = .ok k u → r.index < u.generators.size)
    hbounds).map ?_ ?_ ?_
  · rintro _ ⟨u, rfl⟩
    exact ⟨_, rfl⟩
  · rintro _ ⟨u, rfl⟩
    exact ⟨_, rfl⟩
  · rintro a b ⟨hab, hr⟩
    cases hab with
    | yielded hsame hrange ha =>
      rw [hbody.code, hbody.id] at ha
      obtain ⟨locals, rest, ho⟩ := ha.observers
      exact .yielded (hbody.trans hsame)
        (parted_yielded h (hbody.trans hsame) hrange (hr _ _ rfl) ha) ho
    | returned hcaptured =>
      rw [hbody.code] at hcaptured
      obtain ⟨hvalue, hnodup, heffects, hobservers⟩ := hcaptured
      exact .returned ⟨hvalue, hnodup, heffects.withState r _, hobservers⟩
    | error heffects => exact .error (heffects.withState r _)

end Resuming

end Lexiscope.Capture
