import Lexiscope.Proofs.Capture.Direct
import Lexiscope.Proofs.Capture.Draining
/-!
# Streams and the generators in them

A stream gives the values that the same generator gives which is made of the function by itself, on the
same bindings and arguments, and resumed by itself. When the body returns, the stream has its scope.
-/

namespace Lexiscope.Capture

open Code (Marker)
open Machine Machine.Likeness

def beside : Likeness :=
  loose (fun c d => c.object.qualname = d.object.qualname) fun _ _ => True

def goOn (r : GeneratorRef) : Nat → Exec (Completion × Frame)
  | 0 => throw .outOfFuel
  | n + 1 => wake r >>= execute n

/-- The scope has what is known outside of the body, and the value and the local names with which the
body has returned. -/
structure View.Holds (view : View) (seed : Seed) (v : Value) (names : NameMap) : Prop where
  outer : view.outer = seed.outer
  inner : view.inner = seed.closures.foldl OrderedMap.erase names
  returned : view.returned = v

/-- How a step of a stream ended, and how that of the generator by itself did. -/
inductive StepFollows (seed : Seed) (r : GeneratorRef) (p : Stream → Store → Store → Prop) :
    EStateM.Result Halt Store (Item × Stream) → EStateM.Result Halt Store (Completion × Frame) →
    Prop where
  | yielded {v g s f t} : p g s (withState t r (.suspended f)) →
    StepFollows seed r p (.ok (.value v, g) s) (.ok (.yielded v, f) t)
  | returned {v g s f t view} : g.isFinished = true → g.view = some view →
    view.Holds seed v (f.locals t) →
    StepFollows seed r p (.ok (.ended, g) s) (.ok (.returned v, f) t)
  | failed {e g s t} : g.isFinished = true → g.view = none →
    StepFollows seed r p (.ok (.failed (.ofHalt e), g) s) (.error e t)

/-- A stream watches the body of the generator, which in the second store is suspended at the same
place. -/
inductive Watches (seed : Seed) (r : GeneratorRef) : Stream → Store → Store → Prop where
  | suspended {f frame locals s t} : f.code.object.Closed →
    (t.generator r).state = .suspended f → beside.Alike t s → (frame = none ∨ frame = some f.id) →
    Watches seed r ⟨r, .trace f.code.id frame locals, seed, none, false⟩ s t

/-- A stream is beside the generator: it watches its body, or has a twin that does. -/
def Beside (seed : Seed) (r : GeneratorRef) (g : Stream) (s t : Store) : Prop :=
  Watches seed r g s t ∨ ∃ h u, Twins g s h u ∧ Watches seed r h u t

section Steps

variable {seed : Seed} {r : GeneratorRef} {g h : Stream} {f : Frame} {s t u : Store} {n : Nat}

theorem goOn_succ (h : (s.generator r).state = .suspended f) (n : Nat) :
    goOn r (n + 1) s = execute n (wakened (s.generator r).started f) (awake s r) := by
  have hwake : wake r s = .ok (wakened (s.generator r).started f) (awake s r) := by
    rw [wake_run, h]
    rfl
  exact bind_ok hwake

theorem beside_withState (h : beside.Alike t s) (r : GeneratorRef) (state : GeneratorState) :
    beside.Alike (withState t r state) (withState s r state) := by
  have hr := h.generator r
  have hset : beside.SameGenerator { t.generator r with state } { s.generator r with state } :=
    ⟨hr.code, rfl, hr.started, fun _ _ => trivial⟩
  exact (h.setGenerator r hset id).2

theorem beside_awake (h : beside.Alike t s) (r : GeneratorRef) :
    beside.Alike (awake t r) (awake s r) := by
  have hset : beside.SameGenerator { t.generator r with state := .running, started := true }
      { s.generator r with state := .running, started := true } :=
    ⟨(h.generator r).code, rfl, rfl, fun _ _ => trivial⟩
  exact (h.setGenerator r hset fun _ => rfl).2

theorem seen_withState (p : Probe) (r : GeneratorRef) (state : GeneratorState) :
    p.seen (withState s r state) = p.seen s := by
  cases p <;> rfl

theorem leave_withState (p : Probe) (r : GeneratorRef) (state : GeneratorState) :
    p.leave (withState s r state) = withState (p.leave s) r state := by
  cases p <;> rfl

/-- What a stream gives that watches the body, when the body has come to an end or to a yield. -/
theorem drawn_watched {frame : Option Nat} {locals : Option NameMap} {F : Frame}
    {a b : EStateM.Result Halt Store (Completion × Frame)} (hc : f.code.object.Closed)
    (hbody : f.SameBody F) (hin : ∀ k u, b = .ok k u → r.index < u.generators.size)
    (hab : WatchEnds F a b) :
    StepFollows seed r (Watches seed r)
      (drawn ⟨r, .trace f.code.id frame locals, seed, none, false⟩ (resumed r a)) b := by
  cases hab with
  | @yielded v g s t hsame ha =>
    have hg := hbody.trans hsame
    rw [hbody.code, hbody.id, ← hg.code, ← hg.id] at ha
    obtain ⟨locals', rest, ho⟩ := ha.observers
    have hgenerator : (withState t r (.suspended g)).generator r =
        { t.generator r with state := .suspended g } := by
      rw [withState, generator_withGenerator, if_pos ⟨rfl, hin _ _ rfl⟩]
    have hbeside : beside.Alike t { s with observers := rest } :=
      ha.withObservers (o := t.observers) trivial
    have hprobe : (Probe.trace f.code.id frame locals).seen s =
        .trace g.code.id (some g.id) locals' := by
      simp only [Probe.seen, ho]
    have hstore : (Probe.trace f.code.id frame locals).leave s = { s with observers := rest } := by
      simp only [Probe.leave, ho, List.tail_cons]
    refine .yielded ?_
    dsimp only
    rw [seen_withState, leave_withState, hprobe, hstore]
    exact .suspended (hg.code ▸ hc) (congrArg Generator.state hgenerator) (beside_withState hbeside r _)
      (.inr rfl)
  | @returned v g s t rest ho =>
    have hprobe : (Probe.trace f.code.id frame locals).seen s =
        .trace F.code.id (some F.id) (some (g.locals t)) := by
      simp only [Probe.seen, ho]
    simp only [resumed, drawn, Stream.ending, Seed.view, seen_withState, hprobe, Probe.finish,
      Option.map_some]
    exact .returned rfl rfl ⟨rfl, rfl, rfl⟩
  | @error e s t => exact .failed rfl rfl

theorem next_watches (h : Watches seed r g s t) :
    EndAlike (StepFollows seed r (Watches seed r)) DrawRanOut RanOut (fun n => g.next n s)
      (fun n => goOn r n t) := by
  cases h with
  | @suspended f frame locals s t hc hstate ha hframe =>
    have hsame := ha.generator r
    let watched : Store := { s with observers := .capture true f.code.id frame locals :: s.observers }
    have hleft : (watched.generator r).state = .suspended f := hsame.state.trans hstate
    have hstarted : (watched.generator r).started = (t.generator r).started := hsame.started
    simp only [next_run]
    refine .succ ?_ ⟨_, _, rfl⟩ ⟨_, rfl⟩
    change EndAlike _ _ _ (fun n => drawn _ (resume (n + 1) r watched)) _
    simp only [resume_succ hleft, goOn_succ hstate, hstarted]
    generalize hisStarted : (t.generator r).started = isStarted
    have hbody : f.SameBody (wakened isStarted f) := by
      cases isStarted <;> exact ⟨rfl, rfl, rfl, rfl, rfl⟩
    have hwatched : (watching (wakened isStarted f).code.id frame).Alike (awake t r)
        (awake watched r) := by
      rw [hbody.code]
      exact (beside_awake ha r).withObservers (o := t.observers) ⟨locals, s.observers, rfl⟩
    have hends := execute_watchedAlike (hbody.code ▸ hc) hwatched (hbody.id ▸ hframe)
    have hwoken : ((awake t r).generator r).started = true := by
      rw [awake, generator_withGenerator, if_pos ⟨rfl, suspended_inBounds hstate⟩]
    have hbounds : ∀ n k u, execute n (wakened isStarted f) (awake t r) = .ok k u →
        r.index < u.generators.size :=
      fun n k u hrun => inBounds_of_started ((before_of_execute hrun).started r hwoken)
    have hboth := hends.and_right (p := fun b => ∀ k u, b = .ok k u → r.index < u.generators.size)
      hbounds
    refine hboth.map (f := fun a => drawn _ (resumed r a)) (g := id) ?_ (fun _ h => h) ?_
    · rintro _ ⟨u, rfl⟩
      exact ⟨_, _, rfl⟩
    · rintro a b ⟨hab, hin⟩
      exact drawn_watched hc hbody hin hab

theorem SameView.holds {v w : View} {x : Value} {names : NameMap} (h : SameView v w)
    (hw : w.Holds seed x names) : v.Holds seed x names :=
  ⟨h.outer.trans hw.outer, h.inner.trans hw.inner, h.returned.trans hw.returned⟩

theorem stepFollows_of_twins {a b : EStateM.Result Halt Store (Item × Stream)}
    {c : EStateM.Result Halt Store (Completion × Frame)} (hab : StepEnds a b)
    (hbc : StepFollows seed r (Watches seed r) b c) : StepFollows seed r (Beside seed r) a c := by
  cases hab with
  | item hclean htwins =>
    cases hbc with
    | yielded hwatches => exact .yielded (.inr ⟨_, _, htwins, hwatches⟩)
    | returned hfinished hview hholds =>
      cases htwins with
      | suspended => cases hfinished
      | failed _ _ _ hnone =>
        rw [hnone] at hview
        cases hview
      | ended hg _ hv hw hsame =>
        obtain rfl := Option.some.inj (hw.symm.trans hview)
        exact .returned hg hv (hsame.holds hholds)
    | failed hfinished hnone =>
      cases htwins with
      | suspended => cases hfinished
      | failed hg _ hv _ => exact .failed hg hv
      | ended _ _ _ hw =>
        rw [hw] at hnone
        cases hnone

theorem next_beside (h : Beside seed r g s t) :
    EndAlike (StepFollows seed r (Beside seed r)) DrawRanOut RanOut (fun n => g.next n s)
      (fun n => goOn r n t) := by
  rcases h with hwatches | ⟨h, u, htwins, hwatches⟩
  · refine (next_watches hwatches).map (f := id) (g := id) (fun _ h => h) (fun _ h => h) ?_
    intro a b hab
    cases hab with
    | yielded h => exact .yielded (.inl h)
    | returned hg hv hholds => exact .returned hg hv hholds
    | failed hg hv => exact .failed hg hv
  · have hforth : ∀ a b, StepEnds a b → ¬ DrawRanOut a → ¬ DrawRanOut b := by
      intro a b hab ha
      cases hab with
      | item =>
        rintro ⟨g', s', hspent⟩
        cases hspent
        exact ha ⟨_, _, rfl⟩
    have hback : ∀ b c, StepFollows seed r (Watches seed r) b c → ¬ RanOut c → ¬ DrawRanOut b := by
      rintro b c hbc hc ⟨g', s', rfl⟩
      generalize hi : Item.failed (.body .outOfFuel) = i at hbc
      cases hbc with
      | yielded | returned => cases hi
      | failed =>
        injection hi with he
        obtain rfl := eq_of_ofHalt he.symm
        exact hc ⟨_, rfl⟩
    have hboth := (next_endAlike htwins).trans (next_watches hwatches) hforth hback
    refine hboth.map (f := id) (g := id) (fun _ h => h) (fun _ h => h) ?_
    rintro a c ⟨b, hab, -, hbc⟩
    exact stepFollows_of_twins hab hbc

end Steps

/-- The generator is resumed again and again, and yields the values. -/
inductive Yields (r : GeneratorRef) : Store → List Value → Store → Prop where
  | none {s} : Yields r s [] s
  | next {n s v t vs u} : resume n r s = .ok (.yielded v) t → Yields r t vs u → Yields r s (v :: vs) u

/-- The generator is resumed, and its body returns a value, with these local names. -/
inductive Returns (r : GeneratorRef) (s : Store) : Value → NameMap → Prop where
  | returns {n f v g t u w} : wake r s = .ok f t → execute n f t = .ok (.returned v, g) u →
    resume (n + 1) r s = .ok (.returned v) w → Returns r s v (g.locals u)

/-- The generator is resumed, and its body stops without a value. -/
def Raises (r : GeneratorRef) (s : Store) (e : Halt) : Prop :=
  e ≠ .outOfFuel ∧ ∃ n t, resume n r s = .error e t

/-- What may be drawn from a stream, and how it is then, if this is how the generator goes on by
itself. -/
inductive Protocol (seed : Seed) (r : GeneratorRef) (s : Store) : List Item → Stream → Prop where
  | going {vs t g} : Yields r s vs t → g.isFinished = false → g.view = none →
    Protocol seed r s (vs.map .value) g
  | returned {vs t v names g view k} : Yields r s vs t → Returns r t v names →
    g.isFinished = true → g.view = some view → view.Holds seed v names →
    Protocol seed r s (vs.map .value ++ .ended :: List.replicate k .ended) g
  | failed {vs t e g k} : Yields r s vs t → Raises r t e → g.isFinished = true → g.view = none →
    Protocol seed r s (vs.map .value ++ .failed (.ofHalt e) :: List.replicate k .ended) g

section Histories

variable {seed : Seed} {r : GeneratorRef} {g g' : Stream} {f : Frame} {s s' t u : Store} {n : Nat}
  {items : List Item} {vs : List Value} {v : Value} {names : NameMap} {e : Halt}

theorem resume_of_goOn {k : Completion × Frame} (h : goOn r n s = .ok k t) :
    ∃ m f u, n = m + 1 ∧ wake r s = .ok f u ∧ execute m f u = .ok k t ∧
      resume n r s = .ok k.1 (withState t r (.after (.ok k))) := by
  cases n with
  | zero => cases h
  | succ n =>
    obtain ⟨f, u, hwake, hrun⟩ := bind_eq_ok h
    refine ⟨n, f, u, rfl, hwake, hrun, ?_⟩
    unfold resume
    rw [bind_ok hwake, attempt_bind, hrun]
    rfl

theorem resume_of_goOn_error (h : goOn r n s = .error e t) : ∃ u, resume n r s = .error e u := by
  cases n with
  | zero =>
    cases h
    exact ⟨s, rfl⟩
  | succ n =>
    cases hwake : wake r s with
    | error e' u =>
      have hstop : goOn r (n + 1) s = .error e' u := bind_error hwake
      rw [hstop] at h
      cases h
      exact ⟨_, bind_error hwake⟩
    | ok f u =>
      have hrun : execute n f u = .error e t := (bind_ok hwake).symm.trans h
      refine ⟨withState t r .finished, ?_⟩
      unfold resume
      rw [bind_ok hwake, attempt_bind, hrun]
      rfl

theorem goOn_of_resume {c : Completion} (h : resume n r s = .ok c t) : ∃ f u,
    goOn r n s = .ok (c, f) u ∧ t = withState u r (.after (.ok (c, f))) := by
  cases hgo : goOn r n s with
  | error e u =>
    obtain ⟨w, hresume⟩ := resume_of_goOn_error hgo
    rw [hresume] at h
    cases h
  | ok k u =>
    obtain ⟨m, f, w, -, -, -, hresume⟩ := resume_of_goOn hgo
    rw [hresume] at h
    cases h
    exact ⟨k.2, u, rfl, rfl⟩

theorem goOn_of_raises (h : Raises r s e) : ∃ n u, goOn r n s = .error e u := by
  obtain ⟨-, n, t, hresume⟩ := h
  cases hgo : goOn r n s with
  | ok k u =>
    obtain ⟨m, f, w, -, -, -, hresume'⟩ := resume_of_goOn hgo
    rw [hresume] at hresume'
    cases hresume'
  | error e' u =>
    obtain ⟨w, hresume'⟩ := resume_of_goOn_error hgo
    rw [hresume] at hresume'
    cases hresume'
    exact ⟨n, u, hgo⟩

theorem Beside.unfinished (h : Beside seed r g s t) : g.isFinished = false ∧ g.view = none := by
  rcases h with hwatches | ⟨h, u, htwins, hwatches⟩
  · cases hwatches
    exact ⟨rfl, rfl⟩
  · have hopen : h.isFinished = false := by
      cases hwatches
      rfl
    cases htwins with
    | suspended => exact ⟨rfl, rfl⟩
    | failed _ hfinished | ended _ hfinished =>
      rw [hopen] at hfinished
      cases hfinished

theorem Protocol.cons (hresume : resume n r s = .ok (.yielded v) t)
    (h : Protocol seed r t items g) : Protocol seed r s (.value v :: items) g := by
  cases h with
  | going hyields hg hv => exact .going (.next hresume hyields) hg hv
  | returned hyields hreturns hg hv hholds =>
    exact .returned (.next hresume hyields) hreturns hg hv hholds
  | failed hyields hraises hg hv => exact .failed (.next hresume hyields) hraises hg hv

theorem Beside.protocol (h : Beside seed r g s t) (hdraws : Draws g s items g' s') :
    Protocol seed r t items g' := by
  induction hdraws generalizing t with
  | none => exact .going .none h.unfinished.1 h.unfinished.2
  | @next n g s i g₁ s₁ items k u hnext hi hrest ih =>
    obtain ⟨m, hm⟩ := (next_beside h).forth n (by rw [hnext]; exact not_drawRanOut hi)
    have hfollows := hm m (Nat.le_refl m)
    rw [hnext] at hfollows
    generalize hgo : goOn r m t = b at hfollows
    cases hfollows with
    | yielded hbeside =>
      obtain ⟨_, _, _, -, -, -, hresume⟩ := resume_of_goOn hgo
      exact (ih hbeside).cons hresume
    | returned hfinished hview hholds =>
      obtain ⟨_, _, _, rfl, hwake, hrun, hresume⟩ := resume_of_goOn hgo
      obtain ⟨rfl, rfl, hitems⟩ := draws_finished hfinished hrest
      rw [hitems]
      exact .returned .none (.returns hwake hrun hresume) hfinished hview hholds
    | failed hfinished hview =>
      obtain ⟨w, hresume⟩ := resume_of_goOn_error hgo
      obtain ⟨rfl, rfl, hitems⟩ := draws_finished hfinished hrest
      rw [hitems]
      refine .failed .none ⟨?_, m, w, hresume⟩ hfinished hview
      rintro rfl
      exact hi rfl

theorem Beside.draws (h : Beside seed r g s t) (hyields : Yields r t vs u) :
    ∃ g' s', Draws g s (vs.map .value) g' s' ∧ Beside seed r g' s' u := by
  induction hyields generalizing g s with
  | none => exact ⟨g, s, .none, h⟩
  | @next n t v t₁ vs u hresume _ ih =>
    obtain ⟨f, w, hgo, rfl⟩ := goOn_of_resume hresume
    obtain ⟨m, hm⟩ := (next_beside h).back n (by rw [hgo]; rintro ⟨_, ⟨⟩⟩)
    have hfollows := hm m (Nat.le_refl m)
    rw [hgo] at hfollows
    generalize hnext : g.next m s = a at hfollows
    cases hfollows with
    | yielded hbeside =>
      obtain ⟨g', s', hdraws, hbeside'⟩ := ih hbeside
      exact ⟨g', s', .next hnext (by simp) hdraws, hbeside'⟩

theorem Beside.draws_returned (h : Beside seed r g s t) (hreturns : Returns r t v names) :
    ∃ g' s', Draws g s [.ended] g' s' := by
  cases hreturns with
  | @returns n f _ f' t' u w hwake hrun hresume =>
    have hgo : goOn r (n + 1) t = .ok (.returned v, f') u := (bind_ok hwake).trans hrun
    obtain ⟨m, hm⟩ := (next_beside h).back (n + 1) (by rw [hgo]; rintro ⟨_, ⟨⟩⟩)
    have hfollows := hm m (Nat.le_refl m)
    rw [hgo] at hfollows
    generalize hnext : g.next m s = a at hfollows
    cases hfollows with
    | returned => exact ⟨_, _, .next hnext (by simp) .none⟩

theorem Beside.draws_failed (h : Beside seed r g s t) (hraises : Raises r t e) :
    ∃ g' s', Draws g s [.failed (.ofHalt e)] g' s' := by
  obtain ⟨n, u, hgo⟩ := goOn_of_raises hraises
  have he := hraises.1
  obtain ⟨m, hm⟩ := (next_beside h).back n (by rw [hgo]; rintro ⟨_, ⟨⟩⟩; exact he rfl)
  have hfollows := hm m (Nat.le_refl m)
  rw [hgo] at hfollows
  generalize hnext : g.next m s = a at hfollows
  cases hfollows with
  | failed =>
    refine ⟨_, _, .next hnext ?_ .none⟩
    intro hitem
    injection hitem with hitem
    exact he (eq_of_ofHalt hitem)

end Histories

/-- A call of the function that a wrapper is for, on the bindings of the wrapper. Nothing is captured. -/
def Wrapped.direct (w : Wrapped) (n : Nat) (args : List Value) (keywords : Keywords) : Exec Value :=
  w.runnable w.function.code >>= fun f => callFunction n f args keywords

/-- How the call of a wrapper ended whose function makes a generator, and how that of the function
did. -/
inductive CallFollows (seed : Seed) (p : GeneratorRef → Stream → Store → Store → Prop) :
    EStateM.Result CaptureError Store Outcome → EStateM.Result Halt Store Value → Prop where
  | stream {r g s t} : p r g s t → CallFollows seed p (.ok (.stream g) s) (.ok (.generator r) t)
  | error {e s t} : CallFollows seed p (.error (.ofHalt e) s) (.error e t)

section Calls

variable {f : FunctionValue} {w : Wrapped} {s t : Store} {n : Nat}

/-- The frame of a call on the bindings of the wrapper. -/
def Wrapped.frame (w : Wrapped) (args : List Value) (keywords : Keywords) : Exec Frame :=
  w.runnable w.function.code >>= fun f => enterFunction f args keywords

theorem code_of_runnable {c : LoadedCode} (h : w.runnable c s = .ok f t) : f.code = c := by
  rw [runnable_eq] at h
  cases h
  rfl

theorem direct_zero (w : Wrapped) (args : List Value) (keywords : Keywords) (s : Store) :
    RanOut (w.direct 0 args keywords s) := by
  exact ⟨_, bind_ok (runnable_eq w w.function.code s)⟩

theorem direct_succ (hc : checkBody w.function.code.object = .ok ())
    (hf : w.function.code.object.flags.isGenerator = true) (n : Nat) (args : List Value)
    (keywords : Keywords) (s : Store) : w.direct (n + 1) args keywords s =
      andThen (fun g => Exec.newGenerator { code := w.function.code, state := .suspended g })
        (w.frame args keywords s) := by
  unfold Wrapped.direct Wrapped.frame
  rw [bind_run, bind_run]
  cases hrunnable : w.runnable w.function.code s with
  | error e t => rfl
  | ok f t =>
    have hcode := code_of_runnable hrunnable
    simp only [andThen]
    rw [callFunction_succ (hcode ▸ hc)]
    congr 1
    funext g
    rw [entered_generator (hcode ▸ hf), hcode]

theorem agree_frame {L : Likeness} (hL : L.Lawful) (hhalt : ∀ h, L.halt h) (hvalue : ∀ v, L.value v)
    (w : Wrapped) (args : List Value) (keywords : Keywords) :
    L.Agree (fun g => g.code = w.function.code) (w.frame args keywords) (w.frame args keywords) := by
  refine (agree_runnable hvalue w _).bind fun f hf => ?_
  refine (agree_enterFunction hL (.inl hhalt) (fun _ _ => hvalue _) (fun _ _ => hvalue _)
    (fun _ _ => hvalue _) fun _ _ => hvalue _).mono ?_
  intro g hg
  exact hg.code.trans hf

theorem watches_new {seed : Seed} {c : LoadedCode} {g : Frame} {locals : Option NameMap}
    {rest : List Observer} (hc : c.object.Closed) (hg : g.code = c)
    (ha : (watching c.id none).Alike s t)
    (ho : t.observers = .capture true c.id none locals :: rest) :
    Watches seed ⟨s.generators.size⟩
      ⟨⟨s.generators.size⟩, .trace c.id none locals, seed, none, false⟩
      { t with
        generators := t.generators.push { code := c, state := .suspended g }
        observers := rest }
      { s with generators := s.generators.push { code := c, state := .suspended g } } := by
  subst hg
  have hlaw : (watching g.code.id none).Lawful := watching_lawful
  have hnew := agree_newGenerator hlaw
    (g := { code := g.code, state := .suspended g }) (fun _ _ => trivial) ha
  cases hnew with
  | ok _ _ ha' =>
    have hstate := congrArg Generator.state
      (generator_push s { code := g.code, state := .suspended g })
    exact .suspended hc hstate (ha'.withObservers (o := s.observers) trivial) (.inl rfl)

theorem call_watches (hplan : w.plan = .trace) (hready : w.isReady = true)
    (hc : w.function.code.object.Closed) (hbody : checkBody w.function.code.object = .ok ())
    (hf : w.function.code.object.flags.isGenerator = true) (args : List Value)
    (keywords : Keywords) (s : Store) :
    EndAlike (CallFollows w.seed (Watches w.seed)) CallRanOut RanOut
      (fun n => w.call n args keywords s) (fun n => w.direct n args keywords s) := by
  have hstart : w.start = (w.function.code, .trace w.function.code.id none none) := by
    simp only [Wrapped.start, hplan]
  obtain ⟨u, hu⟩ : ∃ u, u = w.start.2.enter true s := ⟨_, rfl⟩
  have hcall : ∀ n, w.call n args keywords s =
      w.concluded (w.direct n args keywords u) := by
    intro n
    rw [call_run hready, hu]
    unfold Wrapped.body Wrapped.direct
    rw [hstart]
  have ha : (watching w.function.code.id none).Alike s u := by
    rw [hu, hstart]
    exact ⟨rfl, loose_values _, rfl, fun _ => ⟨rfl, rfl, rfl, fun _ _ => trivial⟩, none,
      s.observers, rfl⟩
  simp only [hcall]
  refine .succ ?_ ?_ ?_
  · simp only [direct_succ hbody hf]
    have hforth : (watching w.function.code.id none).Agree (fun g => g.code = w.function.code)
        (w.frame args keywords) (w.frame args keywords) :=
      agree_frame watching_lawful (fun _ => trivial) (fun _ => trivial) w args keywords
    have hlawful : (watched w.function.code.id none).Lawful :=
      loose_lawful (fun _ => rfl) fun _ _ h => h.symm
    have hback : (watched w.function.code.id none).Agree (fun g => g.code = w.function.code)
        (w.frame args keywords) (w.frame args keywords) :=
      agree_frame hlawful (fun _ => trivial) (fun _ => trivial) w args keywords
    -- The generator is made in either call. Nothing of its body has run by then.
    rcases ha.both hforth hback with ⟨hs, ht⟩ | ⟨g, t, v, hs, ht, hg, ha'⟩ | ⟨e, t, v, hs, ht, ha'⟩
    · refine .never (fun n => ?_) fun n => hs.andThen _
      obtain ⟨t', ht'⟩ := ht.andThen fun g =>
        Exec.newGenerator { code := w.function.code, state := .suspended g }
      rw [ht']
      exact ⟨_, rfl⟩
    · simp only [hs, ht, andThen]
      obtain ⟨locals, rest, ho⟩ := ha'.observers
      have hnew : Exec.newGenerator { code := w.function.code, state := .suspended g } v =
          .ok (.generator ⟨t.generators.size⟩) { v with
            generators := v.generators.push { code := w.function.code, state := .suspended g } } := by
        rw [← show v.generators.size = t.generators.size from ha'.size]
        rfl
      have hstream : w.concluded (Exec.newGenerator
          { code := w.function.code, state := .suspended g } v) = .ok (.stream
            ⟨⟨t.generators.size⟩, .trace w.function.code.id none locals, w.seed, none, false⟩)
          { v with
            generators := v.generators.push { code := w.function.code, state := .suspended g }
            observers := rest } := by
        rw [hnew]
        simp only [Wrapped.concluded, hstart, hf, Probe.seen, Probe.leave, ho, List.tail_cons]
      simp only [hstream]
      exact .const (.stream (watches_new hc hg ha' ho))
    · simp only [hs, ht, andThen]
      exact .const .error
  · obtain ⟨t, ht⟩ := direct_zero w args keywords u
    rw [ht]
    exact ⟨_, rfl⟩
  · exact direct_zero w args keywords s

theorem Wraps.checked (h : Wraps f w) : checkBody f.code.object = .ok () := by
  induction h with
  | function hw =>
    obtain ⟨plan, u, hplan, -⟩ := ofFunction_ok hw
    obtain ⟨_, v, hsettle, -⟩ := engine_bind_eq_ok hplan
    exact (settle_ok hsettle).1
  | wrapper _ _ ih => exact ih

theorem call_beside (hloads : LoadsInPool f.code.object) (hc : f.code.object.Closed) (hw : Wraps f w)
    (hready : w.isReady = true) (hf : f.code.object.flags.isGenerator = true) (args : List Value)
    (keywords : Keywords) (s : Store) :
    EndAlike (CallFollows w.seed (Beside w.seed)) CallRanOut RanOut
      (fun n => w.call n args keywords s) (fun n => w.direct n args keywords s) := by
  have hbody := hw.checked
  have hprepared := hw.prepared hloads
  obtain rfl := hprepared.function
  cases hplan : w.plan with
  | trace =>
    refine (call_watches hplan hready hc hbody hf args keywords s).map (f := id) (g := id)
      (fun _ h => h) (fun _ h => h) ?_
    rintro a b (hwatches | _)
    · exact .stream (.inl hwatches)
    · exact .error
  | transform d marker =>
    let watcher : Wrapped := { w with plan := .trace }
    have hcounterparts : Counterparts w watcher d marker :=
      ⟨rfl, rfl, rfl, hplan, rfl, hprepared.plan d marker hplan, hbody⟩
    have hforth : ∀ a b, SameCall Twins a b → ¬ CallRanOut a → ¬ CallRanOut b := by
      rintro a b (_ | _ | _) ha ⟨u, hu⟩
      all_goals cases hu
      exact ha ⟨_, rfl⟩
    have hback : ∀ b c, CallFollows w.seed (Watches w.seed) b c → ¬ RanOut c → ¬ CallRanOut b := by
      rintro b c hbc hspent ⟨u, rfl⟩
      generalize he : CaptureError.body .outOfFuel = e at hbc
      cases hbc with
      | error =>
        obtain rfl := eq_of_ofHalt he.symm
        exact hspent ⟨_, rfl⟩
    have hboth := (call_endAlike hcounterparts hc args keywords s).trans
      (call_watches (w := watcher) rfl hready hc hbody hf args keywords s) hforth hback
    refine hboth.map (f := id) (g := id) (fun _ h => h) (fun _ h => h) ?_
    rintro a c ⟨b, hab, -, hbc⟩
    cases hbc with
    | error =>
      cases hab with
      | error => exact .error
    | stream hwatches =>
      cases hab with
      | stream htwins => exact .stream (.inr ⟨_, _, htwins, hwatches⟩)

end Calls

/-- The stream gives what the generator gives by itself, and all of it. -/
structure Stream.Follows (g : Stream) (s : Store) (seed : Seed) (r : GeneratorRef) (t : Store) :
    Prop where
  protocol : ∀ {items g' s'}, Draws g s items g' s' → Protocol seed r t items g'
  yields : ∀ {vs u}, Yields r t vs u → ∃ g' s', Draws g s (vs.map .value) g' s'
  returns : ∀ {vs u v names}, Yields r t vs u → Returns r u v names →
    ∃ g' s', Draws g s (vs.map .value ++ [.ended]) g' s'
  raises : ∀ {vs u e}, Yields r t vs u → Raises r u e →
    ∃ g' s', Draws g s (vs.map .value ++ [.failed (.ofHalt e)]) g' s'

theorem Beside.follows {seed : Seed} {r : GeneratorRef} {g : Stream} {s t : Store}
    (h : Beside seed r g s t) : g.Follows s seed r t := by
  constructor
  · exact h.protocol
  · intro vs u hyields
    obtain ⟨g', s', hdraws, -⟩ := h.draws hyields
    exact ⟨g', s', hdraws⟩
  · intro vs u v names hyields hreturns
    obtain ⟨g', s', hdraws, hbeside⟩ := h.draws hyields
    obtain ⟨g'', s'', hlast⟩ := hbeside.draws_returned hreturns
    exact ⟨g'', s'', hdraws.append hlast⟩
  · intro vs u e hyields hraises
    obtain ⟨g', s', hdraws, hbeside⟩ := h.draws hyields
    obtain ⟨g'', s'', hlast⟩ := hbeside.draws_failed hraises
    exact ⟨g'', s'', hdraws.append hlast⟩

/-- A call of a wrapper for a compiled function that makes generators ends as a call of the function by
itself on the bindings of the wrapper, and the stream follows the generator: its values are those that
the generator yields, one after the other. It has a scope exactly if the body has returned, with the
value of the body and the local names that are none of the closure; if the body stops otherwise, it
gives one error. After that, and after the end, it gives nothing and runs nothing. To drain a stream
that is not over is to draw from it until the end or the error. -/
theorem streams_follow {f : FunctionValue} {w : Wrapped} (hcompiled : f.code.object.Compiled)
    (hw : Wraps f w) (hready : w.isReady = true) (hf : f.code.object.flags.isGenerator = true)
    (args : List Value) (keywords : Keywords) (u : Store) :
    EndAlike (CallFollows w.seed fun r g s t => g.Follows s w.seed r t) CallRanOut RanOut
      (fun n => w.call n args keywords u) (fun n => w.direct n args keywords u) ∧
    (∀ {g : Stream} {s : Store}, g.isFinished = true → ∀ n, g.next n s = .ok (.ended, g) s) ∧
    ∀ {g : Stream} {s s' : Store}, g.isFinished = false →
      (∀ {view}, g.Drains s (.ok view s') ↔ ∃ (vs : List Value) (k : Stream),
        Draws g s (vs.map .value ++ [.ended]) k s' ∧ k.view = some view) ∧
      ∀ {e}, e ≠ .body .outOfFuel → (g.Drains s (.error e s') ↔ ∃ (vs : List Value) (k : Stream),
        Draws g s (vs.map .value ++ [.failed e]) k s') := by
  have hsound := hcompiled.sound
  have hbeside := call_beside (loadsInPool_of_sound hsound) hsound.closed hw hready hf args keywords u
  refine ⟨?_, ?_, ?_⟩
  · refine hbeside.map (f := id) (g := id) (fun _ h => h) (fun _ h => h) ?_
    rintro a b (hstream | _)
    · exact .stream hstream.follows
    · exact .error
  · intro g s hg n
    exact next_finished hg n s
  · intro g s s' hg
    exact ⟨drains_scope_iff hg, drains_error_iff hg⟩

def yieldingOnce : String := "def f(n) \x7b yield n\n m = n\n return m \x7d"

/-- A wrapper for the function gives a stream with one value and a scope. -/
def streamsOnce (f : FunctionValue) : Bool :=
  f.code.object.flags.isGenerator &&
    match Wrapped.ofFunction f [] { mechanism := .transform } {} with
    | .error _ _ => false
    | .ok w t => w.isReady &&
      match w.call 20 [.int 1] [] t with
      | .ok (.stream g) s =>
        match g.next 30 s with
        | .ok (.value _, g') s' =>
          match g'.next 30 s' with
          | .ok (.ended, k) _ => k.isFinished && k.view.isSome
          | _ => false
        | _ => false
      | _ => false

theorem streams_follow_yieldingOnce : ∃ f w t g s r u v k s' view,
    firstFunction yieldingOnce = some f ∧
    Wrapped.ofFunction f [] { mechanism := .transform } {} = .ok w t ∧ w.isReady = true ∧
    w.call 20 [.int 1] [] t = .ok (.stream g) s ∧ g.Follows s w.seed r u ∧
    Draws g s [.value v, .ended] k s' ∧ k.view = some view ∧ g.Drains s (.ok view s') ∧
    ∀ n, k.next n s' = .ok (.ended, k) s' := by
  have hmade : (firstFunction yieldingOnce).any streamsOnce = true := by decide +kernel
  obtain ⟨f, hf, hstreams⟩ := (Option.any_eq_true _ _).1 hmade
  unfold streamsOnce at hstreams
  obtain ⟨hgenerator, hstreams⟩ := Bool.and_eq_true_iff.1 hstreams
  split at hstreams
  case h_1 => cases hstreams
  rename_i w t hw
  obtain ⟨hready, hstreams⟩ := Bool.and_eq_true_iff.1 hstreams
  split at hstreams
  case h_2 => cases hstreams
  rename_i g s hcall
  split at hstreams
  case h_2 => cases hstreams
  rename_i v g' s' hnext
  split at hstreams
  case h_2 => cases hstreams
  rename_i k s'' hlast
  obtain ⟨hfinished, hview⟩ := Bool.and_eq_true_iff.1 hstreams
  obtain ⟨view, hview⟩ := Option.isSome_iff_exists.1 hview
  obtain ⟨hends, hover, hdrains⟩ := streams_follow (compiled_firstFunction hf) (.function hw) hready
    hgenerator [.int 1] [] t
  have hopen : g.isFinished = false := by
    by_contra hclosed
    rw [hover (Bool.of_not_eq_false hclosed) 30] at hnext
    cases hnext
  have hdraws : Draws g s ([v].map .value ++ [.ended]) k s'' :=
    .next hnext (by simp) (.next hlast (by simp) .none)
  have hcalled : ¬ CallRanOut (w.call 20 [.int 1] [] t) := by
    rintro ⟨_, hspent⟩
    rw [hcall] at hspent
    cases hspent
  obtain ⟨j, hj⟩ := hends.forth 20 hcalled
  have hfollows := hj j (Nat.le_refl j)
  rw [hcall] at hfollows
  generalize w.direct j [.int 1] [] t = b at hfollows
  cases hfollows with
  | @stream r _ _ u hstream =>
    have hdrained := (hdrains hopen).1.2 ⟨[v], k, hdraws, hview⟩
    exact ⟨f, w, t, g, s, r, u, v, k, s'', view, hf, hw, hready, hcall, hstream, hdraws, hview,
      hdrained, hover hfinished⟩

end Lexiscope.Capture
