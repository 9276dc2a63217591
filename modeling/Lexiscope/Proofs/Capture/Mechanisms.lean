import Lexiscope.Proofs.Capture.Calls
/-!
# Two ways to the same scope

A wrapper that instruments the body and one that watches it give the same scopes, streams and
errors, and have the same effects.
-/

namespace Lexiscope.Capture

open Code (Marker)
open Machine Machine.Likeness

namespace Probe

def enter (forwards : Bool) (s : Store) : Probe → Store
  | .transform _ => s
  | .trace target frame locals =>
    { s with observers := .capture forwards target frame locals :: s.observers }

def seen (s : Store) : Probe → Probe
  | .transform marker => .transform marker
  | .trace target _ _ =>
    match s.observers with
    | .capture _ target frame locals :: _ => .trace target frame locals
    | _ => .trace target none none

def leave (s : Store) : Probe → Store
  | .transform _ => s
  | .trace .. => { s with observers := s.observers.tail }

theorem during_run {α : Type} (p : Probe) (forwards : Bool) (step : Exec α) (s : Store) :
    p.during forwards step s =
      match step (p.enter forwards s) with
      | .ok a u => .ok (.ok a, p.seen u) (p.leave u)
      | .error e u => .ok (.error e, p.seen u) (p.leave u) := by
  cases p with
  | transform marker =>
    change (Exec.attempt step >>= fun o => pure (o, Probe.transform marker)) s = _
    rw [attempt_bind]
    rfl
  | trace target frame locals =>
    change (Exec.attempt step >>= fun o => removeObserver target >>= fun p => pure (o, p))
      (enter forwards s (.trace target frame locals)) = _
    rw [attempt_bind]
    have hremove : ∀ u, removeObserver target u =
        .ok (seen u (.trace target frame locals)) (leave u (.trace target frame locals)) := by
      intro u
      obtain ⟨_, _, _, _, _, _, _, _, _, _, o⟩ := u
      rcases o with _ | ⟨_ | _, _⟩ <;> rfl
    cases step (enter forwards s (.trace target frame locals)) with
    | ok a u => simp only [bind_ok (hremove u)]; rfl
    | error e u => simp only [bind_ok (hremove u)]; rfl

end Probe

/-- Two scopes are the same, whatever options they pass on. -/
structure SameView (v w : View) : Prop where
  outer : v.outer = w.outer
  inner : v.inner = w.inner
  returned : v.returned = w.returned

/-- Two seeds make the same scopes. -/
structure SameSeed (a b : Seed) : Prop where
  outer : a.outer = b.outer
  closures : a.closures = b.closures
  function : a.function = b.function

section Captured

variable {target : Origin} {marker : Marker} {names : NameMap} {w v : Value} {s t : Store}
  {frame : Option Nat} {locals : Option NameMap}

theorem finish_marked (h : Captured target marker names w v s t) :
    (Probe.transform marker).finish s w = some (v, names) := by
  obtain ⟨id, r, rfl, hnames⟩ := h.value
  simp only [Probe.finish, beq_self_eq_true, if_true, hnames, Option.map_some,
    OrderedMap.ofList_entries h.nodup]

theorem finish_watched (h : Captured target marker names w v s t) (u : Store) :
    ((Probe.trace target frame locals).seen t).finish u v = some (v, names) := by
  obtain ⟨frame, rest, ho⟩ := h.observers
  simp only [Probe.seen, ho]
  rfl

theorem view_captured (frame : Option Nat) (locals : Option NameMap)
    (h : Captured target marker names w v s t) {a b : Seed} (hseed : SameSeed a b) (u : Store) :
    ∃ x y, a.view s (.transform marker) w = .ok x ∧
      b.view u ((Probe.trace target frame locals).seen t) v = .ok y ∧ SameView x y := by
  refine ⟨⟨a.outer, a.closures.foldl OrderedMap.erase names, v, a.options⟩,
    ⟨b.outer, b.closures.foldl OrderedMap.erase names, v, b.options⟩, ?_, ?_, hseed.outer, ?_, rfl⟩
  · simp only [Seed.view, finish_marked h]
  · simp only [Seed.view, finish_watched h]
  · rw [hseed.closures]

end Captured

/-- A stream whose body is instrumented and one whose body is watched, at the same place. -/
inductive Twins : Stream → Store → Stream → Store → Prop where
  | suspended {r f d marker frame locals a b s t} : Parted r f d marker s t → SameSeed a b →
    (frame = none ∨ frame = some f.id) →
    Twins ⟨r, .transform marker, a, none, false⟩ s
      ⟨r, .trace f.code.id frame locals, b, none, false⟩ t
  | failed {g h s t} : g.isFinished = true → h.isFinished = true → g.view = none →
    h.view = none → SameEffects none s t → Twins g s h t
  | ended {g h s t v w} : g.isFinished = true → h.isFinished = true → g.view = some v →
    h.view = some w → SameView v w → SameEffects none s t → Twins g s h t

/-- The error does not say that there was no scope at the end. -/
def CaptureError.IsClean (e : CaptureError) : Prop := ∀ function, e ≠ .malformed function

theorem clean_ofHalt (halt : Halt) : (CaptureError.ofHalt halt).IsClean := by
  intro function
  unfold CaptureError.ofHalt
  split
  · split <;> simp
  · simp

def Item.IsClean (i : Item) : Prop := ∀ e, i = .failed e → e.IsClean

/-- How drawing from the one stream ended, and how from the other one. -/
inductive StepEnds : EStateM.Result Halt Store (Item × Stream) →
    EStateM.Result Halt Store (Item × Stream) → Prop where
  | item {i g h s t} : Item.IsClean i → Twins g s h t → StepEnds (.ok (i, g) s) (.ok (i, h) t)

/-- Drawing stopped for want of fuel. -/
def DrawRanOut (a : EStateM.Result Halt Store (Item × Stream)) : Prop :=
  ∃ g s, a = .ok (.failed (.body .outOfFuel), g) s

/-- What drawing from a stream gives, after its body has run. -/
def drawn (g : Stream) : EStateM.Result Halt Store Completion →
    EStateM.Result Halt Store (Item × Stream)
  | .ok (.yielded v) u => .ok (.value v, { g with probe := g.probe.seen u }) (g.probe.leave u)
  | .ok (.returned w) u =>
    .ok (Stream.ending { g with probe := g.probe.seen u } (g.probe.leave u) w) (g.probe.leave u)
  | .error e u =>
    .ok (.failed (.ofHalt e), { g with probe := g.probe.seen u, isFinished := true })
      (g.probe.leave u)

theorem next_run {g : Stream} (hg : g.isFinished = false) (n : Nat) (s : Store) :
    g.next n s = drawn g (resume n g.generator (g.probe.enter true s)) := by
  rw [Stream.next, if_neg (by rw [hg]; exact Bool.false_ne_true)]
  rw [bind_run, Probe.during_run]
  cases resume n g.generator (g.probe.enter true s) with
  | error e u => rfl
  | ok k u => cases k <;> rfl

theorem next_finished {g : Stream} (hg : g.isFinished = true) (n : Nat) (s : Store) :
    g.next n s = .ok (.ended, g) s := by
  unfold Stream.next
  simp only [hg, if_true]
  rfl

theorem next_endAlike {g h : Stream} {s t : Store} (htwins : Twins g s h t) :
    EndAlike StepEnds DrawRanOut DrawRanOut (fun n => g.next n s) (fun n => h.next n t) := by
  have hended : Item.IsClean .ended := by
    rintro _ ⟨⟩
  cases id htwins with
  | failed hg hh | ended hg hh =>
    simp only [next_finished hg, next_finished hh]
    exact .const (.item hended htwins)
  | @suspended r f d marker frame locals a b s t hparted hseed hframe =>
    simp only [next_run]
    have hends := resume_endAlike
      (hparted.withObservers s.observers (.capture true f.code.id frame locals :: t.observers)) rfl
      hframe
    refine hends.map ?_ ?_ ?_
    · rintro _ ⟨u, rfl⟩
      exact ⟨_, _, rfl⟩
    · rintro _ ⟨u, rfl⟩
      exact ⟨_, _, rfl⟩
    · intro x y hxy
      cases hxy with
      | @yielded f' v s t locals rest hsame hparted ho =>
        have hvalue : Item.IsClean (.value v) := by
          rintro _ ⟨⟩
        refine .item hvalue ?_
        simp only [Probe.seen, Probe.leave, ho]
        rw [← hsame.code, ← hsame.id]
        exact .suspended (hparted.withObservers s.observers _) hseed (.inr rfl)
      | @returned names w v s t hcaptured =>
        obtain ⟨x, y, hx, hy, hview⟩ := view_captured frame locals
          hcaptured hseed ((Probe.trace f.code.id frame locals).leave t)
        simp only [drawn, Stream.ending, Probe.leave, Probe.seen] at hx hy ⊢
        rw [hx, hy]
        exact .item hended (.ended rfl rfl rfl rfl hview (hcaptured.effects.withObservers _ _))
      | @error e s t heffects =>
        have hfailed : Item.IsClean (.failed (.ofHalt e)) := by
          rintro _ ⟨⟩
          exact clean_ofHalt e
        exact .item hfailed (.failed rfl rfl rfl rfl (heffects.withObservers _ _))

/-- Drawing from a stream again and again gives items one after the other. -/
inductive Draws : Stream → Store → List Item → Stream → Store → Prop where
  | none {g s} : Draws g s [] g s
  | next {n g s i h t items k u} : g.next n s = .ok (i, h) t → i ≠ .failed (.body .outOfFuel) →
    Draws h t items k u → Draws g s (i :: items) k u

/-- Two streams are at the same place: both are over or none is, their scopes are the same, and
so are all effects. The bodies of streams that are not over differ. -/
structure SamePlace (g : Stream) (s : Store) (h : Stream) (t : Store) : Prop where
  finished : g.isFinished = h.isFinished
  view : g.view = none ∧ h.view = none ∨
    ∃ v w, g.view = some v ∧ h.view = some w ∧ SameView v w
  effects : SameEffects (if g.isFinished then none else some g.generator) s t

/-- However often values are drawn from two streams, they are the same and the streams are at
the same place afterwards. -/
structure SameStream (g : Stream) (s : Store) (h : Stream) (t : Store) : Prop where
  forth : ∀ items g' s', Draws g s items g' s' →
    ∃ h' t', Draws h t items h' t' ∧ SamePlace g' s' h' t' ∧ ∀ i ∈ items, i.IsClean
  back : ∀ items h' t', Draws h t items h' t' →
    ∃ g' s', Draws g s items g' s' ∧ SamePlace g' s' h' t' ∧ ∀ i ∈ items, i.IsClean

theorem sameEffects_of_parted {r : GeneratorRef} {f : Frame} {d : LoadedCode} {marker : Marker}
    {s t : Store} (h : Parted r f d marker s t) : SameEffects (some r) s t := by
  have hawake : SameEffects none (awake s r) (awake t r) := .of_alike (fun _ _ h => h) h.alike
  have hsize : s.generators.size = t.generators.size := by
    simpa [awake, withGenerator] using hawake.size
  refine ⟨?_, ?_, hsize, fun q hq => ?_⟩
  · have hrest := h.alike.rest
    cases s
    cases t
    simp only [awake, withGenerator, Store.mk.injEq] at hrest
    simp [hrest]
  · exact hawake.dicts
  · have hq' : ¬ (r.index = q.index ∧ q.index < s.generators.size) := by
      rintro ⟨hi, -⟩
      exact hq (congrArg some (by cases r; cases q; exact congrArg _ hi))
    have hsame := hawake.generator q (by simp)
    simp only [awake, generator_withGenerator, ← hsize, if_neg hq'] at hsame
    exact hsame

theorem Twins.samePlace {g h : Stream} {s t : Store} (htwins : Twins g s h t) :
    SamePlace g s h t := by
  cases htwins with
  | suspended hparted hseed hframe =>
    exact ⟨rfl, .inl ⟨rfl, rfl⟩, sameEffects_of_parted hparted⟩
  | failed hg hh hv hw heffects =>
    exact ⟨hg.trans hh.symm, .inl ⟨hv, hw⟩, by rwa [if_pos hg]⟩
  | ended hg hh hv hw hview heffects =>
    exact ⟨hg.trans hh.symm, .inr ⟨_, _, hv, hw, hview⟩, by rwa [if_pos hg]⟩

theorem not_drawRanOut {i : Item} {g : Stream} {s : Store}
    (h : i ≠ .failed (.body .outOfFuel)) : ¬ DrawRanOut (.ok (i, g) s) := by
  rintro ⟨g', s', hg⟩
  cases hg
  exact h rfl

theorem Twins.sameStream {g h : Stream} {s t : Store} (htwins : Twins g s h t) :
    SameStream g s h t := by
  constructor
  · intro items g' s' hdraws
    induction hdraws generalizing h t with
    | none => exact ⟨h, t, .none, htwins.samePlace, by simp⟩
    | @next n g s i g₁ s₁ items k u hnext hi _ ih =>
      obtain ⟨m, hm⟩ := (next_endAlike htwins).forth n (by rw [hnext]; exact not_drawRanOut hi)
      have hends := hm m (Nat.le_refl m)
      rw [hnext] at hends
      generalize hy : h.next m t = y at hends
      cases hends with
      | item hclean htwins' =>
        obtain ⟨h', t', hdraws', hplace, hitems⟩ := ih htwins'
        exact ⟨h', t', .next hy hi hdraws', hplace, by simpa using ⟨hclean, hitems⟩⟩
  · intro items h' t' hdraws
    induction hdraws generalizing g s with
    | none => exact ⟨g, s, .none, htwins.samePlace, by simp⟩
    | @next n h t i h₁ t₁ items k u hnext hi _ ih =>
      obtain ⟨m, hm⟩ := (next_endAlike htwins).back n (by rw [hnext]; exact not_drawRanOut hi)
      have hends := hm m (Nat.le_refl m)
      rw [hnext] at hends
      generalize hx : g.next m s = x at hends
      cases hends with
      | item hclean htwins' =>
        obtain ⟨g', s', hdraws', hplace, hitems⟩ := ih htwins'
        exact ⟨g', s', .next hx hi hdraws', hplace, by simpa using ⟨hclean, hitems⟩⟩

/-- Two wrappers of one function in the same environment, of which the first instruments the body
and the second watches it. -/
structure Counterparts (w w' : Wrapped) (d : LoadedCode) (marker : Marker) : Prop where
  function : w.function = w'.function
  requirements : w.requirements = w'.requirements
  environment : w.environment = w'.environment
  plan : w.plan = .transform d marker
  plan' : w'.plan = .trace
  instruments : Instruments w'.function.code d marker
  body : checkBody w'.function.code.object = .ok ()

/-- How the call of a wrapper that instruments ended, and how that of one that watches. -/
inductive SameCall (streams : Stream → Store → Stream → Store → Prop) :
    EStateM.Result CaptureError Store Outcome → EStateM.Result CaptureError Store Outcome →
    Prop where
  | scope {v w s t} : SameView v w → SameEffects none s t →
    SameCall streams (.ok (.scope v) s) (.ok (.scope w) t)
  | stream {g h s t} : streams g s h t → SameCall streams (.ok (.stream g) s) (.ok (.stream h) t)
  | error {e s t} : e.IsClean → SameEffects none s t →
    SameCall streams (.error e s) (.error e t)

def CallRanOut (a : EStateM.Result CaptureError Store Outcome) : Prop :=
  ∃ s, a = .error (.body .outOfFuel) s

def Wrapped.body (w : Wrapped) (n : Nat) (args : List Value) (keywords : Keywords) :
    Exec Value :=
  w.runnable w.start.1 >>= fun f => callFunction n f args keywords

def Wrapped.concluded (w : Wrapped) :
    EStateM.Result Halt Store Value → EStateM.Result CaptureError Store Outcome
  | .ok v u =>
    let p := w.start.2
    match v, w.function.code.object.flags.isGenerator with
    | .generator g, true => .ok (.stream ⟨g, p.seen u, w.seed, none, false⟩) (p.leave u)
    | v, _ =>
      match w.seed.view (p.leave u) (p.seen u) v with
      | .ok view => .ok (.scope view) (p.leave u)
      | .error e => .error e (p.leave u)
  | .error e u => .error (.ofHalt e) (w.start.2.leave u)

theorem engine_bind_ok {α β : Type} {x : Engine α} {f : α → Engine β} {a : α} {s t : Store}
    (h : x s = .ok a t) : (x >>= f) s = f a t := by
  change EStateM.bind x f s = f a t
  simp only [EStateM.bind, h]

theorem call_run {w : Wrapped} (hw : w.isReady = true) (n : Nat) (args : List Value)
    (keywords : Keywords) (s : Store) :
    w.call n args keywords s =
      w.concluded (w.body n args keywords (w.start.2.enter true s)) := by
  unfold Wrapped.call
  simp only [hw, Bool.not_true, Bool.false_eq_true, if_false]
  have hduring := Probe.during_run w.start.2 true (w.body n args keywords) s
  cases hbody : w.body n args keywords (w.start.2.enter true s) with
  | ok v u =>
    rw [hbody] at hduring
    have hstep : Engine.ofExec (w.start.2.during true (w.body n args keywords)) s =
        .ok (.ok v, w.start.2.seen u) (w.start.2.leave u) := by
      unfold Engine.ofExec
      rw [hduring]
    change (Engine.ofExec (w.start.2.during true (w.body n args keywords)) >>= _) s = _
    rw [engine_bind_ok hstep]
    have hview : ∀ x : Except CaptureError View,
        (do return .scope (← Engine.settle x) : Engine Outcome) (w.start.2.leave u) =
          match x with
          | .ok view => .ok (.scope view) (w.start.2.leave u)
          | .error e => .error e (w.start.2.leave u) := by
      intro x
      cases x <;> rfl
    unfold Wrapped.concluded
    dsimp only
    generalize w.function.code.object.flags.isGenerator = isGenerator
    clear hduring hstep hbody
    cases v <;> cases isGenerator <;> first | rfl | exact hview _
  | error e u =>
    rw [hbody] at hduring
    have hstep : Engine.ofExec (w.start.2.during true (w.body n args keywords)) s =
        .ok (.error e, w.start.2.seen u) (w.start.2.leave u) := by
      unfold Engine.ofExec
      rw [hduring]
    change (Engine.ofExec (w.start.2.during true (w.body n args keywords)) >>= _) s = _
    rw [engine_bind_ok hstep]
    rfl

section Calls

variable {w w' : Wrapped} {d : LoadedCode} {marker : Marker} (h : Counterparts w w' d marker)

theorem agree_runnable {L : Likeness} (hvalue : ∀ v, L.value v) (w : Wrapped) (c : LoadedCode) :
    L.Agree (fun f => f.code = c) (w.runnable c) (w.runnable c) := by
  unfold Wrapped.runnable
  refine (agree_newSpace fun _ _ => hvalue _).bind fun globals _ => ?_
  refine (agree_mapM (p := fun _ => True) fun _ _ => ?_).bind fun closure _ => ?_
  · exact (agree_newCell fun _ _ => hvalue _).mono fun _ _ => trivial
  · exact agree_freshIdentity.bind fun id _ => agree_pure rfl

include h

theorem runnable_counterparts : w.runnable d =
    w'.runnable w'.function.code >>= fun f => pure (withCode f d) := by
  unfold Wrapped.runnable
  simp only [h.function, h.environment, bind_assoc, pure_bind]
  rfl

theorem seed_counterparts : SameSeed w.seed w'.seed := by
  constructor
  · simp only [Wrapped.seed, h.environment]
  · simp only [Wrapped.seed, h.requirements]
  · simp only [Wrapped.seed, h.function]

theorem concluded_counterparts {f : FunctionValue} (hf : f.code = w'.function.code)
    {a b : EStateM.Result Halt Store Value} (hab : CallEnds f d marker a b) :
    SameCall Twins (w.concluded a) (w'.concluded b) := by
  have hstart : w.start = (d, .transform marker) := by
    simp only [Wrapped.start, h.plan]
  have hstart' : w'.start = (w'.function.code, .trace w'.function.code.id none none) := by
    simp only [Wrapped.start, h.plan']
  cases hab with
  | @captured names x v s t hflag hcaptured =>
    obtain ⟨y, z, hy, hz, hview⟩ := view_captured none none hcaptured
      (seed_counterparts h) ((Probe.trace f.code.id none none).leave t)
    have hx : w.concluded (.ok x s) = .ok (.scope y) s := by
      unfold Wrapped.concluded
      rw [hstart, h.function, ← hf]
      dsimp only
      split
      · rename_i htrue
        rw [hflag] at htrue
        cases htrue
      · simp only [Probe.leave, Probe.seen, hy]
    have hv : w'.concluded (.ok v t) =
        .ok (.scope z) ((Probe.trace f.code.id none none).leave t) := by
      unfold Wrapped.concluded
      rw [hstart', ← hf]
      dsimp only
      split
      · rename_i htrue
        rw [hflag] at htrue
        cases htrue
      · rw [hz]
    rw [hx, hv]
    exact .scope hview (hcaptured.effects.withObservers _ _)
  | @suspended r g s t locals rest hflag hg hparted ho =>
    have hx : w.concluded (.ok (.generator r) s) =
        .ok (.stream ⟨r, .transform marker, w.seed, none, false⟩) s := by
      simp only [Wrapped.concluded, hstart, h.function, ← hf, hflag, Probe.seen, Probe.leave]
    have hv : w'.concluded (.ok (.generator r) t) =
        .ok (.stream ⟨r, .trace g.code.id none locals, w'.seed, none, false⟩)
          { t with observers := t.observers.tail } := by
      simp only [Wrapped.concluded, hstart', ← hf, hflag, Probe.seen, Probe.leave, ho, hg]
    rw [hx, hv]
    exact .stream (.suspended (hparted.withObservers s.observers _) (seed_counterparts h)
      (.inl rfl))
  | @error e s t heffects =>
    simp only [Wrapped.concluded, hstart, hstart']
    exact .error (clean_ofHalt e) (heffects.withObservers _ _)

omit h in
theorem SameEffects.refl (s : Store) : SameEffects none s s :=
  ⟨rfl, .inl rfl, rfl, fun _ _ => ⟨rfl, rfl, rfl⟩⟩

theorem call_endAlike (hc : w'.function.code.object.Closed) (args : List Value)
    (keywords : Keywords) (s : Store) :
    EndAlike (SameCall Twins) CallRanOut CallRanOut (fun n => w.call n args keywords s)
      (fun n => w'.call n args keywords s) := by
  have hready : w.isReady = w'.isReady := by simp only [Wrapped.isReady, h.environment]
  by_cases hw : w'.isReady = true
  · simp only [call_run hw, call_run (hready.trans hw)]
    have hstart : w.start = (d, .transform marker) := by
      simp only [Wrapped.start, h.plan]
    have hstart' : w'.start = (w'.function.code, .trace w'.function.code.id none none) := by
      simp only [Wrapped.start, h.plan']
    have ha : (watching w'.function.code.id none).Alike s
        ((Probe.trace w'.function.code.id none none).enter true s) :=
      ⟨rfl, loose_values _, rfl, fun _ => ⟨rfl, rfl, rfl, fun _ _ => trivial⟩, none,
        s.observers, rfl⟩
    have hbody : ∀ n s, w.body n args keywords s =
        andThen (fun f => callFunction n (withCode f d) args keywords)
          (w'.runnable w'.function.code s) := by
      intro n s
      unfold Wrapped.body
      rw [hstart, runnable_counterparts h, bind_assoc, ← bind_run]
      simp only [pure_bind]
    have hbody' : ∀ n s, w'.body n args keywords s =
        andThen (fun f => callFunction n f args keywords) (w'.runnable w'.function.code s) := by
      intro n s
      unfold Wrapped.body
      rw [hstart', ← bind_run]
    have hends : EndAlike (fun a b => ∃ f, f.code = w'.function.code ∧ CallEnds f d marker a b)
        RanOut RanOut (fun n => w.body n args keywords (w.start.2.enter true s))
        (fun n => w'.body n args keywords (w'.start.2.enter true s)) := by
      simp only [hbody, hbody', hstart, hstart']
      -- Both ways make the namespace and the cells of the call before they part.
      have hboth := ha.both (x := w'.runnable w'.function.code)
        (agree_runnable (fun _ => trivial) w' _) (agree_runnable (fun _ => trivial) w' _)
      rcases hboth with ⟨hs, ht⟩ | ⟨f, u, v, hs, ht, hf, ha'⟩ | ⟨e, u, v, hs, ht, ha'⟩
      · exact .never (fun n => hs.andThen _) fun n => ht.andThen _
      · simp only [Probe.enter] at hs ht ⊢
        simp only [hs, ht, andThen]
        refine (callFunction_endAlike (hf ▸ h.instruments) (hf ▸ hc) (hf ▸ h.body) (hf ▸ ha') args
          keywords).map (fun _ h => h) (fun _ h => h) fun a b hab => ⟨f, hf, hab⟩
      · simp only [Probe.enter] at hs ht ⊢
        simp only [hs, ht, andThen]
        exact .const ⟨withCode w'.function w'.function.code, rfl,
          .error (.of_alike (fun _ _ h => h) ha')⟩
    have hspent : ∀ (w : Wrapped) a, RanOut a → CallRanOut (w.concluded a) := by
      rintro w _ ⟨u, rfl⟩
      exact ⟨_, rfl⟩
    refine hends.map (hspent w) (hspent w') ?_
    rintro a b ⟨f, hf, hab⟩
    exact concluded_counterparts h hf hab
  · have hcall : ∀ (w : Wrapped), ¬ w.isReady = true → ∀ n, w.call n args keywords s =
        .error (.unresolved w.environment.missing) s := by
      intro w hw n
      unfold Wrapped.call
      simp only [Bool.not_eq_true] at hw
      simp only [hw, Bool.not_false, if_true]
      rfl
    simp only [hcall w' hw, hcall w (fun hr => hw (hready.symm.trans hr)), h.environment]
    refine .const (.error ?_ (.refl s))
    intro function
    simp

end Calls

section Wrapping

variable {f : FunctionValue} {mappings : List NameMap} {o : Options} {w : Wrapped} {s t : Store}

theorem engine_bind_eq_ok {α β : Type} {x : Engine α} {k : α → Engine β} {b : β}
    (h : (x >>= k) s = .ok b t) : ∃ a u, x s = .ok a u ∧ k a u = .ok b t := by
  change EStateM.bind x k s = .ok b t at h
  unfold EStateM.bind at h
  split at h
  · rename_i a u hx
    exact ⟨a, u, hx, h⟩
  · cases h

theorem settle_ok {α : Type} {x : Except CaptureError α} {a : α}
    (h : Engine.settle x s = .ok a t) : x = .ok a ∧ t = s := by
  cases x with
  | ok b =>
    cases h
    exact ⟨rfl, rfl⟩
  | error e => cases h

/-- A wrapper for a function has the environment that the store gives it. -/
theorem ofFunction_ok (h : Wrapped.ofFunction f mappings o s = .ok w t) :
    ∃ plan u, Plan.make f.code o.mechanism o.reach s = .ok plan u ∧
      w = ⟨f, .ofCode f.code.object, .resolve (.ofCode f.code.object)
        (.ofFunction u none f mappings o.useClosures o.useGlobals), o, plan⟩ := by
  obtain ⟨plan, u, hplan, h⟩ := engine_bind_eq_ok h
  cases h
  exact ⟨plan, t, hplan, rfl⟩

theorem sources_eq (hcells : t.cells = s.cells) (hspaces : t.spaces = s.spaces) :
    Sources.ofFunction t none f mappings o.useClosures o.useGlobals =
      .ofFunction s none f mappings o.useClosures o.useGlobals := by
  simp only [Sources.ofFunction, closureValues, Store.cell, Store.space, hcells, hspaces]

theorem plan_trace {c : LoadedCode} {reach : Nat} {plan : Plan}
    (hmake : Plan.make c .trace reach s = .ok plan t) :
    plan = .trace ∧ t = s ∧ checkBody c.object = .ok () := by
  obtain ⟨_, u, hsettle, h⟩ := engine_bind_eq_ok hmake
  obtain ⟨hbody, rfl⟩ := settle_ok hsettle
  cases h
  exact ⟨rfl, rfl, hbody⟩

theorem plan_transform {c : LoadedCode} {reach : Nat} {plan : Plan} (hloads : LoadsInPool c.object)
    (hmake : Plan.make c .transform reach s = .ok plan t) :
    ∃ d marker, plan = .transform d marker ∧ Instruments c d marker ∧ t.cells = s.cells ∧
      t.spaces = s.spaces := by
  obtain ⟨_, u, hbody, h⟩ := engine_bind_eq_ok hmake
  obtain ⟨-, rfl⟩ := settle_ok hbody
  obtain ⟨id, u₁, hid, h⟩ := engine_bind_eq_ok h
  cases hid
  obtain ⟨object, u₂, hinstrument, h⟩ := engine_bind_eq_ok h
  obtain ⟨hobject, rfl⟩ := settle_ok hinstrument
  obtain ⟨id', u₃, hid', h⟩ := engine_bind_eq_ok h
  cases hid'
  cases h
  exact ⟨_, _, rfl, ⟨rfl, instrument_ok hobject, hloads⟩, rfl, rfl⟩

/-- The wrappers that are made of one function with the same options, but for the mechanism. -/
theorem counterparts_ofFunction {s' t' : Store} {w' : Wrapped} (hloads : LoadsInPool f.code.object)
    (hcells : s'.cells = s.cells) (hspaces : s'.spaces = s.spaces)
    (h : Wrapped.ofFunction f mappings { o with mechanism := .transform } s = .ok w t)
    (h' : Wrapped.ofFunction f mappings { o with mechanism := .trace } s' = .ok w' t') :
    ∃ d marker, Counterparts w w' d marker := by
  obtain ⟨plan, u, hplan, rfl⟩ := ofFunction_ok h
  obtain ⟨plan', u', hplan', rfl⟩ := ofFunction_ok h'
  obtain ⟨d, marker, rfl, hinstruments, hcells', hspaces'⟩ := plan_transform hloads hplan
  obtain ⟨rfl, rfl, hbody⟩ := plan_trace hplan'
  have hsources : Sources.ofFunction u none f mappings o.useClosures o.useGlobals =
      .ofFunction u' none f mappings o.useClosures o.useGlobals :=
    sources_eq (hcells'.trans hcells.symm) (hspaces'.trans hspaces.symm)
  exact ⟨d, marker, rfl, rfl, congrArg (Environment.resolve _) hsources, rfl, rfl, hinstruments,
    hbody⟩

end Wrapping

end Lexiscope.Capture
