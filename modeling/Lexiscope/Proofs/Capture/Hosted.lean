import Lexiscope.Proofs.Capture.Mechanisms
import Lexiscope.Proofs.Machine.Telling
/-!
# Steps that a host runs

Under a capture a host may call functions, draw from generators and look at what came of that, and
it may run further captures, each put in front of the observers that are there. Whatever it runs is
a path of the machine, and observers do not matter for it.
-/

namespace Lexiscope.Capture

open Code (Marker)
open Machine Machine.Likeness

/-- Runs a step of a body under a probe. The host sees the outcome, but want of fuel stops it too.
-/
def Probe.around {α : Type} (p : Probe) (step : Exec α) : Exec (Except Halt α × Probe) := do
  let seen ← p.during true step
  match seen.1 with
  | .error .outOfFuel => throw .outOfFuel
  | _ => return seen

/-- What a host may run as one step. -/
inductive Hosted : {α : Type} → Exec α → Prop where
  | pure {α} (a : α) : Hosted (pure a : Exec α)
  | throw {α} (e : Halt) : Hosted (throw e : Exec α)
  | bind {α β} {x : Exec α} {f : α → Exec β} : Hosted x → (∀ a, Hosted (f a)) → Hosted (x >>= f)
  /-- The host reads the store or changes it, apart from generators and observers. -/
  | access {α} {f : Store → α × Store} :
    (∀ (s : Store) (generators : Array Generator) (observers : List Observer),
      f { s with generators, observers } = ((f s).1, { (f s).2 with generators, observers })) →
    (∀ s : Store, s.Keeps (f s).2) → (∀ s : Store, s.Calm (f s).2) → Hosted (modifyGet f)
  | call (n : Nat) (callee : Value) (args : List Value) (keywords : Keywords) :
    Hosted (callValue n callee args keywords)
  | function (n : Nat) (f : FunctionValue) (args : List Value) (keywords : Keywords) :
    Hosted (callFunction n f args keywords)
  | next (n : Nat) (v : Value) : Hosted (nextItem n v)
  | items (n : Nat) (v : Value) : Hosted (collect n v)
  | resume (n : Nat) (r : GeneratorRef) : Hosted (resume n r)
  | module (n : Nat) (code : LoadedCode) (globals : SpaceRef) : Hosted (runModule n code globals)
  | around {α} {x : Exec α} (p : Probe) : Hosted x → Hosted (p.around x)

section Steps

variable {α : Type} {x : Exec α} {s t u : Store}

theorem Probe.around_ok {p : Probe} {a : α} (h : x (p.enter true s) = .ok a u) :
    p.around x s = .ok (.ok a, p.seen u) (p.leave u) := by
  have hduring := p.during_run true x s
  rw [h] at hduring
  exact bind_ok hduring

theorem Probe.around_error {p : Probe} {e : Halt} (h : x (p.enter true s) = .error e u)
    (he : e ≠ .outOfFuel) : p.around x s = .ok (.error e, p.seen u) (p.leave u) := by
  have hduring := p.during_run true x s
  rw [h] at hduring
  refine (bind_ok hduring).trans ?_
  cases e with
  | outOfFuel => exact absurd rfl he
  | _ => rfl

theorem Probe.around_outOfFuel {p : Probe} (h : x (p.enter true s) = .error .outOfFuel u) :
    p.around x s = .error .outOfFuel (p.leave u) := by
  have hduring := p.during_run true x s
  rw [h] at hduring
  exact bind_ok hduring

theorem Probe.after_around (p : Probe) (x : Exec α) (s : Store) :
    (p.around x).after s = p.leave (x.after (p.enter true s)) := by
  cases h : x (p.enter true s) with
  | ok a u => rw [after_ok h, after_ok (around_ok h)]
  | error e u =>
    rw [after_error h]
    by_cases he : e = .outOfFuel
    · rw [he] at h
      rw [after_error (around_outOfFuel h)]
    · rw [after_ok (around_error h he)]

theorem Hosted.mapM {ι : Type} {f : ι → Exec α} (hf : ∀ i, Hosted (f i)) (items : List ι) :
    Hosted (items.mapM f) := by
  induction items with
  | nil => exact .pure []
  | cons i items ih =>
    rw [List.mapM_cons]
    exact (hf i).bind fun _ => ih.bind fun _ => .pure _

theorem hosted_newSpace (names : NameMap) : Hosted (Exec.newSpace names) :=
  .access (fun _ _ _ => rfl) (fun s => keeps_newSpace s names) fun s => calm_newSpace.after s

theorem hosted_newCell (value : Option Value) : Hosted (Exec.newCell value) :=
  .access (fun _ _ _ => rfl) (fun s => keeps_newCell s value) fun s => calm_newCell.after s

theorem hosted_fresh : Hosted Exec.fresh :=
  .access (fun _ _ _ => rfl) (fun _ => .of_eq rfl rfl) fun s =>
    (inferInstance : Change.calm.Allows Exec.fresh).after s

theorem hosted_body (w : Wrapped) (n : Nat) (args : List Value) (keywords : Keywords) :
    Hosted (w.body n args keywords) := by
  have hrunnable : Hosted (w.runnable w.start.1) := by
    unfold Wrapped.runnable Exec.freshIdentity
    refine (hosted_newSpace _).bind fun globals => ?_
    refine (Hosted.mapM (fun name => hosted_newCell _) _).bind fun closure => ?_
    exact (hosted_fresh.bind fun id => .pure _).bind fun id => .pure _
  exact hrunnable.bind fun f => .function n f args keywords

/-- A sort of changes that allows calm changes and whatever the machine may be asked for allows all
steps, if it does not matter that observers are put in front and taken away. -/
theorem Hosted.allows {c : Change} (hcalm : ∀ {s t : Store}, s.Calm t → c.rel s t)
    (hwhole : ∀ {g : Stage}, g.task.IsWhole → c.rel g.store g.after)
    (hprobe : ∀ (p : Probe) {s u : Store}, c.rel (p.enter true s) u → c.rel s (p.leave u))
    (h : Hosted x) : c.Allows x := by
  induction h with
  | pure a => exact allows_pure
  | throw e => exact allows_throw
  | bind _ _ ihx ihf => exact ihx.bind ihf
  | access _ _ hf => exact ⟨fun s => hcalm (hf s)⟩
  | call n callee args keywords =>
    exact ⟨fun s => hwhole (g := ⟨n, .call callee args keywords, s⟩) trivial⟩
  | function n f args keywords =>
    exact ⟨fun s => hwhole (g := ⟨n, .function f args keywords, s⟩) trivial⟩
  | next n v => exact ⟨fun s => hwhole (g := ⟨n, .next v, s⟩) trivial⟩
  | items n v => exact ⟨fun s => hwhole (g := ⟨n, .items v, s⟩) trivial⟩
  | resume n r => exact ⟨fun s => hwhole (g := ⟨n, .resume r, s⟩) trivial⟩
  | module n code globals =>
    exact ⟨fun s => hwhole (g := ⟨n, .module code globals, s⟩) trivial⟩
  | @around α x p _ ih =>
    constructor
    intro s
    rw [Probe.after_around]
    exact hprobe p (ih.after (p.enter true s))

/-- The observer that a probe puts in front is the one that it takes away, and the others are told
of the same moments. -/
theorem path_probe (p : Probe) (h : Change.path.rel (p.enter true s) u) :
    Change.path.rel s (p.leave u) := by
  cases p with
  | transform marker => exact h
  | trace target frame locals =>
    intro told happart
    obtain ⟨told', hpath⟩ := h told happart.observed
    obtain ⟨ns, hns⟩ := Path.telling hpath
    -- Those behind the observer of the capture are told as if it was not there.
    have htail : u.observers.tail = tellEach ns s.observers := by
      have hobservers : u.observers = tellEach ns (_ :: s.observers) := hns.observers
      rw [hobservers, tellEach_cons]
      rfl
    have hothers := hns.under s.observers
    rw [← htail] at hothers
    exact ⟨told', hothers.path⟩

theorem Hosted.path (h : Hosted x) : Change.path.Allows x := by
  refine h.allows Change.path_of_calm ?_ fun p _ _ => path_probe p
  intro g hg told happart
  obtain ⟨inner, -, hpath⟩ := (Stage.At.whole hg).after happart
  exact ⟨told ++ inner, hpath⟩

def visiting : Change where
  rel s t := Visited s → Visited t
  trans h h' hs := h' (h hs)
  mild h hs := hs.step (.prepare h.toQuiet.calm)

theorem Hosted.visited (h : Hosted x) (hs : Visited s) : Visited (x.after s) := by
  have hallows : visiting.Allows x := by
    refine h.allows (fun hcalm hs => hs.step (.prepare hcalm)) (fun hg hs => hs.step (.run hg)) ?_
    intro p s u hu hs
    cases p with
    | transform marker => exact hu hs
    | trace target frame locals => exact (hu (hs.step .observe)).step .observe
  exact hallows.after s hs

end Steps

def hearing (os ps : List Observer) : Likeness :=
  loose (· = ·) fun o p => ∃ ns, o = tellEach ns os ∧ p = tellEach ns ps

section Hearing

variable {os ps : List Observer} {α : Type} {x : Exec α} {s t : Store}

theorem hearing_lawful : (hearing os ps).Lawful := loose_lawful (fun _ => rfl) fun _ _ h => h ▸ rfl

theorem hearing_steady : (hearing os ps).Steady := by
  refine loose_steady hearing_lawful ?_
  intro moment f s t h
  obtain ⟨ns, ho, hp⟩ := h.observers
  refine ⟨ns ++ [⟨moment, f, s⟩], ?_, ?_⟩
  · rw [tellEach_append, ← ho]
    rfl
  · rw [tellEach_append, ← hp]
    exact h.tellAll hearing_lawful _

theorem under_eq_of_alike {observers : List Observer → List Observer → Prop}
    (h : (loose (· = ·) observers).Alike s t) : t = s.under t.observers := by
  have hsame : same.Alike (s.under []) (t.under []) := h.withObservers rfl
  have heq : s.under [] = t.under [] := eq_of_alike hsame
  change t.under t.observers = (s.under []).under t.observers
  rw [heq]

theorem hearing_runsAt (os ps : List Observer) (n : Nat) : (hearing os ps).RunsAt n n :=
  hearing_steady.runsAt (Nat.le_refl n)

/-- Under a further capture the same is told on both sides, so the observer in front sees the same.
-/
theorem hearing_enter (p : Probe) (h : (hearing os ps).Alike s t) : ∃ os' ps',
    (hearing os' ps').Alike (p.enter true s) (p.enter true t) ∧
    ∀ {u v : Store}, (hearing os' ps').Alike u v →
      p.seen v = p.seen u ∧ (hearing os ps).Alike (p.leave u) (p.leave v) := by
  cases p with
  | transform marker => exact ⟨os, ps, h, fun huv => ⟨rfl, huv⟩⟩
  | trace target frame locals =>
    refine ⟨_, _, h.withObservers ⟨[], rfl, rfl⟩, ?_⟩
    intro u v huv
    obtain ⟨ns, ho, hp⟩ := h.observers
    obtain ⟨ms, hu, hv⟩ := huv.observers
    obtain ⟨frame', locals', hfront⟩ := @toldEach_capture ms true target frame locals
    rw [tellEach_cons, hfront] at hu hv
    constructor
    · simp only [Probe.seen, hu, hv]
    · refine huv.withObservers ⟨ns ++ ms, ?_, ?_⟩
      · rw [hu, tellEach_append, ← ho]
        rfl
      · rw [hv, tellEach_append, ← hp]
        rfl

theorem before_leave {p : Probe} {u : Store} (h : (p.enter true s).Before u) :
    s.Before (p.leave u) := by
  cases p with
  | transform marker => exact h
  | trace target frame locals => exact ⟨⟨h.keeps.names, h.keeps.cells⟩, h.started⟩

theorem agree_around (p : Probe)
    (hx : ∀ os ps, (hearing os ps).Agree (fun _ => True) x x) :
    (hearing os ps).Agree (fun _ => True) (p.around x) (p.around x) := by
  intro s t hst
  obtain ⟨os', ps', henter, hleave⟩ := hearing_enter p hst
  have hsteps := hx os' ps' henter
  cases hs : x (p.enter true s) with
  | ok a u =>
    rw [hs] at hsteps
    cases ht : x (p.enter true t) with
    | error e v =>
      rw [ht] at hsteps
      cases hsteps
    | ok b v =>
      rw [ht] at hsteps
      cases hsteps with
      | ok hab hbefore huv =>
        obtain ⟨rfl, -⟩ := hab
        obtain ⟨hseen, halike⟩ := hleave huv
        rw [Probe.around_ok hs, Probe.around_ok ht, hseen]
        exact .ok ⟨rfl, trivial⟩ (before_leave hbefore) halike
  | error e u =>
    by_cases he : e = .outOfFuel
    · rw [he] at hs
      rw [Probe.around_outOfFuel hs]
      exact .outOfFuel
    · rw [hs] at hsteps
      generalize ht : x (p.enter true t) = b at hsteps
      cases hsteps with
      | outOfFuel => exact absurd rfl he
      | error _ hbefore huv =>
        obtain ⟨hseen, halike⟩ := hleave huv
        rw [Probe.around_error hs he, Probe.around_error ht he, hseen]
        exact .ok ⟨rfl, trivial⟩ (before_leave hbefore) halike

theorem agree_hosted (h : Hosted x) (os ps : List Observer) :
    (hearing os ps).Agree (fun _ => True) x x := by
  -- A capture inside puts its observer in front on both sides, so `os` and `ps` vary.
  induction h generalizing os ps with
  | pure a => exact agree_pure trivial
  | throw e => exact follows_throw trivial
  | bind _ _ ihx ihf => exact (ihx os ps).bind fun a _ => ihf a os ps
  | access hf hkeeps _ => exact agree_modifyGet hf hkeeps fun u _ => ⟨trivial, loose_values _⟩
  | call n callee args keywords =>
    have hcall := (hearing_runsAt os ps n).callValue callee args keywords trivial
      (fun _ _ => trivial) fun _ _ => trivial
    exact hcall.mono fun _ _ => trivial
  | function n f args keywords =>
    have hcall := (hearing_runsAt os ps n).callFunction f args keywords trivial
      (fun _ _ => trivial) fun _ _ => trivial
    exact hcall.mono fun _ _ => trivial
  | next n v => exact ((hearing_runsAt os ps n).nextItem v trivial).mono fun _ _ => trivial
  | items n v => exact ((hearing_runsAt os ps n).collect v trivial).mono fun _ _ => trivial
  | resume n r => exact ((hearing_runsAt os ps n).resume r).mono fun _ _ => trivial
  | module n code globals =>
    unfold runModule
    have hslots : code.object.paramCount ≤ code.object.varnames.size →
        (emptySlots code).size = code.object.varnames.size := fun _ => by simp [emptySlots]
    refine (agree_makeFrame hslots fun _ _ _ _ => trivial).bind fun f _ => ?_
    refine ((hearing_runsAt os ps n).execute f trivial).bind fun r _ => ?_
    split
    · exact agree_pure trivial
    · exact follows_throw trivial
  | around p _ ih => exact agree_around p ih

end Hearing

end Lexiscope.Capture
