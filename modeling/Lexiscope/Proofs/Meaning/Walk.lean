import Lexiscope.Proofs.Machine.Course
import Lexiscope.Proofs.Meaning.Tale
/-!
# Walks and tales

A walk is a number of turns of a frame, with the deeds that are done on it. Code matches a tale if
the walks of its frames end, yield and stop just as it is told, after the same deeds.
-/

namespace Lexiscope.Machine

open Code (Instr)

/-- The frame at another place, with other operands. -/
def Frame.placed (f : Frame) (pc : Nat) (stack : List Value) : Frame := { f with pc, stack }

end Lexiscope.Machine

namespace Lexiscope.Meaning

open Machine Exec
open Code (Instr Object)

section Deeds

def instrDeeds (c : Object) : Instr → List Value → List Deed
  | .loadFast i, _ => c.varnames[i]?.toList.map .look
  | .loadDeref i, _ | .loadClassDeref i, _ => (c.derefName? i).toList.map .look
  | .loadGlobal i, _ | .loadName i, _ => c.names[i]?.toList.map .look
  | .storeFast i, v :: _ => c.varnames[i]?.toList.map (.bind · v)
  | .storeDeref i, v :: _ => (c.derefName? i).toList.map (.bind · v)
  | .storeGlobal i, v :: _ | .storeName i, v :: _ => c.names[i]?.toList.map (.bind · v)
  | .loadAttr i, v :: _ => c.names[i]?.toList.map (.member v)
  | .storeAttr i, object :: v :: _ => c.names[i]?.toList.map (.setMember object · v)
  | .loadSubscript, index :: container :: _ => [.item container index]
  | .storeSubscript, index :: container :: v :: _ => [.setItem container index v]
  | .unary op, v :: _ => [.unary op v]
  | .binary op, right :: left :: _ => [.binary op left right]
  | .compare op, right :: left :: _ => [.compare op left right]
  | .getIter, v :: _ => [.iterate v]
  | _, _ => []

def actionDeeds : Action → List Deed
  | .invoke callee args keywords _ => [.call callee args keywords]
  | .unpack v count _ => [.unpack v count]
  | .advance iterator _ _ => [.next iterator]
  | .next _ | .returned _ _ | .yielded _ _ => []

/-- The deed that the action of an instruction asks for, if it comes to one. -/
def resultDeeds : EStateM.Result Halt Store Action → List Deed
  | .ok a _ => actionDeeds a
  | .error _ _ => []

def turnDeeds (f : Frame) (s : Store) : List Deed :=
  (f.code.object.instructions[f.pc]?.elim [] fun i => instrDeeds f.code.object i f.stack) ++
    resultDeeds (step f s)

end Deeds

/-- A number of turns of a frame, with the deeds that are done. -/
inductive Walk (n : Nat) : Nat → Frame → Store → List Deed → Frame → Store → Prop where
  | here {f s} : Walk n 0 f s [] f s
  | turn {k f s g t ds h u} : turn n f s = .ok (.goes g) t → Walk n k g t ds h u →
    Walk n (k + 1) f s (turnDeeds f s ++ ds) h u

/-- The frame and the store do as is told. Where a part of a body ends with a value, the frame is at
the place and has the operands that belong to that value; where it stops or yields, so does the
frame. A part with loops may be told to need more turns than there is a bound for, and then walks on
for at least that many. -/
inductive Matches {α : Type} (mayTire : Prop) (n : Nat) (c : Object) (goal : α → Nat × List Value) :
    Nat → Frame → Store → Told α → Prop where
  | done {m k g s ds a f t} : Walk n k g s ds (f.placed (goal a).1 (goal a).2) t →
    f.code.object = c → Matches mayTire n c goal m g s (.ended (.ok a) f t ds)
  | stopped {m k g s ds h u stop f pc σ t} : Walk n k g s ds h u →
    turn n h u = .ok (.stops ⟨f.placed pc σ, stop.result⟩) t →
    Matches mayTire n c goal m g s (.ended (.error stop) f t (ds ++ turnDeeds h u))
  | tired {m k g s ds h u f t es} : mayTire → Walk n k g s ds h u → m ≤ k →
    Matches mayTire n c goal m g s (.ended (.error (.halted .outOfFuel)) f t es)
  | yielded {m k g s ds h u v f pc σ left back} : Walk n k g s ds h u →
    step h u = .ok (.yielded v (f.placed pc σ)) left →
    (∀ t, Matches mayTire n c goal (m - (k + 1)) (f.placed pc (.none :: σ)) t (back t)) →
    Matches mayTire n c goal m g s (.yielded v f left (ds ++ turnDeeds h u) back)

section Rules

variable {α β : Type} {mayTire : Prop} {n m k : Nat} {c : Object} {goal : α → Nat × List Value}
  {goal' : β → Nat × List Value} {f g h : Frame} {s t u : Store} {ds es : List Deed}

theorem Walk.trans {k' : Nat} (hw : Walk n k f s ds g t) (hw' : Walk n k' g t es h u) :
    Walk n (k + k') f s (ds ++ es) h u := by
  induction hw with
  | here => simpa using hw'
  | turn hturn _ ih =>
    rw [Nat.add_right_comm, List.append_assoc]
    exact .turn hturn (ih hw')

theorem Walk.runFrame {m : Nat} (hnm : n ≤ m) (hw : Walk n k f s ds g t) :
    runFrame (m + k) f s = runFrame m g t := by
  induction hw with
  | here => rfl
  | @turn k _ _ _ _ _ _ _ hturn _ ih =>
    have hturn' := turn_goes_mono (Nat.le_trans hnm (Nat.le_add_right m k)) hturn
    exact (runFrame_goes hturn').trans ih

theorem Matches.mono {m' : Nat} {told : Told α} (hm : m' ≤ m)
    (hmatches : Matches mayTire n c goal m g s told) : Matches mayTire n c goal m' g s told := by
  induction hmatches generalizing m' with
  | done hwalk hcode => exact .done hwalk hcode
  | stopped hwalk hturn => exact .stopped hwalk hturn
  | tired htire hwalk hk => exact .tired htire hwalk (Nat.le_trans hm hk)
  | yielded hwalk hstep _ ih => exact .yielded hwalk hstep fun t => ih t (by omega)

theorem Walk.matches {told : Told α} (hw : Walk n k f s ds g t)
    (hmatches : Matches mayTire n c goal m g t told) : Matches mayTire n c goal (m + k) f s (told.after ds) := by
  cases hmatches with
  | done hwalk hcode => exact .done (hw.trans hwalk) hcode
  | stopped hwalk hturn =>
    rw [Told.after, ← List.append_assoc]
    exact .stopped (hw.trans hwalk) hturn
  | tired htire hwalk hk => exact .tired htire (hw.trans hwalk) (by omega)
  | yielded hwalk hstep hback =>
    rw [Told.after, ← List.append_assoc]
    exact .yielded (hw.trans hwalk) hstep fun t => (hback t).mono (by omega)

theorem Matches.bind {told : Told α} {next : α → Frame → Store → Told β}
    (hmatches : Matches mayTire n c goal m g s told)
    (hnext : ∀ a f t, f.code.object = c →
      Matches mayTire n c goal' m (f.placed (goal a).1 (goal a).2) t (next a f t)) :
    Matches mayTire n c goal' m g s (told.bind next) := by
  induction hmatches with
  | done hwalk hcode => exact (hwalk.matches (hnext _ _ _ hcode)).mono (Nat.le_add_right _ _)
  | stopped hwalk hturn => exact .stopped hwalk hturn
  | tired htire hwalk hk => exact .tired htire hwalk hk
  | yielded hwalk hstep _ ih =>
    exact .yielded hwalk hstep fun t => ih t fun a f t hf => (hnext a f t hf).mono (by omega)

/-- What the run of a frame comes to, if it is as is told. -/
def RunsAs (n : Nat) (goal : α → Nat × List Value) (g : Frame) (s : Store) : Told α → Prop
  | .ended (.ok a) f t _ =>
    ∃ k, runFrame (n + k) g s = runFrame n (f.placed (goal a).1 (goal a).2) t
  | .ended (.error stop) f t _ => stop = .halted .outOfFuel ∨
    ∃ k pc σ, runFrame (n + k) g s = .ok ⟨f.placed pc σ, stop.result⟩ t
  | .yielded v f left _ _ =>
    ∃ k pc σ, runFrame (n + k) g s = .ok ⟨f.placed pc σ, .ok (.yielded v)⟩ left

theorem Matches.runsAs {told : Told α} (h : Matches mayTire n c goal m g s told) :
    RunsAs n goal g s told := by
  have hstops : ∀ {k h u r t ds}, Walk n k g s ds h u → turn n h u = .ok (.stops r) t →
      runFrame (n + (1 + k)) g s = .ok r t := by
    intro k h u r t ds hwalk hturn
    rw [← Nat.add_assoc, hwalk.runFrame (Nat.le_succ n)]
    exact runFrame_stops hturn
  cases h with
  | done hwalk _ => exact ⟨_, hwalk.runFrame (Nat.le_refl n)⟩
  | stopped hwalk hturn => exact .inr ⟨_, _, _, hstops hwalk hturn⟩
  | tired => exact .inl rfl
  | yielded hwalk hstep _ => exact ⟨_, _, _, hstops hwalk (turn_ok hstep n)⟩

/-- From a place in the code, with operands on the stack, the code does what the tale tells, and
comes to the place and the operands that belong to the end of the tale. -/
def Realizes (mayTire : Prop) (n : Nat) (c : Object) (pc : Nat) (stack : List Value) (x : Tale α)
    (goal : α → Nat × List Value) : Prop :=
  ∀ f s, f.code.object = c → Matches mayTire n c goal n (f.placed pc stack) s (x f s)

theorem Realizes.bind {pc : Nat} {stack : List Value} {x : Tale α} {y : α → Tale β}
    (hx : Realizes mayTire n c pc stack x goal)
    (hy : ∀ a, Realizes mayTire n c (goal a).1 (goal a).2 (y a) goal') :
    Realizes mayTire n c pc stack (x >>= y) goal' :=
  fun f s hf => (hx f s hf).bind fun a f t hf => hy a f t hf

theorem realizes_pure {pc : Nat} {stack : List Value} {a : α} (h : goal a = (pc, stack)) :
    Realizes mayTire n c pc stack (pure a) goal := by
  intro f s hf
  refine .done (k := 0) ?_ hf
  rw [h]
  exact .here

end Rules

section Instructions

variable {α : Type} {mayTire : Prop} {n m : Nat} {c : Object} {pc : Nat} {i : Instr} {σ : List Value}
  {goal : α → Nat × List Value} {f g : Frame} {s t : Store}

theorem step_placed (hi : c.instructions[pc]? = some i) (hf : f.code.object = c) :
    step (f.placed pc σ) = perform (f.placed (pc + 1) σ) i := by
  subst hf
  unfold step
  rw [show (f.placed pc σ).code.object.instructions[(f.placed pc σ).pc]? = some i from hi]
  rfl

theorem turnDeeds_placed (hi : c.instructions[pc]? = some i) (hf : f.code.object = c) :
    turnDeeds (f.placed pc σ) s =
      instrDeeds c i σ ++ resultDeeds (perform (f.placed (pc + 1) σ) i s) := by
  unfold turnDeeds
  rw [step_placed hi hf]
  subst hf
  rw [show (f.placed pc σ).code.object.instructions[(f.placed pc σ).pc]? = some i from hi]
  rfl

theorem walk_turn (h : turn n f s = .ok (.goes g) t) : Walk n 1 f s (turnDeeds f s) g t := by
  simpa using Walk.turn h .here

theorem matches_error {e : Halt} {ds : List Deed} (hi : c.instructions[pc]? = some i)
    (hf : f.code.object = c) (hds : instrDeeds c i σ = ds)
    (hperform : perform (f.placed (pc + 1) σ) i s = .error e t) :
    Matches mayTire n c goal n (f.placed pc σ) s (.ended (.error (.halted e)) f t ds) := by
  have hstep := congrFun (step_placed (σ := σ) hi hf) s
  have hdeeds := turnDeeds_placed (σ := σ) (s := s) hi hf
  rw [hperform] at hstep hdeeds
  rw [hds] at hdeeds
  have hstops : Matches mayTire n c goal n (f.placed pc σ) s
      (.ended (.error (.halted e)) f t ([] ++ turnDeeds (f.placed pc σ) s)) :=
    .stopped .here (turn_error hstep n)
  rw [hdeeds] at hstops
  simpa [resultDeeds] using hstops

theorem walk_next {ds : List Deed} (hi : c.instructions[pc]? = some i) (hf : f.code.object = c)
    (hds : instrDeeds c i σ = ds) (hperform : perform (f.placed (pc + 1) σ) i s = .ok (.next g) t) :
    Walk n 1 (f.placed pc σ) s ds g t := by
  have hstep := congrFun (step_placed (σ := σ) hi hf) s
  have hdeeds := turnDeeds_placed (σ := σ) (s := s) hi hf
  rw [hperform] at hstep hdeeds
  have hwalk := walk_turn (turn_ok hstep n)
  rw [hdeeds, hds] at hwalk
  simpa [resultDeeds, actionDeeds] using hwalk

theorem matches_next {a : α} {ds : List Deed} (hi : c.instructions[pc]? = some i)
    (hf : f.code.object = c) (hg : g.code.object = c) (hds : instrDeeds c i σ = ds)
    (hperform : perform (f.placed (pc + 1) σ) i s =
      .ok (.next (g.placed (goal a).1 (goal a).2)) t) :
    Matches mayTire n c goal m (f.placed pc σ) s (.ended (.ok a) g t ds) :=
  .done (walk_next hi hf hds hperform) hg

theorem realizes_next {ds : List Deed} {x : Frame → Exec α} (hi : c.instructions[pc]? = some i)
    (hds : instrDeeds c i σ = ds)
    (hperform : ∀ f, f.code.object = c → perform (f.placed (pc + 1) σ) i =
      (fun a => Action.next (f.placed (goal a).1 (goal a).2)) <$> x f) :
    Realizes mayTire n c pc σ ((Tale.silently x).after ds) goal := by
  intro f s hf
  change Matches mayTire n c goal n (f.placed pc σ) s ((Tale.silently x f s).after ds)
  have hrun := congrFun (hperform f hf) s
  cases hx : x f s with
  | ok a t =>
    rw [map_ok hx] at hrun
    rw [Tale.silently_ok hx, Told.after, List.append_nil]
    exact matches_next hi hf hf hds hrun
  | error e t =>
    rw [map_error hx] at hrun
    rw [Tale.silently_error hx, Told.after, List.append_nil]
    exact matches_error hi hf hds hrun

theorem realizes_silently {x : Frame → Exec α} (hi : c.instructions[pc]? = some i)
    (hds : instrDeeds c i σ = [])
    (hperform : ∀ f, f.code.object = c → perform (f.placed (pc + 1) σ) i =
      (fun a => Action.next (f.placed (goal a).1 (goal a).2)) <$> x f) :
    Realizes mayTire n c pc σ (Tale.silently x) goal := by
  have hnext : Realizes mayTire n c pc σ ((Tale.silently x).after []) goal :=
    realizes_next hi hds hperform
  rwa [Tale.after_nil] at hnext

theorem realizes_bindName {name : Name} {v : Value} {x : Frame → Exec Frame} {goal : Unit → Nat × List Value}
    (hi : c.instructions[pc]? = some i) (hds : instrDeeds c i σ = [.bind name v])
    (hperform : ∀ f, f.code.object = c → perform (f.placed (pc + 1) σ) i =
      (fun g => Action.next (g.placed (goal ()).1 (goal ()).2)) <$> x f)
    (hcode : ∀ f s g t, x f s = .ok g t → g.code = f.code) :
    Realizes mayTire n c pc σ (Tale.bindName name v x) goal := by
  intro f s hf
  have hrun := congrFun (hperform f hf) s
  cases hx : x f s with
  | ok g t =>
    rw [map_ok hx] at hrun
    simp only [Tale.bindName, hx]
    exact matches_next hi hf (by rw [hcode f s g t hx, hf]) hds hrun
  | error e t =>
    rw [map_error hx] at hrun
    simp only [Tale.bindName, hx]
    exact matches_error hi hf hds hrun

/-- In the next turn the machine is asked to do something, and the frame goes on with what comes of
it, or stops. -/
structure Asks {α : Type} (n : Nat) (c : Object) (pc : Nat) (σ : List Value) (d : Deed) (x : Exec α)
    (goal : α → Nat × List Value) : Prop where
  deeds : ∀ (f : Frame) (s : Store), f.code.object = c → turnDeeds (f.placed pc σ) s = [d]
  turn : ∀ (f : Frame) (s : Store), f.code.object = c → ∃ left, turn n (f.placed pc σ) s = match x s with
    | .ok v t => .ok (.goes (f.placed (goal v).1 (goal v).2)) t
    | .error e t => .ok (.stops ⟨f.placed (pc + 1) left, .error e⟩) t

theorem asks {d : Deed} {x : Exec α} {ρ : List Value} {a : Frame → Action}
    (hi : c.instructions[pc]? = some i) (hds : instrDeeds c i σ = [])
    (hperform : ∀ f s, perform (f.placed (pc + 1) σ) i s = .ok (a f) s)
    (ha : ∀ f, actionDeeds (a f) = [d])
    (hact : ∀ f s, act n (a f) s = match x s with
      | .ok v t => .ok (.goes (f.placed (goal v).1 (goal v).2)) t
      | .error e t => .ok (.stops ⟨f.placed (pc + 1) ρ, .error e⟩) t) :
    Asks n c pc σ d x goal where
  deeds f s hf := by rw [turnDeeds_placed hi hf, hds, hperform, List.nil_append, resultDeeds, ha]
  turn f s hf := by
    have hstep := (congrFun (step_placed hi hf) s).trans (hperform f s)
    exact ⟨ρ, (turn_ok hstep n).trans (hact f s)⟩

variable {d : Deed} {x : Exec α}

theorem Asks.walk (h : Asks n c pc σ d x goal) (hf : f.code.object = c) {v : α} (hx : x s = .ok v t) :
    Walk n 1 (f.placed pc σ) s [d] (f.placed (goal v).1 (goal v).2) t := by
  obtain ⟨left, hturn⟩ := h.turn f s hf
  rw [hx] at hturn
  have hwalk := walk_turn hturn
  rwa [h.deeds f s hf] at hwalk

theorem Asks.stopped {β : Type} {goal' : β → Nat × List Value} (h : Asks n c pc σ d x goal)
    (hf : f.code.object = c) {e : Halt} (hx : x s = .error e t) :
    Matches mayTire n c goal' m (f.placed pc σ) s (.ended (.error (.halted e)) f t [d]) := by
  obtain ⟨left, hturn⟩ := h.turn f s hf
  rw [hx] at hturn
  have hmatches : Matches mayTire n c goal' m (f.placed pc σ) s
      (.ended (.error (.halted e)) f t ([] ++ turnDeeds (f.placed pc σ) s)) := .stopped .here hturn
  rwa [h.deeds f s hf] at hmatches

theorem Asks.realizes (h : Asks n c pc σ d x goal) :
    Realizes mayTire n c pc σ (Tale.doing d x) goal := by
  intro f s hf
  change Matches mayTire n c goal n (f.placed pc σ) s ((Tale.silently (fun _ => x) f s).after [d])
  cases hx : x s with
  | ok v t =>
    rw [Tale.silently_ok hx]
    exact .done (h.walk hf hx) hf
  | error e t =>
    rw [Tale.silently_error hx]
    exact h.stopped hf hx

end Instructions

end Lexiscope.Meaning
