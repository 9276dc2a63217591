import Lexiscope.Proofs.Machine.Fuel
/-!
# Courses

The course of a body is all that it does, turn after turn: what each instruction asked of the
machine, and the store after it. A body that has yielded goes on in whatever store it is resumed
in.
-/

namespace Lexiscope.Machine

/-- What an instruction asks of the machine, without its frame. -/
inductive Request where
  | nothing
  | call (callee : Value) (args : List Value) (keywords : Keywords)
  | items (v : Value) (count : Nat)
  | item (iterator : Value)

/-- What an action asks for. -/
def Action.request : Action → Request
  | .invoke callee args keywords _ => .call callee args keywords
  | .unpack v count _ => .items v count
  | .advance iterator _ _ => .item iterator
  | .next _ | .returned _ _ | .yielded _ _ => .nothing

/-- What a body does. -/
inductive Event where
  /-- An instruction, the store after it, and the store when its request was fulfilled. -/
  | turn (request : Request) (done fulfilled : Store)
  /-- A yield, the store that was left, and the store in which the body goes on. -/
  | yield (v : Value) (left back : Store)

/-- The course of a body from one frame and store to others. -/
inductive Course : Frame → Store → List Event → Frame → Store → Prop where
  | here {f s} : Course f s [] f s
  | turn {f s a u n g v es h w} : step f s = .ok a u → act n a u = .ok (.goes g) v →
    Course g v es h w → Course f s (.turn a.request u v :: es) h w
  | yield {f s x g u t es h w} : step f s = .ok (.yielded x g) u →
    Course (g.push .none) t es h w → Course f s (.yield x u t :: es) h w

section Frames

variable {f g : Frame} {s u : Store}

theorem turn_ok {a : Action} (h : step f s = .ok a u) (n : Nat) : turn n f s = act n a u := by
  unfold turn
  rw [attempt_bind, h]

theorem turn_error {e : Halt} (h : step f s = .error e u) (n : Nat) :
    turn n f s = .ok (.stops ⟨f, .error e⟩) u := by
  unfold turn
  rw [attempt_bind, h]
  rfl

theorem runFrame_goes {n : Nat} (h : turn n f s = .ok (.goes g) u) :
    runFrame (n + 1) f s = runFrame n g u := by
  rw [runFrame_succ, bind_ok h]
  rfl

theorem runFrame_stops {n : Nat} {r : Stopped} (h : turn n f s = .ok (.stops r) u) :
    runFrame (n + 1) f s = .ok r u := by
  rw [runFrame_succ, bind_ok h]
  rfl

theorem runFrame_next {n : Nat} (h : step f s = .ok (.next g) u) :
    runFrame (n + 1) f s = runFrame n g u :=
  runFrame_goes (turn_ok h n)

theorem runFrame_returned {n : Nat} {v : Value} (h : step f s = .ok (.returned v g) u) :
    runFrame (n + 1) f s = .ok ⟨g, .ok (.returned v)⟩ u :=
  runFrame_stops (turn_ok h n)

end Frames

theorem runFrame_mono {n m : Nat} (hnm : n ≤ m) {f : Frame} {s u : Store} {r : Stopped}
    (h : runFrame n f s = .ok r u) (hr : ¬ r.IsSpent) : runFrame m f s = .ok r u := by
  obtain ⟨r', hr', rfl, -⟩ :=
    ((Likeness.same_steady.runsAt hnm).runFrame f trivial).ok_same h hr
  exact hr'

theorem turn_goes_mono {n m : Nat} (hnm : n ≤ m) {f g : Frame} {s u : Store}
    (h : turn n f s = .ok (.goes g) u) : turn m f s = .ok (.goes g) u := by
  have hsteady := Likeness.same_steady
  obtain ⟨x, hx, rfl, hturns⟩ := (Likeness.tries_turn hsteady.toLawful (hsteady.runsAt hnm)
    (Likeness.follows_ownStep hsteady trivial)).ok_same h id
  rwa [hturns.withCode_self] at hx

def Store.entered (s : Store) (f : Frame) : Store :=
  { s with
    depth := s.depth + 1
    observers := tellAll { s with depth := s.depth + 1 } .enter f s.observers }

def Store.left (s : Store) (r : Stopped) : Store :=
  { s with depth := s.depth - 1, observers := tellAll s r.moment r.frame s.observers }

theorem leaveFrame_run (r : Stopped) (s : Store) : leaveFrame r s =
    match r.result with
    | .ok k => .ok (k, r.frame) (s.left r)
    | .error e => .error e (s.left r) := by
  unfold leaveFrame
  cases r.result <;> rfl

theorem execute_full {s : Store} (h : s.limit < s.depth + 1) (n : Nat) (f : Frame) :
    execute (n + 1) f s = .error (.raised { kind := .recursionError, message :=
      "maximum recursion depth exceeded (limit " ++ toString s.limit ++ ")" }) s := by
  unfold execute
  refine bind_error ?_
  rw [Likeness.enterDepth_run, if_pos h]
  rfl

theorem execute_run {s u : Store} (h : ¬ s.limit < s.depth + 1) {n : Nat} {f : Frame}
    {r : Stopped} (hrun : runFrame n f (s.entered f) = .ok r u) :
    execute (n + 1) f s = leaveFrame r u := by
  unfold execute
  have hdepth : enterDepth s = .ok () { s with depth := s.depth + 1 } := by
    rw [Likeness.enterDepth_run, if_neg h]
  have hnotify : Exec.notify .enter f { s with depth := s.depth + 1 } =
      .ok () (s.entered f) := rfl
  rw [bind_ok hdepth, bind_ok hnotify, bind_ok hrun]

/-- The run of a frame does not halt itself. -/
theorem runFrame_total (n : Nat) (f : Frame) (s : Store) : ∃ r u, runFrame n f s = .ok r u := by
  have hself := (Likeness.same_steady.runsAt (Nat.le_refl n)).runFrame f trivial
    (Likeness.alike_refl s)
  generalize runFrame n f s = x at hself
  cases hself <;> exact ⟨_, _, rfl⟩

theorem turn_total (n : Nat) (f : Frame) (s : Store) : ∃ x u, turn n f s = .ok x u := by
  unfold turn
  rw [attempt_bind]
  cases step f s with
  | error e u => exact ⟨_, _, rfl⟩
  | ok a u =>
    cases a with
    | next g | returned v g | yielded v g => exact ⟨_, _, rfl⟩
    | invoke callee args keywords g =>
      simp only [act]
      rw [attempt_bind]
      cases callValue n callee args keywords u <;> exact ⟨_, _, rfl⟩
    | unpack v count g =>
      simp only [act]
      rw [attempt_bind]
      cases (collect n v >>= unpackOnto g count) u <;> exact ⟨_, _, rfl⟩
    | advance iterator target g =>
      simp only [act]
      rw [attempt_bind]
      cases (nextItem n iterator >>= advanced g target) u <;> exact ⟨_, _, rfl⟩

theorem step_of_goes {n : Nat} {f g : Frame} {s u : Store} (h : turn n f s = .ok (.goes g) u) :
    ∃ a t, step f s = .ok a t ∧ act n a t = .ok (.goes g) u := by
  cases hstep : step f s with
  | error e t =>
    rw [turn_error hstep] at h
    cases h
  | ok a t =>
    rw [turn_ok hstep] at h
    exact ⟨a, t, rfl, h⟩

/-- A frame that stops without an exception has done an instruction that stops it. -/
theorem step_of_completed {n : Nat} {f g : Frame} {s u : Store} {k : Completion}
    (h : turn n f s = .ok (.stops ⟨g, .ok k⟩) u) :
    step f s = .ok (match k with | .returned v => .returned v g | .yielded v => .yielded v g) u
    := by
  cases hstep : step f s with
  | error e t =>
    rw [turn_error hstep] at h
    cases h
  | ok a t =>
    rw [turn_ok hstep] at h
    cases a with
    | next g => cases h
    | returned v g | yielded v g =>
      cases h
      rfl
    | invoke callee args keywords g =>
      simp only [act] at h
      rw [attempt_bind] at h
      cases hcall : callValue n callee args keywords t <;> rw [hcall] at h <;> cases h
    | unpack v count g =>
      simp only [act] at h
      rw [attempt_bind] at h
      cases hcall : (collect n v >>= unpackOnto g count) t <;> rw [hcall] at h <;> cases h
    | advance iterator target g =>
      simp only [act] at h
      rw [attempt_bind] at h
      cases hcall : (nextItem n iterator >>= advanced g target) t <;> rw [hcall] at h <;> cases h

theorem step_of_returned {n : Nat} {f g : Frame} {s u : Store} {v : Value}
    (h : turn n f s = .ok (.stops ⟨g, .ok (.returned v)⟩) u) :
    step f s = .ok (.returned v g) u :=
  step_of_completed h

theorem step_of_yielded {n : Nat} {f g : Frame} {s u : Store} {v : Value}
    (h : turn n f s = .ok (.stops ⟨g, .ok (.yielded v)⟩) u) :
    step f s = .ok (.yielded v g) u :=
  step_of_completed h

/-- A run of a frame is a course without a yield and a turn that stops it, or is stopped for
want of fuel. -/
theorem course_of_runFrame {n : Nat} {f : Frame} {s u : Store} {r : Stopped}
    (h : runFrame n f s = .ok r u) :
    r.IsSpent ∨ ∃ es g t m, Course f s es g t ∧ turn m g t = .ok (.stops r) u := by
  induction n generalizing f s with
  | zero =>
    cases h
    exact .inl rfl
  | succ n ih =>
    obtain ⟨x, t, hturn⟩ := turn_total n f s
    cases x with
    | goes g =>
      rw [runFrame_goes hturn] at h
      obtain ⟨a, t', hstep, hact⟩ := step_of_goes hturn
      rcases ih h with hspent | ⟨es, g', t'', m, hcourse, hstop⟩
      · exact .inl hspent
      · exact .inr ⟨_, g', t'', m, .turn hstep hact hcourse, hstop⟩
    | stops r' =>
      rw [runFrame_stops hturn] at h
      cases h
      exact .inr ⟨[], f, s, n, .here, hturn⟩

end Lexiscope.Machine
