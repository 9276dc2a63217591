import Lexiscope.Machine.Run
/-!
# Turns of a frame

A turn is one instruction together with all that it makes other code do. A frame runs turn
after turn until one of them stops it.
-/

namespace Lexiscope.Machine

open Exec

def Frame.withCode (f : Frame) (c : LoadedCode) : Frame := { f with code := c }

def Action.frame : Action → Frame
  | .next f | .returned _ f | .yielded _ f | .invoke _ _ _ f | .unpack _ _ f | .advance _ _ f => f

def Action.withCode (c : LoadedCode) : Action → Action
  | .next f => .next (f.withCode c)
  | .returned v f => .returned v (f.withCode c)
  | .yielded v f => .yielded v (f.withCode c)
  | .invoke callee args keywords f => .invoke callee args keywords (f.withCode c)
  | .unpack v count f => .unpack v count (f.withCode c)
  | .advance iterator target f => .advance iterator target (f.withCode c)

theorem Action.withCode_self (a : Action) : a.withCode a.frame.code = a := by
  cases a <;> rfl

/-- What a turn leaves: a frame that goes on, or a stop. -/
inductive Turn where
  | goes (f : Frame)
  | stops (r : Stopped)

def Turn.withCode (c : LoadedCode) : Turn → Turn
  | .goes f => .goes (f.withCode c)
  | .stops r => .stops ⟨r.frame.withCode c, r.result⟩

/-- Does what an instruction asks for. -/
def act (n : Nat) : Action → Exec Turn
  | .next f => return .goes f
  | .returned v f => return .stops ⟨f, .ok (.returned v)⟩
  | .yielded v f => return .stops ⟨f, .ok (.yielded v)⟩
  | .invoke callee args keywords f => do
    match ← attempt (callValue n callee args keywords) with
    | .error halt => return .stops ⟨f, .error halt⟩
    | .ok v => return .goes (f.push v)
  | .unpack v count f => do
    match ← attempt (do unpackOnto f count (← collect n v)) with
    | .error halt => return .stops ⟨f, .error halt⟩
    | .ok f => return .goes f
  | .advance iterator target f => do
    match ← attempt (do advanced f target (← nextItem n iterator)) with
    | .error halt => return .stops ⟨f, .error halt⟩
    | .ok f => return .goes f

/-- One turn of a frame. -/
def turn (n : Nat) (f : Frame) : Exec Turn := do
  match ← attempt (step f) with
  | .error halt => return .stops ⟨f, .error halt⟩
  | .ok action => act n action

def Turn.continue (n : Nat) : Turn → Exec Stopped
  | .goes f => runFrame n f
  | .stops r => return r

theorem attempt_ok {α : Type} {x : Exec α} {a : α} {s t : Store} (h : x s = .ok a t) :
    attempt x s = .ok (.ok a) t := by
  simp only [attempt, h]

theorem attempt_error {α : Type} {x : Exec α} {e : Halt} {s t : Store} (h : x s = .error e t) :
    attempt x s = .ok (.error e) t := by
  simp only [attempt, h]

theorem bind_ok {α β : Type} {x : Exec α} {f : α → Exec β} {a : α} {s t : Store}
    (h : x s = .ok a t) : (x >>= f) s = f a t := by
  change EStateM.bind x f s = f a t
  simp only [EStateM.bind, h]

theorem bind_error {α β : Type} {x : Exec α} {f : α → Exec β} {e : Halt} {s t : Store}
    (h : x s = .error e t) : (x >>= f) s = .error e t := by
  change EStateM.bind x f s = .error e t
  simp only [EStateM.bind, h]

theorem map_ok {α β : Type} {x : Exec α} {k : α → β} {a : α} {s t : Store} (h : x s = .ok a t) :
    (k <$> x) s = .ok (k a) t := by
  change EStateM.map _ _ _ = _
  simp only [EStateM.map, h]

theorem map_error {α β : Type} {x : Exec α} {k : α → β} {e : Halt} {s t : Store}
    (h : x s = .error e t) : (k <$> x) s = .error e t := by
  change EStateM.map _ _ _ = _
  simp only [EStateM.map, h]

theorem bind_eq_ok {α β : Type} {x : Exec α} {k : α → Exec β} {b : β} {s u : Store}
    (h : (x >>= k) s = .ok b u) : ∃ a t, x s = .ok a t ∧ k a t = .ok b u := by
  cases hx : x s with
  | error e t =>
    rw [bind_error hx] at h
    cases h
  | ok a t =>
    rw [bind_ok hx] at h
    exact ⟨a, t, rfl, h⟩

theorem attempt_bind {α β : Type} (x : Exec α) (f : Except Halt α → Exec β) (s : Store) :
    (attempt x >>= f) s =
      match x s with
      | .ok a t => f (.ok a) t
      | .error e t => f (.error e) t := by
  cases h : x s with
  | ok a t => exact bind_ok (attempt_ok h)
  | error e t => exact bind_ok (attempt_error h)

theorem runFrame_succ (n : Nat) (f : Frame) :
    runFrame (n + 1) f = turn n f >>= Turn.continue n := by
  funext s
  unfold runFrame turn
  rw [bind_assoc, attempt_bind, attempt_bind]
  cases hstep : step f s with
  | error e t => rfl
  | ok action t =>
    cases action with
    | next g | returned v g | yielded v g => rfl
    | invoke callee args keywords g =>
      simp only [act]
      rw [bind_assoc, attempt_bind, attempt_bind]
      cases callValue n callee args keywords t <;> rfl
    | unpack v count g =>
      simp only [act]
      rw [bind_assoc, attempt_bind, attempt_bind]
      cases (collect n v >>= unpackOnto g count) t <;> rfl
    | advance iterator target g =>
      simp only [act]
      rw [bind_assoc, attempt_bind, attempt_bind]
      cases (nextItem n iterator >>= advanced g target) t <;> rfl

end Lexiscope.Machine
