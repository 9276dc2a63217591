import Lexiscope.Machine.Run
/-!
# Tales

A tale says what a part of a body does when it is run in a frame and a store, without saying how:
what becomes of the names and of the store, how the part ends, where it yields, and which deeds it
does on the way, one after another.
-/

namespace Lexiscope.Meaning

open Machine
open Grammar (BinaryOp UnaryOp CompareOp)

/-- A single thing that a body does: it reads or binds a name, applies an operator, reads or sets a
member or an item, calls a value, or takes items from one. -/
inductive Deed where
  | look (name : Name)
  | bind (name : Name) (v : Value)
  | unary (op : UnaryOp) (operand : Value)
  | binary (op : BinaryOp) (left right : Value)
  | compare (op : CompareOp) (left right : Value)
  | member (object : Value) (name : Name)
  | setMember (object : Value) (name : Name) (v : Value)
  | item (container index : Value)
  | setItem (container index v : Value)
  | call (callee : Value) (args : List Value) (keywords : Keywords)
  | unpack (v : Value) (count : Nat)
  | iterate (v : Value)
  | next (iterator : Value)
  deriving Inhabited

/-- What keeps a body from going on. -/
inductive Stop where
  | halted (h : Halt)
  | returned (v : Value)

/-- How the frame of the body stops. -/
def Stop.result : Stop → Except Halt Completion
  | halted h => .error h
  | returned v => .ok (.returned v)

/-- What is told of a part of a body: how it ended, with the names in the frame and the store as they
are then, or that it has yielded, and what it does when it is resumed in some store. -/
inductive Told (α : Type) where
  | ended (result : Except Stop α) (frame : Frame) (store : Store) (deeds : List Deed)
  | yielded (v : Value) (frame : Frame) (left : Store) (deeds : List Deed) (back : Store → Told α)

namespace Told

variable {α β : Type}

def after (ds : List Deed) : Told α → Told α
  | ended r f s es => ended r f s (ds ++ es)
  | yielded v f s es back => yielded v f s (ds ++ es) back

/-- What is told when something else is done at the end. -/
def bind : Told α → (α → Frame → Store → Told β) → Told β
  | ended (.ok a) f s ds, k => (k a f s).after ds
  | ended (.error stop) f s ds, _ => ended (.error stop) f s ds
  | yielded v f s ds back, k => yielded v f s ds fun t => (back t).bind k

@[simp] theorem after_nil (t : Told α) : t.after [] = t := by
  cases t <;> rfl

theorem after_after (ds es : List Deed) (t : Told α) : (t.after es).after ds = t.after (ds ++ es) := by
  cases t <;> simp [after]

theorem bind_after (ds : List Deed) (t : Told α) (k : α → Frame → Store → Told β) :
    (t.after ds).bind k = (t.bind k).after ds := by
  cases t with
  | ended r f s es =>
    cases r with
    | ok a => exact (after_after ds es (k a f s)).symm
    | error stop => rfl
  | yielded v f s es back => rfl

theorem bind_assoc {γ : Type} (t : Told α) (k : α → Frame → Store → Told β)
    (k' : β → Frame → Store → Told γ) :
    (t.bind k).bind k' = t.bind fun a f s => (k a f s).bind k' := by
  induction t with
  | ended r f s ds =>
    cases r with
    | ok a => exact bind_after ds (k a f s) k'
    | error stop => rfl
  | yielded v f s ds back ih =>
    change Told.yielded v f s ds _ = Told.yielded v f s ds _
    exact congrArg _ (funext ih)

end Told

/-- What a part of a body does, in whatever frame and store it is run. Of the frame only the names
matter. -/
def Tale (α : Type) := Frame → Store → Told α

namespace Tale

variable {α β : Type}

instance : Monad Tale where
  pure a := fun f s => .ended (.ok a) f s []
  bind x k := fun f s => (x f s).bind k

theorem pure_bind (a : α) (x : α → Tale β) : (pure a : Tale α) >>= x = x a := by
  funext f s
  exact Told.after_nil (x a f s)

theorem bind_assoc {γ : Type} (x : Tale α) (y : α → Tale β) (z : β → Tale γ) :
    x >>= y >>= z = x >>= fun a => y a >>= z := by
  funext f s
  exact Told.bind_assoc (x f s) y z

/-- The same tale with deeds before. -/
def after (ds : List Deed) (x : Tale α) : Tale α := fun f s => (x f s).after ds

theorem after_nil (x : Tale α) : x.after [] = x := by
  funext f s
  exact Told.after_nil (x f s)

/-- A computation of the machine. -/
def silently (x : Frame → Exec α) : Tale α := fun f s =>
  match x f s with
  | .ok a t => .ended (.ok a) f t []
  | .error h t => .ended (.error (.halted h)) f t []

theorem silently_ok {x : Frame → Exec α} {f : Frame} {s t : Store} {a : α} (h : x f s = .ok a t) :
    silently x f s = .ended (.ok a) f t [] := by
  simp only [silently, h]

theorem silently_error {x : Frame → Exec α} {f : Frame} {s t : Store} {e : Halt}
    (h : x f s = .error e t) : silently x f s = .ended (.error (.halted e)) f t [] := by
  simp only [silently, h]

theorem silently_bind (x : Frame → Exec α) (y : α → Frame → Exec β) :
    silently (fun f => x f >>= fun a => y a f) = silently x >>= fun a => silently (y a) := by
  funext f s
  change _ = (silently x f s).bind fun a => silently (y a)
  cases hx : x f s with
  | ok a t =>
    have hbind : (x f >>= fun a => y a f) s = y a f t := by
      change EStateM.bind _ _ s = _
      simp only [EStateM.bind, hx]
    rw [silently_ok hx]
    change _ = (silently (y a) f t).after []
    rw [Told.after_nil]
    simp only [silently, hbind]
  | error e t =>
    have hbind : (x f >>= fun a => y a f) s = .error e t := by
      change EStateM.bind _ _ s = _
      simp only [EStateM.bind, hx]
    rw [silently_error hx]
    simp only [silently, hbind]
    rfl

/-- A computation of the machine that is a deed. -/
def doing (d : Deed) (x : Exec α) : Tale α := (silently fun _ => x).after [d]

def look (name : Name) (x : Frame → Exec Value) : Tale Value := (silently x).after [.look name]

def bindName (name : Name) (v : Value) (x : Frame → Exec Frame) : Tale Unit := fun f s =>
  match x f s with
  | .ok g t => .ended (.ok ()) g t [.bind name v]
  | .error h t => .ended (.error (.halted h)) f t [.bind name v]

def truth (v : Value) : Tale Bool := fun f s => .ended (.ok (v.isTruthy s)) f s []

/-- The body yields a value. It goes on with nothing in its place. -/
def yields (v : Value) : Tale Value := fun f s =>
  .yielded v f s [] fun t => .ended (.ok .none) f t []

def returns (v : Value) : Tale α := fun f s => .ended (.error (.returned v)) f s []

/-- The tale always tells of a value or an exception, and no name is bound. -/
def Plain (x : Tale α) : Prop :=
  ∀ f s, ∃ (r : Except Halt α) (t : Store) (ds : List Deed),
    x f s = .ended (r.mapError .halted) f t ds

theorem plain_pure (a : α) : (pure a : Tale α).Plain := fun _ s => ⟨.ok a, s, [], rfl⟩

theorem plain_silently (x : Frame → Exec α) : (silently x).Plain := by
  intro f s
  cases hx : x f s with
  | ok a t => exact ⟨.ok a, t, [], silently_ok hx⟩
  | error e t => exact ⟨.error e, t, [], silently_error hx⟩

theorem Plain.after {x : Tale α} (hx : x.Plain) (ds : List Deed) : (x.after ds).Plain := by
  intro f s
  obtain ⟨r, t, es, hend⟩ := hx f s
  refine ⟨r, t, ds ++ es, ?_⟩
  rw [Tale.after, hend, Told.after]

theorem plain_doing (d : Deed) (x : Exec α) : (doing d x).Plain := (plain_silently _).after _

theorem plain_look (name : Name) (x : Frame → Exec Value) : (look name x).Plain :=
  (plain_silently x).after _

theorem plain_truth (v : Value) : (truth v).Plain := fun _ s => ⟨.ok (v.isTruthy s), s, [], rfl⟩

theorem Plain.bind {x : Tale α} {y : α → Tale β} (hx : x.Plain) (hy : ∀ a, (y a).Plain) :
    (x >>= y).Plain := by
  intro f s
  obtain ⟨r, t, ds, hend⟩ := hx f s
  change ∃ (r : Except Halt β) (u : Store) (ds : List Deed),
    (x f s).bind y = .ended (r.mapError .halted) f u ds
  rw [hend]
  cases r with
  | error e => exact ⟨.error e, t, ds, rfl⟩
  | ok a =>
    obtain ⟨r, u, es, hend'⟩ := hy a f t
    refine ⟨r, u, ds ++ es, ?_⟩
    change (y a f t).after ds = _
    rw [hend', Told.after]

end Tale

end Lexiscope.Meaning
