import Lexiscope.Proofs.Machine.Writes
/-!
# What runs may change

A sort of changes that allows what one instruction does, and what calls, classes and generators do
with the frames that they run, allows all that the machine does.
-/

namespace Lexiscope.Machine

open Exec

/-- All that runs with so much fuel is allowed. -/
structure Change.RunsAt (c : Change) (n : Nat) : Prop where
  runFrame : ∀ f, c.Allows (runFrame n f)
  callValue : ∀ callee args keywords, c.Allows (callValue n callee args keywords)
  callFunction : ∀ f args keywords, c.Allows (callFunction n f args keywords)
  instantiate : ∀ d args keywords, c.Allows (instantiate n d args keywords)
  buildClass : ∀ args, c.Allows (buildClass n args)
  nextItem : ∀ v, c.Allows (nextItem n v)
  nextRow : ∀ vs, c.Allows (nextRow n vs)
  collect : ∀ v, c.Allows (collect n v)
  drain : ∀ v items, c.Allows (drain n v items)
  resume : ∀ r, c.Allows (resume n r)

/-- What has to be allowed of instructions, of those functions that make or wake frames, and of the
advance of iterators. These run other functions with less fuel than their own. -/
structure Change.Steady (c : Change) : Prop where
  step : ∀ f, c.Allows (step f)
  newSpace : c.Allows (newSpace .empty)
  callFunction {n : Nat} : (∀ m < n, ∀ f, c.Allows (runFrame m f)) →
    ∀ f args keywords, c.Allows (callFunction (n + 1) f args keywords)
  buildClass {n : Nat} : (∀ m < n, ∀ f, c.Allows (runFrame m f)) →
    ∀ args, c.Allows (buildClass (n + 1) args)
  nextItem {n : Nat} : (∀ m ≤ n, c.RunsAt m) → ∀ v, c.Allows (nextItem (n + 1) v)
  resume {n : Nat} : (∀ m < n, ∀ f, c.Allows (runFrame m f)) → ∀ r, c.Allows (resume (n + 1) r)

variable {c : Change} {n : Nat}

section Parts

instance allows_requireNone {v : Value} : c.Allows (requireNone v) := by
  unfold requireNone
  split <;> infer_instance

instance allows_makeException {kind : ExceptionKind} {args : List Value}
    {keywords : Keywords} : c.Allows (makeException kind args keywords) := by
  unfold makeException
  cases keywords <;> infer_instance

instance allows_unpackOnto {f : Frame} {count : Nat} {items : Array Value} :
    c.Allows (unpackOnto f count items) := by
  unfold unpackOnto
  infer_instance

instance allows_advanced {f : Frame} {target : Nat} {item : Option Value} :
    c.Allows (advanced f target item) := by
  unfold advanced
  split <;> infer_instance

instance allows_setBusy [c.Loose] {r : IteratorRef} {busy : Bool} : c.Allows (setBusy r busy) := by
  unfold setBusy
  infer_instance

end Parts

section Runs

theorem Change.RunsAt.act (h : c.RunsAt n) (a : Action) : c.Allows (act n a) := by
  have hcall := h.callValue
  have hcollect := h.collect
  have hnext := h.nextItem
  cases a with
  | next f | returned v f | yielded v f => exact allows_pure
  | invoke callee args keywords f =>
    exact allows_attempt.bind fun r => by cases r <;> infer_instance
  | unpack v count f =>
    exact allows_attempt.bind fun r => by cases r <;> infer_instance
  | advance iterator target f =>
    exact allows_attempt.bind fun r => by cases r <;> infer_instance

theorem Change.RunsAt.turn (h : c.RunsAt n) (hstep : ∀ f, c.Allows (step f)) (f : Frame) :
    c.Allows (turn n f) := by
  have hact := h.act
  exact allows_attempt.bind fun r => by cases r <;> infer_instance

theorem Change.RunsAt.runFrame_succ (h : c.RunsAt n) (hstep : ∀ f, c.Allows (step f)) (f : Frame) :
    c.Allows (Machine.runFrame (n + 1) f) := by
  have hrun := h.runFrame
  rw [Machine.runFrame_succ]
  exact (h.turn hstep f).bind fun x => by cases x <;> (unfold Turn.continue; infer_instance)

theorem Change.RunsAt.callValue_succ (h : c.RunsAt n) (callee : Value) (args : List Value)
    (keywords : Keywords) : c.Allows (Machine.callValue (n + 1) callee args keywords) := by
  have hcall := h.callValue
  have hfunction := h.callFunction
  have hclass := h.buildClass
  have hinstance := h.instantiate
  have hcollect : ∀ v, c.Allows (Supply.all ⟨Machine.collect n, Machine.nextItem n⟩ v) :=
    h.collect
  have hnext : ∀ v, c.Allows (Supply.next ⟨Machine.collect n, Machine.nextItem n⟩ v) :=
    h.nextItem
  unfold Machine.callValue
  split <;> infer_instance

theorem Change.RunsAt.instantiate_succ (h : c.RunsAt n) (hspace : c.Allows (newSpace .empty))
    (d : Class) (args : List Value) (keywords : Keywords) :
    c.Allows (Machine.instantiate (n + 1) d args keywords) := by
  have hcall := h.callValue
  unfold Machine.instantiate
  refine hspace.bind fun space => allows_get.bind fun s => ?_
  dsimp only
  split <;> infer_instance

theorem Change.RunsAt.draw [c.Loose] (h : ∀ m < n, c.RunsAt m) (r : IteratorRef) :
    c.Allows (Machine.draw n r) := by
  cases n with
  | zero => exact allows_throw
  | succ n =>
    have hnext := (h n (Nat.lt_succ_self n)).nextItem
    have hrow := (h n (Nat.lt_succ_self n)).nextRow
    unfold Machine.draw
    refine allows_get.bind fun s => ?_
    dsimp only
    split
    · refine (hnext _).bind fun item => ?_
      cases item <;> dsimp only
      · infer_instance
      · split <;> infer_instance
    · infer_instance
    · exact (hrow _).bind fun row => by cases row <;> infer_instance
    · refine allows_get.bind fun s => ?_
      split <;> infer_instance

theorem Change.RunsAt.nextItem_of (h : c.RunsAt n)
    (hiterator : ∀ r, c.Allows (Machine.nextItem (n + 1) (.iterator r))) (v : Value) :
    c.Allows (Machine.nextItem (n + 1) v) := by
  have hresume := h.resume
  cases v
  case iterator r => exact hiterator r
  case generator r =>
    unfold Machine.nextItem
    refine allows_get.bind fun s => ?_
    split
    · infer_instance
    · exact (hresume r).bind fun k => by cases k <;> infer_instance
  all_goals
    unfold Machine.nextItem
    infer_instance

theorem Change.RunsAt.nextItem_succ [c.Loose] (h : ∀ m ≤ n, c.RunsAt m) (v : Value) :
    c.Allows (Machine.nextItem (n + 1) v) := by
  have hdraw := Change.RunsAt.draw fun m hm => h m (Nat.le_of_lt hm)
  refine (h n (Nat.le_refl n)).nextItem_of (fun r => ?_) v
  unfold Machine.nextItem
  infer_instance

theorem Change.RunsAt.nextRow_succ (h : c.RunsAt n) (vs : List Value) :
    c.Allows (Machine.nextRow (n + 1) vs) := by
  have hnext := h.nextItem
  have hrow := h.nextRow
  cases vs with
  | nil => exact allows_pure
  | cons v vs =>
    unfold Machine.nextRow
    exact (hnext v).bind fun item => by cases item <;> infer_instance

theorem Change.RunsAt.collect_succ (h : c.RunsAt n) (v : Value) :
    c.Allows (Machine.collect (n + 1) v) := by
  have hdrain := h.drain
  unfold Machine.collect
  split <;> infer_instance

theorem Change.RunsAt.drain_succ (h : c.RunsAt n) (v : Value) (items : Array Value) :
    c.Allows (Machine.drain (n + 1) v items) := by
  have hnext := h.nextItem
  have hdrain := h.drain
  unfold Machine.drain
  exact (hnext v).bind fun item => by cases item <;> infer_instance

/-- All that the machine does is allowed. The frames that a call executes run with less fuel than the
call, so the induction is on all that has less. -/
theorem Change.Steady.runsAt (hc : c.Steady) (n : Nat) : c.RunsAt n := by
  induction n using Nat.strongRecOn with
  | _ n ih =>
    cases n with
    | zero =>
      constructor
      · exact fun f => allows_pure
      all_goals (intros; exact allows_throw)
    | succ n =>
      have h := ih n (Nat.lt_succ_self n)
      have hruns : ∀ m < n, ∀ f, c.Allows (runFrame m f) :=
        fun m hm => (ih m (Nat.lt_succ_of_lt hm)).runFrame
      constructor
      · exact h.runFrame_succ hc.step
      · exact h.callValue_succ
      · exact hc.callFunction hruns
      · exact h.instantiate_succ hc.newSpace
      · exact hc.buildClass hruns
      · exact hc.nextItem fun m hm => ih m (Nat.lt_succ_of_le hm)
      · exact h.nextRow_succ
      · exact h.collect_succ
      · exact h.drain_succ
      · exact hc.resume hruns

end Runs

end Lexiscope.Machine
