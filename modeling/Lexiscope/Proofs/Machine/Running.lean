import Lexiscope.Proofs.Machine.BuiltinCalls
import Lexiscope.Proofs.Machine.Tries
/-!
# Runs from stores that are alike

If every single instruction and every start of a body respects a likeness, then so does all
that the machine does, with the same fuel or with more.
-/

namespace Lexiscope.Machine.Likeness

open Exec

variable (L : Likeness)

/-- What a frame that went on or stopped leaves behind is good. -/
def Completed : Completion × Frame → Prop
  | (.returned v, _) => L.value v
  | (.yielded v, f) => L.value v ∧ L.frame (f.push .none) ∧ L.yields f.code

/-- A frame of the code stopped as it may. -/
def Stops (c : LoadedCode) (r : Stopped) : Prop :=
  r.frame.code = c ∧
    match r.result with
    | .ok k => L.Completed (k, r.frame)
    | .error h => L.halt h

/-- A frame may go on with the code. -/
def Goes (c : LoadedCode) (f : Frame) : Prop := L.frame f ∧ f.code = c

/-- A turn leaves what it may. -/
def Turns (c : LoadedCode) : Turn → Prop
  | .goes f => L.Goes c f
  | .stops r => L.Stops c r

/-- An instruction asks for what it may, and the frame may go on with every good answer. -/
def Acts (c : LoadedCode) : Action → Prop
  | .next f => L.Goes c f
  | .returned v f => L.value v ∧ f.code = c
  | .yielded v f => L.Completed (.yielded v, f) ∧ f.code = c
  | .invoke callee args keywords f =>
    L.value callee ∧ (∀ v ∈ args, L.value v) ∧ (∀ k ∈ keywords, L.value k.2) ∧ f.code = c ∧
      ∀ v, L.value v → L.frame (f.push v)
  | .unpack v count f => L.value v ∧ f.code = c ∧
      ∀ items : List Value, items.length = count → (∀ v ∈ items, L.value v) →
        L.frame { f with stack := items ++ f.stack }
  | .advance iterator target f => L.value iterator ∧ f.code = c ∧
      (∀ v, L.value v → L.frame (f.push v)) ∧
      ((∃ v rest, f.stack = v :: rest ∧ L.frame { f with stack := rest, pc := target }) ∨
        f.stack = [] ∧ ∀ h, L.halt h)

/-- The machine respects the likeness in all that it does by itself. -/
structure Steady : Prop extends L.Lawful where
  step : ∀ f, L.frame f → L.Agree (L.Acts f.code) (step f) (step f)
  enterFunction : ∀ f args keywords, L.value (.function f) → (∀ v ∈ args, L.value v) →
    (∀ k ∈ keywords, L.value k.2) →
    L.Agree (L.Goes f.code) (enterFunction f args keywords) (enterFunction f args keywords)
  enterClassBody : ∀ f space, L.value (.function f) →
    L.Agree (L.Goes f.code) (enterClassBody f space) (enterClassBody f space)
  /-- Code that yields makes generators, unless everything is allowed. -/
  yields : ∀ c, L.yields c →
    c.object.flags.isGenerator = true ∨ c.object.flags.isAsyncGenerator = true ∨ ∀ h, L.halt h
  observers : ∀ moment f s t, L.Alike s t →
    L.observers (tellAll s moment f s.observers) (tellAll t moment f t.observers)

/-- What the machine does follows what it does with less fuel. -/
structure RunsAt (n m : Nat) : Prop where
  runFrame : ∀ f, L.frame f →
    L.Tries Stopped.IsSpent (fun a b => a = b ∧ L.Stops f.code a) (runFrame n f) (runFrame m f)
  execute : ∀ f, L.frame f →
    L.Agree (fun r => L.Completed r ∧ r.2.code = f.code) (execute n f) (execute m f)
  callValue : ∀ callee args keywords, L.value callee → (∀ v ∈ args, L.value v) →
    (∀ k ∈ keywords, L.value k.2) →
    L.Agree L.value (callValue n callee args keywords) (callValue m callee args keywords)
  callFunction : ∀ f args keywords, L.value (.function f) → (∀ v ∈ args, L.value v) →
    (∀ k ∈ keywords, L.value k.2) →
    L.Agree L.value (callFunction n f args keywords) (callFunction m f args keywords)
  instantiate : ∀ c args keywords, (∀ v ∈ args, L.value v) → (∀ k ∈ keywords, L.value k.2) →
    L.Agree L.value (instantiate n c args keywords) (instantiate m c args keywords)
  buildClass : ∀ args, (∀ v ∈ args, L.value v) →
    L.Agree L.value (buildClass n args) (buildClass m args)
  nextItem : ∀ v, L.value v →
    L.Agree (fun item => ∀ w ∈ item, L.value w) (nextItem n v) (nextItem m v)
  draw : ∀ r, L.Agree (fun item => ∀ w ∈ item, L.value w) (draw n r) (draw m r)
  nextRow : ∀ vs, (∀ v ∈ vs, L.value v) →
    L.Agree (fun row => ∀ items ∈ row, ∀ w ∈ items, L.value w) (nextRow n vs) (nextRow m vs)
  collect : ∀ v, L.value v →
    L.Agree (fun items => ∀ w ∈ items, L.value w) (collect n v) (collect m v)
  drain : ∀ iterator items, L.value iterator → (∀ v ∈ items, L.value v) →
    L.Agree (fun items => ∀ w ∈ items, L.value w) (drain n iterator items)
      (drain m iterator items)
  resume : ∀ r, L.Agree (fun k => ∀ v, k = .returned v ∨ k = .yielded v → L.value v)
    (resume n r) (resume m r)

variable {L}

section Parts

variable (hL : L.Lawful)

include hL

theorem follows_unpackOnto {c c' : LoadedCode} {f : Frame} {count : Nat} {items : Array Value}
    (hf : f.code = c) (hi : ∀ v ∈ items, L.value v)
    (hgo : ∀ items : List Value, items.length = count → (∀ v ∈ items, L.value v) →
      L.frame { f with stack := items ++ f.stack }) :
    L.Follows (fun a b => b = a.withCode c' ∧ L.Goes c a) (unpackOnto f count items)
      (unpackOnto (f.withCode c') count items) := by
  unfold unpackOnto
  dsimp only
  split
  · exact Agree.bind (p := fun _ => False) (agree_valueError hL _) fun _ h => h.elim
  rename_i hless
  split
  · exact Agree.bind (p := fun _ => False) (agree_valueError hL _) fun _ h => h.elim
  rename_i hmore
  have hcount : items.toList.length = count := by simp; omega
  refine follows_pure ⟨rfl, hgo items.toList hcount fun v hv => hi v (by simpa using hv), ?_⟩
  exact hf

omit hL in
theorem follows_advanced {c c' : LoadedCode} {f : Frame} {target : Nat} {item : Option Value}
    (hf : f.code = c) (hi : ∀ v ∈ item, L.value v) (hgo : ∀ v, L.value v → L.frame (f.push v))
    (hend : (∃ v rest, f.stack = v :: rest ∧ L.frame { f with stack := rest, pc := target }) ∨
      f.stack = [] ∧ ∀ h, L.halt h) :
    L.Follows (fun a b => b = a.withCode c' ∧ L.Goes c a) (advanced f target item)
      (advanced (f.withCode c') target item) := by
  cases item with
  | some v => exact follows_pure ⟨rfl, hgo v (hi v rfl), hf⟩
  | none =>
    rcases hend with ⟨v, rest, hstack, hframe⟩ | ⟨hstack, hhalt⟩
    · simp only [advanced, Frame.pop, Frame.withCode, hstack]
      exact follows_pure ⟨rfl, hframe, hf⟩
    · simp only [advanced, Frame.pop, Frame.withCode, hstack]
      exact follows_throw (hhalt _)

omit hL in
theorem enterDepth_run (s : Store) : enterDepth s =
    if s.limit < s.depth + 1 then
      raise .recursionError
        ("maximum recursion depth exceeded (limit " ++ toString s.limit ++ ")") s
    else .ok () { s with depth := s.depth + 1 } := by
  change (if s.limit < s.depth + 1 then _ else _ : Exec Unit) s = _
  split <;> rfl

theorem agree_enterDepth : L.Agree (fun _ => True) enterDepth enterDepth := by
  intro s t h
  have hlimit : t.limit = s.limit := by rw [h.rest]
  have hdepth : t.depth = s.depth := by rw [h.rest]
  rw [enterDepth_run, enterDepth_run]
  by_cases hfull : s.limit < s.depth + 1
  · rw [if_pos hfull, if_pos (by omega), hlimit]
    exact agree_raise hL _ _ h
  · rw [if_neg hfull, if_neg (by omega)]
    obtain ⟨hb, ha⟩ := h.change (f := fun u => { u with depth := u.depth + 1 })
      (fun _ _ _ => rfl) (.of_eq rfl rfl)
      ⟨h.values.lists, h.values.dicts, h.values.cells, h.values.spaces, h.values.iterators⟩
    exact .ok ⟨rfl, trivial⟩ hb ha

theorem agree_makeException (kind : ExceptionKind) (args : List Value) (keywords : Keywords) :
    L.Agree L.value (makeException kind args keywords) (makeException kind args keywords) := by
  unfold makeException
  dsimp only
  split
  · exact Agree.bind (p := fun _ => False) (agree_typeError hL _) fun _ h => h.elim
  · refine follows_get fun s t h => ?_
    simp only [h.display hL, h.render hL]
    exact agree_freshIdentity.bind fun _ _ => agree_pure (hL.plain _ rfl)

theorem agree_requireNone (v : Value) :
    L.Agree (fun _ => True) (requireNone v) (requireNone v) := by
  cases v with
  | none => exact agree_pure trivial
  | _ => exact agree_typeError hL _

omit hL in
theorem agree_setBusy (r : IteratorRef) (busy : Bool) :
    L.Agree (fun _ => True) (setBusy r busy) (setBusy r busy) := by
  unfold setBusy
  refine follows_get fun s t h => ?_
  rw [h.iterator]
  exact agree_setIterator r (h.values.iterator r)

end Parts

section Generators

variable {s t : Store}

theorem getD_push {α : Type} (a : Array α) (x d : α) (i : Nat) :
    (a.push x).getD i d = if i = a.size then x else a.getD i d := by
  rw [Array.getD_eq_getD_getElem?, Array.getD_eq_getD_getElem?, Array.getElem?_push]
  split <;> rfl

theorem getD_setIfInBounds {α : Type} (a : Array α) (x d : α) (i j : Nat) :
    (a.setIfInBounds i x).getD j d = if i = j ∧ j < a.size then x else a.getD j d := by
  rw [Array.getD_eq_getD_getElem?, Array.getD_eq_getD_getElem?, Array.getElem?_setIfInBounds]
  by_cases hij : i = j
  · subst hij
    by_cases hi : i < a.size <;> simp [hi]
  · simp [hij]

theorem agree_newGenerator (hL : L.Lawful) {g : Generator} (hready : L.Ready g) :
    L.Agree L.value (newGenerator g) (newGenerator g) := by
  intro s t h
  have hbefore : s.Before { s with generators := s.generators.push g } := by
    refine ⟨.of_eq rfl rfl, fun r hr => ?_⟩
    simp only [Store.generator, getD_push] at hr ⊢
    split
    · rename_i hi
      rw [hi, Array.getD_eq_getD_getElem?, Array.getElem?_eq_none (Nat.le_refl _)] at hr
      cases hr
    · exact hr
  refine .ok ⟨by simp only [h.size], hL.plain _ rfl⟩ hbefore ?_
  refine ⟨by rw [h.rest], ?_, by simp only [Array.size_push, h.size], fun r => ?_, h.observers⟩
  · exact ⟨h.values.lists, h.values.dicts, h.values.cells, h.values.spaces, h.values.iterators⟩
  · simp only [Store.generator, getD_push, h.size]
    split
    · exact ⟨hL.code_refl _, rfl, rfl, hready⟩
    · exact h.generator r

theorem Alike.setGenerator (h : L.Alike s t) (r : GeneratorRef) {g g' : Generator}
    (hg : L.SameGenerator g g') (hs : (s.generator r).started = true → g.started = true) :
    s.Before { s with generators := s.generators.setIfInBounds r.index g } ∧
      L.Alike { s with generators := s.generators.setIfInBounds r.index g }
        { t with generators := t.generators.setIfInBounds r.index g' } := by
  refine ⟨⟨.of_eq rfl rfl, fun q hq => ?_⟩, ?_, ?_, ?_, fun q => ?_, h.observers⟩
  · simp only [Store.generator, getD_setIfInBounds] at hq ⊢
    split
    · rename_i hi
      refine hs ?_
      rw [Store.generator, hi.1]
      exact hq
    · exact hq
  · rw [h.rest]
  · exact ⟨h.values.lists, h.values.dicts, h.values.cells, h.values.spaces, h.values.iterators⟩
  · simp only [Array.size_setIfInBounds, h.size]
  · simp only [Store.generator, getD_setIfInBounds, h.size]
    split
    · exact hg
    · exact h.generator q

theorem Alike.setState (h : L.Alike s t) (r : GeneratorRef) {state : GeneratorState}
    (hready : L.Ready { s.generator r with state }) :
    ∃ s' t', Machine.setState r state s = .ok () s' ∧ Machine.setState r state t = .ok () t' ∧
      s.Before s' ∧ L.Alike s' t' := by
  have hr := h.generator r
  have hsame : L.SameGenerator { s.generator r with state } { t.generator r with state } :=
    ⟨hr.code, rfl, hr.started, hready⟩
  obtain ⟨hb, ha⟩ := h.setGenerator r hsame fun hs => hs
  exact ⟨_, _, rfl, rfl, hb, ha⟩

theorem wake_run (r : GeneratorRef) (s : Store) : wake r s =
    match (s.generator r).state with
    | .running => valueError "generator already executing" s
    | .finished => raise .stopIteration "" s
    | .suspended f =>
      .ok (if (s.generator r).started then f.push .none else f)
        { s with
          generators := s.generators.setIfInBounds r.index
            { s.generator r with state := .running, started := true } } := by
  change (match (s.generator r).state with | .running => _ | .finished => _ | .suspended f => _ :
    Exec Frame) s = _
  cases (s.generator r).state <;> rfl

theorem suspended_inBounds {r : GeneratorRef} {f : Frame}
    (h : (s.generator r).state = .suspended f) : r.index < s.generators.size := by
  refine Nat.lt_of_not_le fun hi => ?_
  rw [Store.generator, Array.getD_eq_getD_getElem?, Array.getElem?_eq_none hi] at h
  cases h

theorem Alike.wake (hL : L.Lawful) (h : L.Alike s t) (r : GeneratorRef) :
    (∃ e, L.halt e ∧ Machine.wake r s = .error e s ∧ Machine.wake r t = .error e t) ∨
      ∃ f s' t', Machine.wake r s = .ok f s' ∧ Machine.wake r t = .ok f t' ∧ L.frame f ∧
        s.Before s' ∧ L.Alike s' t' ∧ (s'.generator r).started = true := by
  have hr := h.generator r
  rw [wake_run, wake_run, hr.state, hr.started]
  cases hstate : (s.generator r).state with
  | running => exact .inl ⟨_, hL.halt _ rfl, rfl, rfl⟩
  | finished => exact .inl ⟨_, hL.halt _ rfl, rfl, rfl⟩
  | suspended f =>
    have hsame : L.SameGenerator { s.generator r with state := .running, started := true }
        { t.generator r with state := .running, started := true } :=
      ⟨hr.code, rfl, rfl, fun _ hf => by cases hf⟩
    obtain ⟨hb, ha⟩ := h.setGenerator r hsame fun _ => rfl
    refine .inr ⟨_, _, _, rfl, rfl, hr.ready f hstate, hb, ha, ?_⟩
    simp only [Store.generator, getD_setIfInBounds, suspended_inBounds hstate, and_self, if_true]

end Generators

section Turns

variable {n m : Nat}

theorem Acts.frame_code {c : LoadedCode} {a : Action} (h : L.Acts c a) : a.frame.code = c := by
  cases a with
  | next f => exact h.2
  | returned v f => exact h.2
  | yielded v f => exact h.2
  | invoke callee args keywords f => exact h.2.2.2.1
  | unpack v count f => exact h.2.1
  | advance iterator target f => exact h.2.1

theorem Turns.withCode_self {c : LoadedCode} {x : Turn} (h : L.Turns c x) :
    x.withCode c = x := by
  cases x with
  | goes f =>
    obtain ⟨-, rfl⟩ := h
    rfl
  | stops r =>
    obtain ⟨rfl, -⟩ := h
    rfl

theorem tries_act (c' : LoadedCode) (hL : L.Lawful) (hruns : L.RunsAt n m) {c : LoadedCode}
    {a : Action}
    (ha : L.Acts c a) :
    L.Tries Turn.IsSpent (fun x y => y = x.withCode c' ∧ L.Turns c x) (act n a)
      (act m (a.withCode c')) := by
  have hstops : ∀ {f : Frame}, f.code = c → ∀ e, L.halt e →
      L.Tries Turn.IsSpent (fun x y => y = x.withCode c' ∧ L.Turns c x)
        (pure (Turn.stops ⟨f, .error e⟩)) (pure (Turn.stops ⟨f.withCode c', .error e⟩)) :=
    fun hf e he => tries_pure ⟨rfl, hf, he⟩
  have hspent : ∀ (f : Frame) (s : Store),
      ∃ x u, (pure (Turn.stops ⟨f, .error .outOfFuel⟩) : Exec Turn) s = .ok x u ∧ x.IsSpent :=
    fun f s => ⟨_, s, rfl, rfl⟩
  cases a with
  | next f => exact tries_pure ⟨rfl, ha⟩
  | returned v f => exact tries_pure ⟨rfl, ha.2, ha.1⟩
  | yielded v f => exact tries_pure ⟨rfl, ha.2, ha.1⟩
  | invoke callee args keywords f =>
    obtain ⟨hcallee, hargs, hkeywords, hcode, hgo⟩ := ha
    refine tries_attempted (hruns.callValue callee args keywords hcallee hargs hkeywords)
      (fun v v' hv => ?_) (hstops hcode) (hspent f)
    obtain ⟨rfl, hv⟩ := hv
    exact tries_pure ⟨rfl, hgo v hv, hcode⟩
  | unpack v count f =>
    obtain ⟨hv, hcode, hgo⟩ := ha
    refine tries_attempted (r := fun x y => y = x.withCode c' ∧ L.Goes c x) ?_
      (fun g g' hg => ?_) (hstops hcode) (hspent f)
    · exact (hruns.collect v hv).bind fun items hi => follows_unpackOnto hL hcode hi hgo
    · obtain ⟨rfl, hg⟩ := hg
      exact tries_pure ⟨rfl, hg⟩
  | advance iterator target f =>
    obtain ⟨hiterator, hcode, hgo, hend⟩ := ha
    refine tries_attempted (r := fun x y => y = x.withCode c' ∧ L.Goes c x) ?_
      (fun g g' hg => ?_) (hstops hcode) (hspent f)
    · exact (hruns.nextItem iterator hiterator).bind fun item hi =>
        follows_advanced hcode hi hgo hend
    · obtain ⟨rfl, hg⟩ := hg
      exact tries_pure ⟨rfl, hg⟩

theorem tries_turn (hL : L.Lawful) (hruns : L.RunsAt n m) {f : Frame} {c' : LoadedCode}
    (hstep : L.Follows (fun a b => b = a.withCode c' ∧ L.Acts f.code a) (step f)
      (step (f.withCode c'))) :
    L.Tries Turn.IsSpent (fun x y => y = x.withCode c' ∧ L.Turns f.code x) (turn n f)
      (turn m (f.withCode c')) := by
  refine tries_attempted hstep (fun a b hab => ?_) (fun e he => ?_) fun s => ⟨_, s, rfl, rfl⟩
  · obtain ⟨rfl, ha⟩ := hab
    exact tries_act c' hL hruns ha
  · exact tries_pure ⟨rfl, rfl, he⟩

variable (hL : L.Steady) (hruns : L.RunsAt n m)

include hL

theorem agree_notify (moment : Moment) (f : Frame) :
    L.Agree (fun _ => True) (notify moment f) (notify moment f) := by
  intro s t h
  refine .ok ⟨rfl, trivial⟩ ⟨.of_eq rfl rfl, fun _ hr => hr⟩ ⟨?_, ?_, h.size, h.generator, ?_⟩
  · rw [h.rest]
  · exact ⟨h.values.lists, h.values.dicts, h.values.cells, h.values.spaces, h.values.iterators⟩
  · exact hL.observers moment f s t h

theorem agree_leaveFrame {c : LoadedCode} {r : Stopped} (hr : L.Stops c r) :
    L.Agree (fun k => L.Completed k ∧ k.2.code = c) (leaveFrame r) (leaveFrame r) := by
  unfold leaveFrame
  refine (agree_notify hL _ _).bind fun _ _ => ?_
  refine Agree.bind (p := fun _ => True)
    (agree_modify (fun _ _ _ => rfl) (fun _ => .of_eq rfl rfl) fun _ h =>
      ⟨h.lists, h.dicts, h.cells, h.spaces, h.iterators⟩) fun _ _ => ?_
  obtain ⟨hcode, hresult⟩ := hr
  cases hr : r.result with
  | ok k =>
    rw [hr] at hresult
    exact follows_pure ⟨rfl, hresult, hcode⟩
  | error e =>
    rw [hr] at hresult
    exact follows_throw hresult

theorem follows_ownStep {f : Frame} (hf : L.frame f) :
    L.Follows (fun a b => b = a.withCode f.code ∧ L.Acts f.code a) (step f)
      (step (f.withCode f.code)) := by
  refine Follows.mono (hL.step f hf) ?_
  rintro a _ ⟨rfl, ha⟩
  have hself := a.withCode_self
  rw [ha.frame_code] at hself
  exact ⟨hself.symm, ha⟩

include hruns

theorem tries_runFrame {f : Frame} (hf : L.frame f) :
    L.Tries Stopped.IsSpent (fun a b => a = b ∧ L.Stops f.code a) (runFrame (n + 1) f)
      (runFrame (m + 1) f) := by
  rw [runFrame_succ, runFrame_succ]
  refine (tries_turn hL.toLawful hruns (follows_ownStep hL hf)).bind (fun x y hxy => ?_) fun x s hx => ?_
  · obtain ⟨rfl, hx⟩ := hxy
    rw [hx.withCode_self]
    cases x with
    | goes g => exact hx.2 ▸ hruns.runFrame g hx.1
    | stops r => exact tries_pure ⟨rfl, hx⟩
  · cases x with
    | goes g => exact hx.elim
    | stops r => exact ⟨r, s, rfl, hx⟩

theorem agree_execute {f : Frame} (hf : L.frame f) :
    L.Agree (fun r => L.Completed r ∧ r.2.code = f.code) (execute (n + 1) f)
      (execute (m + 1) f) := by
  unfold execute
  refine (agree_enterDepth hL.toLawful).bind fun _ _ => ?_
  refine (agree_notify hL _ _).bind fun _ _ => ?_
  refine (hruns.runFrame f hf).settle (fun r r' hr => ?_) fun r s hr => ?_
  · obtain ⟨rfl, hr⟩ := hr
    exact agree_leaveFrame hL hr
  · unfold leaveFrame
    rw [hr]
    exact ⟨_, rfl⟩

theorem agree_callValue {callee : Value} {args : List Value} {keywords : Keywords}
    (hc : L.value callee) (ha : ∀ v ∈ args, L.value v) (hk : ∀ k ∈ keywords, L.value k.2) :
    L.Agree L.value (callValue (n + 1) callee args keywords)
      (callValue (m + 1) callee args keywords) := by
  have hsupplies : L.Supplies ⟨collect n, nextItem n⟩ ⟨collect m, nextItem m⟩ :=
    ⟨hruns.collect, hruns.nextItem⟩
  unfold callValue
  cases callee with
  | function f => exact hruns.callFunction f args keywords hc ha hk
  | builtin id b =>
    cases b
    case buildClass => exact hruns.buildClass args ha
    all_goals exact agree_callBuiltin hL.toLawful hsupplies _ ha hk
  | method id receiver callee =>
    obtain ⟨hreceiver, hcallee⟩ := (hL.method _ _ _).1 hc
    exact hruns.callValue callee _ keywords hcallee (List.forall_mem_cons.2 ⟨hreceiver, ha⟩) hk
  | type c => exact hruns.instantiate c args keywords ha hk
  | exceptionType kind => exact agree_makeException hL.toLawful kind args keywords
  | _ => exact agree_typeError hL.toLawful _

theorem agree_callFunction {f : FunctionValue} {args : List Value} {keywords : Keywords}
    (hf : L.value (.function f)) (ha : ∀ v ∈ args, L.value v)
    (hk : ∀ k ∈ keywords, L.value k.2) :
    L.Agree L.value (callFunction (n + 1) f args keywords)
      (callFunction (m + 1) f args keywords) := by
  unfold callFunction
  dsimp only
  split
  · exact Agree.bind (p := fun _ => False) (agree_raise hL.toLawful _ _) fun _ h => h.elim
  rename_i hrunnable
  refine (hL.enterFunction f args keywords hf ha hk).bind fun g hg => ?_
  split
  · refine agree_newGenerator hL.toLawful ?_
    intro g' hg'
    cases hg'
    exact hg.1
  rename_i hplain
  refine (hruns.execute g hg.1).bind fun k hkept => ?_
  obtain ⟨⟨v⟩ | ⟨v⟩, g'⟩ := k
  · exact agree_pure hkept.1
  -- A body that is no generator has no code that yields.
  · obtain ⟨⟨-, -, hyields⟩, hcode⟩ := hkept
    rw [hcode, hg.2] at hyields
    rcases hL.yields _ hyields with hgen | hasync | hall
    · exact absurd hgen hplain
    · simp [hasync] at hrunnable
    · exact follows_throw (hall _)

theorem agree_instantiate {c : Class} {args : List Value} {keywords : Keywords}
    (ha : ∀ v ∈ args, L.value v) (hk : ∀ k ∈ keywords, L.value k.2) :
    L.Agree L.value (instantiate (n + 1) c args keywords)
      (instantiate (m + 1) c args keywords) := by
  unfold instantiate
  refine (agree_newSpace OrderedMap.all_empty).bind fun space _ => ?_
  have hobject : L.value (.object c space) := hL.plain _ rfl
  refine follows_get fun s t h => ?_
  rw [h.classLookup]
  cases hinit : c.lookup s "__init__" with
  | some init =>
    have hgood := h.values.classLookup "__init__" c init hinit
    refine (hruns.callValue init _ keywords hgood
      (List.forall_mem_cons.2 ⟨hobject, ha⟩) hk).bind fun v _ => ?_
    exact (agree_requireNone hL.toLawful v).bind fun _ _ => agree_pure hobject
  | none =>
    dsimp only
    split
    · exact Agree.bind (p := fun _ => False) (agree_typeError hL.toLawful _) fun _ h => h.elim
    · exact agree_pure hobject

theorem agree_buildClass {args : List Value} (ha : ∀ v ∈ args, L.value v) :
    L.Agree L.value (buildClass (n + 1) args) (buildClass (m + 1) args) := by
  unfold buildClass
  split
  · rename_i body name bases
    have hbody : L.value (.function body) := ha _ List.mem_cons_self
    refine (agree_requireClasses hL.toLawful bases).bind fun bases _ => ?_
    refine (agree_newSpace OrderedMap.all_empty).bind fun space _ => ?_
    refine (hL.enterClassBody body space hbody).bind fun g hg => ?_
    exact (hruns.execute g hg.1).bind fun _ _ => agree_pure (hL.plain _ rfl)
  · exact agree_typeError hL.toLawful _

theorem agree_nextItem {v : Value} :
    L.Agree (fun item => ∀ w ∈ item, L.value w) (nextItem (n + 1) v) (nextItem (m + 1) v) := by
  unfold nextItem
  cases v with
  | generator r =>
    dsimp only
    refine follows_get fun s t h => ?_
    rw [(h.generator r).state]
    cases (s.generator r).state with
    | finished => exact agree_pure (by simp)
    | _ =>
      refine (hruns.resume r).bind fun k hk => ?_
      cases k with
      | returned v => exact agree_pure (by simp)
      | yielded v => exact agree_pure (by simpa using hk v (.inr rfl))
  | iterator r =>
    dsimp only
    refine follows_get fun s t h => ?_
    rw [h.iterator]
    have hdraw : L.Agree (fun item => ∀ w ∈ item, L.value w)
        (do setBusy r true
            let outcome ← attempt (draw n r)
            setBusy r false
            settle outcome)
        (do setBusy r true
            let outcome ← attempt (draw m r)
            setBusy r false
            settle outcome) := by
      refine (agree_setBusy r true).bind fun _ _ => ?_
      refine (tries_attempt (hruns.draw r)).settle (fun o o' ho => ?_) ?_
      · exact (agree_setBusy r false).bind fun _ _ => follows_settle ho
      · rintro _ u rfl
        exact ⟨_, rfl⟩
    split
    · exact follows_throw (hL.halt _ rfl)
    · exact hdraw
  | _ => exact agree_notIterable hL.toLawful _

theorem agree_draw (r : IteratorRef) :
    L.Agree (fun item => ∀ w ∈ item, L.value w) (draw (n + 1) r) (draw (m + 1) r) := by
  unfold draw
  refine follows_get fun s t h => ?_
  dsimp only
  rw [h.iterator]
  have hsource := h.values.iterator r
  split
  · rename_i inner count heq
    rw [heq] at hsource
    refine (hruns.nextItem inner hsource).bind fun item hitem => ?_
    cases item with
    | none => exact agree_pure (by simp)
    | some item =>
      dsimp only
      cases Word.add? count 1 with
      | none => exact follows_throw (hL.halt _ rfl)
      | some next =>
        refine (agree_setIterator r (i := { s.iterator r with source := .enumerate inner next })
          hsource).bind fun _ _ => ?_
        have hitems : ∀ v ∈ [Value.int count, item], L.value v := by
          simpa using ⟨hL.plain _ rfl, hitem item rfl⟩
        exact (agree_newTuple hL.toLawful hitems).bind fun v hv => agree_pure (by simpa using hv)
  · exact agree_pure (by simp)
  · rename_i inners _ heq
    rw [heq] at hsource
    refine (hruns.nextRow inners hsource).bind fun row hrow => ?_
    cases row with
    | none => exact agree_pure (by simp)
    | some row =>
      exact (agree_newTuple hL.toLawful (hrow row rfl)).bind fun v hv =>
        agree_pure (by simpa using hv)
  · refine follows_get fun s' t' h' => ?_
    rw [h'.drawSource]
    cases hdraw : (s.iterator r).source.draw? s' with
    | none => exact agree_pure (by simp)
    | some pair =>
      obtain ⟨hitem, hrest⟩ := good_of_draw hL.toLawful h' hsource hdraw
      exact (agree_setIterator r (i := { s.iterator r with source := pair.2 }) hrest).bind
        fun _ _ => agree_pure (by simpa using hitem)

omit hL in
theorem agree_nextRow {vs : List Value} (h : ∀ v ∈ vs, L.value v) :
    L.Agree (fun row => ∀ items ∈ row, ∀ w ∈ items, L.value w) (nextRow (n + 1) vs)
      (nextRow (m + 1) vs) := by
  cases vs with
  | nil => exact agree_pure (by simp)
  | cons v vs =>
    obtain ⟨hv, hvs⟩ := List.forall_mem_cons.1 h
    unfold nextRow
    refine (hruns.nextItem v hv).bind fun item hitem => ?_
    cases item with
    | none => exact agree_pure (by simp)
    | some item =>
      refine (hruns.nextRow vs hvs).bind fun row hrow => agree_pure ?_
      cases row with
      | none => simp
      | some items => simpa using ⟨hitem item rfl, hrow items rfl⟩

theorem agree_collect {v : Value} (hv : L.value v) :
    L.Agree (fun items => ∀ w ∈ items, L.value w) (collect (n + 1) v) (collect (m + 1) v) := by
  have hdrain : L.Agree (fun items => ∀ w ∈ items, L.value w)
      (do drain n (← makeIterator v) #[]) (do drain m (← makeIterator v) #[]) :=
    (agree_makeIterator hL.toLawful hv).bind fun it hit => hruns.drain it #[] hit (by simp)
  unfold collect
  cases v with
  | list r =>
    refine follows_get fun s t h => ?_
    rw [h.list]
    exact agree_pure (h.values.list r)
  | tuple id items => exact agree_pure (by simpa using (hL.tuple _ _).1 hv)
  | _ => exact hdrain

omit hL in
theorem agree_drain {iterator : Value} {items : Array Value} (hi : L.value iterator)
    (h : ∀ v ∈ items, L.value v) :
    L.Agree (fun items => ∀ w ∈ items, L.value w) (drain (n + 1) iterator items)
      (drain (m + 1) iterator items) := by
  unfold drain
  refine (hruns.nextItem iterator hi).bind fun item hitem => ?_
  cases item with
  | none => exact agree_pure h
  | some item => exact hruns.drain iterator _ hi (push_all h (hitem item rfl))

omit hL hruns in
theorem ended_afterStep {s t : Store} (h : L.Alike s t) (r : GeneratorRef)
    {o : Except Halt (Completion × Frame)}
    (ho : L.SameOutcome (fun a b => a = b ∧ L.Completed a) o o)
    (hstarted : (s.generator r).started = true ∨ ∃ e, o = .error e) :
    L.Ended (fun a b => a = b ∧ ∀ v, a = .returned v ∨ a = .yielded v → L.value v) s
      ((do setState r (.after o); return (← settle o).1 : Exec Completion) s)
      ((do setState r (.after o); return (← settle o).1 : Exec Completion) t) := by
  have hready : L.Ready { s.generator r with state := .after o } := by
    intro f hf
    rcases o with e | ⟨v | v, g⟩
    · cases hf
    · cases hf
    · cases hf
      rcases ho with ⟨-, hv⟩ | _
      rcases hstarted with hs | ⟨e, he⟩
      · rw [if_pos hs]
        exact hv.2.1
      · cases he
  obtain ⟨s', t', hs', ht', hb, ha⟩ := h.setState r hready
  rw [bind_ok hs', bind_ok ht']
  cases ho with
  | error hh => exact .error hh hb ha
  | @ok k _ hk =>
    refine .ok ⟨rfl, ?_⟩ hb ha
    obtain ⟨v | v, g⟩ := k
    · rintro w (hw | hw) <;> cases hw
      exact hk.2
    · rintro w (hw | hw) <;> cases hw
      exact hk.2.1

theorem agree_resume (r : GeneratorRef) :
    L.Agree (fun k => ∀ v, k = .returned v ∨ k = .yielded v → L.value v) (resume (n + 1) r)
      (resume (m + 1) r) := by
  intro s t h
  unfold resume
  rcases h.wake hL.toLawful r with
    ⟨e, he, hs, ht⟩ | ⟨f, s', t', hs, ht, hf, hb, ha, hstarted⟩
  · rw [bind_error hs, bind_error ht]
    exact .error he (.refl s) h
  · rw [bind_ok hs, bind_ok ht, attempt_bind, attempt_bind]
    have hstep := hruns.execute f hf ha
    generalize execute n f s' = x at hstep ⊢
    generalize execute m f t' = y at hstep ⊢
    cases hstep with
    | ok hk hb' ha' =>
      obtain ⟨rfl, hk⟩ := hk
      exact (ended_afterStep ha' r (.ok ⟨rfl, hk.1⟩) (.inl (hb'.started r hstarted))).after
        (hb.trans hb')
    | error he hb' ha' =>
      exact (ended_afterStep ha' r (.error he) (.inr ⟨_, rfl⟩)).after (hb.trans hb')
    | outOfFuel => exact .outOfFuel

end Turns

/-- All that the machine does respects a likeness that it respects by itself. -/
theorem Steady.runsAt (hL : L.Steady) : ∀ {n m : Nat}, n ≤ m → L.RunsAt n m
  | 0, m, _ => by
    constructor
    case runFrame => exact fun f _ s t _ => .spent rfl
    all_goals
      intros
      exact follows_outOfFuel
  | n + 1, 0, h => by omega
  | n + 1, m + 1, h => by
    have hruns := hL.runsAt (Nat.le_of_succ_le_succ h)
    exact {
      runFrame := fun f hf => tries_runFrame hL hruns hf
      execute := fun f hf => agree_execute hL hruns hf
      callValue := fun _ _ _ hc ha hk => agree_callValue hL hruns hc ha hk
      callFunction := fun _ _ _ hf ha hk => agree_callFunction hL hruns hf ha hk
      instantiate := fun _ _ _ ha hk => agree_instantiate hL hruns ha hk
      buildClass := fun _ ha => agree_buildClass hL hruns ha
      nextItem := fun _ _ => agree_nextItem hL hruns
      draw := fun r => agree_draw hL hruns r
      nextRow := fun _ h => agree_nextRow hruns h
      collect := fun _ hv => agree_collect hL hruns hv
      drain := fun _ _ hi h => agree_drain hruns hi h
      resume := fun r => agree_resume hL hruns r }

end Lexiscope.Machine.Likeness
