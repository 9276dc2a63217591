import Lexiscope.Proofs.Meaning.Lowering
/-!
# Instructions that do what is told

What the instructions that expressions and statements compile to do, as tales.
-/

namespace Lexiscope.Meaning

open Machine Exec
open Code
open Generate
open Lexical (Scope)

variable {α : Type} {mayTire : Prop} {n : Nat} {σ : List Value} {τ : α → List Value}

section Operations

theorem pushed_placed (f : Frame) (pc : Nat) (σ : List Value) (x : Exec Value) :
    (f.placed pc σ).pushed x = (fun v => Action.next (f.placed pc (v :: σ))) <$> x :=
  (map_eq_pure_bind _ x).symm

theorem popMany_placed (f : Frame) (pc : Nat) (vs σ : List Value) :
    (f.placed pc (vs.reverse ++ σ)).popMany vs.length = pure (vs, f.placed pc σ) := by
  have hlength : vs.length = vs.reverse.length := List.length_reverse.symm
  unfold Frame.popMany Frame.placed
  rw [if_neg (by simp)]
  simp only [hlength, List.take_left, List.drop_left, List.reverse_reverse]

theorem popMany_vector (f : Frame) (pc : Nat) {k : Nat} (vs : List.Vector Value k) (σ : List Value) :
    (f.placed pc (vs.toList.reverse ++ σ)).popMany k = pure (vs.toList, f.placed pc σ) := by
  have hmany := popMany_placed f pc vs.toList σ
  rwa [vs.toList_length] at hmany

theorem computes_next {i : Instr} {ds : List Deed} {x : Exec α}
    (hds : ∀ c, instrDeeds c i σ = ds)
    (hperform : ∀ (f : Frame) pc, perform (f.placed pc σ) i =
      (fun a => Action.next (f.placed pc (τ a))) <$> x) :
    Computes mayTire n (emit i) σ ((Tale.silently fun _ => x).after ds) τ :=
  computes_emit fun c _ hat => realizes_next hat (hds c) fun f _ => hperform f _

theorem computes_silently {i : Instr} {x : Exec α} (hds : ∀ c, instrDeeds c i σ = [])
    (hperform : ∀ (f : Frame) pc, perform (f.placed pc σ) i =
      (fun a => Action.next (f.placed pc (τ a))) <$> x) :
    Computes mayTire n (emit i) σ (.silently fun _ => x) τ :=
  computes_emit fun c _ hat => realizes_silently hat (hds c) fun f _ => hperform f _

theorem computes_call {i : Instr} {callee : Value} {args : List Value} {keywords : Keywords}
    (hds : ∀ c, instrDeeds c i σ = []) {ρ : List Value}
    (hperform : ∀ (f : Frame) pc, perform (f.placed pc σ) i =
      pure (.invoke callee args keywords (f.placed pc ρ))) :
    Computes mayTire n (emit i) σ (.doing (.call callee args keywords) (callValue n callee args keywords))
      fun v => v :: ρ := by
  refine computes_emit fun c pc hat => ?_
  refine (asks (a := fun f => .invoke callee args keywords (f.placed (pc + 1) ρ)) (ρ := ρ)
    hat (hds c) (fun f s => ?_) (fun f => rfl) fun f s => ?_).realizes
  · rw [hperform]
    rfl
  · simp only [act]
    rw [attempt_bind]
    cases callValue n callee args keywords s <;> rfl

end Operations

section Containers

variable {k : Nat} {vs : List.Vector Value k}

theorem computes_buildList :
    Computes mayTire n (emit (.buildList k)) (vs.toList.reverse ++ σ)
      (.silently fun _ => newList vs.toList.toArray) fun v => v :: σ := by
  refine computes_silently (fun _ => rfl) fun f pc => ?_
  change (f.placed pc _).popMany k >>= _ = _
  rw [popMany_vector, pure_bind]
  exact pushed_placed ..

theorem computes_buildTuple :
    Computes mayTire n (emit (.buildTuple k)) (vs.toList.reverse ++ σ)
      (.silently fun _ => newTuple vs.toList) fun v => v :: σ := by
  refine computes_silently (fun _ => rfl) fun f pc => ?_
  change (f.placed pc _).popMany k >>= _ = _
  rw [popMany_vector, pure_bind]
  exact pushed_placed ..

theorem computes_buildDict {vs : List.Vector Value (2 * k)} :
    Computes mayTire n (emit (.buildDict k)) (vs.toList.reverse ++ σ)
      (.silently fun _ => do newDict (← entriesOfFlat .empty vs.toList)) fun v => v :: σ := by
  refine computes_silently (fun _ => rfl) fun f pc => ?_
  change (f.placed pc _).popMany (2 * k) >>= _ = _
  rw [popMany_vector, pure_bind]
  exact pushed_placed ..

end Containers

section Branches

theorem jumpWhenOrPop_placed (f : Frame) (pc : Nat) (v : Value) (σ : List Value) (truth : Bool)
    (target : Nat) (s : Store) :
    (f.placed pc (v :: σ)).jumpWhenOrPop truth target s =
      .ok (.next (if v.isTruthy s == truth then f.placed target (v :: σ) else f.placed pc σ)) s := by
  change (if v.isTruthy s == truth then (pure (Action.next (f.placed target (v :: σ))) : Exec Action)
    else pure (Action.next (f.placed pc σ))) s = _
  split <;> rfl

theorem jumpWhen_placed (f : Frame) (pc : Nat) (v : Value) (σ : List Value) (truth : Bool)
    (target : Nat) (s : Store) :
    (f.placed pc (v :: σ)).jumpWhen truth target s =
      .ok (.next (f.placed (if v.isTruthy s == truth then target else pc) σ)) s := by
  change (EStateM.Result.ok (Action.next (if v.isTruthy s == truth then f.placed target σ
    else f.placed pc σ)) s : EStateM.Result Halt Store Action) = _
  split <;> rfl

theorem realizes_jumpOrPop {c : Object} {pc t : Nat} {i : Instr} {truth : Bool} {v : Value}
    (hat : c.instructions[pc]? = some i)
    (hi : i = .jumpIfFalseOrPop t ∧ truth = false ∨ i = .jumpIfTrueOrPop t ∧ truth = true) :
    Realizes mayTire n c pc (v :: σ) (Tale.truth v) fun b =>
      if b = truth then (t, v :: σ) else (pc + 1, σ) := by
  intro f s hf
  rcases hi with ⟨rfl, rfl⟩ | ⟨rfl, rfl⟩
  all_goals
    refine matches_next hat hf hf rfl ((jumpWhenOrPop_placed f _ v σ _ t s).trans ?_)
    simp only [beq_iff_eq]
    split <;> rfl

theorem realizes_jumpIf {c : Object} {pc t : Nat} {i : Instr} {truth : Bool} {v : Value}
    (hat : c.instructions[pc]? = some i)
    (hi : i = .jumpIfFalse t ∧ truth = false ∨ i = .jumpIfTrue t ∧ truth = true) :
    Realizes mayTire n c pc (v :: σ) (Tale.truth v) fun b =>
      if b = truth then (t, σ) else (pc + 1, σ) := by
  intro f s hf
  rcases hi with ⟨rfl, rfl⟩ | ⟨rfl, rfl⟩
  all_goals
    refine matches_next hat hf hf rfl ((jumpWhen_placed f _ v σ _ t s).trans ?_)
    simp only [beq_iff_eq]
    split <;> rfl

end Branches

section Constants

theorem sharesSlot_eq {k k' : Constant Object} (h : k.sharesSlot k' = true) : k = k' := by
  cases k <;> cases k' <;> simp_all [Constant.sharesSlot]

/-- A constant is found where it was put: no other one is in its place. -/
theorem constant_of_findIdx? {c : Object} {k : Constant Object} {i : Nat}
    (h : c.constants.findIdx? (·.sharesSlot k) = some i) : c.constants[i]? = some k := by
  obtain ⟨hlt, hshares, -⟩ := Array.findIdx?_eq_some_iff_getElem.1 h
  exact Array.getElem?_eq_some_iff.2 ⟨hlt, sharesSlot_eq hshares⟩

theorem computes_literal {k : Constant Object} {x : Frame → Exec α} {v : α → Value}
    (hk : k.sharesSlot k = true)
    (hx : ∀ (f : Frame) i, f.code.object.constants.findIdx? (·.sharesSlot k) = some i →
      f.constant i = v <$> x f) :
    Computes mayTire n (emitConst k) σ (.silently x) fun a => v a :: σ := by
  refine computes_constant hk fun c pc i hi hat => realizes_silently hat rfl fun f hf => ?_
  subst hf
  change (f.placed (pc + 1) σ).pushed (f.constant i) = _
  rw [pushed_placed, hx f i hi, Functor.map_map]

theorem computes_value {k : Constant Object} {v : Value} (hk : k.sharesSlot k = true)
    (hv : ∀ (f : Frame) i, f.code.object.constants[i]? = some k → f.constant i = pure v) :
    Computes mayTire n (emitConst k) σ (pure v) fun v => v :: σ := by
  refine computes_literal (x := fun _ => pure v) (v := id) hk fun f i hi => ?_
  exact hv f i (constant_of_findIdx? hi)

end Constants

section Names

variable {s : Scope} {name : Name} {span : Text.Span}

theorem derefName?_of_idxOf? {c : Object} {i : Nat} (h : c.derefNames.idxOf? name = some i) :
    c.derefName? i = some name := by
  obtain ⟨hlt, hfound, -⟩ := List.findIdx?_eq_some_iff_getElem.1 h
  exact List.getElem?_eq_some_iff.2 ⟨hlt, beq_iff_eq.1 hfound⟩

theorem name_of_getElem? {f : Frame} {i : Nat} (h : f.code.object.names[i]? = some name) :
    f.name i = pure name := by
  simp only [Frame.name, h]

theorem loadGlobal_eq {f : Frame} {i : Nat} (h : f.code.object.names[i]? = some name) :
    f.loadGlobal i = readGlobal f name := by
  unfold Frame.loadGlobal readGlobal
  rw [name_of_getElem? h, pure_bind]
  rfl

theorem loadName_eq {f : Frame} {i : Nat} (h : f.code.object.names[i]? = some name) :
    f.loadName i = readClassName f name := by
  unfold Frame.loadName readClassName
  rw [name_of_getElem? h, pure_bind]
  rfl

/-- The value of a name is pushed that is found in one of the ways in which names are found. -/
theorem realizes_look {c : Object} {pc : Nat} {i : Instr} {x y : Frame → Exec Value}
    (hat : c.instructions[pc]? = some i) (hds : instrDeeds c i σ = [.look name])
    (hperform : ∀ f : Frame, perform (f.placed (pc + 1) σ) i = (f.placed (pc + 1) σ).pushed (x f))
    (hxy : ∀ f : Frame, f.code.object = c → x f = y f) :
    Realizes mayTire n c pc σ (.look name y) fun v => (pc + 1, v :: σ) :=
  realizes_next hat hds fun f hf => by rw [hperform, hxy f hf, pushed_placed]

theorem computes_loadGlobal :
    Computes mayTire n (emitNamed .loadGlobal name) σ (.look name (readGlobal · name)) fun v => v :: σ :=
  computes_named fun c pc i hi hat => realizes_look hat (by simp [instrDeeds, hi]) (fun f => rfl)
    fun f hf => loadGlobal_eq (hf ▸ hi)

theorem computes_loadClassName :
    Computes mayTire n (emitNamed .loadName name) σ (.look name (readClassName · name)) fun v => v :: σ :=
  computes_named fun c pc i hi hat => realizes_look hat (by simp [instrDeeds, hi]) (fun f => rfl)
    fun f hf => loadName_eq (hf ▸ hi)

theorem computes_loadName :
    Computes mayTire n (loadName s name span) σ (.look name (readName s name)) fun v => v :: σ := by
  unfold loadName readName
  cases s.symbol name with
  | fast =>
    refine computes_slot fun c pc i hi hat => ?_
    refine realizes_look hat (by simp [instrDeeds, getElem?_of_idxOf? hi]) (fun f => rfl) fun f hf => ?_
    rw [slotOf, hf, hi]
    rfl
  | cell | free =>
    refine computes_cell fun c pc i hi hat => ?_
    refine realizes_look hat (by simp [instrDeeds, derefName?_of_idxOf? hi]) (fun f => rfl) fun f hf => ?_
    rw [cellOf, hf, hi]
    rfl
  | classFree =>
    refine computes_cell fun c pc i hi hat => ?_
    refine realizes_look hat (by simp [instrDeeds, derefName?_of_idxOf? hi]) (fun f => rfl) fun f hf => ?_
    rw [cellOf, hf, hi]
    rfl
  | classLocal => exact computes_loadClassName
  | globalExplicit => exact computes_loadGlobal
  | globalImplicit =>
    dsimp only
    split
    · exact computes_loadClassName
    · exact computes_loadGlobal

end Names

end Lexiscope.Meaning
