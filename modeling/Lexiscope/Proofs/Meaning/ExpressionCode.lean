import Lexiscope.Proofs.Machine.Rules
import Lexiscope.Proofs.Meaning.Control
/-!
# The code of expressions

The code of an expression does what the meaning of the expression tells, and leaves its value on the
stack.
-/

namespace Lexiscope.Meaning

open Machine Exec
open Code
open Generate
open Grammar (Expr BoolOp)
open Lexical (Scope)

section Parts

variable {mayTire : Prop} {n : Nat} {σ : List Value}

theorem computes_yield {v : Value} : Computes mayTire n (emit .yieldValue) (v :: σ) (Tale.yields v)
    fun w => w :: σ := by
  refine computes_emit fun c pc hat f s hf => ?_
  have hstep : step (f.placed pc (v :: σ)) s = .ok (.yielded v (f.placed (pc + 1) σ)) s :=
    congrFun (step_placed hat hf) s
  have hdeeds := turnDeeds_placed (σ := v :: σ) (s := s) hat hf
  have hyielded : Matches mayTire n c (fun w => (pc + 1, w :: σ)) n (f.placed pc (v :: σ)) s
      (.yielded v f s ([] ++ turnDeeds (f.placed pc (v :: σ)) s) fun t => .ended (.ok .none) f t []) :=
    .yielded .here hstep fun t => .done .here hf
  rw [hdeeds] at hyielded
  exact hyielded

theorem computes_none : Computes mayTire n (emitConst .none) σ (pure .none) fun v => v :: σ :=
  computes_value rfl fun f i hi => by simp only [Frame.constant, hi]

theorem computes_text (text : String) :
    Computes mayTire n (emitConst (.str text)) σ (.silently (literal text)) fun v => v :: σ := by
  refine computes_literal (v := id) (by simp [Constant.sharesSlot]) fun f i hi => ?_
  simp only [Frame.constant, constant_of_findIdx? hi, literal, hi]
  rfl

theorem computes_await {α : Type} {v : Value} {τ : α → List Value} :
    Computes mayTire n (emit .await) (v :: σ)
      (Tale.silently fun _ => runtimeError "'await' is not supported by this runtime") τ :=
  computes_emit fun _ _ hat _ _ hf => matches_error hat hf rfl rfl

theorem computes_loadSubscript {container index : Value} :
    Computes mayTire n (emit .loadSubscript) (index :: container :: σ)
      (.doing (.item container index) (getItem container index)) fun w => w :: σ :=
  computes_next (fun _ => rfl) fun _ _ => pushed_placed ..

theorem computes_binary {op : Grammar.BinaryOp} {v w : Value} :
    Computes mayTire n (emit (.binary op)) (w :: v :: σ) (.doing (.binary op v w) (binary op v w))
      fun result => result :: σ :=
  computes_next (fun _ => rfl) fun _ _ => pushed_placed ..

theorem computes_loadAttr {v : Value} {attr : Name} :
    Computes mayTire n (emitNamed .loadAttr attr) (v :: σ) (.doing (.member v attr) (getAttribute v attr))
      fun w => w :: σ := by
  refine computes_named fun c pc i hi hat => realizes_next hat (by simp [instrDeeds, hi]) fun f hf => ?_
  change (f.placed (pc + 1) (v :: σ)).name i >>= _ = _
  rw [name_of_getElem? (hf ▸ hi), pure_bind]
  exact pushed_placed ..

theorem computes_names (names : List Name) :
    Computes mayTire n (emitConst (.names names)) σ (.silently fun _ => nameTuple names)
      fun t => .tuple t.2 (t.1.1.map .str) :: σ := by
  have htexts : ∀ names : List Name,
      names.mapM newStr = (fun texts => texts.1.map .str) <$> nameTexts names := by
    intro names
    induction names with
    | nil => rfl
    | cons name names ih =>
      rw [List.mapM_cons, ih]
      simp only [newStr, nameTexts, map_eq_pure_bind, bind_assoc, pure_bind]
      rfl
  refine computes_literal (k := .names names) (by simp [Constant.sharesSlot]) fun f i hi => ?_
  simp only [Frame.constant, constant_of_findIdx? hi, htexts, nameTuple, newTuple, map_eq_pure_bind,
    bind_assoc, pure_bind]

theorem keywordNames_texts {names : List Name} (id : Identity) (texts : Texts names) :
    keywordNames (.tuple id (texts.1.map .str)) = pure names := by
  obtain ⟨texts, rfl⟩ := texts
  change (texts.map Value.str).mapM _ = _
  induction texts with
  | nil => rfl
  | cons text texts ih =>
    rw [List.map_cons, List.mapM_cons, ih]
    rfl

theorem computes_callPlain {k : Nat} {vs : List.Vector Value k} {callee : Value} :
    Computes mayTire n (emit (.call k)) (vs.toList.reverse ++ callee :: σ)
      (.doing (.call callee vs.toList []) (callValue n callee vs.toList [])) fun v => v :: σ := by
  refine computes_call (ρ := σ) (fun _ => rfl) fun f pc => ?_
  change (f.placed pc _).popMany k >>= _ = _
  rw [popMany_vector, pure_bind]
  rfl

theorem computes_callKw {names : List Name} {k m : Nat} {vs : List.Vector Value k}
    {ws : List.Vector Value m} {callee : Value} {id : Identity} (texts : Texts names)
    (hlength : m = names.length) :
    Computes mayTire n (emit (.callKw (k + m)))
      (.tuple id (texts.1.map .str) :: (ws.toList.reverse ++ (vs.toList.reverse ++ callee :: σ)))
      (.doing (.call callee vs.toList (names.zip ws.toList))
        (callValue n callee vs.toList (names.zip ws.toList)))
      fun v => v :: σ := by
  refine computes_call (ρ := σ) (fun _ => rfl) fun f pc => ?_
  have hargs : (f.placed pc (ws.toList.reverse ++ (vs.toList.reverse ++ callee :: σ))).popMany
      (k + m) = pure (vs.toList ++ ws.toList, f.placed pc (callee :: σ)) := by
    have hmany := popMany_placed f pc (vs.toList ++ ws.toList) (callee :: σ)
    rwa [List.length_append, vs.toList_length, ws.toList_length, List.reverse_append,
      List.append_assoc] at hmany
  have hsplit : (vs.toList ++ ws.toList).length - names.length = vs.toList.length := by
    rw [List.length_append, ws.toList_length, hlength, Nat.add_sub_cancel]
  change keywordNames (.tuple id (texts.1.map .str)) >>= _ = _
  rw [keywordNames_texts, pure_bind]
  change (f.placed pc (ws.toList.reverse ++ (vs.toList.reverse ++ callee :: σ))).popMany _ >>= _ = _
  rw [hargs, pure_bind]
  dsimp only
  rw [if_neg (by simp [hlength]), hsplit, List.take_left, List.drop_left]
  rfl

end Parts

section Trees

variable {mayTire : Prop} (n : Nat) (s : Scope)

mutual

theorem computes_expression : (e : Expr) → ∀ {σ : List Value},
    Computes mayTire n (expression s e) σ (evaluate n s e) fun v => v :: σ
  | .none _, _ | .ellipsis _, _ | .bool .., _ | .int .., _ | .float .., _ => by
    unfold expression evaluate
    refine computes_value (by simp [Constant.sharesSlot]) fun f i hi => ?_
    simp only [Frame.constant, hi]
  | .str text _, _ => by
    unfold expression evaluate
    exact computes_text text
  | .name name _, _ => by
    unfold expression evaluate
    exact computes_loadName
  | .list items _, _ => by
    unfold expression evaluate
    exact (computes_expressions items).andThen fun vs => computes_buildList
  | .tuple items _, _ => by
    unfold expression evaluate
    exact (computes_expressions items).andThen fun vs => computes_buildTuple
  | .dict items _, _ => by
    unfold expression evaluate
    exact (computes_entries items).andThen fun vs => computes_buildDict
  | .member value attr _, _ => by
    unfold expression evaluate
    exact (computes_expression value).andThen fun v => computes_loadAttr
  | .subscript value index _, _ => by
    unfold expression evaluate
    refine (computes_expression value).andThen fun v => ?_
    exact (computes_expression index).andThen fun i => computes_loadSubscript
  | .call callee args keywords _, _ => by
    unfold expression evaluate
    refine (computes_expression callee).andThen fun f => ?_
    refine (computes_expressions args).andThen fun vs => ?_
    refine (computes_keywordValues keywords).andThen fun ws => ?_
    cases keywords with
    | nil =>
      have hws : ws.toList = [] := List.length_eq_zero_iff.1 ws.toList_length
      rw [hws]
      exact computes_callPlain
    | cons k ks =>
      exact (computes_names _).andThen fun t => computes_callKw t.1 (List.length_map _).symm
  | .unary _ operand _, _ => by
    unfold expression evaluate
    refine (computes_expression operand).andThen fun v => ?_
    exact computes_next (fun _ => rfl) fun f pc => pushed_placed ..
  | .binary _ left right _, _ => by
    unfold expression evaluate
    refine (computes_expression left).andThen fun v => ?_
    exact (computes_expression right).andThen fun w => computes_binary
  | .compare _ left right _, _ => by
    unfold expression evaluate
    refine (computes_expression left).andThen fun v => ?_
    refine (computes_expression right).andThen fun w => ?_
    exact computes_next (fun _ => rfl) fun f pc => pushed_placed ..
  | .boolean op left right _, σ => by
    unfold expression evaluate
    refine computes_skip (computes_expression left) (fun c pc t v hat => ?_)
      (computes_expression right)
    refine realizes_jumpOrPop hat ?_
    cases op
    · exact .inl ⟨rfl, rfl⟩
    · exact .inr ⟨rfl, rfl⟩
  | .conditional test body orelse _, _ => by
    unfold expression evaluate
    exact lowers_branches (o := true) (computes_expression test) (computes_expression body)
      (computes_expression orelse) nofun
  | .yield value _, _ => by
    unfold expression evaluate
    cases value with
    | none => exact computes_none.andThen fun v => computes_yield
    | some value => exact (computes_expression value).andThen fun v => computes_yield
  | .await value _, _ => by
    unfold expression evaluate
    exact (computes_expression value).andThen fun v => computes_await

theorem computes_expressions : (es : List Expr) → ∀ {σ : List Value},
    Computes mayTire n (expressions s es) σ (evaluateAll n s es) fun vs => vs.toList.reverse ++ σ
  | [], _ => by
    unfold expressions evaluateAll
    exact lowers_nothing rfl
  | e :: es, σ => by
    unfold expressions evaluateAll
    refine (computes_expression e).andThen fun v => (computes_expressions es).andReturn fun vs => ?_
    simp

theorem computes_entries : (es : List (Expr × Expr)) → ∀ {σ : List Value},
    Computes mayTire n (entries s es) σ (evaluateEntries n s es) fun vs => vs.toList.reverse ++ σ
  | [], _ => by
    unfold entries evaluateEntries
    exact lowers_nothing rfl
  | (key, value) :: es, σ => by
    unfold entries evaluateEntries
    refine (computes_expression key).andThen fun k => (computes_expression value).andThen fun v => ?_
    refine (computes_entries es).andReturn fun vs => ?_
    have hlist : List.Vector.toList (n := 2 * ((key, value) :: es).length) (k ::ᵥ v ::ᵥ vs) =
        k :: v :: vs.toList := rfl
    dsimp only
    rw [hlist]
    simp

theorem computes_keywordValues : (es : List (Name × Expr)) → ∀ {σ : List Value},
    Computes mayTire n (keywordValues s es) σ (evaluateKeywords n s es) fun vs => vs.toList.reverse ++ σ
  | [], _ => by
    unfold keywordValues evaluateKeywords
    exact lowers_nothing rfl
  | (_, value) :: es, σ => by
    unfold keywordValues evaluateKeywords
    refine (computes_expression value).andThen fun v => ?_
    refine (computes_keywordValues es).andReturn fun vs => ?_
    simp

end

mutual

theorem plain_evaluate : {e : Expr} → isPlain e = true → (evaluate n s e).Plain
  | .none _, _ | .ellipsis _, _ | .bool .., _ | .int .., _ | .float .., _ => by
    unfold evaluate
    exact Tale.plain_pure _
  | .str text _, _ => by
    unfold evaluate
    exact Tale.plain_silently _
  | .name name _, _ => by
    unfold evaluate
    exact Tale.plain_look _ _
  | .list items _, h | .tuple items _, h => by
    unfold evaluate
    exact (plain_evaluateAll (by simpa [isPlain] using h)).bind fun vs => Tale.plain_silently _
  | .dict items _, h => by
    unfold evaluate
    exact (plain_evaluateEntries (by simpa [isPlain] using h)).bind fun vs => Tale.plain_silently _
  | .member value _ _, h | .unary _ value _, h => by
    unfold evaluate
    exact (plain_evaluate (by simpa [isPlain] using h)).bind fun v => Tale.plain_doing _ _
  | .subscript left right _, h | .binary _ left right _, h | .compare _ left right _, h => by
    simp only [isPlain, Bool.and_eq_true] at h
    unfold evaluate
    exact (plain_evaluate h.1).bind fun v => (plain_evaluate h.2).bind fun w => Tale.plain_doing _ _
  | .call callee args keywords _, h => by
    simp only [isPlain, Bool.and_eq_true] at h
    unfold evaluate
    refine (plain_evaluate h.1.1).bind fun f => (plain_evaluateAll h.1.2).bind fun vs => ?_
    refine (plain_evaluateKeywords h.2).bind fun ws => ?_
    dsimp only
    split
    · exact Tale.plain_doing _ _
    · exact (Tale.plain_silently _).bind fun _ => Tale.plain_doing _ _
  | .boolean _ left right _, h => by
    simp only [isPlain, Bool.and_eq_true] at h
    unfold evaluate
    refine (plain_evaluate h.1).bind fun v => (Tale.plain_truth v).bind fun b => ?_
    split
    · exact Tale.plain_pure v
    · exact plain_evaluate h.2
  | .conditional test body orelse _, h => by
    simp only [isPlain, Bool.and_eq_true] at h
    unfold evaluate
    refine (plain_evaluate h.1.1).bind fun v => (Tale.plain_truth v).bind fun b => ?_
    split
    · exact plain_evaluate h.1.2
    · exact plain_evaluate h.2
  | .yield .., h | .await .., h => by cases h

theorem plain_evaluateAll : {es : List Expr} → arePlain es = true → (evaluateAll n s es).Plain
  | [], _ => by
    unfold evaluateAll
    exact Tale.plain_pure _
  | e :: es, h => by
    simp only [arePlain, Bool.and_eq_true] at h
    unfold evaluateAll
    exact (plain_evaluate h.1).bind fun v => (plain_evaluateAll h.2).bind fun vs => Tale.plain_pure _

theorem plain_evaluateEntries : {es : List (Expr × Expr)} → entriesPlain es = true →
    (evaluateEntries n s es).Plain
  | [], _ => by
    unfold evaluateEntries
    exact Tale.plain_pure _
  | (key, value) :: es, h => by
    simp only [entriesPlain, Bool.and_eq_true] at h
    unfold evaluateEntries
    refine (plain_evaluate h.1.1).bind fun k => (plain_evaluate h.1.2).bind fun v => ?_
    exact (plain_evaluateEntries h.2).bind fun vs => Tale.plain_pure _

theorem plain_evaluateKeywords : {es : List (Name × Expr)} → keywordsPlain es = true →
    (evaluateKeywords n s es).Plain
  | [], _ => by
    unfold evaluateKeywords
    exact Tale.plain_pure _
  | (_, value) :: es, h => by
    simp only [keywordsPlain, Bool.and_eq_true] at h
    unfold evaluateKeywords
    refine (plain_evaluate h.1).bind fun v => ?_
    exact (plain_evaluateKeywords h.2).bind fun vs => Tale.plain_pure _

end

end Trees

/-- The code of an expression that neither yields nor awaits preserves its meaning, wherever it
stands in the code of a body. What the frame does on its way are the deeds that the tree tells. At
the end the value lies on the stack that there was before, at the next instruction, or the frame
stops with the exception. -/
theorem expression_preserved {s : Scope} {e : Expr} {d d' : Draft} {c : Object}
    (hcompile : expression s e d = .ok ((), d')) (hunit : InUnit s d d' c) (he : isPlain e = true)
    (n : Nat) {f : Frame} (hcode : f.code.object = c) (hpc : f.pc = d.builder.instructions.size)
    (st : Store) :
    ∃ (r : Except Halt Value) (t : Store) (ds : List Deed) (k : Nat),
      evaluate n s e f st = .ended (r.mapError .halted) f t ds ∧
      match r with
      | .ok v =>
        let g := { f with pc := d'.builder.instructions.size, stack := v :: f.stack }
        Walk n k f st ds g t ∧ runFrame (n + k) f st = runFrame n g t
      | .error h => ∃ es g u last, Walk n k f st es g u ∧ ds = es ++ turnDeeds g u ∧
        turn n g u = .ok (.stops ⟨last, .error h⟩) t ∧
          runFrame (n + k + 1) f st = .ok ⟨last, .error h⟩ t := by
  have hcomputes : Computes False n (expression s e) f.stack _ _ := computes_expression n s e
  obtain ⟨hextends, -, hrealizes⟩ := hcomputes hcompile
  obtain ⟨htidy, place, hends⟩ := hunit.ends hextends.toGrows
  have hmatches := hrealizes c place htidy hends f st hcode
  rw [show f.placed d.builder.instructions.size f.stack = f by rw [← hpc]; rfl] at hmatches
  change Matches _ _ _ _ _ f st (evaluate n s e f st) at hmatches
  obtain ⟨r, t, ds, htold⟩ := plain_evaluate n s he f st
  rw [htold] at hmatches
  cases r with
  | ok v =>
    cases hmatches with
    | done hwalk _ => exact ⟨.ok v, t, ds, _, htold, hwalk, hwalk.runFrame (Nat.le_refl n)⟩
  | error h =>
    generalize htold' : Told.ended _ f t ds = told at hmatches
    cases hmatches with
    | done => cases htold'
    | stopped hwalk hturn =>
      cases htold'
      refine ⟨.error h, t, _, _, htold, _, _, _, _, hwalk, rfl, hturn, ?_⟩
      have hrun := hwalk.runFrame (Nat.le_succ n)
      rwa [runFrame_stops hturn, Nat.succ_add] at hrun
    | tired htire => exact htire.elim
    | yielded => cases htold'

def plainModule : Scope := ⟨.ofModule, [], [], []⟩

/-- The draft of a module after an expression, and the code of the module if there is no more. -/
def expressionUnit (e : Expr) : Option (Draft × Object) :=
  match expression plainModule e (.start plainModule) with
  | .ok ((), d) => (finish d .origin { name := "", qualname := "" }).toOption.map (d, ·)
  | .error _ => none

theorem inUnit_of_expressionUnit {e : Expr} {d : Draft} {c : Object}
    (h : expressionUnit e = some (d, c)) :
    expression plainModule e (.start plainModule) = .ok ((), d) ∧
      InUnit plainModule (.start plainModule) d c := by
  unfold expressionUnit at h
  split at h
  · rename_i d' hcompile
    cases hfinish : finish d' .origin { name := "", qualname := "" } with
    | error e =>
      rw [hfinish] at h
      cases h
    | ok c' =>
      rw [hfinish] at h
      cases h
      exact ⟨hcompile, .refl _, d, _, _, .refl _, hfinish⟩
  · cases h

/-- A conjunction whose operands are equal numbers of different types. -/
def oneAndOne : Expr :=
  .boolean .and (.int 1 .origin) (.float ⟨0x3FF0000000000000⟩ .origin) .origin

/-- The expression is told to come to a float, in a frame of the code. -/
def comesToFloat (e : Expr) (c : Object) : Bool :=
  match evaluate 5 plainModule e (unitFrame c) {} with
  | .ended (.ok v) .. => v.typeName == "float"
  | _ => false

theorem expression_preserved_oneAndOne : ∃ d c,
    expression plainModule oneAndOne (.start plainModule) = .ok ((), d) ∧
    InUnit plainModule (.start plainModule) d c ∧ isPlain oneAndOne = true ∧ ∃ v t ds k,
      Walk 5 k (unitFrame c) {} ds
        { unitFrame c with pc := d.builder.instructions.size, stack := [v] } t ∧
      v.typeName = "float" := by
  have hruns : ((expressionUnit oneAndOne).any fun unit => comesToFloat oneAndOne unit.2) = true := by
    decide +kernel
  obtain ⟨⟨d, c⟩, hunit, hvalue⟩ := (Option.any_eq_true _ _).1 hruns
  obtain ⟨hcompile, hin⟩ := inUnit_of_expressionUnit hunit
  obtain ⟨r, t, ds, k, htold, hend⟩ := expression_preserved hcompile hin rfl 5 (f := unitFrame c) rfl
    rfl {}
  rw [comesToFloat, htold] at hvalue
  cases r with
  | error e => cases hvalue
  | ok v => exact ⟨d, c, hcompile, hin, rfl, v, t, ds, k, hend.1, beq_iff_eq.1 hvalue⟩

end Lexiscope.Meaning
