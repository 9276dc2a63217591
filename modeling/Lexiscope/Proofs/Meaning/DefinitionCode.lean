import Lexiscope.Proofs.Meaning.TargetCode
/-!
# The code of definitions

The code of a definition makes a function of the code of the inner body, with the parts that the
definition gives, and binds it.
-/

namespace Lexiscope.Meaning

open Machine Exec
open Code
open Generate
open Grammar (Expr Stmt Param Params)
open Lexical (Scope)

variable {α : Type} {mayTire : Prop} {n : Nat} {σ : List Value}

section Parts

variable {s : Scope} {k : Nat} {goal : α → Option Label × List Value}

theorem computes_namedValues (es : List (Name × Expr)) :
    Computes mayTire n (namedValues s es) σ (evaluateNamed n s es) fun vs => vs.toList.reverse ++ σ := by
  induction es generalizing σ with
  | nil =>
    unfold namedValues evaluateNamed
    exact lowers_nothing rfl
  | cons e es ih =>
    obtain ⟨name, value⟩ := e
    unfold namedValues evaluateNamed
    refine (computes_text name).andThen fun key => ?_
    refine (computes_expression n s value).andThen fun v => ?_
    refine ih.andReturn fun vs => ?_
    have hlist : List.Vector.toList (n := 2 * ((name, value) :: es).length) (key ::ᵥ v ::ᵥ vs) =
        key :: v :: vs.toList := rfl
    dsimp only
    rw [hlist]
    simp

theorem lowers_unlessAbsent {absent : Bool} {g : Generate Unit} {h : Bool → Generate Unit}
    {x : Tale Value} {y : PartOf (!absent) → Nat → Tale α}
    (hg : Computes mayTire n g σ x fun v => v :: σ)
    (hh : ∀ part : PartOf !absent, Lowers mayTire n (h !absent) k (part.1.toList ++ σ) (y part) goal) :
    Lowers mayTire n ((if absent then pure false else g >>= fun _ => pure true) >>= h) k σ
      (fun i => unlessAbsent absent x >>= fun part => y part i) goal := by
  cases absent with
  | true =>
    simp only [unlessAbsent, reduceIte, reduceDIte, pure_bind, Tale.pure_bind]
    exact hh ⟨none, rfl⟩
  | false =>
    simp only [unlessAbsent, Bool.false_eq_true, reduceIte, reduceDIte, bind_assoc, pure_bind,
      Tale.bind_assoc, Tale.pure_bind]
    exact hg.andThen fun v => hh ⟨some v, rfl⟩

theorem lowers_positionalDefaults {params : List Param} {h : Bool → Generate Unit}
    {y : PartOf (!(params.filterMap (·.default)).isEmpty) → Nat → Tale α}
    (hh : ∀ part : PartOf _, Lowers mayTire n (h !(params.filterMap (·.default)).isEmpty) k
      (part.1.toList ++ σ) (y part) goal) :
    Lowers mayTire n (positionalDefaults s params >>= h) k σ
      (fun i => positionalTuple n s params >>= fun part => y part i) goal := by
  have htuple : Computes mayTire n (do
      expressions s (params.filterMap (·.default))
      emit (.buildTuple (params.filterMap (·.default)).length)) σ _ fun v => v :: σ :=
    (computes_expressions n s _).andThen fun vs => computes_buildTuple
  have hpart := lowers_unlessAbsent htuple hh
  rwa [bind_assoc] at hpart

theorem lowers_keywordDefaults {params : List Param} {h : Bool → Generate Unit}
    {y : PartOf (!(namedDefaults params).isEmpty) → Nat → Tale α}
    (hh : ∀ part : PartOf _, Lowers mayTire n (h !(namedDefaults params).isEmpty) k
      (part.1.toList ++ σ) (y part) goal) :
    Lowers mayTire n (keywordDefaults s params >>= h) k σ
      (fun i => keywordDict n s params >>= fun part => y part i) goal := by
  have hdict : Computes mayTire n (do
      namedValues s (namedDefaults params)
      emit (.buildDict (namedDefaults params).length)) σ _ fun v => v :: σ :=
    (computes_namedValues _).andThen fun vs => computes_buildDict
  have hpart := lowers_unlessAbsent hdict hh
  rwa [bind_assoc] at hpart

end Parts

section Functions

theorem constant_code (b : Builder) (code : Object) : b.constant (.code code) =
    (b.constants.size, { b with constants := b.constants.push (.code code) }) := by
  have hnone : b.constants.findIdx? (·.sharesSlot (.code code)) = none := by
    simp [not_sharesSlot_code]
  simp only [Builder.constant, hnone]

theorem innerCode_of_ends {b : Builder} {code : Object} {place : Label → Nat} {f : Frame}
    (h : (b.constant (.code code)).2.Ends f.code.object place) :
    innerCode b.codeCount f = f.code.inner b.constants.size code ∧
      f.code.object.constants[b.constants.size]? = some (.code code) := by
  rw [constant_code] at h
  have hconstant := h.constants b.constants.size (.code code) (by simp)
  have hprefix : codePlaces (b.constants.push (.code code)) <+: codePlaces f.code.object.constants :=
    h.constants.codePlaces
  rw [codePlaces_push] at hprefix
  obtain ⟨rest, hrest⟩ := hprefix
  have hplace : (codePlaces f.code.object.constants)[b.codeCount]? = some b.constants.size := by
    rw [← hrest, Builder.codeCount]
    simp
  refine ⟨?_, hconstant⟩
  simp only [innerCode, hplace, Option.getD_some, hconstant]

theorem lowers_code {code : Object} :
    Lowers mayTire n (emitConst (.code code)) 1 σ
      (fun k => .silently fun f => pure (innerCode k f)) fun a => (none, .code a :: σ) := by
  refine lowers_placed (f := (·.constant (.code code))) (fun b => ?_)
    fun b c place pc hends hat => realizes_silently hat rfl fun f hf => ?_
  · refine ⟨Builder.extends_constant b _, ?_, ?_⟩
    · simp [constant_code, Builder.codeCount, codePlaces_push]
    · rw [constant_code]
  · subst hf
    obtain ⟨hinner, hconstant⟩ := innerCode_of_ends hends
    rw [constant_code, hinner]
    change (f.placed (pc + 1) σ).pushed (f.constant b.constants.size) = _
    rw [pushed_placed]
    simp only [Frame.constant, hconstant, map_pure]

theorem computes_loadCells (span : Text.Span) : (names : List Name) → ∀ {σ : List Value},
    Computes mayTire n (loadCells span names) σ (.silently (cellsOf names))
      fun rs => (rs.toList.map .cell).reverse ++ σ
  | [], _ => lowers_nothing rfl
  | name :: names, σ => by
    have hcell : Computes mayTire n (do emit (.loadClosure (← deref name span))) σ
        (.silently fun f => f.cell (cellOf f name)) fun r => .cell r :: σ := by
      refine computes_cell fun c pc i hi hat => realizes_silently hat rfl fun f hf => ?_
      rw [cellOf, hf, hi]
      change (f.placed (pc + 1) σ).pushed (return .cell (← f.cell i)) = _
      rw [pushed_placed, Option.getD_some, ← map_eq_pure_bind, Functor.map_map]
    have hrest : ∀ r : CellRef, Computes mayTire n (loadCells span names) (.cell r :: σ) _
        fun rs : List.Vector CellRef (names.length + 1) => (rs.toList.map .cell).reverse ++ σ :=
      fun r => (computes_loadCells span names).andReturn (f := (r ::ᵥ ·)) fun rs => by simp
    have hall := hcell.andThen hrest
    rw [bind_assoc] at hall
    unfold loadCells
    refine hall.of_eq rfl (funext fun _ => ?_)
    have hcells : cellsOf (name :: names) = fun f => f.cell (cellOf f name) >>= fun r =>
        cellsOf names f >>= fun rs => pure (r ::ᵥ rs) := rfl
    rw [hcells, Tale.silently_bind]
    refine congrArg _ (funext fun r => ?_)
    rw [Tale.silently_bind]
    rfl

theorem computes_cellTuple {k : Nat} {rs : List.Vector CellRef k} :
    Computes mayTire n (emit (.buildTuple k)) ((rs.toList.map .cell).reverse ++ σ)
      (.silently fun _ => freshIdentity) fun id => .tuple id (rs.toList.map .cell) :: σ := by
  refine computes_silently (fun _ => rfl) fun f pc => ?_
  have hmany := popMany_placed f pc (rs.toList.map .cell) σ
  rw [List.length_map, rs.toList_length] at hmany
  change (f.placed pc _).popMany k >>= _ = _
  rw [hmany, pure_bind]
  change (f.placed pc σ).pushed (return .tuple (← freshIdentity) _) = _
  rw [pushed_placed, ← map_eq_pure_bind, Functor.map_map]

theorem takePart_placed {β : Type} {present : Bool} (part : PartOf present) (absent : β)
    (read : Value → Exec β) (f : Frame) (pc : Nat) (σ : List Value) :
    takePart present absent read (f.placed pc (part.1.toList ++ σ)) =
      (fun b => (b, f.placed pc σ)) <$> readPart absent read part.1 := by
  obtain ⟨part, rfl⟩ := part
  cases part with
  | none => rfl
  | some v =>
    rw [map_eq_pure_bind]
    rfl

theorem closureCells_map (id : Identity) (rs : List CellRef) :
    closureCells (.tuple id (rs.map .cell)) = pure rs := by
  change (rs.map Value.cell).mapM _ = _
  induction rs with
  | nil => rfl
  | cons r rs ih =>
    rw [List.map_cons, List.mapM_cons, ih]
    rfl

theorem computes_functionOf {code : LoadedCode} {hasClosure hasDefaults hasKeywords : Bool}
    {closure : PartOf hasClosure} {defaults : PartOf hasDefaults} {keywords : PartOf hasKeywords}
    {cells : List CellRef} (hcells : readPart [] closureCells closure.1 = pure cells) :
    Computes mayTire n (emit (.makeFunction (FunctionParts.toBits
        { defaults := hasDefaults, keywordDefaults := hasKeywords, closure := hasClosure })))
      (.code code :: (closure.1.toList ++ (keywords.1.toList ++ (defaults.1.toList ++ σ))))
      (.silently (functionOf code cells defaults.1 keywords.1)) fun v => v :: σ := by
  refine computes_emit fun c pc hat => realizes_silently hat rfl fun f _ => ?_
  have hparts := FunctionParts.ofBits_toBits
    { defaults := hasDefaults, keywordDefaults := hasKeywords, closure := hasClosure }
  change Machine.makeFunction (.ofBits (FunctionParts.toBits _)) _ = _
  rw [hparts]
  change takePart hasClosure [] closureCells (f.placed (pc + 1) _) >>= _ = _
  rw [takePart_placed, hcells]
  simp only [pure_bind, takePart_placed, functionOf, map_eq_pure_bind, bind_assoc]
  rfl

theorem lowers_closureWith {code : Object} {hasDefaults hasKeywords : Bool}
    {defaults : PartOf hasDefaults} {keywords : PartOf hasKeywords} (span : Text.Span) :
    Lowers mayTire n (Code.makeFunction code hasDefaults hasKeywords span) 1
      (keywords.1.toList ++ (defaults.1.toList ++ σ))
      (fun k => .silently (closureWith code.freevars k defaults.1 keywords.1))
      fun v => (none, v :: σ) := by
  unfold Code.makeFunction closureOf
  -- The code and the function are alike whether there are cells or not.
  have hmake : ∀ (hasClosure : Bool) (closure : PartOf hasClosure) (cells : List CellRef),
      readPart [] closureCells closure.1 = pure cells →
      Lowers mayTire n (do
          emitConst (.code code)
          emit (.makeFunction (FunctionParts.toBits
            { defaults := hasDefaults, keywordDefaults := hasKeywords, closure := hasClosure }))) 1
        (closure.1.toList ++ (keywords.1.toList ++ (defaults.1.toList ++ σ)))
        (fun k => .silently fun f => functionOf (innerCode k f) cells defaults.1 keywords.1 f)
        fun v => (none, v :: σ) := by
    intro hasClosure closure cells hcells
    refine (lowers_code.andThen fun a => computes_functionOf hcells).of_eq rfl (funext fun k => ?_)
    exact (Tale.silently_bind _ _).symm
  by_cases hempty : code.freevars.isEmpty = true
  · rw [if_pos hempty, pure_bind]
    refine (hmake false ⟨none, rfl⟩ [] rfl).of_eq rfl (funext fun k => congrArg Tale.silently ?_)
    rw [List.isEmpty_iff.1 hempty]
    rfl
  · rw [if_neg hempty]
    simp only [bind_assoc, pure_bind]
    have hclosure := (computes_loadCells (n := n) span code.freevars).andThen
      fun rs => computes_cellTuple.andThen fun id => hmake true
        ⟨some (.tuple id (rs.toList.map .cell)), rfl⟩ rs.toList (closureCells_map id rs.toList)
    refine hclosure.of_eq rfl (funext fun k => ?_)
    have hwith : closureWith code.freevars k defaults.1 keywords.1 = fun f =>
        cellsOf code.freevars f >>= fun rs => freshIdentity >>= fun _ =>
          functionOf (innerCode k f) rs.toList defaults.1 keywords.1 f := by
      funext f
      simp only [closureWith, if_neg hempty]
    rw [hwith, Tale.silently_bind]
    refine congrArg _ (funext fun rs => ?_)
    rw [Tale.silently_bind]

theorem codeCount_closureOf {names : List Name} {span : Text.Span} {d d' : Draft} {b : Bool}
    (h : closureOf names span d = .ok (b, d')) : d'.builder.codeCount = d.builder.codeCount := by
  unfold closureOf at h
  split at h
  · cases h
    rfl
  · obtain ⟨⟨⟩, e, hcells, h⟩ := Generates.generate_bind_eq_ok h
    cases h
    have hcomputes : Computes False 0 (loadCells span names) [] _ _ := computes_loadCells span names
    exact (hcomputes hcells).2.1

/-- The code of which a function is made is found by the number of those before it. -/
theorem innerCode_of_makeFunction {code : Object} {hasDefaults hasKeywords : Bool} {span : Text.Span}
    {d d' : Draft} {place : Label → Nat} {f : Frame}
    (hrun : Code.makeFunction code hasDefaults hasKeywords span d = .ok ((), d'))
    (hends : d'.builder.Ends f.code.object place) : (innerCode d.builder.codeCount f).object = code := by
  obtain ⟨closure, e, hclosure, hrun⟩ := Generates.generate_bind_eq_ok hrun
  have hcount := codeCount_closureOf hclosure
  cases hrun
  have hconst : (e.builder.emitConst (.code code)).Ends f.code.object place :=
    (Builder.extends_push _ _ none).ends hends
  obtain ⟨hinner, -⟩ := innerCode_of_ends ((Builder.extends_push _ _ none).ends hconst)
  rw [← hcount, hinner]
  rfl

theorem lowers_makeFunction {code : Object} {hasDefaults hasKeywords : Bool}
    {defaults : PartOf hasDefaults} {keywords : PartOf hasKeywords} (span : Text.Span) :
    Lowers mayTire n (Code.makeFunction code hasDefaults hasKeywords span) 1
      (keywords.1.toList ++ (defaults.1.toList ++ σ))
      (fun k => .silently (closureOver k defaults.1 keywords.1)) fun v => (none, v :: σ) := by
  refine (lowers_closureWith span).congr fun d d' hrun c place hends f s hf => ?_
  subst hf
  simp only [Tale.silently, closureOver, innerCode_of_makeFunction hrun hends]

end Functions

section Bindings

variable {s : Scope} {α : Type} {k : Nat} {x : Nat → Tale α} {goal : α → Option Label × List Value}

theorem lowers_lifted {γ : Type} {r : Except CompileError γ} {h : γ → Generate Unit}
    (hh : ∀ a, Lowers mayTire n (h a) k σ x goal) :
    Lowers mayTire n ((liftM r : Generate γ) >>= h) k σ x goal := by
  refine lowers_apart (fun d a d' hrun => ?_) hh
  cases r with
  | ok b =>
    cases hrun
    rfl
  | error e => cases hrun

theorem lowers_nextScope {span : Text.Span} {h : Scope → Generate Unit}
    (hh : ∀ inner, Lowers mayTire n (h inner) k σ x goal) :
    Lowers mayTire n (nextScope span >>= h) k σ x goal := by
  refine lowers_apart (fun d inner d' hrun => ?_) hh
  unfold nextScope at hrun
  split at hrun
  · cases hrun
    rfl
  · cases hrun

theorem lowers_define {loops : List Loop} {name : Name} {params : Params} {body : List Stmt}
    {isAsync : Bool} {span : Text.Span} :
    Lowers mayTire n (statement s loops (.define name params body isAsync span)) 1 σ
      (define n s name params) fun _ => (none, σ) := by
  unfold statement define
  refine lowers_positionalDefaults fun defaults => lowers_keywordDefaults fun keywords => ?_
  refine lowers_nextScope fun inner => lowers_lifted fun ⟨_, draft⟩ => lowers_lifted fun code => ?_
  exact (lowers_makeFunction span).andCompute fun function => computes_storeName

theorem lowers_classDef {loops : List Loop} {name : Name} {bases : List Expr} {body : List Stmt}
    {span : Text.Span} :
    Lowers mayTire n (statement s loops (.classDef name bases body span)) 1 σ
      (defineClass n s name bases) fun _ => (none, σ) := by
  unfold statement defineClass
  have hbuilder : Computes mayTire n (emit .loadBuildClass) σ
      (.silently fun _ => return .builtin (some (← freshIdentity)) .buildClass) fun v => v :: σ :=
    computes_silently (fun _ => rfl) fun f pc => pushed_placed ..
  refine hbuilder.andThen fun builder => ?_
  refine lowers_nextScope fun inner => lowers_lifted fun ⟨_, draft⟩ => lowers_lifted fun code => ?_
  have hfunction : Lowers mayTire n (Code.makeFunction code false false span) 1 (builder :: σ)
      (fun k => .silently (closureOver k none none)) fun v => (none, v :: builder :: σ) :=
    @lowers_makeFunction mayTire n (builder :: σ) code false false ⟨none, rfl⟩ ⟨none, rfl⟩ span
  refine hfunction.andCompute fun body => (computes_text name).andThen fun text => ?_
  refine (computes_expressions n s bases).andThen fun vs => ?_
  have hcall : Computes mayTire n _ ((body ::ᵥ text ::ᵥ vs).toList.reverse ++ builder :: σ) _
      fun v => v :: σ := computes_callPlain
  have hstack : (body ::ᵥ text ::ᵥ vs).toList.reverse ++ builder :: σ =
      vs.toList.reverse ++ text :: body :: builder :: σ := by simp
  rw [hstack] at hcall
  rw [Nat.add_comm]
  exact hcall.andThen fun made => computes_storeName

end Bindings

end Lexiscope.Meaning
