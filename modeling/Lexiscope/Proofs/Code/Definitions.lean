import Lexiscope.Proofs.Code.Expressions
/-!
# The layout of targets and of definitions

The code of a target takes one operand. The code of a definition leaves the function, made of the
parts that its code object asks for.
-/

namespace Lexiscope.Code

open Generate
open Grammar (Expr Param)
open Lexical (Scope exprMentions exprsMentions keywordsMentions targetMentions targetsMentions)

variable {mayYield : Prop} {s : Scope}

section Targets

mutual

theorem emits_store : (e : Expr) → ((targetMentions e).yields = true → mayYield) →
    ∀ {known : Fact} {κ : Kind} {σ : Kinds} {π : List Scope},
      Emits mayYield known (store s e) ⟨κ :: σ, π⟩ ⟨σ, π⟩
  | .name name span, _, _, κ, _, _ => by
    unfold store
    exact emits_storeName κ name span
  | .member value attr _, h, _, κ, σ, _ => by
    unfold store
    simp only [targetMentions] at h
    refine (emits_expression value h).andThen (emits_named attr (fun i p hi => ?_) (by simp))
    exact ⟨[.any, κ], σ, rfl, rfl, hi, rfl⟩
  | .subscript value index _, h, _, κ, σ, _ => by
    unfold store
    simp only [targetMentions, Lexical.Mentions.yields_append, Bool.or_eq_true] at h
    refine (emits_expression value fun hy => h (.inl hy)).andThen ?_
    refine (emits_expression index fun hy => h (.inr hy)).andThen ?_
    exact emits_emit (fun _ _ _ => ⟨[.any, .any, κ], σ, rfl, rfl, rfl⟩) (by simp)
  | .tuple items _, h, _, κ, σ, _ | .list items _, h, _, κ, σ, _ => by
    unfold store
    simp only [targetMentions] at h
    refine Generates.andThen ?_ (emits_storeAll items h)
    exact emits_emit (fun _ _ _ => ⟨[κ], σ, rfl, rfl, rfl⟩) (by simp)
  | .none _, _, _, _, _, _ | .ellipsis _, _, _, _, _, _ | .bool .., _, _, _, _, _
  | .int .., _, _, _, _, _ | .float .., _, _, _, _, _ | .str .., _, _, _, _, _
  | .dict .., _, _, _, _, _ | .call .., _, _, _, _, _ | .unary .., _, _, _, _, _
  | .binary .., _, _, _, _, _ | .compare .., _, _, _, _, _ | .boolean .., _, _, _, _, _
  | .conditional .., _, _, _, _, _ | .yield .., _, _, _, _, _ | .await .., _, _, _, _, _ => by
    unfold store
    exact .fail _ _

theorem emits_storeAll : (es : List Expr) → ((targetsMentions es).yields = true → mayYield) →
    ∀ {known : Fact} {σ : Kinds} {π : List Scope},
      Emits mayYield known (storeAll s es) ⟨anys es.length σ, π⟩ ⟨σ, π⟩
  | [], _, _, _, _ => by
    unfold storeAll
    exact .nothing
  | e :: es, h, _, σ, π => by
    unfold storeAll
    simp only [targetsMentions, Lexical.Mentions.yields_append, Bool.or_eq_true] at h
    rw [List.length_cons, Nat.add_comm, ← anys_add, ← anys_one]
    exact (emits_store e fun hy => h (.inl hy)).andThen
      (emits_storeAll es fun hy => h (.inr hy))

end

theorem emits_storeChain {known : Fact} {κ : Kind} {σ : Kinds} {π : List Scope} (span : Text.Span)
    {es : List Expr} (h : (targetsMentions es).yields = true → mayYield) :
    Emits mayYield known (storeChain s span es) ⟨κ :: σ, π⟩ ⟨σ, π⟩ := by
  induction es with
  | nil => exact .fail _ _
  | cons e es ih =>
    simp only [targetsMentions, Lexical.Mentions.yields_append, Bool.or_eq_true] at h
    have he := fun hy => h (.inl hy)
    cases es with
    | nil => exact emits_store e he
    | cons e' es =>
      unfold storeChain
      refine Generates.andThen (q := ⟨κ :: κ :: σ, π⟩) ?_ ?_
      · exact emits_emit (fun _ _ _ => ⟨[κ], σ, rfl, rfl, rfl⟩) (by simp)
      · exact (emits_store e he).andThen (ih fun hy => h (.inr hy))

theorem emits_augmented {known : Fact} {σ : Kinds} {π : List Scope} (op : Grammar.BinaryOp)
    (value : Expr) {target : Expr} (htarget : (targetMentions target).yields = true → mayYield)
    (hvalue : (exprMentions value).yields = true → mayYield) :
    Emits mayYield known (augmented s op value target) ⟨σ, π⟩ ⟨σ, π⟩ := by
  have hbinary : ∀ {known : Fact} {τ : Kinds},
      Emits mayYield known (emit (.binary op)) ⟨.any :: .any :: τ, π⟩ ⟨.any :: τ, π⟩ := by
    intro known τ
    exact emits_emit (fun _ _ _ => ⟨[.any, .any], τ, rfl, rfl, rfl⟩) (by simp)
  cases target with
  | name name span =>
    refine (emits_loadName name span).andThen ?_
    refine (emits_expression value hvalue).andThen ?_
    exact hbinary.andThen (emits_storeName .any name span)
  | member object attr _ =>
    simp only [targetMentions] at htarget
    refine (emits_expression object htarget).andThen ?_
    refine Generates.andThen (q := ⟨.any :: .any :: σ, π⟩) ?_ ?_
    · exact emits_emit (fun _ _ _ => ⟨[.any], σ, rfl, rfl, rfl⟩) (by simp)
    refine (generates_name attr).bind fun slot => ?_
    refine Generates.andThen (q := ⟨.any :: .any :: σ, π⟩) ?_ ?_
    · exact emits_emit (fun _ _ hk => ⟨[.any], .any :: σ, rfl, rfl, hk.2, rfl⟩) (by simp)
    refine (emits_expression value hvalue).andThen (hbinary.andThen ?_)
    refine Generates.andThen (q := ⟨.any :: .any :: σ, π⟩) ?_ ?_
    · exact emits_emit (fun _ _ _ => ⟨[.any, .any], σ, rfl, rfl, .any, .any, rfl, rfl⟩) (by simp)
    · exact emits_emit (fun _ _ hk => ⟨[.any, .any], σ, rfl, rfl, hk.2, rfl⟩) (by simp)
  | subscript object index _ =>
    simp only [targetMentions, Lexical.Mentions.yields_append, Bool.or_eq_true] at htarget
    refine (emits_expression object fun hy => htarget (.inl hy)).andThen ?_
    refine (emits_expression index fun hy => htarget (.inr hy)).andThen ?_
    refine Generates.andThen (q := ⟨.any :: .any :: .any :: .any :: σ, π⟩) ?_ ?_
    · exact emits_emit (fun _ _ _ => ⟨[.any, .any], σ, rfl, rfl, rfl⟩) (by simp)
    refine Generates.andThen (q := ⟨.any :: .any :: .any :: σ, π⟩) ?_ ?_
    · exact emits_emit (fun _ _ _ => ⟨[.any, .any], .any :: .any :: σ, rfl, rfl, rfl⟩) (by simp)
    refine (emits_expression value hvalue).andThen (hbinary.andThen ?_)
    refine Generates.andThen (q := ⟨.any :: .any :: .any :: σ, π⟩) ?_ ?_
    · exact emits_emit
        (fun _ _ _ => ⟨[.any, .any, .any], σ, rfl, rfl, .any, .any, .any, rfl, rfl⟩) (by simp)
    · exact emits_emit (fun _ _ _ => ⟨[.any, .any, .any], σ, rfl, rfl, rfl⟩) (by simp)
  | _ => exact .fail _ _

end Targets

section Parts

variable {known : Fact} {σ : Kinds} {π : List Scope}

def part (given : Bool) (κ : Kind) : Kinds := if given then [κ] else []

theorem emits_positionalDefaults {params : List Param}
    (h : (exprsMentions (params.filterMap (·.default))).yields = true → mayYield) :
    Generates mayYield known (positionalDefaults s params) ⟨σ, π⟩
      (fun given => ⟨part given .tuple ++ σ, π⟩) fun _ => .none := by
  unfold positionalDefaults
  dsimp only
  split
  · exact .pure rfl fun _ _ _ => trivial
  · refine (emits_expressions _ h).andThen ?_
    refine Generates.andThen (q := ⟨.tuple :: σ, π⟩) ?_ (.pure rfl fun _ _ _ => trivial)
    exact emits_emit (fun _ _ _ => ⟨_, σ, rfl, by simp [Instr.takes], .tuple, trivial, rfl⟩)
      (by simp)

theorem keywordsMentions_eq (ks : List (Name × Expr)) :
    keywordsMentions ks = exprsMentions (ks.map (·.2)) := by
  induction ks with
  | nil => rfl
  | cons k ks ih => simp only [keywordsMentions, exprsMentions, List.map_cons, ih]

theorem emits_namedValues : {ks : List (Name × Expr)} →
    ((keywordsMentions ks).yields = true → mayYield) → {known : Fact} → {σ : Kinds} →
      Emits mayYield known (namedValues s ks) ⟨σ, π⟩ ⟨anys (2 * ks.length) σ, π⟩
  | [], _, _, _ => .nothing
  | (_, value) :: ks, h, _, σ => by
    unfold namedValues
    simp only [keywordsMentions, Lexical.Mentions.yields_append, Bool.or_eq_true] at h
    refine (emits_constant (κ := .any) trivial (by simp)).andThen ?_
    refine (emits_expression value fun hy => h (.inl hy)).andThen ?_
    rw [List.length_cons, Nat.mul_succ, ← anys_add]
    exact emits_namedValues fun hy => h (.inr hy)

theorem emits_keywordDefaults {params : List Param}
    (h : (exprsMentions (params.filterMap (·.default))).yields = true → mayYield) :
    Generates mayYield known (keywordDefaults s params) ⟨σ, π⟩
      (fun given => ⟨part given .dict ++ σ, π⟩) fun _ => .none := by
  have hvalues : (params.filterMap fun p => p.default.map fun d => (p.name, d)).map (·.2) =
      params.filterMap (·.default) := by
    rw [List.map_filterMap]
    congr 1
    funext p
    cases p.default <;> rfl
  rw [← hvalues, ← keywordsMentions_eq] at h
  unfold keywordDefaults
  dsimp only
  split
  · exact .pure rfl fun _ _ _ => trivial
  · refine (emits_namedValues h).andThen ?_
    refine Generates.andThen (q := ⟨.dict :: σ, π⟩) ?_ (.pure rfl fun _ _ _ => trivial)
    exact emits_emit (fun _ _ _ => ⟨_, σ, rfl, by simp [Instr.takes], .dict, .inr rfl, rfl⟩)
      (by simp)

theorem emits_loadCells (span : Text.Span) : {names : List Name} → {known : Fact} →
    {σ : Kinds} →
      Emits mayYield known (loadCells span names) ⟨σ, π⟩
        ⟨List.replicate names.length .cell ++ σ, π⟩
  | [], _, _ => .nothing
  | name :: names, _, σ => by
    unfold loadCells
    refine (generates_deref name span).bind fun i => ?_
    refine Generates.andThen (q := ⟨.cell :: σ, π⟩) ?_ ?_
    · exact emits_emit (fun _ _ hk => ⟨[], σ, rfl, rfl, hk.2, rfl⟩) (by simp)
    · rw [List.length_cons, List.replicate_succ', List.append_assoc]
      exact emits_loadCells span

theorem emits_closureOf (names : List Name) (span : Text.Span) :
    Generates mayYield known (closureOf names span) ⟨σ, π⟩
      (fun given => ⟨part given (.cells names.length) ++ σ, π⟩)
      fun given => .always (given = false → names = []) := by
  unfold closureOf
  split
  · rename_i hempty
    exact .pure rfl fun _ _ _ _ => List.isEmpty_iff.1 hempty
  · refine (emits_loadCells span).andThen ?_
    refine Generates.andThen (q := ⟨.cells names.length :: σ, π⟩) ?_ ?_
    · exact emits_emit (fun _ _ _ =>
        ⟨_, σ, rfl, by simp [Instr.takes], .cells names.length, rfl, rfl⟩) (by simp)
    · exact .pure rfl fun _ _ _ h => nomatch h

theorem FunctionParts.ofBits_toBits (parts : FunctionParts) : ofBits parts.toBits = parts := by
  obtain ⟨_ | _, _ | _, _ | _⟩ := parts <;> rfl

theorem emits_makeFunction {code : Object} (hcode : code.Sound) (defaults keywords : Bool)
    (span : Text.Span) :
    Emits mayYield known (makeFunction code defaults keywords span)
      ⟨part keywords .dict ++ (part defaults .tuple ++ σ), π⟩ ⟨.any :: σ, π⟩ := by
  refine (emits_closureOf code.freevars span).bind fun closure => ?_
  refine (generates_emitConst (κ := .code code) (c := .code code) rfl fun d hd => ?_).bind
    fun _ => ?_
  · cases hd
    exact hcode
  · refine emits_emit (fun _ _ hk => ⟨.code code :: FunctionParts.kinds
      { defaults, keywordDefaults := keywords, closure } code.freevars.length, σ, ?_, ?_, ?_⟩)
      (by simp)
    · simp [FunctionParts.kinds, part]
    · rw [Instr.takes, FunctionParts.ofBits_toBits]
      cases defaults <;> cases keywords <;> cases closure <;> rfl
    · rw [Instr.Lays, FunctionParts.ofBits_toBits]
      obtain ⟨⟨-, hfree⟩, i, c, hc, hcode⟩ := hk
      cases c <;> cases hcode
      exact ⟨⟨code, Array.mem_of_getElem? hc, rfl, hfree⟩, rfl⟩

end Parts

end Lexiscope.Code
