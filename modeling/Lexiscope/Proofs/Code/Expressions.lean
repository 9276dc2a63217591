import Lexiscope.Proofs.Code.Emission
import Lexiscope.Proofs.Lexical.Mentions
/-!
# The layout of expressions and targets

The code of an expression leaves one operand more on the stack, and that of a target takes one.
-/

namespace Lexiscope.Code

open Generate
open Grammar (Expr Stmt Param Params)
open Lexical (Scope exprMentions exprsMentions entriesMentions keywordsMentions targetMentions
  targetsMentions)

variable {mayYield : Prop} {known : Fact} {s : Scope} {σ τ : Kinds} {π : List Scope}

def anys (n : Nat) (σ : Kinds) : Kinds := List.replicate n .any ++ σ

theorem anys_add (n m : Nat) (σ : Kinds) : anys n (anys m σ) = anys (n + m) σ := by
  rw [anys, anys, anys, ← List.append_assoc, List.replicate_append_replicate]

theorem anys_one (σ : Kinds) : .any :: σ = anys 1 σ := rfl

section Names

theorem emits_named {instr : Nat → Instr} (name : Name)
    (hi : ∀ (i : Nat) (p : Pools), i < p.names →
      (instr i).Suits p (fun ρ => ρ = τ) (fun _ => False) σ)
    (hyield : ∀ i, instr i ≠ .yieldValue) :
    Emits mayYield known (emitNamed instr name) ⟨σ, π⟩ ⟨τ, π⟩ :=
  (generates_name name).bind fun i =>
    emits_emit (fun b _ hk => hi i b.pools hk.2) fun h => absurd h (hyield i)

theorem emits_loadName (name : Name) (span : Text.Span) :
    Emits mayYield known (loadName s name span) ⟨σ, π⟩ ⟨.any :: σ, π⟩ := by
  unfold loadName
  split
  · refine (generates_varname name).bind fun i => emits_emit (fun b k hk => ?_) (by simp)
    exact ⟨[], σ, rfl, rfl, hk.2, rfl⟩
  · refine (generates_deref name span).bind fun i => emits_emit (fun b k hk => ?_) (by simp)
    exact ⟨[], σ, rfl, rfl, hk.2, rfl⟩
  · refine (generates_deref name span).bind fun i => emits_emit (fun b k hk => ?_) (by simp)
    exact ⟨[], σ, rfl, rfl, hk.2, rfl⟩
  · refine (generates_deref name span).bind fun i => emits_emit (fun b k hk => ?_) (by simp)
    exact ⟨[], σ, rfl, rfl, hk.2, rfl⟩
  · exact emits_named name (fun i p hi => ⟨[], σ, rfl, rfl, hi, rfl⟩) (by simp)
  · split
    · exact emits_named name (fun i p hi => ⟨[], σ, rfl, rfl, hi, rfl⟩) (by simp)
    · exact emits_named name (fun i p hi => ⟨[], σ, rfl, rfl, hi, rfl⟩) (by simp)
  · exact emits_named name (fun i p hi => ⟨[], σ, rfl, rfl, hi, rfl⟩) (by simp)

theorem emits_storeName (κ : Kind) (name : Name) (span : Text.Span) :
    Emits mayYield known (storeName s name span) ⟨κ :: σ, π⟩ ⟨σ, π⟩ := by
  unfold storeName
  split
  · refine (generates_varname name).bind fun i => emits_emit (fun b k hk => ?_) (by simp)
    exact ⟨[κ], σ, rfl, rfl, hk.2, rfl⟩
  · refine (generates_deref name span).bind fun i => emits_emit (fun b k hk => ?_) (by simp)
    exact ⟨[κ], σ, rfl, rfl, hk.2, rfl⟩
  · refine (generates_deref name span).bind fun i => emits_emit (fun b k hk => ?_) (by simp)
    exact ⟨[κ], σ, rfl, rfl, hk.2, rfl⟩
  · exact emits_named name (fun i p hi => ⟨[κ], σ, rfl, rfl, hi, rfl⟩) (by simp)
  · exact emits_named name (fun i p hi => ⟨[κ], σ, rfl, rfl, hi, rfl⟩) (by simp)
  · exact emits_named name (fun i p hi => ⟨[κ], σ, rfl, rfl, hi, rfl⟩) (by simp)
  · exact .fail _ _

end Names

mutual

theorem emits_expression : (e : Expr) → ((exprMentions e).yields = true → mayYield) →
    ∀ {known : Fact} {σ : Kinds} {π : List Scope},
      Emits mayYield known (expression s e) ⟨σ, π⟩ ⟨.any :: σ, π⟩
  | .none _, _, _, _, _ | .ellipsis _, _, _, _, _ | .bool .., _, _, _, _ | .int .., _, _, _, _
  | .float .., _, _, _, _ | .str .., _, _, _, _ => by
    unfold expression
    exact emits_constant trivial (by simp)
  | .name name span, _, _, _, _ => by
    unfold expression
    exact emits_loadName name span
  | .list items _, h, _, σ, _ => by
    unfold expression
    simp only [exprMentions] at h
    refine (emits_expressions items h).andThen (emits_emit (fun b k _ => ?_) (by simp))
    exact ⟨_, σ, rfl, by simp [Instr.takes], rfl⟩
  | .tuple items _, h, _, σ, _ => by
    unfold expression
    simp only [exprMentions] at h
    refine (emits_expressions items h).andThen (emits_emit (fun b k _ => ?_) (by simp))
    exact ⟨_, σ, rfl, by simp [Instr.takes], .any, trivial, rfl⟩
  | .dict items _, h, _, σ, _ => by
    unfold expression
    simp only [exprMentions] at h
    refine (emits_entries items h).andThen (emits_emit (fun b k _ => ?_) (by simp))
    exact ⟨_, σ, rfl, by simp [Instr.takes], .any, .inl rfl, rfl⟩
  | .member value attr _, h, _, σ, _ => by
    unfold expression
    simp only [exprMentions] at h
    refine (emits_expression value h).andThen (emits_named attr (fun i p hi => ?_) (by simp))
    exact ⟨[.any], σ, rfl, rfl, hi, rfl⟩
  | .subscript value index _, h, _, σ, _ => by
    unfold expression
    simp only [exprMentions, Lexical.Mentions.yields_append, Bool.or_eq_true] at h
    refine (emits_expression value fun hy => h (.inl hy)).andThen ?_
    refine (emits_expression index fun hy => h (.inr hy)).andThen ?_
    exact emits_emit (fun _ _ _ => ⟨[.any, .any], σ, rfl, rfl, rfl⟩) (by simp)
  | .call callee args keywords _, h, _, σ, _ => by
    unfold expression
    simp only [exprMentions, Lexical.Mentions.yields_append, Bool.or_eq_true] at h
    refine (emits_expression callee fun hy => h (.inl (.inl hy))).andThen ?_
    refine (emits_expressions args fun hy => h (.inl (.inr hy))).andThen ?_
    refine (emits_keywordValues keywords fun hy => h (.inr hy)).andThen ?_
    rw [anys_one, anys_add, anys_add]
    split
    · rename_i hempty
      obtain rfl := List.isEmpty_iff.1 hempty
      exact emits_emit (fun _ _ _ => ⟨_, σ, rfl, by simp [Instr.takes], rfl⟩) (by simp)
    · refine (emits_constant (κ := .texts keywords.length) (by simp [Kind.Describes])
        (by simp)).andThen ?_
      refine emits_emit (fun _ _ _ => ⟨.texts keywords.length :: List.replicate _ .any, σ, rfl, ?_,
        ⟨_, _, rfl, by omega⟩, rfl⟩) (by simp)
      simp only [Instr.takes, List.length_cons, List.length_replicate]
      omega
  | .unary _ operand _, h, _, σ, _ => by
    unfold expression
    simp only [exprMentions] at h
    refine (emits_expression operand h).andThen ?_
    exact emits_emit (fun _ _ _ => ⟨[.any], σ, rfl, rfl, rfl⟩) (by simp)
  | .binary _ left right _, h, _, σ, _ | .compare _ left right _, h, _, σ, _ => by
    unfold expression
    simp only [exprMentions, Lexical.Mentions.yields_append, Bool.or_eq_true] at h
    refine (emits_expression left fun hy => h (.inl hy)).andThen ?_
    refine (emits_expression right fun hy => h (.inr hy)).andThen ?_
    exact emits_emit (fun _ _ _ => ⟨[.any, .any], σ, rfl, rfl, rfl⟩) (by simp)
  | .boolean op left right _, h, _, σ, π => by
    unfold expression
    simp only [exprMentions, Lexical.Mentions.yields_append, Bool.or_eq_true] at h
    refine (generates_newLabel (.any :: σ)).bind fun stop => ?_
    refine (emits_expression left fun hy => h (.inl hy)).andThen ?_
    refine Generates.andThen (q := ⟨σ, π⟩) ?_ ?_
    · cases op
      · exact emits_branchOrPop (.inl rfl) fun _ _ hk => hk.2
      · exact emits_branchOrPop (.inr rfl) fun _ _ hk => hk.2
    · refine (emits_expression right fun hy => h (.inr hy)).andThen ?_
      exact emits_bindLabel fun _ _ hk => hk.2
  | .conditional test body orelse _, h, known, σ, π => by
    unfold expression
    simp only [exprMentions, Lexical.Mentions.yields_append, Bool.or_eq_true] at h
    refine (generates_newLabel σ).bind fun otherwise => ?_
    refine (generates_newLabel (.any :: σ)).bind fun stop => ?_
    have hotherwise : ((known.and (.aims otherwise σ)).and (.aims stop (.any :: σ))).Gives
        (.aims otherwise σ) := fun _ _ hk => hk.1.2
    have hstop : ((known.and (.aims otherwise σ)).and (.aims stop (.any :: σ))).Gives
        (.aims stop (.any :: σ)) := fun _ _ hk => hk.2
    refine (emits_expression test fun hy => h (.inl (.inl hy))).andThen ?_
    refine (emits_branch (.inl rfl) hotherwise).andThen ?_
    refine (emits_expression body fun hy => h (.inl (.inr hy))).andThen ?_
    refine (emits_jumpTo σ hstop).andThen ?_
    refine (emits_bindLabel hotherwise).andThen ?_
    refine (emits_expression orelse fun hy => h (.inr hy)).andThen ?_
    exact emits_bindLabel hstop
  | .yield value _, h, _, σ, π => by
    unfold expression
    have hyield : mayYield := h (by cases value <;> simp [exprMentions])
    have hemit : ∀ {known : Fact},
        Emits mayYield known (emit .yieldValue) ⟨.any :: σ, π⟩ ⟨.any :: σ, π⟩ := by
      intro known
      refine emits_emit (fun _ _ _ => ?_) fun _ => hyield
      exact ⟨[.any], σ, rfl, rfl, rfl⟩
    cases value with
    | none => exact (emits_constant (κ := .any) trivial (by simp)).andThen hemit
    | some value => exact (emits_expression value fun _ => hyield).andThen hemit
  | .await value _, h, _, σ, _ => by
    unfold expression
    simp only [exprMentions] at h
    refine (emits_expression value h).andThen ?_
    exact emits_emit (fun _ _ _ => ⟨[], _, rfl, rfl, trivial⟩) (by simp)

theorem emits_expressions : (es : List Expr) → ((exprsMentions es).yields = true → mayYield) →
    ∀ {known : Fact} {σ : Kinds} {π : List Scope},
      Emits mayYield known (expressions s es) ⟨σ, π⟩ ⟨anys es.length σ, π⟩
  | [], _, _, _, _ => by
    unfold expressions
    exact .nothing
  | e :: es, h, _, σ, _ => by
    unfold expressions
    simp only [exprsMentions, Lexical.Mentions.yields_append, Bool.or_eq_true] at h
    refine (emits_expression e fun hy => h (.inl hy)).andThen ?_
    rw [List.length_cons, ← anys_add]
    exact emits_expressions es fun hy => h (.inr hy)

theorem emits_entries : (es : List (Expr × Expr)) →
    ((entriesMentions es).yields = true → mayYield) →
    ∀ {known : Fact} {σ : Kinds} {π : List Scope},
      Emits mayYield known (entries s es) ⟨σ, π⟩ ⟨anys (2 * es.length) σ, π⟩
  | [], _, _, _, _ => by
    unfold entries
    exact .nothing
  | (key, value) :: es, h, _, σ, _ => by
    unfold entries
    simp only [entriesMentions, Lexical.Mentions.yields_append, Bool.or_eq_true] at h
    refine (emits_expression key fun hy => h (.inl (.inl hy))).andThen ?_
    refine (emits_expression value fun hy => h (.inl (.inr hy))).andThen ?_
    rw [List.length_cons, Nat.mul_succ, ← anys_add]
    exact emits_entries es fun hy => h (.inr hy)

theorem emits_keywordValues : (ks : List (Name × Expr)) →
    ((keywordsMentions ks).yields = true → mayYield) →
    ∀ {known : Fact} {σ : Kinds} {π : List Scope},
      Emits mayYield known (keywordValues s ks) ⟨σ, π⟩ ⟨anys ks.length σ, π⟩
  | [], _, _, _, _ => by
    unfold keywordValues
    exact .nothing
  | (_, value) :: ks, h, _, σ, _ => by
    unfold keywordValues
    simp only [keywordsMentions, Lexical.Mentions.yields_append, Bool.or_eq_true] at h
    refine (emits_expression value fun hy => h (.inl hy)).andThen ?_
    rw [List.length_cons, ← anys_add]
    exact emits_keywordValues ks fun hy => h (.inr hy)

end

end Lexiscope.Code
