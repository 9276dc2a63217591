import Lexiscope.Proofs.Code.Definitions
import Lexiscope.Proofs.Code.Finishing
import Lexiscope.Proofs.Grammar.Parsed
import Lexiscope.Proofs.Lexical.Sharing
/-!
# The layout of statements

The code of a statement leaves the stack as it was, and takes the scopes of the bodies that are
defined in it. The code of a body, once finished, is sound.
-/

namespace Lexiscope.Code

open Generate
open Grammar (Expr Stmt Params BodyDistinct)
open Lexical (Scope exprMentions exprsMentions stmtMentions bodyMentions stmtBlocks bodyBlocks
  scopeBlocks slotOrder)

section Start

def Sketch.blank : Sketch := ⟨fun _ => [], fun _ => []⟩

theorem start_at (mayYield : Prop) (s : Scope) :
    (Draft.start s).At mayYield .blank ⟨[], s.children⟩ := by
  refine ⟨⟨rfl, ?_, ?_, ?_, ?_, ?_, ?_⟩, rfl, rfl⟩ <;> simp [Draft.start]

theorem foldl_varname (names : List Name) (b : Builder) :
    b.Pooled (names.foldl (fun b n => (b.varname n).2) b) ∧
      (names.foldl (fun b n => (b.varname n).2) b).constants = b.constants := by
  induction names generalizing b with
  | nil => exact ⟨.refl b, rfl⟩
  | cons n names ih =>
    obtain ⟨hpooled, hconstants⟩ := ih (b.varname n).2
    exact ⟨(pooled_varname b n).trans hpooled, hconstants⟩

theorem varnames_foldl {names : List Name} {b : Builder}
    (h : (b.varnames.toList ++ names).Nodup) :
    (names.foldl (fun b n => (b.varname n).2) b).varnames.toList =
      b.varnames.toList ++ names := by
  induction names generalizing b with
  | nil => simp
  | cons n names ih =>
    have hn : n ∉ b.varnames.toList := by
      intro hn
      exact (List.nodup_append.1 h).2.2 n hn n List.mem_cons_self rfl
    have hpush : (b.varname n).2.varnames.toList = b.varnames.toList ++ [n] := by
      have hnone : b.varnames.idxOf? n = none := by simpa using hn
      simp only [Builder.varname, poolName, hnone, Array.toList_push]
    rw [List.foldl_cons, ih, hpush, List.append_assoc, List.singleton_append]
    rw [hpush, List.append_assoc]
    exact h

theorem startFunction_at (mayYield : Prop) (s : Scope) :
    (Draft.startFunction s).At mayYield .blank ⟨[], s.children⟩ := by
  obtain ⟨hdrawn, -, -⟩ := start_at mayYield s
  obtain ⟨hpooled, hconstants⟩ :=
    foldl_varname (s.facts.params ++ s.plainLocals) (Draft.start s).builder
  refine ⟨hpooled.drawn hdrawn fun c hc => ?_, rfl, rfl⟩
  rw [hconstants] at hc
  exact hdrawn.sound c hc

theorem params_le_varnames {s : Scope} (h : s.facts.params.Nodup) :
    s.facts.params.length ≤ (Draft.startFunction s).builder.varnames.size := by
  have hparams := varnames_foldl (b := (Draft.start s).builder) h
  obtain ⟨hpooled, -⟩ := foldl_varname s.plainLocals
    (s.facts.params.foldl (fun b n => (b.varname n).2) (Draft.start s).builder)
  have hslots := hpooled.pools.slots
  rw [← List.foldl_append] at hslots
  refine Nat.le_trans (Nat.le_of_eq ?_) hslots
  exact (congrArg List.length hparams).symm

end Start

section Bodies

variable {mayYield : Prop} {inner : Scope} {body : List Stmt} {draft : Draft} {c : Object}
  {span : Text.Span} {π : List Scope}

/-- The code of a body without parameters is sound, and has the free names of its scope. -/
theorem body_sound (hbody : Emits False .none (block inner [] body) ⟨[], inner.children⟩ ⟨[], π⟩)
    (hrun : block inner [] body (Draft.start inner) = .ok ((), draft)) {object : Object}
    (hobject : object.paramCount = 0) (hfinish : finish draft span object = .ok c) :
    c.Sound ∧ c.freevars = inner.free ∧ c.flags = object.flags := by
  obtain ⟨k, hat, hevolves, -⟩ := hbody hrun (start_at False inner) trivial
  obtain ⟨-, hfree, hflags⟩ := finish_ok hfinish
  exact ⟨finish_sound hat hfinish (by omega) False.elim, hfree.trans hevolves.freevars, hflags⟩

theorem function_sound {name : Name} {params : Params} {isNested : Bool}
    (hbody : Emits (inner.facts.isGenerator = true) .none (block inner [] body)
      ⟨[], inner.children⟩ ⟨[], π⟩)
    (hrun : block inner [] body (Draft.startFunction inner) = .ok ((), draft))
    (hparams : inner.facts.params = slotOrder params) (hdistinct : (slotOrder params).Nodup)
    (hfinish : finish draft span (functionObject inner name params isNested) = .ok c) :
    c.Sound := by
  obtain ⟨k, hat, hevolves, -⟩ := hbody hrun (startFunction_at _ inner) trivial
  refine finish_sound hat hfinish ?_ fun hgenerator => ?_
  · have hslots := params_le_varnames (hparams ▸ hdistinct)
    refine Nat.le_trans ?_ (Nat.le_trans hslots hevolves.pools.slots)
    rw [hparams]
    unfold slotOrder Object.paramCount functionObject functionFlags
    cases params.rest <;> cases params.restKeywords <;> simp [Nat.add_assoc]
  · unfold functionObject functionFlags
    cases inner.facts.isAsync <;> simp [hgenerator]

end Bodies

/-- The innermost loop goes on with the stack, and ends without its iterator. -/
def LoopFits (known : Fact) (loops : List Loop) (σ : Kinds) : Prop :=
  ∀ l ∈ loops.head?, known.Gives (.aims l.head σ) ∧
    ∃ τ, known.Gives (.aims l.exit τ) ∧ σ = if l.hasIterator then .any :: τ else τ

theorem LoopFits.weaken {known known' : Fact} {loops : List Loop} {σ : Kinds}
    (h : LoopFits known loops σ) (hknown : known'.Gives known) : LoopFits known' loops σ := by
  intro l hl
  obtain ⟨hhead, τ, hexit, hσ⟩ := h l hl
  exact ⟨fun b k hk => hhead b k (hknown b k hk), τ, fun b k hk => hexit b k (hknown b k hk), hσ⟩

theorem scopeBlocks_eq_nil {π : List Scope} (h : scopeBlocks π = []) : π = [] := by
  cases π with
  | nil => rfl
  | cons s π => cases h

theorem scopeBlocks_eq_singleton {π : List Scope} {b : Lexical.Block} (h : scopeBlocks π = [b]) :
    ∃ inner, π = [inner] ∧ inner.facts = b.facts ∧ scopeBlocks inner.children = b.children := by
  cases π with
  | nil => cases h
  | cons s π =>
    simp only [scopeBlocks, List.cons.injEq] at h
    obtain rfl := scopeBlocks_eq_nil h.2
    rw [← h.1, Lexical.block_eq]
    exact ⟨_, rfl, rfl, rfl⟩

section Jumps

variable {mayYield : Prop} {known : Fact} {s : Scope} {σ : Kinds} {π : List Scope}

theorem emits_brk {loops : List Loop} (span : Text.Span) (h : LoopFits known loops σ) :
    Emits mayYield known (statement s loops (.brk span)) ⟨σ, π⟩ ⟨σ, π⟩ := by
  unfold statement
  cases loops with
  | nil => exact .fail _ _
  | cons l loops =>
    obtain ⟨-, τ, hexit, hσ⟩ := h l rfl
    dsimp only
    split
    · rename_i hiterator
      rw [if_pos hiterator] at hσ
      refine Generates.andThen (q := ⟨τ, π⟩) ?_ (emits_jumpTo σ hexit)
      exact emits_emit (fun _ _ _ => ⟨[.any], τ, hσ, rfl, rfl⟩) (by simp)
    · rename_i hiterator
      rw [if_neg hiterator] at hσ
      subst hσ
      exact emits_jumpTo σ hexit

theorem emits_cont {loops : List Loop} (span : Text.Span) (h : LoopFits known loops σ) :
    Emits mayYield known (statement s loops (.cont span)) ⟨σ, π⟩ ⟨σ, π⟩ := by
  unfold statement
  cases loops with
  | nil => exact .fail _ _
  | cons l loops => exact emits_jumpTo σ (h l rfl).1

end Jumps

section Definitions

variable {mayYield : Prop} {known : Fact} {s inner : Scope} {loops : List Loop} {σ : Kinds}
  {rest : List Scope}

theorem emits_define {name : Name} {params : Params} {body : List Stmt} {isAsync : Bool}
    {span : Text.Span}
    (h : (Lexical.defaultsMentions (params.positional ++ params.keywordOnly)).yields = true →
      mayYield)
    (hsound : ∀ draft c, block inner [] body (Draft.startFunction inner) = .ok ((), draft) →
      finish draft inner.facts.span (functionObject inner name params
        (s.facts.kind = .functionBody)) = .ok c → c.Sound) :
    Emits mayYield known (statement s loops (.define name params body isAsync span))
      ⟨σ, inner :: rest⟩ ⟨σ, rest⟩ := by
  rw [Lexical.defaultsMentions, List.filterMap_append, Lexical.yields_exprsMentions_append,
    Bool.or_eq_true] at h
  unfold statement
  refine (emits_positionalDefaults fun hy => h (.inl hy)).bind fun defaults => ?_
  refine (emits_keywordDefaults fun hy => h (.inr hy)).bind fun keywords => ?_
  refine (generates_nextScope span).bind fun scope => ?_
  refine (Generates.lift _).bind fun result => ?_
  obtain ⟨⟨⟩, draft⟩ := result
  refine (Generates.lift _).bind fun code => ?_
  refine .assume (P := code.Sound) (fun b k hk => ?_) fun hcode => ?_
  · obtain ⟨⟨⟨-, hscope⟩, hblock⟩, hfinish⟩ := hk
    cases hscope
    exact hsound draft code hblock hfinish
  · exact (emits_makeFunction hcode defaults keywords span).andThen (emits_storeName .any name span)

theorem emits_classDef {name : Name} {bases : List Expr} {body : List Stmt} {span : Text.Span}
    (h : (exprsMentions bases).yields = true → mayYield)
    (hsound : ∀ draft c, block inner [] body (Draft.start inner) = .ok ((), draft) →
      finish draft inner.facts.span { name, qualname := inner.facts.qualname } = .ok c →
      c.Sound) :
    Emits mayYield known (statement s loops (.classDef name bases body span))
      ⟨σ, inner :: rest⟩ ⟨σ, rest⟩ := by
  unfold statement
  refine Generates.andThen (q := ⟨.any :: σ, inner :: rest⟩) ?_ ?_
  · exact emits_emit (fun _ _ _ => ⟨[], σ, rfl, rfl, rfl⟩) (by simp)
  refine (generates_nextScope span).bind fun scope => ?_
  refine (Generates.lift _).bind fun result => ?_
  obtain ⟨⟨⟩, draft⟩ := result
  refine (Generates.lift _).bind fun code => ?_
  refine .assume (P := code.Sound) (fun b k hk => ?_) fun hcode => ?_
  · obtain ⟨⟨⟨-, hscope⟩, hblock⟩, hfinish⟩ := hk
    cases hscope
    exact hsound draft code hblock hfinish
  · refine (emits_makeFunction hcode false false span).andThen ?_
    refine (emits_constant (κ := .any) trivial (by simp)).andThen ?_
    refine (emits_expressions bases h).andThen ?_
    refine Generates.andThen (q := ⟨.any :: σ, rest⟩) ?_ (emits_storeName .any name span)
    rw [anys_one, anys_one, anys_one, anys_add, anys_add, anys_add]
    exact emits_emit (fun _ _ _ => ⟨_, σ, rfl, by simp [Instr.takes]; omega, rfl⟩) (by simp)

end Definitions

mutual

theorem emits_statement : (stmt : Stmt) → {mayYield : Prop} → {s : Scope} →
    ((stmtMentions stmt).yields = true → mayYield) → stmt.Distinct →
    (∀ b ∈ stmtBlocks s.facts stmt, b.YieldsProperly) →
    ∀ {known : Fact} {loops : List Loop} {σ : Kinds} {π rest : List Scope},
      LoopFits known loops σ → scopeBlocks π = stmtBlocks s.facts stmt →
      Emits mayYield known (statement s loops stmt) ⟨σ, π ++ rest⟩ ⟨σ, rest⟩
  | .expr value _, _, _, h, _, _, _, _, σ, π, rest, _, hπ => by
    obtain rfl := scopeBlocks_eq_nil hπ
    unfold statement
    simp only [stmtMentions] at h
    refine (emits_expression value h).andThen ?_
    exact emits_emit (fun _ _ _ => ⟨[.any], σ, rfl, rfl, rfl⟩) (by simp)
  | .assign targets value span, _, _, h, _, _, _, _, σ, π, rest, _, hπ => by
    obtain rfl := scopeBlocks_eq_nil hπ
    unfold statement
    simp only [stmtMentions, Lexical.Mentions.yields_append, Bool.or_eq_true] at h
    refine (emits_expression value fun hy => h (.inl hy)).andThen ?_
    exact emits_storeChain span fun hy => h (.inr hy)
  | .augAssign target op value _, _, _, h, _, _, _, _, σ, π, rest, _, hπ => by
    obtain rfl := scopeBlocks_eq_nil hπ
    unfold statement
    simp only [stmtMentions, Lexical.Mentions.yields_append, Bool.or_eq_true] at h
    exact emits_augmented op value (fun hy => h (.inr hy)) fun hy => h (.inl (.inl hy))
  | .define name params body isAsync span, _, s, h, hdistinct, hproper, _, _, σ, π, rest, _, hπ => by
    obtain ⟨inner, rfl, hfacts, hchildren⟩ := scopeBlocks_eq_singleton hπ
    refine emits_define (fun hy => h ?_) fun draft c hrun hfinish => ?_
    · simpa [stmtMentions] using hy
    · have hblocks : bodyBlocks inner.facts body =
          bodyBlocks (s.facts.ofFunction name params isAsync span) body := by
        rw [hfacts, Lexical.bodyBlocks_after]
      cases hproper _ List.mem_cons_self with
      | mk hgenerator hinner =>
        refine function_sound (π := []) ?_ hrun (by rw [hfacts]; rfl) hdistinct.1 hfinish
        rw [← hblocks] at hinner hchildren
        have hyield : (bodyMentions body).yields = true → inner.facts.isGenerator = true := by
          intro hy
          rw [hfacts]
          simp [Lexical.Facts.after, hy]
        have hbody : Emits (inner.facts.isGenerator = true) .none (block inner [] body)
            ⟨[], inner.children ++ []⟩ ⟨[], []⟩ :=
          emits_block body hyield hdistinct.2 hinner (fun l hl => nomatch hl) hchildren
        rwa [List.append_nil] at hbody
  | .classDef name bases body span, _, s, h, hdistinct, hproper, _, _, σ, π, rest, _, hπ => by
    obtain ⟨inner, rfl, hfacts, hchildren⟩ := scopeBlocks_eq_singleton hπ
    refine emits_classDef (fun hy => h ?_) fun draft c hrun hfinish => ?_
    · simpa [stmtMentions] using hy
    · have hblocks : bodyBlocks inner.facts body =
          bodyBlocks (s.facts.ofClass name span) body := by
        rw [hfacts, Lexical.bodyBlocks_after]
      cases hproper _ List.mem_cons_self with
      | mk hgenerator hinner =>
        refine (body_sound (π := []) ?_ hrun rfl hfinish).1
        rw [← hblocks] at hinner hchildren
        have hyield : (bodyMentions body).yields = true → False := by
          intro hy
          cases hgenerator (by simp [Lexical.Facts.after, hy])
        have hbody : Emits False .none (block inner [] body) ⟨[], inner.children ++ []⟩ ⟨[], []⟩ :=
          emits_block body hyield hdistinct hinner (fun l hl => nomatch hl) hchildren
        rwa [List.append_nil] at hbody
  | .ret value span, mayYield, s, h, _, _, _, _, σ, π, rest, _, hπ => by
    obtain rfl := scopeBlocks_eq_nil hπ
    have hreturn : ∀ {known : Fact},
        Emits mayYield known (emit .returnValue) ⟨.any :: σ, rest⟩ ⟨σ, rest⟩ := by
      intro known
      exact emits_emit (fun _ _ _ => ⟨[.any], σ, rfl, rfl, trivial⟩) (by simp)
    unfold statement
    dsimp only
    split
    · exact .fail _ _
    · cases value with
      | none => exact (emits_constant (κ := .any) trivial (by simp)).andThen hreturn
      | some value => exact (emits_expression value h).andThen hreturn
  | .cond test body orelse _, mayYield, s, h, hdistinct, hproper, known, loops, σ, π, rest, hloops,
    hπ => by
    simp only [stmtMentions, Lexical.Mentions.yields_append, Bool.or_eq_true] at h
    simp only [stmtBlocks, List.forall_mem_append] at hproper
    obtain ⟨π₁, π₂, rfl, h₁, h₂⟩ :=
      Lexical.scopeBlocks_eq_append (by simpa only [stmtBlocks] using hπ)
    rw [List.append_assoc]
    unfold statement
    refine (generates_newLabel σ).bind fun otherwise => ?_
    refine (generates_newLabel σ).bind fun stop => ?_
    have hloops' : LoopFits ((known.and (.aims otherwise σ)).and (.aims stop σ)) loops σ :=
      hloops.weaken fun _ _ hk => hk.1.1
    have hotherwise : ((known.and (.aims otherwise σ)).and (.aims stop σ)).Gives
        (.aims otherwise σ) := fun _ _ hk => hk.1.2
    have hstop : ((known.and (.aims otherwise σ)).and (.aims stop σ)).Gives (.aims stop σ) :=
      fun _ _ hk => hk.2
    have hbody := fun hy => h (.inl (.inr hy))
    have hrest : Emits mayYield ((known.and (.aims otherwise σ)).and (.aims stop σ))
        (bindLabel otherwise >>= fun _ => block s loops orelse >>= fun _ => bindLabel stop)
        ⟨σ, π₂ ++ rest⟩ ⟨σ, rest⟩ := by
      refine (emits_bindLabel hotherwise).andThen ?_
      refine (emits_block orelse (fun hy => h (.inr hy)) hdistinct.2 hproper.2 hloops' h₂).andThen ?_
      exact emits_bindLabel hstop
    refine (emits_expression test fun hy => h (.inl (.inl hy))).andThen ?_
    refine (emits_branch (.inl rfl) hotherwise).andThen ?_
    refine (emits_block body hbody hdistinct.1 hproper.1 hloops' h₁).andThen ?_
    dsimp only
    split
    · exact (emits_jumpTo σ hstop).andThen hrest
    · exact hrest
  | .loop test body _, _, s, h, hdistinct, hproper, known, _, σ, π, rest, _, hπ => by
    simp only [stmtMentions, Lexical.Mentions.yields_append, Bool.or_eq_true] at h
    unfold statement
    refine (generates_newLabel σ).bind fun head => ?_
    refine (generates_newLabel σ).bind fun exit => ?_
    have hhead : ((known.and (.aims head σ)).and (.aims exit σ)).Gives (.aims head σ) :=
      fun _ _ hk => hk.1.2
    have hexit : ((known.and (.aims head σ)).and (.aims exit σ)).Gives (.aims exit σ) :=
      fun _ _ hk => hk.2
    refine (emits_bindLabel hhead).andThen ?_
    refine (emits_expression test fun hy => h (.inl hy)).andThen ?_
    refine (emits_branch (.inl rfl) hexit).andThen ?_
    refine (emits_block body (fun hy => h (.inr hy)) hdistinct hproper ?_ hπ).andThen ?_
    · rintro l ⟨⟩
      exact ⟨hhead, σ, hexit, rfl⟩
    · exact (emits_jumpTo σ hhead).andThen (emits_bindLabel hexit)
  | .each target iter body _, _, s, h, hdistinct, hproper, known, _, σ, π, rest, _, hπ => by
    simp only [stmtMentions, Lexical.Mentions.yields_append, Bool.or_eq_true] at h
    unfold statement
    -- While the loop runs the iterator lies on the stack.
    refine (generates_newLabel (.any :: σ)).bind fun head => ?_
    refine (generates_newLabel σ).bind fun exit => ?_
    have hhead : ((known.and (.aims head (.any :: σ))).and (.aims exit σ)).Gives
        (.aims head (.any :: σ)) := fun _ _ hk => hk.1.2
    have hexit : ((known.and (.aims head (.any :: σ))).and (.aims exit σ)).Gives
        (.aims exit σ) := fun _ _ hk => hk.2
    refine (emits_expression iter fun hy => h (.inl (.inl hy))).andThen ?_
    refine Generates.andThen (q := ⟨.any :: σ, π ++ rest⟩) ?_ ?_
    · exact emits_emit (fun _ _ _ => ⟨[.any], σ, rfl, rfl, rfl⟩) (by simp)
    refine (emits_bindLabel hhead).andThen ?_
    refine Generates.andThen (q := ⟨.any :: .any :: σ, π ++ rest⟩) ?_ ?_
    · exact emits_jump hexit (fun _ => ⟨[.any], σ, rfl, rfl, rfl, rfl⟩) (by simp)
    refine (emits_store target fun hy => h (.inl (.inr hy))).andThen ?_
    refine (emits_block body (fun hy => h (.inr hy)) hdistinct hproper ?_ hπ).andThen ?_
    · rintro l ⟨⟩
      exact ⟨hhead, σ, hexit, rfl⟩
    · exact (emits_jumpTo σ hhead).andThen (emits_bindLabel hexit)
  | .brk span, _, s, h, _, _, _, _, σ, π, rest, hloops, hπ => by
    obtain rfl := scopeBlocks_eq_nil hπ
    exact emits_brk span hloops
  | .cont span, _, s, h, _, _, _, _, σ, π, rest, hloops, hπ => by
    obtain rfl := scopeBlocks_eq_nil hπ
    exact emits_cont span hloops
  | .pass _, _, _, _, _, _, _, _, _, _, _, _, hπ | .global .., _, _, _, _, _, _, _, _, _, _, _, hπ
  | .nonlocal .., _, _, _, _, _, _, _, _, _, _, _, hπ => by
    obtain rfl := scopeBlocks_eq_nil hπ
    unfold statement
    exact .nothing
  | .raise value _, _, _, h, _, _, _, _, σ, π, rest, _, hπ => by
    obtain rfl := scopeBlocks_eq_nil hπ
    unfold statement
    simp only [stmtMentions] at h
    refine (emits_expression value h).andThen ?_
    exact emits_emit (fun _ _ _ => ⟨[.any], σ, rfl, rfl, trivial⟩) (by simp)
  | .assert test message _, mayYield, _, h, _, _, known, _, σ, π, rest, _, hπ => by
    obtain rfl := scopeBlocks_eq_nil hπ
    unfold statement
    simp only [stmtMentions, Lexical.Mentions.yields_append, Bool.or_eq_true] at h
    refine (generates_newLabel σ).bind fun holds => ?_
    have hholds : (known.and (.aims holds σ)).Gives (.aims holds σ) := fun _ _ hk => hk.2
    have hraise : Emits mayYield (known.and (.aims holds σ))
        (emit .raiseAssert >>= fun _ => bindLabel holds) ⟨.any :: σ, rest⟩ ⟨σ, rest⟩ := by
      refine Generates.andThen (q := ⟨σ, rest⟩) ?_ (emits_bindLabel hholds)
      exact emits_emit (fun _ _ _ => ⟨[.any], σ, rfl, rfl, trivial⟩) (by simp)
    refine (emits_expression test fun hy => h (.inl hy)).andThen ?_
    refine (emits_branch (.inr rfl) hholds).andThen ?_
    cases message with
    | none => exact (emits_constant (κ := .any) trivial (by simp)).andThen hraise
    | some message =>
      refine (emits_expression message fun hy => h (.inr ?_)).andThen hraise
      simpa [exprsMentions] using hy

theorem emits_block : (stmts : List Stmt) → {mayYield : Prop} → {s : Scope} →
    ((bodyMentions stmts).yields = true → mayYield) → BodyDistinct stmts →
    (∀ b ∈ bodyBlocks s.facts stmts, b.YieldsProperly) →
    ∀ {known : Fact} {loops : List Loop} {σ : Kinds} {π rest : List Scope},
      LoopFits known loops σ → scopeBlocks π = bodyBlocks s.facts stmts →
      Emits mayYield known (block s loops stmts) ⟨σ, π ++ rest⟩ ⟨σ, rest⟩
  | [], _, _, _, _, _, _, _, _, _, _, _, hπ => by
    obtain rfl := scopeBlocks_eq_nil hπ
    unfold block
    exact .nothing
  | stmt :: stmts, _, _, h, hdistinct, hproper, _, _, _, _, rest, hloops, hπ => by
    unfold block
    simp only [bodyMentions, Lexical.Mentions.yields_append, Bool.or_eq_true] at h
    simp only [bodyBlocks, List.forall_mem_append] at hproper
    obtain ⟨π₁, π₂, rfl, h₁, h₂⟩ := Lexical.scopeBlocks_eq_append (by simpa only [bodyBlocks] using hπ)
    rw [List.append_assoc]
    refine (emits_statement stmt (fun hy => h (.inl hy)) hdistinct.1 hproper.1 hloops h₁).andThen ?_
    exact emits_block stmts (fun hy => h (.inr hy)) hdistinct.2 hproper.2 hloops h₂

end

/-- The code that a source compiles to is sound, and is neither a closure nor a generator. -/
theorem compile_sound {source : String} {body : List Stmt} {name : Name} {c : Object}
    (hparse : Grammar.parse source = .ok body) (hcompile : compile body name = .ok c) :
    c.Sound ∧ c.freevars = [] ∧ c.flags = {} := by
  unfold compile at hcompile
  obtain ⟨scope, hanalyze, hcompile⟩ := Lexical.bind_eq_ok hcompile
  obtain ⟨⟨⟨⟩, draft⟩, hrun, hfinish⟩ := Lexical.bind_eq_ok hcompile
  obtain ⟨hblock, hproper⟩ := Lexical.analyze_ok hanalyze
  rw [hblock] at hproper
  cases hproper with
  | mk hgenerator hinner =>
    obtain ⟨hfacts, hchildren⟩ := Lexical.Block.mk.inj ((Lexical.block_eq scope).symm.trans hblock)
    have hblocks : bodyBlocks scope.facts body = bodyBlocks .ofModule body := by
      rw [hfacts, Lexical.bodyBlocks_after]
    have hyield : (bodyMentions body).yields = true → False := by
      intro hy
      cases hgenerator (by simp [Lexical.Facts.after, hy])
    rw [← hblocks] at hchildren hinner
    have hbody : Emits False .none (block scope [] body) ⟨[], scope.children ++ []⟩ ⟨[], []⟩ :=
      emits_block body hyield (Grammar.parse_distinct hparse) hinner (fun l hl => nomatch hl)
        hchildren
    rw [List.append_nil] at hbody
    obtain ⟨hsound, hfree, hflags⟩ := body_sound hbody hrun rfl hfinish
    exact ⟨hsound, hfree.trans (Lexical.free_of_analyze hanalyze), hflags⟩

end Lexiscope.Code
