import Lexiscope.Proofs.Lexical.Nesting
/-!
# Parameters are local names

A function binds its parameters before its body is read, and no declaration takes them away: a
declaration of a parameter is a fault. So every parameter of a function is one of its local names.
-/

namespace Lexiscope.Lexical

open Grammar (Expr Stmt Param Params)

structure Mentions.Undeclared (m : Mentions) : Prop where
  globals : m.globals = []
  nonlocals : m.nonlocals = []

namespace Mentions.Undeclared

theorem append {a b : Mentions} (ha : a.Undeclared) (hb : b.Undeclared) : (a ++ b).Undeclared :=
  ⟨by simp [ha.globals, hb.globals], by simp [ha.nonlocals, hb.nonlocals]⟩

end Mentions.Undeclared

open Mentions (Undeclared)

mutual

theorem undeclared_expr : (e : Expr) → (exprMentions e).Undeclared
  | .none _ | .ellipsis _ | .bool .. | .int .. | .float .. | .str .. | .name .. => by
    unfold exprMentions
    exact ⟨rfl, rfl⟩
  | .list items _ | .tuple items _ => by
    unfold exprMentions
    exact undeclared_exprs items
  | .dict entries _ => by
    unfold exprMentions
    exact undeclared_entries entries
  | .member value _ _ | .unary _ value _ | .await value _ => by
    unfold exprMentions
    exact undeclared_expr value
  | .subscript left right _ | .binary _ left right _ | .compare _ left right _
  | .boolean _ left right _ => by
    unfold exprMentions
    exact (undeclared_expr left).append (undeclared_expr right)
  | .call callee args keywords _ => by
    unfold exprMentions
    exact ((undeclared_expr callee).append (undeclared_exprs args)).append
      (undeclared_keywords keywords)
  | .conditional test body orelse _ => by
    unfold exprMentions
    exact ((undeclared_expr test).append (undeclared_expr body)).append (undeclared_expr orelse)
  | .yield none _ => by
    unfold exprMentions
    exact ⟨rfl, rfl⟩
  | .yield (some value) _ => by
    unfold exprMentions
    exact Undeclared.append ⟨rfl, rfl⟩ (undeclared_expr value)

theorem undeclared_exprs : (es : List Expr) → (exprsMentions es).Undeclared
  | [] => by
    unfold exprsMentions
    exact ⟨rfl, rfl⟩
  | e :: es => by
    unfold exprsMentions
    exact (undeclared_expr e).append (undeclared_exprs es)

theorem undeclared_entries : (es : List (Expr × Expr)) → (entriesMentions es).Undeclared
  | [] => by
    unfold entriesMentions
    exact ⟨rfl, rfl⟩
  | (key, value) :: es => by
    unfold entriesMentions
    exact ((undeclared_expr key).append (undeclared_expr value)).append (undeclared_entries es)

theorem undeclared_keywords : (es : List (Name × Expr)) → (keywordsMentions es).Undeclared
  | [] => by
    unfold keywordsMentions
    exact ⟨rfl, rfl⟩
  | (_, value) :: es => by
    unfold keywordsMentions
    exact (undeclared_expr value).append (undeclared_keywords es)

end

mutual

theorem undeclared_target : (e : Expr) → (targetMentions e).Undeclared
  | .list items _ | .tuple items _ => by
    unfold targetMentions
    exact undeclared_targets items
  | .member value _ _ => by
    unfold targetMentions
    exact undeclared_expr value
  | .subscript value index _ => by
    unfold targetMentions
    exact (undeclared_expr value).append (undeclared_expr index)
  | .none _ | .ellipsis _ | .bool .. | .int .. | .float .. | .str .. | .name .. | .dict .. | .unary ..
  | .await .. | .binary .. | .compare .. | .boolean .. | .call .. | .conditional .. | .yield .. => by
    unfold targetMentions
    exact ⟨rfl, rfl⟩

theorem undeclared_targets : (es : List Expr) → (targetsMentions es).Undeclared
  | [] => by
    unfold targetsMentions
    exact ⟨rfl, rfl⟩
  | e :: es => by
    unfold targetsMentions
    exact (undeclared_target e).append (undeclared_targets es)

end

/-- The parameters are local names. -/
def Facts.ParamsOwn (f : Facts) : Prop := ∀ n ∈ f.params, n ∈ f.localNames

/-- The parameters are local names in a block and in those inside it. -/
inductive Block.ParamsOwn : Block → Prop where
  | mk {facts : Facts} {children : List Block} : facts.ParamsOwn →
    (∀ b ∈ children, b.ParamsOwn) → Block.ParamsOwn ⟨facts, children⟩

namespace Facts

variable {f g : Facts} {m : Mentions}

theorem ParamsOwn.after (hf : f.ParamsOwn)
    (hm : ∀ n ∈ f.params, n ∉ m.globals ∧ n ∉ m.nonlocals) : (f.after m).ParamsOwn := by
  intro n hn
  obtain ⟨hbound, hglobals, hnonlocals⟩ := mem_localNames.1 (hf n hn)
  obtain ⟨hnewGlobals, hnewNonlocals⟩ := hm n hn
  refine mem_localNames.2 ⟨(mem_foldl_addName _ _).2 (.inl hbound), fun h => ?_, fun h => ?_⟩
  · exact ((mem_foldl_addName _ _).1 h).elim hglobals hnewGlobals
  · exact ((mem_foldl_addName _ _).1 h).elim hnonlocals hnewNonlocals

theorem ParamsOwn.read (hf : f.ParamsOwn) (h : f.Read m g)
    (hm : ∀ n ∈ f.params, n ∉ m.globals ∧ n ∉ m.nonlocals) : g.ParamsOwn := by
  rw [h.facts]
  exact hf.after hm

theorem ParamsOwn.undeclared (hf : f.ParamsOwn) (h : f.Read m g) (hm : m.Undeclared) :
    g.ParamsOwn :=
  hf.read h fun n _ => by simp [hm.globals, hm.nonlocals]

theorem paramsOwn_ofFunction (outer : Facts) (name : Name) (params : Params) (isAsync : Bool)
    (span : Text.Span) : (outer.ofFunction name params isAsync span).ParamsOwn :=
  fun _ hn => mem_localNames.2 ⟨mem_distinctNames.2 hn, List.not_mem_nil, List.not_mem_nil⟩

theorem paramsOwn_of_params_eq_nil (h : f.params = []) : f.ParamsOwn := by
  intro n hn
  rw [h] at hn
  cases hn

end Facts

namespace Block.ParamsOwn

variable {b : Block}

theorem facts (h : b.ParamsOwn) : b.facts.ParamsOwn := by
  cases h
  assumption

theorem children (h : b.ParamsOwn) : ∀ d ∈ b.children, d.ParamsOwn := by
  cases h
  assumption

theorem withFacts {f : Facts} (h : b.ParamsOwn) (hf : f.ParamsOwn) :
    Block.ParamsOwn { b with facts := f } :=
  .mk hf h.children

theorem addChild {f : Facts} {child : Block} (h : b.ParamsOwn) (hf : f.ParamsOwn)
    (hchild : child.ParamsOwn) : Block.ParamsOwn ⟨f, b.children ++ [child]⟩ :=
  .mk hf (List.forall_mem_append.2 ⟨h.children, by simpa using hchild⟩)

end Block.ParamsOwn

mutual

theorem paramsOwn_of_read {b c : Block} :
    {s : Stmt} → b.read s = .ok c → b.ParamsOwn → c.ParamsOwn
  | .expr value _, h, hb | .raise value _, h, hb | .ret (some value) _, h, hb => by
    simp only [Block.read] at h
    obtain ⟨g, hvalue, h⟩ := bind_eq_ok h
    cases h
    exact hb.withFacts (hb.facts.undeclared (useExpr_ok hvalue) (undeclared_expr value))
  | .assign targets value _, h, hb => by
    simp only [Block.read] at h
    obtain ⟨f₁, hvalue, h⟩ := bind_eq_ok h
    obtain ⟨f₂, htargets, h⟩ := bind_eq_ok h
    cases h
    exact hb.withFacts (hb.facts.undeclared ((useExpr_ok hvalue).append (bindTargets_ok htargets))
      ((undeclared_expr value).append (undeclared_targets targets)))
  | .augAssign target _ value _, h, hb => by
    simp only [Block.read] at h
    obtain ⟨f₁, hvalue, h⟩ := bind_eq_ok h
    obtain ⟨f₂, htarget, h⟩ := bind_eq_ok h
    obtain ⟨f₃, hbind, h⟩ := bind_eq_ok h
    cases h
    have hread := ((useExpr_ok hvalue).append (useExpr_ok htarget)).append (bindTarget_ok hbind)
    exact hb.withFacts (hb.facts.undeclared hread
      (((undeclared_expr value).append (undeclared_expr target)).append (undeclared_target target)))
  | .define name params body isAsync span, h, hb => by
    simp only [Block.read] at h
    obtain ⟨f₁, hdefaults, h⟩ := bind_eq_ok h
    obtain ⟨child, hchild, h⟩ := bind_eq_ok h
    cases h
    have hf := hb.facts.undeclared ((useExprs_ok hdefaults).append (read_name f₁ name))
      ((undeclared_exprs _).append ⟨rfl, rfl⟩)
    refine hb.addChild hf (paramsOwn_of_readAll hchild (.mk ?_ (by simp)))
    exact Facts.paramsOwn_ofFunction _ name params isAsync span
  | .classDef name bases body span, h, hb => by
    simp only [Block.read] at h
    obtain ⟨f₁, hbases, h⟩ := bind_eq_ok h
    obtain ⟨child, hchild, h⟩ := bind_eq_ok h
    cases h
    have hf := hb.facts.undeclared ((useExprs_ok hbases).append (read_name f₁ name))
      ((undeclared_exprs _).append ⟨rfl, rfl⟩)
    refine hb.addChild hf (paramsOwn_of_readAll hchild (.mk ?_ (by simp)))
    exact Facts.paramsOwn_of_params_eq_nil rfl
  | .cond test body orelse _, h, hb => by
    simp only [Block.read] at h
    obtain ⟨f₁, htest, h⟩ := bind_eq_ok h
    obtain ⟨b₂, hbody, h⟩ := bind_eq_ok h
    have htested := hb.withFacts (hb.facts.undeclared (useExpr_ok htest) (undeclared_expr test))
    exact paramsOwn_of_readAll h (paramsOwn_of_readAll hbody htested)
  | .loop test body _, h, hb => by
    simp only [Block.read] at h
    obtain ⟨f₁, htest, h⟩ := bind_eq_ok h
    refine paramsOwn_of_readAll h (hb.withFacts ?_)
    exact hb.facts.undeclared (useExpr_ok htest) (undeclared_expr test)
  | .each target iter body _, h, hb => by
    simp only [Block.read] at h
    obtain ⟨f₁, hiter, h⟩ := bind_eq_ok h
    obtain ⟨f₂, htarget, h⟩ := bind_eq_ok h
    refine paramsOwn_of_readAll h (hb.withFacts ?_)
    exact hb.facts.undeclared ((useExpr_ok hiter).append (bindTarget_ok htarget))
      ((undeclared_expr iter).append (undeclared_target target))
  | .global names span, h, hb => by
    simp only [Block.read] at h
    obtain ⟨g, hnames, h⟩ := bind_eq_ok h
    cases h
    obtain ⟨hread, hother⟩ := declareGlobal_ok hnames
    refine hb.withFacts (hb.facts.read hread fun n hn => ⟨fun hmem => ?_, List.not_mem_nil⟩)
    exact (hother n hmem).1 hn
  | .nonlocal names span, h, hb => by
    simp only [Block.read] at h
    split at h
    · cases h
    · obtain ⟨g, hnames, h⟩ := bind_eq_ok h
      cases h
      obtain ⟨hread, hother⟩ := declareNonlocal_ok hnames
      refine hb.withFacts (hb.facts.read hread fun n hn => ⟨List.not_mem_nil, fun hmem => ?_⟩)
      exact (hother n hmem).1 hn
  | .assert test message _, h, hb => by
    simp only [Block.read] at h
    obtain ⟨f₁, htest, h⟩ := bind_eq_ok h
    obtain ⟨f₂, hmessage, h⟩ := bind_eq_ok h
    cases h
    exact hb.withFacts (hb.facts.undeclared ((useExpr_ok htest).append (useExprs_ok hmessage))
      ((undeclared_expr test).append (undeclared_exprs _)))
  | .brk _, h, hb | .cont _, h, hb | .pass _, h, hb | .ret none _, h, hb => by
    simp only [Block.read] at h
    cases h
    exact hb

theorem paramsOwn_of_readAll {b c : Block} :
    {ss : List Stmt} → b.readAll ss = .ok c → b.ParamsOwn → c.ParamsOwn
  | [], h, hb => by
    simp only [Block.readAll] at h
    cases h
    exact hb
  | s :: ss, h, hb => by
    simp only [Block.readAll] at h
    obtain ⟨b₁, hs, h⟩ := bind_eq_ok h
    exact paramsOwn_of_readAll h (paramsOwn_of_read hs hb)

end

section Nesting

variable {body : List Stmt} {root s : Scope} {outer : List Scope}

theorem paramsOwn_of_analyze (h : analyze body = .ok root) : root.block.ParamsOwn := by
  obtain ⟨b, hb, hroot⟩ := bind_eq_ok h
  rw [block_of_resolve hroot]
  exact paramsOwn_of_readAll hb (.mk (Facts.paramsOwn_of_params_eq_nil rfl) (by simp))

theorem block_mem_scopeBlocks {ss : List Scope} (h : s ∈ ss) : s.block ∈ scopeBlocks ss := by
  induction ss with
  | nil => cases h
  | cons t ss ih =>
    rw [scopeBlocks]
    rcases List.mem_cons.1 h with rfl | h
    · exact List.mem_cons_self
    · exact List.mem_cons_of_mem _ (ih h)

theorem Nested.paramsOwn_block (h : analyze body = .ok root) (hn : Nested root (s :: outer)) :
    s.block.ParamsOwn := by
  generalize hscopes : s :: outer = scopes at hn
  induction hn generalizing s outer with
  | root =>
    cases hscopes
    exact paramsOwn_of_analyze h
  | @inner s t outer _ hs ih =>
    cases hscopes
    have ht := ih rfl
    rw [block_eq] at ht
    exact ht.children _ (block_mem_scopeBlocks hs)

theorem Nested.mem_localNames_of_param (h : analyze body = .ok root)
    (hn : Nested root (s :: outer)) {n : Name} (hparam : n ∈ s.facts.params) :
    n ∈ s.facts.localNames := by
  have hown := hn.paramsOwn_block h
  rw [block_eq] at hown
  exact hown.facts n hparam

end Nesting

end Lexiscope.Lexical
