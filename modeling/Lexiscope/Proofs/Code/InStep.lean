import Lexiscope.Proofs.Code.Proceeding
import Lexiscope.Proofs.Code.Statements
/-!
# Analysis and generation stay in step

The bodies of a module are read once to resolve names, and walked again to generate code. Both walks
come to the definitions in the same order, so each of them takes the scope that was made of it, and
both agree on where names live. So compiling a module that was read hits no guard.
-/

namespace Lexiscope.Code

open Generate
open Grammar (Expr Stmt Params BodyAssignable)
open Lexical (Scope Nested Blames stmtMentions bodyMentions stmtBlocks bodyBlocks scopeBlocks)

section Bodies

variable {s : Scope} {π : List Scope} {bound : List Label}

theorem ready_startFunction (s : Scope) : (Draft.startFunction s).Ready s s.children [] [] := by
  obtain ⟨hpooled, -⟩ := foldl_varname (s.facts.params ++ s.plainLocals) (Draft.start s).builder
  exact (ready_start s).same hpooled.cellvars hpooled.freevars hpooled.labels hpooled.jumps

theorem finish_ready {d : Draft} (h : d.Ready s π [] bound) (span : Text.Span) (object : Object) :
    ∃ c, finish d span object = .ok c ∧ c.freevars = s.free := by
  have hlast : Draft.Ready s π [] bound
      { d with builder := (d.builder.emitConst .none).emit .returnValue } := by
    obtain ⟨hpooled, -, -⟩ := constant_spec d.builder .none
    exact h.same hpooled.cellvars hpooled.freevars hpooled.labels hpooled.jumps
  obtain ⟨code, hcode⟩ := patched_of_bound fun j hj => (hlast.jumps j hj).resolve_left (by simp)
  unfold finish
  dsimp only at hcode ⊢
  rw [hcode]
  exact ⟨_, rfl, hlast.freevars⟩

end Bodies

/-- The labels of the loops around a statement were made. -/
def LoopsMade (loops : List Loop) (aims : List Label) : Prop :=
  ∀ l ∈ loops, l.head ∈ aims ∧ l.exit ∈ aims

theorem loopsMade_nil (aims : List Label) : LoopsMade [] aims := fun _ h => nomatch h

theorem LoopsMade.mono {loops : List Loop} {aims : List Label} (h : LoopsMade loops aims)
    (l m : Label) : LoopsMade loops (l :: m :: aims) := by
  have hsub : ∀ {k}, k ∈ aims → k ∈ l :: m :: aims :=
    fun hk => List.mem_cons_of_mem l (List.mem_cons_of_mem m hk)
  exact fun k hk => ⟨hsub (h k hk).1, hsub (h k hk).2⟩

theorem LoopsMade.push {loops : List Loop} {aims : List Label} (h : LoopsMade loops aims)
    (l : Loop) : LoopsMade (l :: loops) (l.exit :: l.head :: aims) :=
  List.forall_mem_cons.2 ⟨⟨by simp, by simp⟩, h.mono l.exit l.head⟩

section Points

/-- The code of an alternative up to its first branch, with the labels of the other branch and of
the end. -/
def branching (s : Scope) (test : Expr) : Generate (Label × Label) := do
  let otherwise ← newLabel
  let stop ← newLabel
  expression s test
  emitJump .jumpIfFalse otherwise
  return (otherwise, stop)

def betweenBranches (orelse : List Stmt) (otherwise stop : Label) : Generate Unit := do
  if !orelse.isEmpty then emitJump .jump stop
  bindLabel otherwise

def whileHead (s : Scope) (test : Expr) : Generate Loop := do
  let head ← newLabel
  let exit ← newLabel
  bindLabel head
  expression s test
  emitJump .jumpIfFalse exit
  return ⟨head, exit, false⟩

def forHead (s : Scope) (target iter : Expr) : Generate Loop := do
  let head ← newLabel
  let exit ← newLabel
  expression s iter
  emit .getIter
  bindLabel head
  emitJump .forIter exit
  store s target
  return ⟨head, exit, true⟩

/-- The code of a function definition up to where it takes the scope of its body, with whether there
are defaults. -/
def functionHead (s : Scope) (params : Params) (span : Text.Span) :
    Generate (Bool × Bool × Scope) := do
  let hasDefaults ← positionalDefaults s params.positional
  let hasKeywordDefaults ← keywordDefaults s params.keywordOnly
  let inner ← nextScope span
  return (hasDefaults, hasKeywordDefaults, inner)

/-- The code of a class definition up to where it takes the scope of its body. -/
def classHead (span : Text.Span) : Generate Scope := do
  emit .loadBuildClass
  nextScope span

variable {s : Scope} {loops : List Loop} {π : List Scope} {aims bound : List Label}

theorem statement_cond (test : Expr) (body orelse : List Stmt) (span : Text.Span) :
    statement s loops (.cond test body orelse span) = (do
      let (otherwise, stop) ← branching s test
      block s loops body
      betweenBranches orelse otherwise stop
      block s loops orelse
      bindLabel stop) := by
  unfold statement branching betweenBranches
  cases orelse <;> simp [bind_assoc]

theorem statement_loop (test : Expr) (body : List Stmt) (span : Text.Span) :
    statement s loops (.loop test body span) = (do
      let l ← whileHead s test
      block s (l :: loops) body
      emitJump .jump l.head
      bindLabel l.exit) := by
  unfold statement whileHead
  simp only [bind_assoc, pure_bind]

theorem statement_each (target iter : Expr) (body : List Stmt) (span : Text.Span) :
    statement s loops (.each target iter body span) = (do
      let l ← forHead s target iter
      block s (l :: loops) body
      emitJump .jump l.head
      bindLabel l.exit) := by
  unfold statement forHead
  simp only [bind_assoc, pure_bind]

theorem statement_define (name : Name) (params : Params) (body : List Stmt) (isAsync : Bool)
    (span : Text.Span) :
    statement s loops (.define name params body isAsync span) = (do
      let (hasDefaults, hasKeywordDefaults, inner) ← functionHead s params span
      let (_, draft) ← block inner [] body (Draft.startFunction inner)
      let object := functionObject inner name params (s.facts.kind = .functionBody)
      let code ← finish draft inner.facts.span object
      makeFunction code hasDefaults hasKeywordDefaults span
      storeName s name span) := by
  unfold statement functionHead
  simp only [bind_assoc, pure_bind]

theorem statement_classDef (name : Name) (bases : List Expr) (body : List Stmt)
    (span : Text.Span) :
    statement s loops (.classDef name bases body span) = (do
      let inner ← classHead span
      let (_, draft) ← block inner [] body (Draft.start inner)
      let code ← finish draft inner.facts.span { name, qualname := inner.facts.qualname }
      makeFunction code false false span
      emitConst (.str name)
      expressions s bases
      emit (.call (2 + bases.length))
      storeName s name span) := by
  unfold statement classHead
  simp only [bind_assoc]

theorem proceeds_branching (hs : s.Celled) (test : Expr) :
    Proceeds (Draft.Ready s π aims bound) (branching s test) fun r =>
      Draft.Ready s π (r.2 :: r.1 :: aims) bound := by
  unfold branching
  refine proceeds_newLabel.bind fun otherwise => proceeds_newLabel.bind fun stop => ?_
  refine (adds_expression hs test).before ?_
  exact (proceeds_emitJump _ (by simp)).bind fun _ => .pure fun _ h => h

theorem proceeds_betweenBranches (orelse : List Stmt) {otherwise stop : Label}
    (hotherwise : otherwise ∈ aims) (hstop : stop ∈ aims) :
    Proceeds (Draft.Ready s π aims bound) (betweenBranches orelse otherwise stop) fun _ =>
      Draft.Ready s π aims (otherwise :: bound) := by
  unfold betweenBranches
  dsimp only
  split
  · exact (proceeds_emitJump _ hstop).bind fun _ => proceeds_bindLabel hotherwise
  · exact proceeds_bindLabel hotherwise

theorem proceeds_whileHead (hs : s.Celled) (test : Expr) :
    Proceeds (Draft.Ready s π aims bound) (whileHead s test) fun l =>
      Draft.Ready s π (l.exit :: l.head :: aims) (l.head :: bound) := by
  unfold whileHead
  refine proceeds_newLabel.bind fun head => proceeds_newLabel.bind fun exit => ?_
  refine (proceeds_bindLabel (by simp)).bind fun _ => (adds_expression hs test).before ?_
  exact (proceeds_emitJump _ List.mem_cons_self).bind fun _ => .pure fun _ h => h

theorem proceeds_forHead (hs : s.Celled) {target : Expr} (iter : Expr)
    (htarget : target.unassignable? true = none)
    (hbound : ∀ n ∈ (Lexical.targetMentions target).bound, n ∈ s.facts.bound) :
    Proceeds (Draft.Ready s π aims bound) (forHead s target iter) fun l =>
      Draft.Ready s π (l.exit :: l.head :: aims) (l.head :: bound) := by
  unfold forHead
  refine proceeds_newLabel.bind fun head => proceeds_newLabel.bind fun exit => ?_
  refine (adds_expression hs iter).before ((adds_emit _).before ?_)
  refine (proceeds_bindLabel (by simp)).bind fun _ => ?_
  refine (proceeds_emitJump _ List.mem_cons_self).bind fun _ => ?_
  exact (adds_store hs target htarget hbound).before (.pure fun _ h => h)

theorem proceeds_loopEnd {l : Loop} :
    Proceeds (Draft.Ready s π (l.exit :: l.head :: aims) (l.head :: bound))
      (do emitJump .jump l.head; bindLabel l.exit) fun _ => Draft.Ready s π aims bound := by
  refine (proceeds_emitJump _ (by simp)).bind fun _ => ?_
  exact (proceeds_bindLabel List.mem_cons_self).weaken fun _ _ h => h.closeBoth

theorem proceeds_functionHead (hs : s.Celled) (params : Params) (span : Text.Span)
    {inner : Scope} :
    Proceeds (Draft.Ready s (inner :: π) aims bound) (functionHead s params span) fun r d =>
      d.Ready s π aims bound ∧ r.2.2 = inner := by
  unfold functionHead
  refine (proceeds_positionalDefaults hs _).bind fun defaults => ?_
  refine (proceeds_keywordDefaults hs _).bind fun keywords => ?_
  exact (proceeds_nextScope span).bind fun scope => .pure fun _ h => h

theorem proceeds_classHead (span : Text.Span) {inner : Scope} :
    Proceeds (Draft.Ready s (inner :: π) aims bound) (classHead span) fun t d =>
      d.Ready s π aims bound ∧ t = inner :=
  (adds_emit _).before (proceeds_nextScope span)

end Points

section Definitions

variable {module : List Stmt} {root s inner : Scope} {outer : List Scope} {rest : List Scope}
  {aims bound : List Label} {loops : List Loop} {body : List Stmt} {name : Name} {span : Text.Span}

theorem proceeds_body {α : Type} {P : Draft → Prop} {Q : α → Draft → Prop} {start : Draft}
    {place : Text.Span} {object : Object} {f : Object → Generate α}
    (hstart : start.Ready inner inner.children [] [])
    (hbody : Proceeds (Draft.Ready inner inner.children [] []) (block inner [] body) fun _ =>
      Draft.Ready inner [] [] [])
    (hf : ∀ code, code.freevars = inner.free → Proceeds P (f code) Q) :
    Proceeds P (do
      let (_, draft) ← block inner [] body start
      let code ← finish draft place object
      f code) Q := by
  refine (Proceeds.lift (hbody.blames hstart)).bind fun result => .assume fun hresult => ?_
  obtain ⟨⟨⟩, draft⟩ := result
  have hdraft : draft.Ready inner [] [] [] := hbody.after hstart hresult
  obtain ⟨code, hcode, hfree⟩ := finish_ready hdraft place object
  dsimp only
  rw [hcode]
  exact (Proceeds.lift (.ok code)).bind fun code' => .assume fun hcode' => by
    cases hcode'
    exact hf code hfree

theorem proceeds_define (hs : s.Celled) {params : Params} {isAsync : Bool}
    (hname : name ∈ s.facts.bound) (hfree : ∀ n ∈ inner.free, n ∈ s.cells ++ s.free)
    (hbody : Proceeds (Draft.Ready inner inner.children [] []) (block inner [] body) fun _ =>
      Draft.Ready inner [] [] []) :
    Proceeds (Draft.Ready s (inner :: rest) aims bound)
      (statement s loops (.define name params body isAsync span)) fun _ =>
        Draft.Ready s rest aims bound := by
  rw [statement_define]
  refine (proceeds_functionHead hs params span).bind fun (defaults, keywords, scope) => ?_
  refine .assume fun hscope => ?_
  subst hscope
  refine proceeds_body (ready_startFunction scope) hbody fun code hcode => ?_
  refine (adds_makeFunction ?_ defaults keywords span).before ?_
  · rw [hcode]
    exact hfree
  · exact adds_storeName hs span hname rest aims bound

theorem proceeds_classDef (hs : s.Celled) {bases : List Expr}
    (hname : name ∈ s.facts.bound) (hfree : ∀ n ∈ inner.free, n ∈ s.cells ++ s.free)
    (hbody : Proceeds (Draft.Ready inner inner.children [] []) (block inner [] body) fun _ =>
      Draft.Ready inner [] [] []) :
    Proceeds (Draft.Ready s (inner :: rest) aims bound)
      (statement s loops (.classDef name bases body span)) fun _ =>
        Draft.Ready s rest aims bound := by
  rw [statement_classDef]
  refine (proceeds_classHead span).bind fun scope => .assume fun hscope => ?_
  subst hscope
  refine proceeds_body (ready_start scope) hbody fun code hcode => ?_
  refine (adds_makeFunction ?_ false false span).before ?_
  · rw [hcode]
    exact hfree
  · refine (adds_emitConst _).before ((adds_expressions hs bases).before ?_)
    exact (adds_emit _).before (adds_storeName hs span hname rest aims bound)

end Definitions

section Walk

variable {module : List Stmt} {root : Scope}

/-- The names that the mentions of a part of a body bind are bound in the body. -/
def BoundIn (m : Lexical.Mentions) (s : Scope) : Prop := ∀ n ∈ m.bound, n ∈ s.facts.bound

theorem BoundIn.left {m m' : Lexical.Mentions} {s : Scope} (h : BoundIn (m ++ m') s) :
    BoundIn m s :=
  fun n hn => h n (List.mem_append_left _ hn)

theorem BoundIn.right {m m' : Lexical.Mentions} {s : Scope} (h : BoundIn (m ++ m') s) :
    BoundIn m' s :=
  fun n hn => h n (List.mem_append_right _ hn)

theorem boundIn_of_facts {s : Scope} {f : Lexical.Facts} {m : Lexical.Mentions}
    (h : s.facts = f.after m) : BoundIn m s := by
  intro n hn
  rw [h]
  exact (mem_foldl_addName _ _).2 (.inr hn)

mutual

theorem proceeds_statement (h : Lexical.analyze module = .ok root) : (stmt : Stmt) →
    stmt.Assignable → ∀ {s : Scope} {outer : List Scope}, Nested root (s :: outer) →
    BoundIn (stmtMentions stmt) s →
    ∀ {loops : List Loop} {π rest : List Scope} {aims bound : List Label}, LoopsMade loops aims →
      π ⊆ s.children → scopeBlocks π = stmtBlocks s.facts stmt →
      Proceeds (Draft.Ready s (π ++ rest) aims bound) (statement s loops stmt) fun _ =>
        Draft.Ready s rest aims bound
  | .expr value _, _, _, _, hn, _, _, _, _, _, _, _, _, hπ => by
    obtain rfl := scopeBlocks_eq_nil hπ
    unfold statement
    exact (adds_expression (hn.celled h) value).before (adds_emit _ _ _ _)
  | .assign targets value span, ha, _, _, hn, hb, _, _, _, _, _, _, _, hπ => by
    obtain rfl := scopeBlocks_eq_nil hπ
    unfold statement
    refine (adds_expression (hn.celled h) value).before ?_
    exact adds_storeChain (hn.celled h) span ha.1 ha.2 hb.right _ _ _
  | .augAssign target op value _, ha, _, _, hn, hb, _, _, _, _, _, _, _, hπ => by
    obtain rfl := scopeBlocks_eq_nil hπ
    unfold statement
    exact adds_augmented (hn.celled h) op value ha hb.right _ _ _
  | .define name params body isAsync span, ha, s, _, hn, hb, _, _, _, _, _, _, hsub, hπ => by
    obtain ⟨inner, rfl, hfacts, hchildren⟩ := scopeBlocks_eq_singleton hπ
    have hmem : inner ∈ s.children := hsub List.mem_cons_self
    -- The scope that is taken was made for this very body.
    have hblocks : scopeBlocks inner.children = bodyBlocks inner.facts body := by
      rw [hchildren, hfacts, Lexical.bodyBlocks_after]
    have hbody : Proceeds (Draft.Ready inner (inner.children ++ []) [] []) (block inner [] body)
        fun _ => Draft.Ready inner [] [] [] :=
      proceeds_block h body ha (hn.inner hmem) (boundIn_of_facts hfacts) (loopsMade_nil [])
        (List.Subset.refl _) hblocks
    rw [List.append_nil] at hbody
    exact proceeds_define (hn.celled h) (hb.right name List.mem_cons_self)
      (fun n hfree => hn.provides h hmem hfree) hbody
  | .classDef name bases body span, ha, s, _, hn, hb, _, _, _, _, _, _, hsub, hπ => by
    obtain ⟨inner, rfl, hfacts, hchildren⟩ := scopeBlocks_eq_singleton hπ
    have hmem : inner ∈ s.children := hsub List.mem_cons_self
    have hblocks : scopeBlocks inner.children = bodyBlocks inner.facts body := by
      rw [hchildren, hfacts, Lexical.bodyBlocks_after]
    have hbody : Proceeds (Draft.Ready inner (inner.children ++ []) [] []) (block inner [] body)
        fun _ => Draft.Ready inner [] [] [] :=
      proceeds_block h body ha (hn.inner hmem) (boundIn_of_facts hfacts) (loopsMade_nil [])
        (List.Subset.refl _) hblocks
    rw [List.append_nil] at hbody
    exact proceeds_classDef (hn.celled h) (hb.right name List.mem_cons_self)
      (fun n hfree => hn.provides h hmem hfree) hbody
  | .ret value span, _, _, _, hn, _, _, _, _, _, _, _, _, hπ => by
    obtain rfl := scopeBlocks_eq_nil hπ
    unfold statement
    dsimp only
    split
    · exact .fail trivial
    · cases value with
      | none => exact (adds_emitConst _).before (adds_emit _ _ _ _)
      | some value => exact (adds_expression (hn.celled h) value).before (adds_emit _ _ _ _)
  | .cond test body orelse _, ha, _, _, hn, hb, _, _, rest, _, _, hloops, hsub, hπ => by
    obtain ⟨π₁, π₂, rfl, h₁, h₂⟩ :=
      Lexical.scopeBlocks_eq_append (by simpa only [stmtBlocks] using hπ)
    obtain ⟨hsub₁, hsub₂⟩ := List.append_subset.1 hsub
    rw [List.append_assoc, statement_cond]
    refine (proceeds_branching (hn.celled h) test).bind fun (otherwise, stop) => ?_
    have hloops' := hloops.mono stop otherwise
    refine (proceeds_block h body ha.1 hn hb.left.right hloops' hsub₁ h₁).bind fun _ => ?_
    refine (proceeds_betweenBranches orelse (by simp) List.mem_cons_self).bind fun _ => ?_
    refine (proceeds_block h orelse ha.2 hn hb.right hloops' hsub₂ h₂).bind fun _ => ?_
    exact (proceeds_bindLabel List.mem_cons_self).weaken fun _ _ h => h.closeBoth
  | .loop test body _, ha, _, _, hn, hb, _, _, _, _, _, hloops, hsub, hπ => by
    rw [statement_loop]
    refine (proceeds_whileHead (hn.celled h) test).bind fun l => ?_
    refine (proceeds_block h body ha hn hb.right (hloops.push l) hsub hπ).bind fun _ => ?_
    exact proceeds_loopEnd
  | .each target iter body _, ha, _, _, hn, hb, _, _, _, _, _, hloops, hsub, hπ => by
    rw [statement_each]
    refine (proceeds_forHead (hn.celled h) iter ha.1 hb.left.right).bind fun l => ?_
    refine (proceeds_block h body ha.2 hn hb.right (hloops.push l) hsub hπ).bind fun _ => ?_
    exact proceeds_loopEnd
  | .brk span, _, _, _, _, _, loops, _, _, _, _, hloops, _, hπ => by
    obtain rfl := scopeBlocks_eq_nil hπ
    unfold statement
    cases loops with
    | nil => exact .fail trivial
    | cons l loops =>
      have hexit := (hloops l List.mem_cons_self).2
      dsimp only
      split
      · exact (adds_emit _).before (proceeds_emitJump _ hexit)
      · exact proceeds_emitJump _ hexit
  | .cont span, _, _, _, _, _, loops, _, _, _, _, hloops, _, hπ => by
    obtain rfl := scopeBlocks_eq_nil hπ
    unfold statement
    cases loops with
    | nil => exact .fail trivial
    | cons l loops => exact proceeds_emitJump _ (hloops l List.mem_cons_self).1
  | .pass _, _, _, _, _, _, _, _, _, _, _, _, _, hπ
  | .global .., _, _, _, _, _, _, _, _, _, _, _, _, hπ
  | .nonlocal .., _, _, _, _, _, _, _, _, _, _, _, _, hπ => by
    obtain rfl := scopeBlocks_eq_nil hπ
    unfold statement
    exact adds_nothing _ _ _
  | .raise value _, _, _, _, hn, _, _, _, _, _, _, _, _, hπ => by
    obtain rfl := scopeBlocks_eq_nil hπ
    unfold statement
    exact (adds_expression (hn.celled h) value).before (adds_emit _ _ _ _)
  | .assert test message _, _, _, _, hn, _, _, _, _, _, _, _, _, hπ => by
    obtain rfl := scopeBlocks_eq_nil hπ
    unfold statement
    refine proceeds_labelled fun holds => ?_
    refine (adds_expression (hn.celled h) test).before ?_
    refine (proceeds_emitJump _ List.mem_cons_self).bind fun _ => ?_
    cases message with
    | none =>
      refine (adds_emitConst _).before ((adds_emit _).before ?_)
      exact proceeds_bindLabel List.mem_cons_self
    | some message =>
      refine (adds_expression (hn.celled h) message).before ((adds_emit _).before ?_)
      exact proceeds_bindLabel List.mem_cons_self

theorem proceeds_block (h : Lexical.analyze module = .ok root) : (stmts : List Stmt) →
    BodyAssignable stmts → ∀ {s : Scope} {outer : List Scope}, Nested root (s :: outer) →
    BoundIn (bodyMentions stmts) s →
    ∀ {loops : List Loop} {π rest : List Scope} {aims bound : List Label}, LoopsMade loops aims →
      π ⊆ s.children → scopeBlocks π = bodyBlocks s.facts stmts →
      Proceeds (Draft.Ready s (π ++ rest) aims bound) (block s loops stmts) fun _ =>
        Draft.Ready s rest aims bound
  | [], _, _, _, _, _, _, _, _, _, _, _, _, hπ => by
    obtain rfl := scopeBlocks_eq_nil hπ
    unfold block
    exact adds_nothing _ _ _
  | stmt :: stmts, ha, _, _, hn, hb, _, _, rest, _, _, hloops, hsub, hπ => by
    unfold block
    obtain ⟨π₁, π₂, rfl, h₁, h₂⟩ :=
      Lexical.scopeBlocks_eq_append (by simpa only [bodyBlocks] using hπ)
    obtain ⟨hsub₁, hsub₂⟩ := List.append_subset.1 hsub
    rw [List.append_assoc]
    refine (proceeds_statement h stmt ha.1 hn hb.left hloops hsub₁ h₁).bind fun _ => ?_
    exact proceeds_block h stmts ha.2 hn hb.right hloops hsub₂ h₂

end

end Walk

/-- Generating the statements of a body from a draft comes to a statement among them, which may be
in a branch or in a loop, with another draft. -/
inductive Comes (s : Scope) : List Loop → List Stmt → Draft → Stmt → Draft → Prop where
  | here {loops stmt stmts d} : Comes s loops (stmt :: stmts) d stmt d
  | next {loops stmt stmts d d₁ t e} : statement s loops stmt d = .ok ((), d₁) →
    Comes s loops stmts d₁ t e → Comes s loops (stmt :: stmts) d t e
  | body {loops test body orelse span stmts d labels d₁ t e} :
    branching s test d = .ok (labels, d₁) → Comes s loops body d₁ t e →
    Comes s loops (.cond test body orelse span :: stmts) d t e
  | orelse {loops test body orelse span stmts d labels d₁ d₂ d₃ t e} :
    branching s test d = .ok (labels, d₁) → block s loops body d₁ = .ok ((), d₂) →
    betweenBranches orelse labels.1 labels.2 d₂ = .ok ((), d₃) → Comes s loops orelse d₃ t e →
    Comes s loops (.cond test body orelse span :: stmts) d t e
  | loop {loops test body span stmts d l d₁ t e} : whileHead s test d = .ok (l, d₁) →
    Comes s (l :: loops) body d₁ t e → Comes s loops (.loop test body span :: stmts) d t e
  | each {loops target iter body span stmts d l d₁ t e} : forHead s target iter d = .ok (l, d₁) →
    Comes s (l :: loops) body d₁ t e → Comes s loops (.each target iter body span :: stmts) d t e

/-- A definition that generation has come to takes a scope, with which the code of its body is
generated from a new draft. -/
inductive Opens (s : Scope) : Stmt → Draft → Scope → List Stmt → Draft → Prop where
  | define {name params body isAsync span d defaults keywords inner e} :
    functionHead s params span d = .ok ((defaults, keywords, inner), e) →
    Opens s (.define name params body isAsync span) d inner body (Draft.startFunction inner)
  | classDef {name bases body span d inner e} : classHead span d = .ok (inner, e) →
    Opens s (.classDef name bases body span) d inner body (Draft.start inner)

/-- Compiling a module comes to generating the code of a body, with its scope and the draft before
its first instruction. -/
inductive Enters (module : List Stmt) : Scope → List Stmt → Draft → Prop where
  | module {root} : Lexical.analyze module = .ok root →
    Enters module root module (Draft.start root)
  | inner {s stmts start stmt d inner body start'} : Enters module s stmts start →
    Comes s [] stmts start stmt d → Opens s stmt d inner body start' →
    Enters module inner body start'

section Consumption

variable {module : List Stmt} {root s : Scope} {outer : List Scope}

/-- What is known of a statement when generation comes to it: the scopes of the definitions in it
are the next ones in wait. -/
structure Awaited (s : Scope) (stmt : Stmt) (d : Draft) : Prop where
  assignable : stmt.Assignable
  boundIn : BoundIn (stmtMentions stmt) s
  pending : ∃ π rest aims bound, d.Ready s (π ++ rest) aims bound ∧ π ⊆ s.children ∧
    scopeBlocks π = stmtBlocks s.facts stmt

theorem awaited_of_comes (h : Lexical.analyze module = .ok root) (hn : Nested root (s :: outer))
    {loops : List Loop} {stmts : List Stmt} {d e : Draft} {t : Stmt}
    (hcomes : Comes s loops stmts d t e) (ha : BodyAssignable stmts)
    (hb : BoundIn (bodyMentions stmts) s) {π rest : List Scope} {aims bound : List Label}
    (hloops : LoopsMade loops aims) (hsub : π ⊆ s.children)
    (hπ : scopeBlocks π = bodyBlocks s.facts stmts) (hd : d.Ready s (π ++ rest) aims bound) :
    Awaited s t e := by
  -- The scopes that are left are those of what is left of the statements, in every part that is entered.
  induction hcomes generalizing π rest aims bound with
  | here =>
    obtain ⟨π₁, π₂, rfl, h₁, -⟩ :=
      Lexical.scopeBlocks_eq_append (by simpa only [bodyBlocks] using hπ)
    rw [List.append_assoc] at hd
    exact ⟨ha.1, hb.left, π₁, π₂ ++ rest, aims, bound, hd, (List.append_subset.1 hsub).1, h₁⟩
  | next hstmt _ ih =>
    obtain ⟨π₁, π₂, rfl, h₁, h₂⟩ :=
      Lexical.scopeBlocks_eq_append (by simpa only [bodyBlocks] using hπ)
    obtain ⟨hsub₁, hsub₂⟩ := List.append_subset.1 hsub
    rw [List.append_assoc] at hd
    have hafter := (proceeds_statement h _ ha.1 hn hb.left hloops hsub₁ h₁).after hd hstmt
    exact ih ha.2 hb.right hloops hsub₂ h₂ hafter
  | body hhead _ ih =>
    obtain ⟨π₁, π₂, rfl, h₁, -⟩ := Lexical.scopeBlocks_eq_append
      (by simpa only [bodyBlocks, stmtBlocks, List.append_assoc] using hπ)
    rw [List.append_assoc] at hd
    have hafter := (proceeds_branching (hn.celled h) _).after hd hhead
    exact ih ha.1.1 hb.left.left.right (hloops.mono _ _) (List.append_subset.1 hsub).1 h₁ hafter
  | orelse hhead hbody hbetween _ ih =>
    obtain ⟨π₁, π₂, rfl, h₁, h₂⟩ := Lexical.scopeBlocks_eq_append
      (by simpa only [bodyBlocks, stmtBlocks, List.append_assoc] using hπ)
    obtain ⟨π₃, π₄, rfl, h₃, -⟩ := Lexical.scopeBlocks_eq_append h₂
    obtain ⟨hsub₁, hsub₂⟩ := List.append_subset.1 hsub
    rw [List.append_assoc, List.append_assoc] at hd
    have hafter := (proceeds_branching (hn.celled h) _).after hd hhead
    have hafter := (proceeds_block h _ ha.1.1 hn hb.left.left.right (hloops.mono _ _) hsub₁
      h₁).after hafter hbody
    have hafter := (proceeds_betweenBranches _ (by simp) List.mem_cons_self).after hafter hbetween
    exact ih ha.1.2 hb.left.right (hloops.mono _ _) (List.append_subset.1 hsub₂).1 h₃ hafter
  | loop hhead _ ih =>
    obtain ⟨π₁, π₂, rfl, h₁, -⟩ :=
      Lexical.scopeBlocks_eq_append (by simpa only [bodyBlocks, stmtBlocks] using hπ)
    rw [List.append_assoc] at hd
    have hafter := (proceeds_whileHead (hn.celled h) _).after hd hhead
    exact ih ha.1 hb.left.right (hloops.push _) (List.append_subset.1 hsub).1 h₁ hafter
  | each hhead _ ih =>
    obtain ⟨π₁, π₂, rfl, h₁, -⟩ :=
      Lexical.scopeBlocks_eq_append (by simpa only [bodyBlocks, stmtBlocks] using hπ)
    rw [List.append_assoc] at hd
    have hafter := (proceeds_forHead (hn.celled h) _ ha.1.1 hb.left.left.right).after hd hhead
    exact ih ha.1.2 hb.left.right (hloops.push _) (List.append_subset.1 hsub).1 h₁ hafter

/-- The scope that a definition takes is the one that was made of its own body. -/
theorem block_of_opens (h : Lexical.analyze module = .ok root) (hn : Nested root (s :: outer))
    {stmt : Stmt} {d start : Draft} {inner : Scope} {body : List Stmt} (hstmt : Awaited s stmt d)
    (hopens : Opens s stmt d inner body start) :
    inner ∈ s.children ∧ stmtBlocks s.facts stmt = [inner.block] := by
  obtain ⟨-, -, π, rest, aims, bound, hd, hsub, hπ⟩ := hstmt
  cases hopens with
  | define hhead =>
    obtain ⟨own, rfl, -⟩ := scopeBlocks_eq_singleton hπ
    obtain ⟨-, rfl⟩ := (proceeds_functionHead (hn.celled h) _ _).after hd hhead
    exact ⟨hsub List.mem_cons_self, by rw [← hπ]; rfl⟩
  | classDef hhead =>
    obtain ⟨own, rfl, -⟩ := scopeBlocks_eq_singleton hπ
    obtain ⟨-, rfl⟩ := (proceeds_classHead _).after hd hhead
    exact ⟨hsub List.mem_cons_self, by rw [← hπ]; rfl⟩

/-- What is known of a body when generation enters it. -/
structure Entered (root s : Scope) (stmts : List Stmt) (start : Draft) : Prop where
  nested : ∃ outer, Nested root (s :: outer)
  assignable : BodyAssignable stmts
  boundIn : BoundIn (bodyMentions stmts) s
  blocks : scopeBlocks s.children = bodyBlocks s.facts stmts
  ready : start.Ready s s.children [] []

theorem entered_of_block {inner : Scope} {f : Lexical.Facts} {body : List Stmt} {start : Draft}
    (hn : Nested root (inner :: outer)) (ha : BodyAssignable body)
    (hblock : inner.block = ⟨f.after (bodyMentions body), bodyBlocks f body⟩)
    (hready : start.Ready inner inner.children [] []) : Entered root inner body start := by
  rw [Lexical.block_eq] at hblock
  obtain ⟨hfacts, hchildren⟩ := Lexical.Block.mk.inj hblock
  refine ⟨⟨outer, hn⟩, ha, boundIn_of_facts hfacts, ?_, hready⟩
  rw [hchildren, hfacts, Lexical.bodyBlocks_after]

namespace Entered

variable {stmts : List Stmt} {start : Draft}

theorem awaited (h : Lexical.analyze module = .ok root) (he : Entered root s stmts start)
    {stmt : Stmt} {d : Draft} (hcomes : Comes s [] stmts start stmt d) : Awaited s stmt d := by
  obtain ⟨⟨outer, hn⟩, ha, hb, hblocks, hready⟩ := he
  have hready' : start.Ready s (s.children ++ []) [] [] := by rwa [List.append_nil]
  exact awaited_of_comes h hn hcomes ha hb (loopsMade_nil []) (List.Subset.refl _) hblocks hready'

theorem proceeds (h : Lexical.analyze module = .ok root) (he : Entered root s stmts start) :
    Proceeds (Draft.Ready s s.children [] []) (block s [] stmts) fun _ =>
      Draft.Ready s [] [] [] := by
  obtain ⟨⟨outer, hn⟩, ha, hb, hblocks, -⟩ := he
  have hwalk : Proceeds (Draft.Ready s (s.children ++ []) [] []) (block s [] stmts)
      fun _ => Draft.Ready s [] [] [] :=
    proceeds_block h stmts ha hn hb (loopsMade_nil []) (List.Subset.refl _) hblocks
  rwa [List.append_nil] at hwalk

theorem opens (h : Lexical.analyze module = .ok root) (he : Entered root s stmts start)
    {stmt : Stmt} {d start' : Draft} {inner : Scope} {body : List Stmt}
    (hcomes : Comes s [] stmts start stmt d) (hopens : Opens s stmt d inner body start') :
    Entered root inner body start' := by
  obtain ⟨outer, hn⟩ := he.nested
  have hstmt := he.awaited h hcomes
  obtain ⟨hmem, hblock⟩ := block_of_opens h hn hstmt hopens
  cases hopens with
  | define =>
    exact entered_of_block (hn.inner hmem) hstmt.assignable (List.cons.inj hblock).1.symm
      (ready_startFunction inner)
  | classDef =>
    exact entered_of_block (hn.inner hmem) hstmt.assignable (List.cons.inj hblock).1.symm
      (ready_start inner)

end Entered

theorem entered_root (ha : BodyAssignable module) (h : Lexical.analyze module = .ok root) :
    Entered root root module (Draft.start root) :=
  entered_of_block .root ha (Lexical.analyze_ok h).1 (ready_start root)

theorem Enters.entered (ha : BodyAssignable module) {stmts : List Stmt} {start : Draft}
    (henters : Enters module s stmts start) :
    ∃ root, Lexical.analyze module = .ok root ∧ Entered root s stmts start := by
  induction henters with
  | @module root hroot => exact ⟨root, hroot, entered_root ha hroot⟩
  | inner _ hcomes hopens ih =>
    obtain ⟨root, hroot, hentered⟩ := ih
    exact ⟨root, hroot, hentered.opens hroot hcomes hopens⟩

/-- Compiling a module whose targets can be assigned to hits no guard of the compiler. -/
theorem compile_blames (ha : BodyAssignable module) (name : Name) :
    Blames (compile module name) := by
  unfold compile
  refine (Lexical.analyze_blames ha).bind fun root hroot => ?_
  have hentered := entered_root ha hroot
  have hwalk := hentered.proceeds hroot
  refine (hwalk.blames hentered.ready).bind fun result hresult => ?_
  obtain ⟨⟨⟩, draft⟩ := result
  have hdone : draft.Ready root [] [] [] := hwalk.after hentered.ready hresult
  obtain ⟨c, hc, -⟩ := finish_ready hdone root.facts.span
    { name := root.facts.name, qualname := name }
  dsimp only
  rw [hc]
  exact .ok c

end Consumption

/-- A module that was read compiles or is at fault itself: no guard of the compiler is hit. When
generation comes to a definition in a body, the scope that it takes is the one made of that
definition, and a body that is done has taken the scopes of all definitions in it. -/
theorem compile_in_step {source : String} {module : List Stmt}
    (h : Grammar.parse source = .ok module) :
    (∀ name, (∃ c, compile module name = .ok c) ∨
      ∃ e, compile module name = .error e ∧ e.fault.IsOfUser) ∧
    ∀ s stmts start, Enters module s stmts start →
      (∀ stmt d inner body start', Comes s [] stmts start stmt d →
        Opens s stmt d inner body start' →
        inner ∈ s.children ∧ stmtBlocks s.facts stmt = [inner.block]) ∧
      ∀ d, block s [] stmts start = .ok ((), d) → d.pending = [] := by
  have ha := Grammar.parse_assignable h
  refine ⟨fun name => ?_, fun s stmts start henters => ?_⟩
  · have hblames := compile_blames ha name
    cases hcompile : compile module name with
    | ok c => exact .inl ⟨c, rfl⟩
    | error e => exact .inr ⟨e, rfl, hblames e hcompile⟩
  · obtain ⟨root, hroot, hentered⟩ := henters.entered ha
    obtain ⟨outer, hn⟩ := hentered.nested
    constructor
    · intro stmt d inner body start' hcomes hopens
      exact block_of_opens hroot hn (hentered.awaited hroot hcomes) hopens
    · intro d hblock
      exact ((hentered.proceeds hroot).after hentered.ready hblock).pending

/-- A function with a class that has a method, which reads a name of the function. -/
def nestedDefinitions : String :=
  "def f(x) \x7b class K \x7b def g() \x7b return x \x7d \x7d\n return K \x7d"

/-- The module compiles, and its first definition takes a scope with which its body is generated. -/
def generatesFirst (module : List Stmt) : Bool :=
  (compile module "sample").isOk &&
    match module, Lexical.analyze module with
    | .define _ params body _ span :: _, .ok root =>
      match functionHead root params span (Draft.start root) with
      | .ok ((_, _, inner), _) => (block inner [] body (Draft.startFunction inner)).isOk
      | .error _ => false
    | _, _ => false

theorem compile_in_step_nestedDefinitions : ∃ module root stmt inner body start c d,
    Grammar.parse nestedDefinitions = .ok module ∧ compile module "sample" = .ok c ∧
    Enters module root module (Draft.start root) ∧
    Comes root [] module (Draft.start root) stmt (Draft.start root) ∧
    Opens root stmt (Draft.start root) inner body start ∧
    block inner [] body start = .ok ((), d) ∧
    inner ∈ root.children ∧ stmtBlocks root.facts stmt = [inner.block] ∧ d.pending = [] := by
  have hmade : (Grammar.parse nestedDefinitions).toOption.any generatesFirst = true := by
    decide +kernel
  obtain ⟨module, hmodule, hgenerates⟩ := (Option.any_eq_true _ _).1 hmade
  have hparse : Grammar.parse nestedDefinitions = .ok module := by
    cases hresult : Grammar.parse nestedDefinitions with
    | error e =>
      rw [hresult] at hmodule
      cases hmodule
    | ok body =>
      rw [hresult] at hmodule
      cases hmodule
      rfl
  unfold generatesFirst at hgenerates
  obtain ⟨hcompile, hgenerates⟩ := Bool.and_eq_true_iff.1 hgenerates
  split at hgenerates
  case h_2 => cases hgenerates
  rename_i name params body isAsync span rest root _ hroot
  split at hgenerates
  case h_2 => cases hgenerates
  rename_i defaults keywords inner e hhead
  obtain ⟨hsteps, hwalk⟩ := compile_in_step hparse
  obtain ⟨c, hc⟩ :
      ∃ c, compile (.define name params body isAsync span :: rest) "sample" = .ok c := by
    rcases hsteps "sample" with hc | ⟨e, he, -⟩
    · exact hc
    · rw [he] at hcompile
      cases hcompile
  cases hblock : block inner [] body (Draft.startFunction inner) with
  | error e =>
    rw [hblock] at hgenerates
    cases hgenerates
  | ok result =>
    have hroot : Enters _ root _ (Draft.start root) := .module hroot
    have hcomes : Comes root [] (.define name params body isAsync span :: rest) (Draft.start root)
        (.define name params body isAsync span) (Draft.start root) := .here
    have hopens : Opens root (.define name params body isAsync span) (Draft.start root) inner body
        (Draft.startFunction inner) := .define hhead
    obtain ⟨hmem, hmade⟩ := (hwalk root _ _ hroot).1 _ _ _ _ _ hcomes hopens
    have hpending := (hwalk _ _ _ (hroot.inner hcomes hopens)).2 result.2 hblock
    exact ⟨_, root, _, inner, body, _, c, result.2, hparse, hc, hroot, hcomes, hopens, hblock, hmem,
      hmade, hpending⟩

end Lexiscope.Code
