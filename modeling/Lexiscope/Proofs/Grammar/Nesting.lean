import Lexiscope.Grammar.Statement
import Lexiscope.Proofs.Grammar.Covering
/-!
# Spans of syntax trees nest

Every node of a tree covers the nodes below it, and the statements of a body follow each other. What
comes after a statement is counted from the end of its span and not from the token taken last: the
line end that ends a simple statement may stand past the end of the source.
-/

namespace Lexiscope.Grammar

open Text (Span)
open Lexiscope.Grammar.Parser

section Parts

variable {source : String}

theorem expressionListOrYield_nests (n : Nat) : (expressionListOrYield n).Nests source := by
  intro p c hc
  unfold expressionListOrYield
  refine .step rfl ?_
  split
  · exact (nesting source n).yielded hc
  · exact (nesting source n).expressionList hc

theorem assignedValues_lists (n : Nat) : (assignedValues n).Lists source := by
  induction n with
  | zero => exact fun _ _ _ => .tooDeep
  | succ n ih =>
    intro p c hc
    unfold assignedValues
    refine .accept hc.ahead rfl (fun c₁ h₁ _ => ?_) (.pure (.nil hc (Nat.le_refl _)))
    refine (expressionListOrYield_nests n h₁.ahead).bind fun value c₂ hvalue => ?_
    refine (ih hvalue.stands).bind fun values d hvalues => .pure ?_
    exact .cons hvalue hvalues (Nat.le_trans hc.le h₁.le) h₁.le

theorem moreTargets_lists (n : Nat) : (moreTargets n).Lists source := by
  induction n with
  | zero => exact fun _ _ _ => .tooDeep
  | succ n ih =>
    intro p c hc
    unfold moreTargets
    refine .accept hc.ahead rfl (fun c₁ h₁ _ => .step rfl ?_) (.pure (.nil hc (Nat.le_refl _)))
    split
    · exact .pure (.nil (h₁.mono hc.le) h₁.le)
    refine ((nesting source n).operand h₁.ahead).bind fun item c₂ hitem => ?_
    refine (ih hitem.stands).bind fun items d hitems => .pure ?_
    exact .cons hitem hitems (Nat.le_trans hc.le h₁.le) h₁.le

theorem loopTarget_nests (n : Nat) : (loopTarget n).Nests source := by
  intro p c hc
  unfold loopTarget
  refine ((nesting source n).operand hc).bind fun first c₁ hfirst => .step rfl ?_
  split
  · refine (moreTargets_lists n hfirst.stands).bind fun items d hitems => .step rfl (.pure ?_)
    exact .trailed hfirst hitems (Nat.le_refl _) rfl rfl
  · exact .pure hfirst

theorem moreNames_gives (n : Nat) {p q : Nat} : ∀ {c : Cursor}, Through source p q [] c →
    (moreNames n).Gives c fun _ d => Through source p q [] d := by
  induction n with
  | zero => exact fun _ => .tooDeep
  | succ n ih =>
    intro c hc
    unfold moreNames
    refine .accept hc.stands.ahead rfl (fun c₁ h₁ _ => ?_) (.pure hc)
    refine .identifier h₁.ahead fun name c₂ h₂ _ => ?_
    exact (ih ((hc.token h₁).token h₂)).bind fun _ _ hd => .pure hd

theorem nameList_gives (n : Nat) {p : Nat} {c : Cursor} (hc : Stands source p c) :
    (nameList n).Gives c fun _ d => Through source p c.previous.stop [] d := by
  unfold nameList
  refine .identifier hc.ahead fun name c₁ h₁ _ => ?_
  exact (moreNames_gives n (.nil (h₁.mono hc.le) h₁.le)).bind fun _ _ hd => .pure hd

theorem requireTarget_gives (unpacks : Bool) (e : Expr) (c : Cursor) :
    (requireTarget unpacks e).Gives c fun _ d => d = c := by
  unfold requireTarget
  split
  · exact .fail _ _
  · exact .pure rfl

theorem requireTargets_gives (unpacks : Bool) (es : List Expr) (c : Cursor) :
    (es.forM (requireTarget unpacks)).Gives c fun _ d => d = c := by
  induction es with
  | nil => exact .pure rfl
  | cons e es ih =>
    refine (requireTarget_gives unpacks e c).bind fun _ d hd => ?_
    rw [hd]
    exact ih

def Params.nodes (params : Params) : List Node :=
  (params.positional ++ params.keywordOnly).map .param

/-- What the parser makes of parameters lies where its tokens stand. -/
def TakesParameters (source : String) (p q n : Nat) : Prop :=
  ∀ ⦃found keywordOnly c⦄, Through source p q (Params.nodes found) c →
    (parameters n found keywordOnly).Gives c fun params d => Through source p q params.nodes d

section Parameters

variable {p q n : Nat} {found : Params} {keywordOnly : Bool} {c d : Cursor}
  (h : TakesParameters source p q n)
include h

theorem nextParameter_gives (hfound : Through source p q found.nodes c) :
    (do if ← accept .comma then parameters n found keywordOnly else return found :
      Parser Params).Gives c fun params d => Through source p q params.nodes d :=
  .accept hfound.stands.ahead rfl (fun _ hc _ => h (hfound.token hc)) (.pure hfound)

theorem addParameter_gives {r : Nat} {param : Param} (hfound : Through source p q found.nodes c)
    (hparam : Read source c.previous.stop r (.param param) d) : (do
      if keywordOnly then
        let found ← pure { found with keywordOnly := found.keywordOnly ++ [param] }
        if ← accept .comma then parameters n found keywordOnly else return found
      else
        if param.default.isNone && found.positional.any (·.default.isSome) then
          failAt .defaultBeforeRequired param.span
        let found ← pure { found with positional := found.positional ++ [param] }
        if ← accept .comma then parameters n found keywordOnly else return found :
      Parser Params).Gives d fun params d => Through source p q params.nodes d := by
  have hadd := hfound.add hparam (Nat.le_refl _)
  split
  · exact .step rfl (nextParameter_gives h (hadd.subset (by simp [Params.nodes])))
  · dsimp only
    split
    · exact .failed _ _
    · exact .step rfl (nextParameter_gives h (hadd.subset (by simp [Params.nodes])))

theorem parameters_succ : TakesParameters source p q (n + 1) := by
  intro found keywordOnly c hfound
  unfold parameters
  refine .step rfl ?_
  split
  · exact .pure hfound
  refine .step rfl (.accept hfound.stands.ahead rfl (fun c₁ h₁ _ => ?_) ?_)
  · refine .identifier h₁.ahead fun name c₂ h₂ _ => ?_
    have hrest : Through source p q found.nodes c₂ := (hfound.token h₁).token h₂
    refine (hrest.accept_gives rfl).bind fun _ d hd => .step rfl ?_
    split
    · exact .pure hd
    · exact .step rfl (.fail _ _)
  refine .accept hfound.stands.ahead rfl (fun c₁ h₁ _ => ?_) ?_
  · dsimp only
    split
    · exact .failed _ _
    refine .step rfl ?_
    split
    · rename_i name hname
      refine .advance h₁.ahead (by rw [hname]; rfl) fun c₂ h₂ _ => ?_
      exact nextParameter_gives h ((hfound.token h₁).token h₂)
    · exact nextParameter_gives h (hfound.token h₁)
  · refine .identifier hfound.stands.ahead fun name c₁ h₁ hc₁ => ?_
    rw [← hc₁]
    dsimp only
    have hmade : ∀ {default : Option Expr} {ns : List Node} {d : Cursor},
        Through source c.previous.stop c₁.previous.stop ns d → default.toList.map .expr = ns →
        Read source c.previous.stop c₁.previous.stop
          (.param ⟨name, default, c₁.previous.merge d.previous⟩) d := fun hns hdefault =>
      .enclosed h₁ hns (Nat.le_refl _) rfl hdefault fun _ h => absurd h List.not_mem_nil
    refine .accept h₁.ahead rfl (fun c₂ h₂ _ => ?_) (.step rfl (.step rfl ?_))
    · refine .bindMap ((nesting source n).expression h₂.ahead) fun default d hdefault => ?_
      have hdefaults := (Through.single hdefault h₂.le).mono h₁.le h₂.le
      exact .step rfl (addParameter_gives h hfound (hmade hdefaults rfl))
    · exact addParameter_gives h hfound (hmade (.nil h₁ (Nat.le_refl _)) rfl)

end Parameters

theorem parameters_gives (p q n : Nat) : TakesParameters source p q n := by
  induction n with
  | zero => exact fun _ _ _ _ => .tooDeep
  | succ n h => exact parameters_succ h

theorem distinctParameters_gives (n : Nat) {p : Nat} {c : Cursor} (hc : Stands source p c) :
    (distinctParameters n).Gives c fun params d =>
      Through source p c.previous.stop params.nodes d := by
  unfold distinctParameters
  refine (parameters_gives _ _ n (.nil hc (Nat.le_refl _))).bind fun params d hd => ?_
  split
  · exact .step rfl (.fail _ _)
  · exact .pure hd

end Parts

section Statements

variable {source : String} {n p : Nat} {c : Cursor}

theorem isText_of_augmentedOp {k : TokenKind} {op : BinaryOp} (h : augmentedOp? k = some op) :
    k.isText = true := by
  unfold augmentedOp? at h
  split at h <;> first | rfl | cases h

theorem expressionStatement_gives (hc : Ahead source p c.rest)
    (htext : c.current.kind.isText = true) :
    (expressionStatement n c.current.span).Gives c fun s d => Read source p p (.stmt s) d := by
  -- The statement may start before its first expression, but with the same token.
  obtain ⟨hnext, hprevious⟩ := hc.take htext
  have htight : Ahead source c.current.span.start c.rest := hc.tight htext
  rw [← hprevious] at htight ⊢
  have hmade : ∀ {s : Stmt} {ns : List Node} {d : Cursor},
      Through source c.next.previous.start c.next.previous.start ns d →
      c.next.previous.stop ≤ d.previous.stop → s.span = c.next.previous.merge d.previous →
      (Node.stmt s).children = ns → s.bodies = [] → Read source p p (.stmt s) d := by
    intro s ns d hns hle hspan hchildren hbodies
    have hp : p ≤ c.next.previous.start := hnext.previous.start
    refine .closed (hnext.previous.within hp hle) hns hp (Nat.le_refl _) (hns.stands.mono hp).le
      hspan hchildren ?_
    rw [Node.bodies, hbodies]
    exact fun _ h => absurd h List.not_mem_nil
  unfold expressionStatement
  refine (expressionListOrYield_nests n htight).bind fun first c₁ hfirst => ?_
  have hreach : c.next.previous.stop ≤ c₁.previous.stop := by
    rw [hprevious]
    exact hfirst.reach
  have hfirsts := Through.single hfirst (Nat.le_refl _)
  refine .step rfl ?_
  split
  · rename_i op hop
    refine .advance hfirst.stands.ahead (isText_of_augmentedOp hop) fun c₂ h₂ _ => ?_
    refine (requireTarget_gives false first c₂).bind fun _ _ hc₂ => ?_
    rw [hc₂]
    refine (expressionListOrYield_nests n h₂.ahead).bind fun value d hvalue => .step rfl (.pure ?_)
    have hle : c₁.previous.stop ≤ d.previous.stop := Nat.le_trans h₂.le hvalue.stands.le
    exact hmade (hfirsts.add hvalue h₂.le) (Nat.le_trans hreach hle) rfl rfl rfl
  · refine (assignedValues_lists n hfirst.stands).bind fun values c₂ hvalues => ?_
    have hchain := hfirsts.append hvalues (Nat.le_refl _) (Nat.le_refl _)
    have hle : c.next.previous.stop ≤ c₂.previous.stop := Nat.le_trans hreach hvalues.le
    dsimp only
    refine (requireTargets_gives true _ c₂).bind fun _ d hd => ?_
    rw [hd]
    split
    · rename_i value _ hvalue
      have hsplit : (first :: values).dropLast ++ [value] = first :: values :=
        List.dropLast_append_getLast? value hvalue
      refine .step rfl (.pure (hmade hchain hle rfl ?_ rfl))
      simp [Node.children, Stmt.exprs, Stmt.params, Stmt.bodies, hsplit, -List.map_append]
    · refine .step rfl (.pure (hmade (hchain.subset ?_) hle rfl rfl rfl))
      exact List.cons_subset.2 ⟨List.mem_cons_self, List.nil_subset _⟩

theorem Read.compound {p' q : Nat} {start : Span} {s : Stmt} {ns : List Node} {d : Cursor}
    (hs : start.Inside source ⟨p, q⟩) (h : Through source p' q ns d) (hp : p ≤ p')
    (hspan : s.span = start.merge d.previous) (hchildren : (Node.stmt s).children = ns)
    (hbodies : ∀ body ∈ s.bodies, InOrder body) : Read source p p (.stmt s) d :=
  .closed (hs.within hs.start (Nat.le_trans hs.stop h.le)) h hp (Nat.le_trans hs.ordered hs.stop)
    (h.stands.mono hp).le hspan hchildren hbodies

theorem Read.simple {p' : Nat} {s : Stmt} {ns : List Node} {d : Cursor} (hc : Stands source p c)
    (h : Through source p' c.previous.stop ns d) (hp : p ≤ p')
    (hspan : s.span = c.previous.merge d.previous) (hchildren : (Node.stmt s).children = ns)
    (hbodies : s.bodies = []) : Read source p p (.stmt s) d := by
  refine .compound hc.previous h hp hspan hchildren ?_
  rw [hbodies]
  exact fun _ h => absurd h List.not_mem_nil

theorem simpleStatement_gives (hc : Ahead source p c.rest) (htext : c.current.kind.isText = true) :
    (simpleStatement n c.current.span).Gives c fun s d => Read source p p (.stmt s) d := by
  have hword : ∀ {s : Stmt} {c₁ : Cursor}, Stands source p c₁ →
      s.span = c₁.previous.merge c₁.previous → (Node.stmt s).children = [] → s.bodies = [] →
        Read source p p (.stmt s) c₁ :=
    fun h₁ => .simple h₁ (.nil h₁ (Nat.le_refl _)) (Nat.le_refl _)
  unfold simpleStatement
  refine .step rfl ?_
  split
  case h_9 => exact expressionStatement_gives hc htext
  all_goals
    refine .advance hc htext fun c₁ h₁ hc₁ => ?_
    rw [← hc₁]
  · refine .step rfl ?_
    split
    · exact .step rfl (.pure (hword h₁ rfl rfl rfl))
    refine ((nesting source n).expressionList h₁.ahead).bind fun value d hvalue => ?_
    exact .step rfl (.pure (.simple h₁ (.single hvalue (Nat.le_refl _)) h₁.le rfl rfl rfl))
  · exact .step rfl (.pure (hword h₁ rfl rfl rfl))
  · exact .step rfl (.pure (hword h₁ rfl rfl rfl))
  · exact .step rfl (.pure (hword h₁ rfl rfl rfl))
  · refine (nameList_gives n h₁).bind fun names d hnames => .step rfl (.pure ?_)
    exact .simple h₁ hnames (Nat.le_refl _) rfl rfl rfl
  · refine (nameList_gives n h₁).bind fun names d hnames => .step rfl (.pure ?_)
    exact .simple h₁ hnames (Nat.le_refl _) rfl rfl rfl
  · refine ((nesting source n).expression h₁.ahead).bind fun value d hvalue => .step rfl (.pure ?_)
    exact .simple h₁ (.single hvalue (Nat.le_refl _)) h₁.le rfl rfl rfl
  · refine ((nesting source n).expression h₁.ahead).bind fun test c₂ htest => ?_
    have htests := Through.single htest (Nat.le_refl _)
    dsimp only
    refine .accept htest.stands.ahead rfl (fun c₃ h₃ _ => ?_) (.step rfl (.step rfl (.pure ?_)))
    · refine .bindMap ((nesting source n).expression h₃.ahead) fun message d hmessage => ?_
      exact .step rfl (.pure (.simple h₁ (htests.add hmessage h₃.le) h₁.le rfl rfl rfl))
    · exact .simple h₁ htests h₁.le rfl rfl rfl

/-- A statement has been read with what ends it. -/
structure Written (source : String) (p : Nat) (s : Stmt) (d : Cursor) : Prop where
  lies : (Node.stmt s).Lies source ⟨p, s.span.stop⟩
  ahead : Ahead source s.span.stop d.rest

theorem Read.written {r : Nat} {s : Stmt} {d : Cursor} (h : Read source p r (.stmt s) d) :
    Written source p s d :=
  ⟨h.lies.within h.lies.inside.start (Nat.le_refl _), h.stands.ahead.mono h.lies.inside.stop⟩

/-- The statements of a body have been read from an offset on. -/
structure Body (source : String) (p : Nat) (body : List Stmt) (d : Cursor) : Prop where
  through : Through source p p (body.map .stmt) d
  ordered : InOrder body

theorem Read.withBody {p' q : Nat} {start : Span} {s : Stmt} {body : List Stmt} {ns : List Node}
    {d : Cursor} (hs : start.Inside source ⟨p, q⟩) (h : Through source p' q ns c) (hp : p ≤ p')
    (hbody : Body source c.previous.stop body d) (hspan : s.span = start.merge d.previous)
    (hchildren : (Node.stmt s).children = ns ++ body.map .stmt) (hbodies : s.bodies = [body]) :
    Read source p p (.stmt s) d := by
  have hparts := h.append hbody.through h.stands.le (Nat.le_refl _)
  refine .compound hs hparts hp hspan hchildren ?_
  rw [hbodies]
  exact List.forall_mem_singleton.2 hbody.ordered

/-- What the parsers of statements make lies where its tokens stand. -/
structure Blocks (source : String) (n : Nat) : Prop where
  statement : ∀ ⦃p c⦄, Ahead source p c.rest → c.current.kind.isText = true →
    (statement n).Gives c (Written source p)
  definition : ∀ ⦃p start c⦄ isAsync, start.Inside source ⟨p, c.current.span.stop⟩ →
    Ahead source p c.rest →
      (definition n isAsync start).Gives c fun s d => Read source p p (.stmt s) d
  alternatives : ∀ ⦃p c⦄, Stands source p c →
    (alternatives n c.previous).Gives c fun s d => Read source p p (.stmt s) d
  block : ∀ ⦃p c⦄, Ahead source p c.rest → (block n).Gives c (Body source p)
  blockRest : ∀ ⦃p c⦄, Ahead source p c.rest → (blockRest n).Gives c (Body source p)

theorem Blocks.zero : Blocks source 0 where
  statement _ _ _ _ := .tooDeep
  definition _ _ _ _ _ _ := .tooDeep
  alternatives _ _ _ := .tooDeep
  block _ _ _ := .tooDeep
  blockRest _ _ _ := .tooDeep

theorem Body.mono {p' : Nat} {body : List Stmt} {d : Cursor} (h : Body source p' body d)
    (hp : p ≤ p') : Body source p body d :=
  ⟨h.through.mono hp hp, h.ordered⟩

theorem endSimple_gives (hc : Ahead source p c.rest) :
    endSimple.Gives c fun _ d => Ahead source p d.rest := by
  unfold endSimple
  refine .step rfl ?_
  split
  · exact .step rfl (.pure hc.next)
  · exact .step rfl (.pure hc.next)
  · exact .pure hc
  · exact .pure hc
  · exact .step rfl (.fail _ _)

theorem Body.cons {s : Stmt} {ss : List Stmt} {d : Cursor} (hs : Written source p s c)
    (hss : Body source s.span.stop ss d) : Body source p (s :: ss) d := by
  have hp : p ≤ s.span.stop := Nat.le_trans hs.lies.inside.start hs.lies.inside.ordered
  refine ⟨⟨List.forall_mem_cons.2 ⟨?_, fun n hn => ?_⟩, hss.through.stands.mono hp,
    Nat.le_trans hp hss.through.le⟩, List.pairwise_cons.2 ⟨fun t ht => ?_, hss.ordered⟩⟩
  · exact hs.lies.widen (Nat.le_refl _) hss.through.le
  · exact (hss.through.lie n hn).widen hp (Nat.le_refl _)
  · exact (hss.through.lie _ (List.mem_map_of_mem ht)).inside.start

end Statements

section Steps

variable {source : String} {n p : Nat} {c : Cursor} (h : Blocks source n)
include h

theorem definition_gives {start : Span} (isAsync : Bool)
    (hs : start.Inside source ⟨p, c.current.span.stop⟩) (hc : Ahead source p c.rest) :
    (definition (n + 1) isAsync start).Gives c fun s d => Read source p p (.stmt s) d := by
  unfold definition
  refine .expect hc rfl fun c₁ h₁ hc₁ => .identifier h₁.ahead fun name c₂ h₂ _ => ?_
  refine .expect h₂.ahead rfl fun c₃ h₃ _ => ?_
  refine (distinctParameters_gives n h₃).bind fun params c₄ hparams => ?_
  refine .expect hparams.stands.ahead rfl fun c₅ h₅ _ => ?_
  refine (h.block h₅.ahead).bind fun body d hbody => .step rfl (.pure ?_)
  have hstart : start.Inside source ⟨p, c₁.previous.stop⟩ := by
    rw [hc₁]
    exact hs
  have hparts := (hparams.token h₅).mono h₂.le (Nat.le_trans h₂.le h₃.le)
  refine .withBody hstart hparts h₁.le hbody rfl ?_ rfl
  simp [Node.children, Stmt.exprs, Stmt.params, Stmt.bodies, Params.nodes]

theorem alternatives_gives (hc : Stands source p c) :
    (alternatives (n + 1) c.previous).Gives c fun s d => Read source p p (.stmt s) d := by
  unfold alternatives
  refine ((nesting source n).expression hc.ahead).bind fun test c₁ htest => ?_
  refine (h.block htest.stands.ahead).bind fun body c₂ hbody => ?_
  have hfirst := (Through.single htest hc.le).append hbody.through
    (Nat.le_trans hc.le htest.stands.le) (Nat.le_refl _)
  dsimp only
  refine .step (kindAfterNewlines_run c₂) ?_
  have hmade : ∀ {orelse : List Stmt} {d : Cursor},
      Through source p c₂.previous.stop (orelse.map .stmt) d → InOrder orelse →
      (do return .cond test body orelse (← spanFrom c.previous) : Parser Stmt).Gives d
        fun s d => Read source p p (.stmt s) d := by
    intro orelse d horelse hordered
    have hparts := hfirst.append horelse (Nat.le_refl _) (Nat.le_refl _)
    refine .step rfl (.pure (.compound hc.previous hparts (Nat.le_refl _) rfl ?_ ?_))
    · simp [Node.children, Stmt.exprs, Stmt.params, Stmt.bodies]
    · exact List.forall_mem_cons.2 ⟨hbody.ordered, List.forall_mem_singleton.2 hordered⟩
  split
  · rename_i helif
    refine .skip hbody.through.stands.ahead fun c₃ h₃ hc₃ => ?_
    refine .advance h₃ (by rw [hc₃, helif]; rfl) fun c₄ h₄ _ => ?_
    refine (h.alternatives h₄).bind fun s d hs => .step rfl (hmade ?_ (List.pairwise_singleton _ _))
    exact .single hs hfirst.stands.le
  · rename_i helse
    refine .skip hbody.through.stands.ahead fun c₃ h₃ hc₃ => ?_
    refine .advance h₃ (by rw [hc₃, helse]; rfl) fun c₄ h₄ _ => ?_
    refine (h.block h₄.ahead).bind fun orelse d horelse => hmade ?_ horelse.ordered
    exact horelse.through.mono (Nat.le_trans hfirst.stands.le h₄.le) h₄.le
  · exact .step rfl (hmade (.nil hfirst.stands (Nat.le_refl _)) List.Pairwise.nil)

theorem block_gives (hc : Ahead source p c.rest) : (block (n + 1)).Gives c (Body source p) := by
  unfold block
  refine .expect hc rfl fun c₁ h₁ _ => ?_
  exact (h.blockRest h₁.ahead).mono fun body d hbody => hbody.mono h₁.le

theorem blockRest_gives (hc : Ahead source p c.rest) :
    (blockRest (n + 1)).Gives c (Body source p) := by
  unfold blockRest
  refine .skip hc fun c₁ h₁ hc₁ => .accept h₁ rfl (fun d hd _ => .pure ?_) (.step rfl ?_)
  · exact ⟨.nil hd hd.le, List.Pairwise.nil⟩
  dsimp only
  split
  · exact .step rfl (.failed _ _)
  · rename_i heof
    refine (h.statement h₁ (isText_of_skipped (by simp) hc₁ heof)).bind fun s c₂ hs => ?_
    exact (h.blockRest hs.ahead).bind fun ss d hss => .pure (.cons hs hss)

theorem classBody_gives {name : Name} {bases : List Expr} {d : Cursor} (hc : Stands source p c)
    (hbases : Through source p c.previous.stop (bases.map .expr) d) : (do
      let body ← block n
      return .classDef name bases body (← spanFrom c.previous) : Parser Stmt).Gives d
        (Written source p) := by
  refine (h.block hbases.stands.ahead).bind fun body d hbody => .step rfl (.pure ?_)
  refine Read.written (.withBody hc.previous hbases (Nat.le_refl _) hbody rfl ?_ rfl)
  simp [Node.children, Stmt.exprs, Stmt.params, Stmt.bodies]

theorem statement_gives (hc : Ahead source p c.rest) (htext : c.current.kind.isText = true) :
    (statement (n + 1)).Gives c (Written source p) := by
  obtain ⟨hnext, hprevious⟩ := hc.take htext
  unfold statement
  refine .step rfl (.step rfl ?_)
  split
  · refine (h.definition false ?_ hc).mono fun s d hs => hs.written
    rw [← hprevious]
    exact hnext.previous
  · refine .advance hc htext fun c₁ h₁ hc₁ => .step rfl ?_
    rw [← hc₁]
    split
    · rename_i hdef
      obtain ⟨h₂, hc₂⟩ := h₁.ahead.take (isText_of_isMark hdef rfl)
      refine (h.definition true (h₁.previous.within h₁.previous.start ?_)
        (h₁.ahead.mono h₁.le)).mono fun s d hs => hs.written
      rw [← hc₂]
      exact h₂.le
    · exact .step rfl (.fail _ _)
  · refine .advance hc htext fun c₁ h₁ hc₁ => .identifier h₁.ahead fun name c₂ h₂ _ => ?_
    rw [← hc₁]
    dsimp only
    refine .accept h₂.ahead rfl (fun c₃ h₃ _ => ?_) (.step rfl (classBody_gives h h₁ ?_))
    · refine ((nesting source n).sequence .rparen h₃).bind fun bases c₄ hbases => ?_
      refine .expect hbases.stands.ahead rfl fun c₅ h₅ _ => .step rfl (classBody_gives h h₁ ?_)
      exact (hbases.token h₅).mono (Nat.le_trans h₁.le h₂.le) (Nat.le_trans h₂.le h₃.le)
    · exact (Through.nil h₁ (Nat.le_refl _)).token h₂
  · refine .advance hc htext fun c₁ h₁ hc₁ => ?_
    rw [← hc₁]
    exact (h.alternatives h₁).mono fun s d hs => hs.written
  · refine .advance hc htext fun c₁ h₁ hc₁ => ?_
    rw [← hc₁]
    refine ((nesting source n).expression h₁.ahead).bind fun test c₂ htest => ?_
    refine (h.block htest.stands.ahead).bind fun body d hbody => .step rfl (.pure ?_)
    have htests := Through.single htest (Nat.le_refl _)
    refine Read.written (.withBody h₁.previous htests h₁.le hbody rfl ?_ rfl)
    simp [Node.children, Stmt.exprs, Stmt.params, Stmt.bodies]
  · refine .advance hc htext fun c₁ h₁ hc₁ => ?_
    rw [← hc₁]
    refine (loopTarget_nests n h₁.ahead).bind fun target c₂ htarget => ?_
    refine (requireTarget_gives true target c₂).bind fun _ _ hc₂ => ?_
    rw [hc₂]
    refine .expect htarget.stands.ahead rfl fun c₃ h₃ _ => ?_
    refine ((nesting source n).expressionList h₃.ahead).bind fun iter c₄ hiter => ?_
    refine (h.block hiter.stands.ahead).bind fun body d hbody => .step rfl (.pure ?_)
    have hheads := (Through.single htarget (Nat.le_refl _)).add hiter h₃.le
    refine Read.written (.withBody h₁.previous hheads h₁.le hbody rfl ?_ rfl)
    simp [Node.children, Stmt.exprs, Stmt.params, Stmt.bodies]
  · refine (simpleStatement_gives hc htext).bind fun s c₁ hs => ?_
    exact (endSimple_gives hs.written.ahead).bind fun _ d hd => .pure ⟨hs.written.lies, hd⟩

end Steps

section Trees

variable {source : String}

theorem blocks (source : String) (n : Nat) : Blocks source n := by
  induction n with
  | zero => exact .zero
  | succ n h =>
    exact {
      statement := fun _ _ => statement_gives h
      definition := fun _ _ _ => definition_gives h
      alternatives := fun _ _ => alternatives_gives h
      block := fun _ _ => block_gives h
      blockRest := fun _ _ => blockRest_gives h }

theorem statements_gives (n : Nat) : ∀ {p : Nat} {c : Cursor}, Ahead source p c.rest →
    (statements n).Gives c fun body _ =>
      (∀ s ∈ body, (Node.stmt s).Lies source ⟨p, source.utf8ByteSize⟩) ∧ InOrder body := by
  induction n with
  | zero => exact fun _ => .tooDeep
  | succ n ih =>
    intro p c hc
    unfold statements
    refine .skip hc fun c₁ h₁ hc₁ => .step rfl ?_
    split
    · exact .pure ⟨fun _ h => absurd h List.not_mem_nil, List.Pairwise.nil⟩
    rename_i heof
    refine .step rfl ?_
    dsimp only
    split
    · exact .step rfl (.failed _ _)
    have htext : c₁.current.kind.isText = true := isText_of_skipped (by simp) hc₁ heof
    refine ((blocks source n).statement h₁ htext).bind fun s c₂ hs => ?_
    refine (ih hs.ahead).bind fun ss d hss => .pure ?_
    refine ⟨List.forall_mem_cons.2 ⟨?_, fun t ht => ?_⟩, ?_⟩
    · exact hs.lies.within hs.lies.inside.start hs.lies.inside.stopBoundary.le_utf8ByteSize
    · refine (hss.1 t ht).widen ?_ (Nat.le_refl _)
      exact Nat.le_trans hs.lies.inside.start hs.lies.inside.ordered
    · exact List.pairwise_cons.2 ⟨fun t ht => (hss.1 t ht).inside.start, hss.2⟩

theorem parse_lies {body : List Stmt} (h : parse source = .ok body)
    (hsize : source.utf8ByteSize < UInt32.size) :
    (∀ s ∈ body, (Node.stmt s).Lies source ⟨0, source.utf8ByteSize⟩) ∧ InOrder body := by
  unfold parse at h
  split at h
  · rename_i tokens htokens
    have htile := tokens_tile htokens hsize
    have hahead : Ahead source 0 tokens := ⟨htile.stands, htile.ordered⟩
    unfold ofTokens at h
    generalize hrun : statements (nestingBound tokens.length) ⟨.origin, tokens⟩ = r at h
    cases r with
    | error e => cases h
    | ok r =>
      cases h
      exact statements_gives _ hahead r.1 r.2 hrun
  · cases h

/-- A node of the syntax trees of a body. -/
inductive InTree (body : List Stmt) : Node → Prop where
  | top {s : Stmt} : s ∈ body → InTree body (.stmt s)
  | child {n m : Node} : InTree body n → m ∈ n.children → InTree body m

/-- The span of a node lies in the source and covers the spans of the nodes right below it. The
statements of its bodies are in order. -/
structure Node.WellPlaced (source : String) (n : Node) : Prop where
  inside : n.span.Inside source ⟨0, source.utf8ByteSize⟩
  covered : ∀ m ∈ n.children, m.span.Inside source n.span
  ordered : ∀ body ∈ n.bodies, InOrder body

theorem InTree.lies {body : List Stmt} {outer : Span} {m : Node} (hm : InTree body m)
    (h : ∀ s ∈ body, (Node.stmt s).Lies source outer) : m.Lies source outer := by
  induction hm with
  | top hs => exact h _ hs
  | child _ hk ih =>
    obtain ⟨hinside, ⟨hcovered, -, hdeep⟩⟩ := ih
    exact Node.Lies.widen ⟨hcovered _ hk, hdeep _ hk⟩ hinside.start hinside.stop

/-- In a source of less than four gigabytes that parses, every node is well placed, and so are the
statements on the outermost level. -/
theorem spans_nest {body : List Stmt} (h : parse source = .ok body)
    (hsize : source.utf8ByteSize < UInt32.size) :
    InOrder body ∧ ∀ m, InTree body m → m.WellPlaced source := by
  obtain ⟨hlies, hordered⟩ := parse_lies h hsize
  refine ⟨hordered, fun m hm => ?_⟩
  obtain ⟨hinside, ⟨hcovered, hbodies, -⟩⟩ := hm.lies hlies
  exact ⟨hinside, hcovered, hbodies⟩

/-- A source with letters of two bytes, line ends before alternatives and in a dictionary, an
expression and a yield in parentheses, and no line end at its end. -/
def nestedSource : String :=
  "class A(B) \x7b def f(x, *, é = (1)) \x7b\nif x \x7b return -x \x7d\n\nelif é \x7b é = 'ü'; " ++
  "é += (yield x) + 1 \x7d\nelse \x7b g(x)[0].z, d = \x7b 'a':\n2,\n\x7d, 3 \x7d \x7d \x7d\n" ++
  "while True \x7b break \x7d"

theorem spans_nest_nestedSource : nestedSource.utf8ByteSize < UInt32.size ∧ ∃ body,
    parse nestedSource = .ok body ∧ body.length = 2 ∧ InOrder body ∧
      ∀ m, InTree body m → m.WellPlaced nestedSource := by
  have hparse : (parse nestedSource).toOption.any (·.length == 2) = true := by decide +kernel
  have hsize : nestedSource.utf8ByteSize < UInt32.size := by decide +kernel
  cases hbody : parse nestedSource with
  | error e =>
    rw [hbody] at hparse
    cases hparse
  | ok body =>
    rw [hbody] at hparse
    exact ⟨hsize, body, rfl, beq_iff_eq.1 hparse, spans_nest hbody hsize⟩

end Trees

end Lexiscope.Grammar
