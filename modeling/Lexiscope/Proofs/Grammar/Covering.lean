import Lexiscope.Proofs.Grammar.Items
import Lexiscope.Proofs.Grammar.Spans
/-!
# Expressions cover their parts

Every parser of expressions reads a node from where its first token stands, with all its parts below
it. What the parser of each level relies on is the same for the parsers that it calls.
-/

namespace Lexiscope.Grammar

open Text (Span)
open Lexiscope.Grammar.Parser

/-- What the parser makes lies where its tokens stand. -/
def Parser.Nests (source : String) (g : Parser Expr) : Prop :=
  ∀ ⦃p c⦄, Ahead source p c.rest →
    g.Gives c fun e d => Read source p c.current.span.stop (.expr e) d

/-- What the parser makes lies where its tokens stand, if it takes any. -/
def Parser.Lists (source : String) (g : Parser (List Expr)) : Prop :=
  ∀ ⦃p c⦄, Stands source p c →
    g.Gives c fun es d => Through source p c.previous.stop (es.map .expr) d

/-- The expression has two parts and covers both. -/
structure Joins (f : Expr → Expr → Expr) : Prop where
  span : ∀ l r, (f l r).span = l.span.merge r.span
  parts : ∀ l r, (f l r).parts = [l, r]

def argumentNodes (args : List Expr) (keywords : List (Name × Expr)) : List Node :=
  (args ++ keywords.map (·.2)).map .expr

def entryNodes (entries : List (Expr × Expr)) : List Node :=
  (entries.flatMap fun entry => [entry.1, entry.2]).map .expr

section Made

variable {source : String} {p p' q r r' : Nat} {e k l : Expr} {ns : List Node} {c c₁ c₂ d : Cursor}
  {f : Expr → Expr → Expr}

theorem Read.trailed (he : Read source p r (.expr e) c) (h : Through source p' c.previous.stop ns d)
    (hp : p ≤ p') (hspan : k.span = e.span.merge d.previous)
    (hchildren : (Node.expr k).children = .expr e :: ns) : Read source p r (.expr k) d := by
  have hinside := he.lies.inside
  have hd : e.span.stop ≤ d.previous.stop := Nat.le_trans hinside.stop h.le
  have hthrough : Through source p' e.span.start (.expr e :: ns) d := by
    refine ⟨List.forall_mem_cons.2 ⟨he.lies.within (Nat.le_refl _) hd, fun n hn => ?_⟩, h.stands,
      Nat.le_trans hinside.ordered hd⟩
    exact (h.lie n hn).widen (Nat.le_trans hinside.ordered hinside.stop) (Nat.le_refl _)
  exact .closed (hinside.within hinside.start hd) hthrough hp (Nat.le_refl _)
    (Nat.le_trans he.reach h.le) hspan hchildren fun _ h => absurd h List.not_mem_nil

theorem Read.enclosedExpr (hc : Stands source p c) (h : Through source p' c.previous.stop ns d)
    (hp : p ≤ p') (hspan : e.span = c.previous.merge d.previous)
    (hchildren : (Node.expr e).children = ns) : Read source p c.previous.stop (.expr e) d :=
  .enclosed hc h hp hspan hchildren fun _ h => absurd h List.not_mem_nil

theorem Read.leaf (hc : Stands source p c) (hspan : e.span = c.previous) (hparts : e.parts = []) :
    Read source p c.previous.stop (.expr e) c := by
  refine ⟨.leaf ?_ hparts, hc, Nat.le_refl _⟩
  rw [hspan]
  exact hc.previous

theorem Read.prefixed (hc : Stands source p c) (hk : Read source c.previous.stop r (.expr k) d)
    (hspan : e.span = c.previous.merge k.span) (hparts : e.parts = [k]) :
    Read source p c.previous.stop (.expr e) d := by
  have hinside := hk.lies.inside
  have hle := hk.stands.le
  refine ⟨.madeExpr hspan (hc.previous.within hc.previous.start hle) ?_ ?_,
    hk.stands.mono hc.le, hle⟩
  · exact hinside.within (Nat.le_trans hc.le hinside.start) hinside.stop
  · rw [hparts]
    refine List.forall_mem_singleton.2 (hk.lies.within ?_ (Nat.le_refl _))
    exact Nat.le_trans hc.previous.ordered hinside.start

theorem Read.across (hl : Read source p r (.expr l) c₁)
    (h : Through source p' c₁.previous.stop ns c₂)
    (hk : Read source c₂.previous.stop r' (.expr k) d) (hspan : e.span = l.span.merge k.span)
    (hparts : ∀ x ∈ e.parts, x = l ∨ .expr x ∈ ns ∨ x = k) : Read source p r (.expr e) d := by
  have hleft := hl.lies.inside
  have hright := hk.lies.inside
  have hp : p ≤ c₂.previous.stop := Nat.le_trans hl.stands.le h.le
  have hd : c₁.previous.stop ≤ d.previous.stop := Nat.le_trans h.le hk.stands.le
  have hlk : l.span.stop ≤ k.span.start :=
    Nat.le_trans hleft.stop (Nat.le_trans h.le hright.start)
  refine ⟨.madeExpr hspan ?_ ?_ fun x hx => ?_, hk.stands.mono hp, Nat.le_trans hl.reach hd⟩
  · exact hleft.within hleft.start (Nat.le_trans hleft.stop hd)
  · exact hright.within (Nat.le_trans hp hright.start) hright.stop
  · rcases hparts x hx with rfl | hx | rfl
    · exact hl.lies.within (Nat.le_refl _) (Nat.le_trans hlk hright.ordered)
    · refine (h.lie _ hx).widen (Nat.le_trans hleft.ordered hleft.stop) ?_
      exact Nat.le_trans hright.start hright.ordered
    · exact hk.lies.within (Nat.le_trans hleft.ordered hlk) (Nat.le_refl _)

theorem Read.join (hf : Joins f) (hl : Read source p r (.expr l) c₁)
    (hc : Stands source c₁.previous.stop c₂) (hk : Read source c₂.previous.stop r' (.expr k) d) :
    Read source p r (.expr (f l k)) d := by
  refine .across hl (.nil hc hc.le) hk (hf.span l k) fun x hx => ?_
  rw [hf.parts] at hx
  rcases List.mem_pair.1 hx with rfl | rfl
  · exact .inl rfl
  · exact .inr (.inr rfl)

end Made

/-- The operators of a level join two operands, and each of them is a token with text. -/
def Combines (combine? : TokenKind → Option (Expr → Expr → Expr)) : Prop :=
  ∀ k f, combine? k = some f → k.isText = true ∧ Joins f

theorem joins_join {make : Expr → Expr → Span → Expr} (hspan : ∀ l r s, (make l r s).span = s)
    (hparts : ∀ l r s, (make l r s).parts = [l, r]) : Joins (Expr.join make) :=
  ⟨fun l r => hspan l r _, fun l r => hparts l r _⟩

theorem combines_productOp : Combines productOp? := by
  intro k f h
  unfold productOp? at h
  split at h <;> cases h <;> exact ⟨rfl, joins_join (fun _ _ _ => rfl) fun _ _ _ => rfl⟩

theorem combines_sumOp : Combines sumOp? := by
  intro k f h
  unfold sumOp? at h
  split at h <;> cases h <;> exact ⟨rfl, joins_join (fun _ _ _ => rfl) fun _ _ _ => rfl⟩

theorem combines_andOp : Combines andOp? := by
  intro k f h
  unfold andOp? at h
  split at h <;> cases h
  exact ⟨rfl, joins_join (fun _ _ _ => rfl) fun _ _ _ => rfl⟩

theorem combines_orOp : Combines orOp? := by
  intro k f h
  unfold orOp? at h
  split at h <;> cases h
  exact ⟨rfl, joins_join (fun _ _ _ => rfl) fun _ _ _ => rfl⟩

theorem isText_of_compareOp {first second : TokenKind} {op : CompareOp} {takesBoth : Bool}
    (h : compareOp? first second = some (op, takesBoth)) :
    first.isText = true ∧ (takesBoth = true → second.isText = true) := by
  unfold compareOp? at h
  split at h
  case h_8 =>
    split at h
    · rename_i hin
      cases h
      exact ⟨rfl, fun _ => isText_of_isMark hin rfl⟩
    · cases h
  case h_9 =>
    split at h
    · rename_i hnot
      cases h
      exact ⟨rfl, fun _ => isText_of_isMark hnot rfl⟩
    · cases h
      exact ⟨rfl, fun h => absurd h Bool.false_ne_true⟩
  all_goals
    cases h
    try exact ⟨rfl, fun h => absurd h Bool.false_ne_true⟩

theorem isText_of_signOp {k : TokenKind} {op : UnaryOp} (h : signOp? k = some op) :
    k.isText = true := by
  unfold signOp? at h
  split at h <;> first | rfl | cases h

section Levels

variable {source : String} {factor : Parser Expr}

theorem leftChain_gives {combine? : TokenKind → Option (Expr → Expr → Expr)}
    (hcombine : Combines combine?) (hfactor : factor.Nests source) {p r : Nat} (n : Nat) :
    ∀ {e : Expr} {c : Cursor}, Read source p r (.expr e) c →
      (leftChain combine? factor n e).Gives c fun e d => Read source p r (.expr e) d := by
  induction n with
  | zero => exact fun _ => .tooDeep
  | succ n ih =>
    intro e c he
    unfold leftChain
    refine .step rfl ?_
    split
    · exact .pure he
    · rename_i f hf
      obtain ⟨htext, hjoins⟩ := hcombine _ f hf
      refine .advance he.stands.ahead htext fun c₁ h₁ _ => ?_
      refine (hfactor h₁.ahead).bind fun k d hk => ?_
      exact ih (.join hjoins he h₁ hk)

theorem chain_nests {combine? : TokenKind → Option (Expr → Expr → Expr)}
    (hcombine : Combines combine?) (hfactor : factor.Nests source) (n : Nat) :
    Nests source (do leftChain combine? factor n (← factor)) :=
  fun _ _ hc => (hfactor hc).bind fun _ _ => leftChain_gives hcombine hfactor n

theorem comparison_nests (hfactor : factor.Nests source) (n : Nat) :
    (Level.comparison factor n).Nests source := by
  have hproduct : (Level.product factor n).Nests source := chain_nests combines_productOp hfactor n
  have hsum : (Level.sum factor n).Nests source := chain_nests combines_sumOp hproduct n
  intro p c hc
  unfold Level.comparison
  refine (hsum hc).bind fun left c₁ hleft => ?_
  refine .step rfl (.step rfl ?_)
  split
  · exact .pure hleft
  · rename_i op takesBoth hop
    obtain ⟨hfirst, hsecond⟩ := isText_of_compareOp hop
    have hjoins : Joins (Expr.join (.compare op)) := joins_join (fun _ _ _ => rfl) fun _ _ _ => rfl
    dsimp only
    split
    · obtain ⟨h₂, -⟩ := hleft.stands.ahead.take hfirst
      refine .step rfl (.advance h₂.ahead (hsecond ‹_›) fun c₃ h₃ _ => ?_)
      refine (hsum h₃.ahead).bind fun right d hright => ?_
      exact .pure (.join hjoins hleft (h₃.mono h₂.le) hright)
    · refine .advance hleft.stands.ahead hfirst fun c₂ h₂ _ => ?_
      refine (hsum h₂.ahead).bind fun right d hright => ?_
      exact .pure (.join hjoins hleft h₂ hright)

theorem negation_nests (hfactor : factor.Nests source) (n : Nat) :
    (Level.negation factor n).Nests source := by
  induction n with
  | zero => exact fun _ _ _ => .tooDeep
  | succ n ih =>
    intro p c hc
    unfold Level.negation
    refine .step rfl ?_
    split
    · rename_i hnot
      refine .advance hc (isText_of_isMark hnot rfl) fun c₁ h₁ hc₁ => ?_
      refine (ih h₁.ahead).bind fun operand d hoperand => ?_
      rw [← hc₁]
      exact .pure (.prefixed h₁ hoperand rfl rfl)
    · exact comparison_nests hfactor n hc

theorem disjunction_nests (hfactor : factor.Nests source) (n : Nat) :
    (Level.disjunction factor n).Nests source :=
  chain_nests combines_orOp (chain_nests combines_andOp (negation_nests hfactor n) n) n

end Levels

/-- What the parsers of expressions make lies where its tokens stand. -/
structure Nesting (source : String) (n : Nat) : Prop where
  expression : (expression n).Nests source
  signed : (signed n).Nests source
  awaited : (awaited n).Nests source
  operand : (operand n).Nests source
  trailers : ∀ ⦃p r e c⦄, Read source p r (.expr e) c →
    (trailers n e).Gives c fun e d => Read source p r (.expr e) d
  arguments : ∀ ⦃p q args keywords c⦄, Through source p q (argumentNodes args keywords) c →
    (arguments n args keywords).Gives c fun given d =>
      Through source p q (argumentNodes given.1 given.2) d
  atom : (atom n).Nests source
  parenthesised : ∀ ⦃p c⦄, Stands source p c →
    (parenthesised n c.previous).Gives c fun e d => Read source p c.previous.stop (.expr e) d
  sequence : ∀ close, (sequence n close).Lists source
  dictEntries : ∀ ⦃p c⦄, Stands source p c → (dictEntries n).Gives c fun entries d =>
    Through source p c.previous.stop (entryNodes entries) d
  expressionList : (expressionList n).Nests source
  moreItems : (moreItems n).Lists source
  yielded : (yielded n).Nests source

section Expressions

variable {source : String} {n : Nat}

theorem Nesting.zero : Nesting source 0 where
  expression _ _ _ := .tooDeep
  signed _ _ _ := .tooDeep
  awaited _ _ _ := .tooDeep
  operand _ _ _ := .tooDeep
  trailers _ _ _ _ _ := .tooDeep
  arguments _ _ _ _ _ _ := .tooDeep
  atom _ _ _ := .tooDeep
  parenthesised _ _ _ := .tooDeep
  sequence _ _ _ _ := .tooDeep
  dictEntries _ _ _ := .tooDeep
  expressionList _ _ _ := .tooDeep
  moreItems _ _ _ := .tooDeep
  yielded _ _ _ := .tooDeep

theorem adjacentStrings_through {p : Nat} (rest : List Token) :
    ∀ {text : String} {previous : Span}, Stands source p ⟨previous, rest⟩ →
      Through source p previous.stop [] (adjacentStrings text rest previous).2 := by
  induction rest with
  | nil => exact fun hc => .nil hc (Nat.le_refl _)
  | cons t ts ih =>
    intro text previous hc
    obtain ⟨k, span⟩ := t
    cases k with
    | str more =>
      obtain ⟨hnext, -⟩ := hc.ahead.take rfl
      have hmore := @ih (text ++ more) span (hnext.mono hc.le)
      exact .nil hmore.stands (Nat.le_trans hnext.le hmore.le)
    | _ => exact .nil hc (Nat.le_refl _)

theorem joinStrings_gives (text : String) {p : Nat} {c : Cursor} (hc : Stands source p c) :
    (joinStrings text).Gives c fun _ d => Through source p c.previous.stop [] d := by
  intro _ d hd
  obtain rfl : (adjacentStrings text c.rest c.previous).2 = d :=
    congrArg Prod.snd (Except.ok.inj hd)
  exact adjacentStrings_through c.rest hc

variable (h : Nesting source n)
include h

theorem expression_nests : (expression (n + 1)).Nests source := by
  have hdisjunction : (Level.disjunction (signed n) n).Nests source := disjunction_nests h.signed n
  intro p c hc
  unfold expression
  refine (hdisjunction hc).bind fun body c₁ hbody => ?_
  refine .accept hbody.stands.ahead rfl (fun c₂ h₂ _ => ?_) (.pure hbody)
  refine (hdisjunction h₂.ahead).bind fun test c₃ htest => ?_
  refine .expect htest.stands.ahead rfl fun c₄ h₄ _ => ?_
  refine (h.expression h₄.ahead).bind fun orelse d horelse => .pure ?_
  have htests : Through source c₁.previous.stop c₁.previous.stop [.expr test] c₄ :=
    ((Through.single htest h₂.le).mono (Nat.le_refl _) h₂.le).token h₄
  refine .across hbody htests horelse rfl ?_
  simp [Expr.parts, or_left_comm]

theorem signed_nests : (signed (n + 1)).Nests source := by
  intro p c hc
  unfold signed
  refine .step rfl ?_
  split
  · rename_i op hop
    refine .advance hc (isText_of_signOp hop) fun c₁ h₁ hc₁ => ?_
    refine (h.signed h₁.ahead).bind fun operand d hoperand => .pure ?_
    rw [← hc₁]
    exact .prefixed h₁ hoperand rfl rfl
  · refine (h.awaited hc).bind fun base c₁ hbase => ?_
    refine .accept hbase.stands.ahead rfl (fun c₂ h₂ _ => ?_) (.pure hbase)
    refine (h.signed h₂.ahead).bind fun exponent d hexponent => .pure ?_
    exact .join (joins_join (fun _ _ _ => rfl) fun _ _ _ => rfl) hbase h₂ hexponent

theorem awaited_nests : (awaited (n + 1)).Nests source := by
  intro p c hc
  unfold awaited
  refine .step rfl ?_
  split
  · rename_i hawait
    refine .advance hc (isText_of_isMark hawait rfl) fun c₁ h₁ hc₁ => ?_
    refine (h.awaited h₁.ahead).bind fun value d hvalue => .pure ?_
    rw [← hc₁]
    exact .prefixed h₁ hvalue rfl rfl
  · exact h.operand hc

theorem operand_nests : (operand (n + 1)).Nests source := by
  intro p c hc
  unfold operand
  exact (h.atom hc).bind fun _ _ he => h.trailers he

theorem trailers_gives {p r : Nat} {e : Expr} {c : Cursor} (he : Read source p r (.expr e) c) :
    (trailers (n + 1) e).Gives c fun e d => Read source p r (.expr e) d := by
  unfold trailers
  refine .step rfl ?_
  split
  · rename_i hkind
    refine .advance he.stands.ahead (by rw [hkind]; rfl) fun c₁ h₁ _ => ?_
    refine (h.arguments (.nil h₁ h₁.le)).bind fun given c₂ h₂ => ?_
    dsimp only
    refine .expect h₂.stands.ahead rfl fun c₃ h₃ _ => h.trailers ?_
    exact .trailed he (h₂.token h₃) he.stands.le rfl rfl
  · rename_i hkind
    refine .advance he.stands.ahead (by rw [hkind]; rfl) fun c₁ h₁ _ => ?_
    refine .identifier h₁.ahead fun attr c₂ h₂ _ => .step rfl (h.trailers ?_)
    exact .trailed he ((Through.nil h₁ h₁.le).token h₂) he.stands.le rfl rfl
  · rename_i hkind
    refine .advance he.stands.ahead (by rw [hkind]; rfl) fun c₁ h₁ _ => ?_
    refine (h.expressionList h₁.ahead).bind fun index c₂ hindex => ?_
    refine .expect hindex.stands.ahead rfl fun c₃ h₃ _ => h.trailers ?_
    have hindices := (Through.single hindex h₁.le).mono (Nat.le_refl _) h₁.le
    exact .trailed he (hindices.token h₃) he.stands.le rfl rfl
  · exact .pure he

theorem arguments_gives {p q : Nat} {args : List Expr} {keywords : List (Name × Expr)} {c : Cursor}
    (hgiven : Through source p q (argumentNodes args keywords) c) :
    (arguments (n + 1) args keywords).Gives c fun given d =>
      Through source p q (argumentNodes given.1 given.2) d := by
  have hnext : ∀ {args : List Expr} {keywords : List (Name × Expr)} {c : Cursor},
      Through source p q (argumentNodes args keywords) c →
      (do if ← accept .comma then arguments n args keywords else return (args, keywords) :
        Parser (List Expr × List (Name × Expr))).Gives c fun given d =>
          Through source p q (argumentNodes given.1 given.2) d := fun hgiven =>
    .accept hgiven.stands.ahead rfl (fun _ hc _ => h.arguments (hgiven.token hc)) (.pure hgiven)
  unfold arguments
  refine .step rfl ?_
  split
  · exact .pure hgiven
  refine .step rfl (.step rfl ?_)
  split
  · rename_i name _ hname hassign
    obtain ⟨h₁, -⟩ := hgiven.stands.ahead.take (by rw [hname]; rfl)
    refine .step rfl (.advance h₁.ahead (isText_of_isMark hassign rfl) fun c₂ h₂ _ => ?_)
    dsimp only
    split
    · exact .failed _ _
    · refine (h.expression h₂.ahead).bind fun value d hvalue => hnext ?_
      refine (hgiven.add hvalue (Nat.le_trans h₁.le h₂.le)).subset ?_
      simp [argumentNodes]
  · refine (h.expression hgiven.stands.ahead).bind fun arg d harg => ?_
    dsimp only
    split
    · exact .failed _ _
    · refine hnext ((hgiven.add harg (Nat.le_refl _)).subset ?_)
      simp [argumentNodes]

theorem atom_nests : (atom (n + 1)).Nests source := by
  intro p c hc
  unfold atom
  cases htext : c.current.kind.isText with
  | false =>
    refine .step rfl ?_
    rcases eq_of_not_isText htext with hkind | hkind <;>
    · rw [hkind]
      exact .fail _ _
  | true =>
    refine .advance hc htext fun c₁ h₁ hc₁ => ?_
    rw [← hc₁]
    dsimp only
    split
    · exact .pure (.leaf h₁ rfl rfl)
    · exact .pure (.leaf h₁ rfl rfl)
    · exact .pure (.leaf h₁ rfl rfl)
    · refine (joinStrings_gives _ h₁).bind fun text d hd => .step rfl (.pure ?_)
      exact .enclosedExpr h₁ hd (Nat.le_refl _) rfl rfl
    · exact .pure (.leaf h₁ rfl rfl)
    · exact .pure (.leaf h₁ rfl rfl)
    · exact .pure (.leaf h₁ rfl rfl)
    · exact .pure (.leaf h₁ rfl rfl)
    · exact h.parenthesised h₁
    · refine (h.sequence .rbracket h₁).bind fun items c₂ hitems => ?_
      refine .expect hitems.stands.ahead rfl fun d hd _ => .step rfl (.pure ?_)
      exact .enclosedExpr h₁ (hitems.token hd) (Nat.le_refl _) rfl rfl
    · refine (h.dictEntries h₁).bind fun entries d hentries => .step rfl (.pure ?_)
      exact .enclosedExpr h₁ hentries (Nat.le_refl _) rfl rfl
    · exact .fail _ _

theorem parenthesised_gives {p : Nat} {c : Cursor} (hc : Stands source p c) :
    (parenthesised (n + 1) c.previous).Gives c fun e d =>
      Read source p c.previous.stop (.expr e) d := by
  unfold parenthesised
  refine .accept hc.ahead rfl (fun d hd _ => .step rfl (.pure ?_)) (.step rfl ?_)
  · exact .enclosedExpr hc (.nil hd hd.le) hc.le rfl rfl
  split
  · refine (h.yielded hc.ahead).bind fun inner c₁ hinner => ?_
    refine .expect hinner.stands.ahead rfl fun d hd _ => .pure ?_
    -- The parentheses are taken, but the `yield` keeps its own span.
    have hle : c.previous.stop ≤ d.previous.stop := Nat.le_trans hinner.stands.le hd.le
    exact ⟨hinner.lies.widen hc.le hd.le, hd.mono (Nat.le_trans hc.le hinner.stands.le), hle⟩
  refine (h.expression hc.ahead).bind fun first c₁ hfirst => ?_
  refine .accept hfirst.stands.ahead rfl (fun d hd _ => .step rfl (.pure ?_)) ?_
  · have hle : c.previous.stop ≤ d.previous.stop := Nat.le_trans hfirst.stands.le hd.le
    have hd' : Stands source p d := hd.mono (Nat.le_trans hc.le hfirst.stands.le)
    refine ⟨hfirst.lies.withSpan ?_ hd'.previous hc.previous.ordered hd.le, hd', hle⟩
    exact hc.previous.within hc.previous.start hle
  refine .expect hfirst.stands.ahead rfl fun c₂ h₂ _ => ?_
  refine (h.sequence .rparen h₂).bind fun items c₃ hitems => ?_
  refine .expect hitems.stands.ahead rfl fun d hd _ => .step rfl (.pure ?_)
  have hparts := (Through.single hfirst hc.le).append hitems
    (Nat.le_trans hc.le hfirst.stands.le) h₂.le
  exact .enclosedExpr hc (hparts.token hd) (Nat.le_refl _) rfl rfl

theorem sequence_lists (close : Mark) : (sequence (n + 1) close).Lists source := by
  intro p c hc
  unfold sequence
  refine .step rfl ?_
  split
  · exact .pure (.nil hc (Nat.le_refl _))
  refine (h.expression hc.ahead).bind fun item c₁ hitem => ?_
  have hfirst := Through.single hitem hc.le
  refine .accept hitem.stands.ahead rfl (fun c₂ h₂ _ => ?_) (.pure hfirst)
  refine (h.sequence close h₂).bind fun items d hitems => .pure ?_
  exact hfirst.append hitems (Nat.le_trans hc.le hitem.stands.le) h₂.le

theorem dictEntries_gives {p : Nat} {c : Cursor} (hc : Stands source p c) :
    (dictEntries (n + 1)).Gives c fun entries d =>
      Through source p c.previous.stop (entryNodes entries) d := by
  unfold dictEntries
  -- A line end may be the token taken last: offsets are counted from the last token before it.
  refine .skip hc.ahead fun c₁ h₁ _ => .accept h₁ rfl (fun d hd _ => .pure ?_) ?_
  · exact .nil (hd.mono hc.le) hd.le
  refine (h.expression h₁).bind fun key c₂ hkey => ?_
  refine .skip hkey.stands.ahead fun c₃ h₃ _ => .expect h₃ rfl fun c₄ h₄ _ => ?_
  refine .skip h₄.ahead fun c₅ h₅ _ => (h.expression h₅).bind fun value c₆ hvalue => ?_
  have hentry := (Through.single hkey hc.le).add hvalue h₄.le
  refine .skip hvalue.stands.ahead fun c₇ h₇ _ => ?_
  refine .accept h₇ rfl (fun c₈ h₈ _ => ?_) (.expect h₇ rfl fun d hd _ => .pure (hentry.token hd))
  refine (h.dictEntries h₈).bind fun entries d hentries => .pure ?_
  exact (hentry.token h₈).append hentries hentry.stands.le (Nat.le_refl _)

theorem expressionList_nests : (expressionList (n + 1)).Nests source := by
  intro p c hc
  unfold expressionList
  refine (h.expression hc).bind fun first c₁ hfirst => .step rfl ?_
  split
  · refine (h.moreItems hfirst.stands).bind fun items d hitems => .step rfl (.pure ?_)
    exact .trailed hfirst hitems (Nat.le_refl _) rfl rfl
  · exact .pure hfirst

theorem moreItems_lists : (moreItems (n + 1)).Lists source := by
  intro p c hc
  unfold moreItems
  refine .accept hc.ahead rfl (fun c₁ h₁ _ => .step rfl ?_) (.pure (.nil hc (Nat.le_refl _)))
  split
  · refine (h.expression h₁.ahead).bind fun item c₂ hitem => ?_
    refine (h.moreItems hitem.stands).bind fun items d hitems => .pure ?_
    exact .cons hitem hitems (Nat.le_trans hc.le h₁.le) h₁.le
  · exact .pure (.nil (h₁.mono hc.le) h₁.le)

theorem yielded_nests : (yielded (n + 1)).Nests source := by
  intro p c hc
  unfold yielded
  refine .expect hc rfl fun c₁ h₁ hc₁ => .step rfl ?_
  rw [← hc₁]
  split
  · refine (h.expressionList h₁.ahead).bind fun value d hvalue => .step rfl (.pure ?_)
    exact .enclosedExpr h₁ (.single hvalue (Nat.le_refl _)) h₁.le rfl rfl
  · exact .step rfl (.pure (.enclosedExpr h₁ (.nil h₁ (Nat.le_refl _)) (Nat.le_refl _) rfl rfl))

omit h in
theorem nesting (source : String) (n : Nat) : Nesting source n := by
  induction n with
  | zero => exact .zero
  | succ n h =>
    exact {
      expression := expression_nests h
      signed := signed_nests h
      awaited := awaited_nests h
      operand := operand_nests h
      trailers := fun _ _ _ _ => trailers_gives h
      arguments := fun _ _ _ _ _ => arguments_gives h
      atom := atom_nests h
      parenthesised := fun _ _ => parenthesised_gives h
      sequence := sequence_lists h
      dictEntries := fun _ _ => dictEntries_gives h
      expressionList := expressionList_nests h
      moreItems := moreItems_lists h
      yielded := yielded_nests h }

end Expressions

end Lexiscope.Grammar
