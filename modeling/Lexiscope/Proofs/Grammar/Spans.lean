import Lexiscope.Proofs.Grammar.Taking
import Lexiscope.Proofs.Grammar.Tiling
/-!
# Spans of what is read

The parser makes a node from where its first token or its first part stands up to where the token
taken last, or its last part, ends. All that the node is made of is read in between: so its span
covers the spans of its parts, if the tokens stand in the source one after the other.
-/

namespace Lexiscope

namespace Text.Span

/-- A span from one character boundary of a source to another, within another span. -/
structure Inside (source : String) (s outer : Span) : Prop where
  start : outer.start ≤ s.start
  ordered : s.start ≤ s.stop
  stop : s.stop ≤ outer.stop
  startBoundary : (⟨s.start⟩ : String.Pos.Raw).IsValid source
  stopBoundary : (⟨s.stop⟩ : String.Pos.Raw).IsValid source

namespace Inside

variable {source : String} {outer outer' s t : Span}

theorem within (h : s.Inside source outer) (hstart : outer'.start ≤ s.start)
    (hstop : s.stop ≤ outer'.stop) : s.Inside source outer' :=
  { h with start := hstart, stop := hstop }

theorem merge (hs : s.Inside source outer) (ht : t.Inside source outer) :
    (s.merge t).Inside source outer where
  start := Nat.le_min.2 ⟨hs.start, ht.start⟩
  ordered := Nat.le_trans (Nat.min_le_left _ _) (Nat.le_trans hs.ordered (Nat.le_max_left _ _))
  stop := Nat.max_le.2 ⟨hs.stop, ht.stop⟩
  startBoundary := by
    rcases Nat.le_total s.start t.start with h | h
    · rw [Span.merge, Nat.min_eq_left h]
      exact hs.startBoundary
    · rw [Span.merge, Nat.min_eq_right h]
      exact ht.startBoundary
  stopBoundary := by
    rcases Nat.le_total s.stop t.stop with h | h
    · rw [Span.merge, Nat.max_eq_right h]
      exact ht.stopBoundary
    · rw [Span.merge, Nat.max_eq_left h]
      exact hs.stopBoundary

end Inside

end Text.Span

namespace Grammar

open Text (Span byteLength)
open Lexiscope.Grammar.Parser

def Expr.parts : Expr → List Expr
  | .list items _ | .tuple items _ => items
  | .dict entries _ => entries.flatMap fun entry => [entry.1, entry.2]
  | .member value _ _ | .unary _ value _ | .await value _ => [value]
  | .subscript value index _ => [value, index]
  | .call callee args keywords _ => callee :: (args ++ keywords.map (·.2))
  | .binary _ left right _ | .compare _ left right _ | .boolean _ left right _ => [left, right]
  | .conditional test body orelse _ => [test, body, orelse]
  | .yield value _ => value.toList
  | .none _ | .ellipsis _ | .bool .. | .int .. | .float .. | .str .. | .name .. => []

/-- The expressions of a statement, but for those in its parameters and in its bodies. -/
def Stmt.exprs : Stmt → List Expr
  | .expr value _ | .raise value _ => [value]
  | .assign targets value _ => targets ++ [value]
  | .augAssign target _ value _ => [target, value]
  | .classDef _ bases _ _ => bases
  | .ret value _ => value.toList
  | .cond test _ _ _ | .loop test _ _ => [test]
  | .each target iter _ _ => [target, iter]
  | .assert test message _ => test :: message.toList
  | .define .. | .brk _ | .cont _ | .pass _ | .global .. | .nonlocal .. => []

def Stmt.params : Stmt → List Param
  | .define _ params _ _ _ => params.positional ++ params.keywordOnly
  | _ => []

def Stmt.bodies : Stmt → List (List Stmt)
  | .define _ _ body _ _ | .classDef _ _ body _ | .loop _ body _ | .each _ _ body _ => [body]
  | .cond _ body orelse _ => [body, orelse]
  | _ => []

/-- The nodes of a syntax tree. Functions and classes are statements. -/
inductive Node where
  | expr (e : Expr)
  | param (p : Param)
  | stmt (s : Stmt)

namespace Node

def span : Node → Span
  | expr e => e.span
  | param p => p.span
  | stmt s => s.span

def children : Node → List Node
  | expr e => e.parts.map expr
  | param p => p.default.toList.map expr
  | stmt s => s.exprs.map expr ++ s.params.map param ++ s.bodies.flatten.map stmt

def bodies : Node → List (List Stmt)
  | stmt s => s.bodies
  | _ => []

end Node

/-- The statements of a body follow each other in the source and do not overlap. -/
def InOrder (body : List Stmt) : Prop := body.Pairwise fun s t => s.span.stop ≤ t.span.start

/-- From a node downwards every node covers the nodes right below it, and the statements of every
body are in order. -/
inductive Node.Nested (source : String) : Node → Prop where
  | mk {n : Node} (covered : ∀ m ∈ n.children, m.span.Inside source n.span)
    (ordered : ∀ body ∈ n.bodies, InOrder body) (deep : ∀ m ∈ n.children, m.Nested source) :
    n.Nested source

/-- A node within a span, with all that is below it. -/
structure Node.Lies (source : String) (outer : Span) (n : Node) : Prop where
  inside : n.span.Inside source outer
  nested : n.Nested source

namespace Node.Lies

variable {source : String} {outer outer' s t : Span} {n : Node} {e : Expr}

theorem within (h : n.Lies source outer) (hstart : outer'.start ≤ n.span.start)
    (hstop : n.span.stop ≤ outer'.stop) : n.Lies source outer' :=
  ⟨h.inside.within hstart hstop, h.nested⟩

theorem widen (h : n.Lies source outer) (hstart : outer'.start ≤ outer.start)
    (hstop : outer.stop ≤ outer'.stop) : n.Lies source outer' :=
  h.within (Nat.le_trans hstart h.inside.start) (Nat.le_trans h.inside.stop hstop)

/-- A node is made between two spans, with all that it is made of in between. -/
theorem made (hspan : n.span = s.merge t) (hs : s.Inside source outer) (ht : t.Inside source outer)
    (hchildren : ∀ m ∈ n.children, m.Lies source ⟨s.start, t.stop⟩)
    (hbodies : ∀ body ∈ n.bodies, InOrder body) : n.Lies source outer := by
  refine ⟨by rw [hspan]; exact hs.merge ht, .mk (fun m hm => ?_) hbodies fun m hm => ?_⟩
  · rw [hspan]
    have hm : m.Lies source (s.merge t) :=
      (hchildren m hm).widen (Nat.min_le_left _ _) (Nat.le_max_right _ _)
    exact hm.inside
  · exact (hchildren m hm).nested

theorem madeExpr (hspan : e.span = s.merge t) (hs : s.Inside source outer)
    (ht : t.Inside source outer)
    (hparts : ∀ k ∈ e.parts, (expr k).Lies source ⟨s.start, t.stop⟩) : (expr e).Lies source outer :=
  made hspan hs ht (List.forall_mem_map.2 hparts) fun _ h => absurd h List.not_mem_nil

theorem leaf (hs : e.span.Inside source outer) (hparts : e.parts = []) :
    (expr e).Lies source outer := by
  have hchildren : (expr e).children = [] := congrArg (List.map expr) hparts
  refine ⟨hs, .mk ?_ (fun _ h => absurd h List.not_mem_nil) ?_⟩ <;>
    exact fun m hm => absurd (hchildren ▸ hm) List.not_mem_nil

theorem withSpan (h : (expr e).Lies source outer) (hs : s.Inside source outer')
    (ht : t.Inside source outer') (hstart : s.start ≤ outer.start) (hstop : outer.stop ≤ t.stop) :
    (expr (e.withSpan (s.merge t))).Lies source outer' := by
  obtain ⟨hinside, ⟨hcovered, -, hdeep⟩⟩ := h
  have hspan : (e.withSpan (s.merge t)).span = s.merge t := by cases e <;> rfl
  have hparts : (e.withSpan (s.merge t)).parts = e.parts := by cases e <;> rfl
  refine madeExpr hspan hs ht fun k hk => ?_
  rw [hparts] at hk
  have hmem : expr k ∈ (expr e).children := List.mem_map_of_mem hk
  have hk : (expr k).Lies source e.span := ⟨hcovered _ hmem, hdeep _ hmem⟩
  exact hk.widen (Nat.le_trans hstart hinside.start) (Nat.le_trans hinside.stop hstop)

end Node.Lies

/-- The tokens with text stand in the source one after the other from an offset on. -/
structure Ahead (source : String) (p : Nat) (ts : List Token) : Prop where
  stands : ∀ t ∈ ts, t.kind.isText = true →
    t.StandsIn source ∧ p ≤ t.span.start ∧ t.span.start < t.span.stop
  ordered : (ts.filter (·.kind.isText)).Pairwise fun t u => t.span.stop ≤ u.span.start

/-- The token taken last stands in the source from an offset on, and further ones come after it. -/
structure Stands (source : String) (p : Nat) (c : Cursor) : Prop where
  previous : c.previous.Inside source ⟨p, c.previous.stop⟩
  ahead : Ahead source c.previous.stop c.rest

section Cursors

variable {source : String} {p q : Nat} {t : Token} {ts us : List Token} {c d : Cursor}

theorem isValid_byteLength {before rest : List Char} (h : source.toList = before ++ rest) :
    (⟨byteLength before⟩ : String.Pos.Raw).IsValid source := by
  have hbefore : byteLength before = (String.ofList before).utf8ByteSize := by
    rw [← byteLength_toList, String.toList_ofList]
  refine String.Pos.Raw.isValid_iff_exists_append.2 ⟨.ofList before, .ofList rest, ?_, ?_⟩
  · rw [← String.ofList_append, ← h, String.ofList_toList]
  · rw [hbefore]
    rfl

theorem Token.StandsIn.inside (h : t.StandsIn source) :
    t.span.Inside source t.span := by
  obtain ⟨before, word, rest, hsource, hspan, -⟩ := h
  refine ⟨Nat.le_refl _, ?_, Nat.le_refl _, ?_, ?_⟩
  · rw [hspan, byteLength_append]
    exact Nat.le_add_right _ _
  · rw [hspan]
    exact isValid_byteLength (hsource.trans (List.append_assoc ..))
  · rw [hspan]
    exact isValid_byteLength hsource

theorem Ahead.sublist (h : Ahead source p ts) (hus : us.Sublist ts) : Ahead source p us where
  stands t ht := h.stands t (hus.subset ht)
  ordered := h.ordered.sublist (hus.filter _)

theorem Ahead.mono (h : Ahead source q ts) (hp : p ≤ q) : Ahead source p ts where
  stands t ht htext := by
    obtain ⟨hstands, hstart, hlt⟩ := h.stands t ht htext
    exact ⟨hstands, Nat.le_trans hp hstart, hlt⟩
  ordered := h.ordered

theorem Stands.le (h : Stands source p c) : p ≤ c.previous.stop :=
  Nat.le_trans h.previous.start h.previous.ordered

theorem Stands.mono (h : Stands source q c) (hp : p ≤ q) : Stands source p c :=
  ⟨h.previous.within (Nat.le_trans hp h.previous.start) (Nat.le_refl _), h.ahead⟩

theorem Ahead.take (h : Ahead source p c.rest) (htext : c.current.kind.isText = true) :
    Stands source p c.next ∧ c.next.previous = c.current.span := by
  obtain ⟨previous, rest⟩ := c
  cases rest with
  | nil => cases htext
  | cons t ts =>
    obtain ⟨hstands, hstart, hlt⟩ := h.stands t List.mem_cons_self htext
    refine ⟨⟨hstands.inside.within hstart (Nat.le_refl _), fun u hu hutext => ?_, ?_⟩, rfl⟩
    · obtain ⟨hu', -, hult⟩ := h.stands u (List.mem_cons_of_mem t hu) hutext
      have hordered := h.ordered
      rw [List.filter_cons_of_pos (by exact htext), List.pairwise_cons] at hordered
      exact ⟨hu', hordered.1 u (List.mem_filter.2 ⟨hu, hutext⟩), hult⟩
    · exact h.ordered.sublist ((List.sublist_cons_self t ts).filter _)

theorem Ahead.tight (h : Ahead source p c.rest) (htext : c.current.kind.isText = true) :
    Ahead source c.current.span.start c.rest := by
  obtain ⟨previous, rest⟩ := c
  cases rest with
  | nil => cases htext
  | cons t ts =>
    obtain ⟨hstands, -, hlt⟩ := h.stands t List.mem_cons_self htext
    obtain ⟨hnext, -⟩ := h.take htext
    refine ⟨List.forall_mem_cons.2 ⟨fun _ => ⟨hstands, Nat.le_refl _, hlt⟩, fun u hu hutext => ?_⟩,
      h.ordered⟩
    obtain ⟨hu, hle, hult⟩ := hnext.ahead.stands u hu hutext
    exact ⟨hu, Nat.le_trans (Nat.le_of_lt hlt) hle, hult⟩

theorem Ahead.next (hc : Ahead source p c.rest) : Ahead source p c.next.rest := by
  obtain ⟨previous, rest⟩ := c
  cases rest with
  | nil => exact hc
  | cons t ts => exact hc.sublist (List.sublist_cons_self t ts)

theorem isText_of_isMark {k : TokenKind} {m : Mark} (h : k.isMark m = true)
    (hm : (TokenKind.mark m).isText = true) : k.isText = true := by
  cases k with
  | mark m' => rwa [eq_of_beq h]
  | _ => rfl

/-- What the first token is that is none of the marks given. -/
def Cursor.kindAfter (marks : List Mark) (c : Cursor) : TokenKind :=
  ((c.rest.find? fun t => !marks.any t.kind.isMark).map (·.kind)).getD (.mark .eof)

theorem isMark_kindAfter {marks : List Mark} {m : Mark} (hm : m ∈ marks) (heof : m ≠ .eof) :
    (c.kindAfter marks).isMark m = false := by
  unfold Cursor.kindAfter
  cases hfind : c.rest.find? fun t => !marks.any t.kind.isMark with
  | none => exact beq_false_of_ne heof.symm
  | some t =>
    have hother : ¬ marks.any t.kind.isMark = true := by simpa using List.find?_some hfind
    exact Bool.eq_false_iff.2 fun h => hother (List.any_eq_true.2 ⟨m, hm, h⟩)

/-- Where no line end comes and no end of the source, a token with text comes. -/
theorem isText_of_skipped {marks : List Mark} {d : Cursor} (hmarks : .newline ∈ marks)
    (hd : d.current.kind = c.kindAfter marks) (heof : ¬ d.current.kind.isMark .eof = true) :
    d.current.kind.isText = true := by
  have hline : d.current.kind.isMark .newline = false := by
    rw [hd]
    exact isMark_kindAfter hmarks Mark.noConfusion
  simp [TokenKind.isText, hline, heof]

theorem kindAfterNewlines_run (c : Cursor) :
    kindAfterNewlines c = .ok (c.kindAfter [.newline], c) := by
  simp [kindAfterNewlines, Cursor.kindAfter]

theorem current_kind_eq (c : Cursor) :
    c.current.kind = (c.rest.head?.map (·.kind)).getD (.mark .eof) := by
  unfold Cursor.current
  cases c.rest <;> rfl

theorem head?_drop_takeWhile (f : Token → Bool) (ts : List Token) :
    (ts.drop (ts.takeWhile f).length).head? = ts.find? fun t => !f t := by
  induction ts with
  | nil => rfl
  | cons t ts ih => cases hf : f t <;> simp [hf, ih]

end Cursors

namespace Parser

namespace Gives

variable {α : Type} {P : α → Cursor → Prop} {c : Cursor} {source : String} {p : Nat} {m : Mark}
  {A B : Parser α}

theorem advance {f : Token → Parser α} (hc : Ahead source p c.rest)
    (htext : c.current.kind.isText = true)
    (h : ∀ d, Stands source p d → d.previous = c.current.span →
      (f ⟨c.current.kind, d.previous⟩).Gives d P) : (Parser.advance >>= f).Gives c P := by
  obtain ⟨hstands, hprevious⟩ := hc.take htext
  refine step rfl ?_
  have hnext := h c.next hstands hprevious
  rwa [hprevious] at hnext

theorem accept (hc : Ahead source p c.rest) (hm : (TokenKind.mark m).isText = true)
    (hyes : ∀ d, Stands source p d → d.previous = c.current.span → A.Gives d P)
    (hno : B.Gives c P) :
    (Parser.accept m >>= fun b => if b = true then A else B).Gives c P := by
  by_cases hmark : c.current.kind.isMark m = true
  · obtain ⟨hstands, hprevious⟩ := hc.take (isText_of_isMark hmark hm)
    refine step (if_pos hmark) ?_
    rw [if_pos rfl]
    exact hyes c.next hstands hprevious
  · refine step (if_neg hmark) ?_
    rw [if_neg Bool.false_ne_true]
    exact hno

theorem expect {f : Span → Parser α} (hc : Ahead source p c.rest)
    (hm : (TokenKind.mark m).isText = true)
    (h : ∀ d, Stands source p d → d.previous = c.current.span → (f d.previous).Gives d P) :
    (Parser.expect m >>= f).Gives c P := by
  by_cases hmark : c.current.kind.isMark m = true
  · obtain ⟨hstands, hprevious⟩ := hc.take (isText_of_isMark hmark hm)
    refine step (if_pos hmark) ?_
    rw [← hprevious]
    exact h c.next hstands hprevious
  · exact bind (R := fun _ _ => False)
      (fun _ _ hc => by rw [Parser.expect, if_neg hmark] at hc; cases hc) fun _ _ h => h.elim

theorem identifier {f : Name → Parser α} (hc : Ahead source p c.rest)
    (h : ∀ name d, Stands source p d → d.previous = c.current.span → (f name).Gives d P) :
    (Parser.identifier >>= f).Gives c P := by
  refine bind (R := fun _ d => Stands source p d ∧ d.previous = c.current.span) ?_
    fun name d hd => h name d hd.1 hd.2
  intro name d hd
  unfold Parser.identifier at hd
  split at hd
  · rename_i hkind
    cases hd
    exact hc.take (by rw [hkind]; rfl)
  · cases hd

theorem skip {marks : List Mark} {f : Unit → Parser α} (hc : Ahead source p c.rest)
    (h : ∀ d, Ahead source p d.rest → d.current.kind = c.kindAfter marks → (f ()).Gives d P) :
    (Parser.skip marks >>= f).Gives c P := by
  refine step rfl (h _ (hc.sublist (List.drop_sublist _ _)) ?_)
  rw [current_kind_eq, head?_drop_takeWhile]
  rfl

end Gives

end Parser

/-- A node has been read from an offset on. The tokens taken for it reach at least up to another
one, which its span need not: a `yield` in parentheses leaves them out. -/
structure Read (source : String) (p r : Nat) (n : Node) (d : Cursor) : Prop where
  lies : n.Lies source ⟨p, d.previous.stop⟩
  stands : Stands source p d
  reach : r ≤ d.previous.stop

/-- Nodes have been read from an offset on, if any. The token taken last may stand before it. -/
structure Through (source : String) (p q : Nat) (ns : List Node) (d : Cursor) : Prop where
  lie : ∀ n ∈ ns, n.Lies source ⟨q, d.previous.stop⟩
  stands : Stands source p d
  le : q ≤ d.previous.stop

section Made

variable {source : String} {p p' q q' r : Nat} {start : Span} {n : Node} {ns ns' : List Node}
  {c d : Cursor}

namespace Through

theorem nil (hd : Stands source p d) (hq : q ≤ d.previous.stop) : Through source p q [] d :=
  ⟨fun _ h => absurd h List.not_mem_nil, hd, hq⟩

theorem single (h : Read source q r n d) (hp : p ≤ q) : Through source p q [n] d :=
  ⟨List.forall_mem_singleton.2 h.lies, h.stands.mono hp, h.stands.le⟩

theorem append (h : Through source p q ns c) (h' : Through source p' q' ns' d) (hp : p ≤ p')
    (hq : c.previous.stop ≤ q') : Through source p q (ns ++ ns') d := by
  have hc : c.previous.stop ≤ d.previous.stop := Nat.le_trans hq h'.le
  refine ⟨List.forall_mem_append.2 ⟨fun n hn => ?_, fun n hn => ?_⟩, h'.stands.mono hp,
    Nat.le_trans h.le hc⟩
  · exact (h.lie n hn).widen (Nat.le_refl _) hc
  · exact (h'.lie n hn).widen (Nat.le_trans h.le hq) (Nat.le_refl _)

theorem add (h : Through source p q ns c) (hn : Read source q' r n d)
    (hq : c.previous.stop ≤ q') : Through source p q (ns ++ [n]) d :=
  h.append (.single hn (Nat.le_trans h.stands.le hq)) (Nat.le_refl _) hq

theorem token (h : Through source p q ns c) (hd : Stands source c.previous.stop d) :
    Through source p q ns d :=
  ⟨fun n hn => (h.lie n hn).widen (Nat.le_refl _) hd.le, hd.mono h.stands.le,
    Nat.le_trans h.le hd.le⟩

theorem mono (h : Through source p' q' ns d) (hp : p ≤ p') (hq : q ≤ q') :
    Through source p q ns d :=
  ⟨fun n hn => (h.lie n hn).widen hq (Nat.le_refl _), h.stands.mono hp, Nat.le_trans hq h.le⟩

theorem cons (hn : Read source q' r n c) (h : Through source q' c.previous.stop ns d)
    (hp : p ≤ q') (hq : q ≤ q') : Through source p q (n :: ns) d :=
  ((single hn hp).append h hp (Nat.le_refl _)).mono (Nat.le_refl _) hq

theorem subset (h : Through source p q ns d) (hns : ns' ⊆ ns) : Through source p q ns' d :=
  ⟨fun n hn => h.lie n (hns hn), h.stands, h.le⟩

end Through

theorem Read.closed (hs : start.Inside source ⟨p, d.previous.stop⟩) (h : Through source p' q ns d)
    (hp : p ≤ p') (hq : start.start ≤ q) (hr : r ≤ d.previous.stop)
    (hspan : n.span = start.merge d.previous) (hchildren : n.children = ns)
    (hbodies : ∀ body ∈ n.bodies, InOrder body) : Read source p r n d := by
  have hd : Stands source p d := h.stands.mono hp
  refine ⟨.made hspan hs hd.previous ?_ hbodies, hd, hr⟩
  rw [hchildren]
  exact fun m hm => (h.lie m hm).widen hq (Nat.le_refl _)

/-- A node that starts with one token and ends with the token taken last. -/
theorem Read.enclosed (hc : Stands source p c) (h : Through source p' c.previous.stop ns d)
    (hp : p ≤ p') (hspan : n.span = c.previous.merge d.previous) (hchildren : n.children = ns)
    (hbodies : ∀ body ∈ n.bodies, InOrder body) : Read source p c.previous.stop n d :=
  .closed (hc.previous.within hc.previous.start h.le) h hp hc.previous.ordered h.le hspan hchildren
    hbodies

theorem Through.accept_gives {m : Mark}
    (hm : (TokenKind.mark m).isText = true) (h : Through source p q ns c) :
    (accept m).Gives c fun _ d => Through source p q ns d := by
  intro b d hd
  unfold accept at hd
  split at hd
  · rename_i hmark
    cases hd
    exact h.token (h.stands.ahead.take (isText_of_isMark hmark hm)).1
  · cases hd
    exact h

end Made

end Grammar

end Lexiscope
