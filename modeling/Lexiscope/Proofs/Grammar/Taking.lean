import Lexiscope.Proofs.Grammar.Writing
/-!
# Parsers that take the tokens of an expression

A parser takes tokens as an expression if it gives that expression, up to spans, and leaves exactly
what comes after. The parser of operands joined by an operator is first brought to the point where
it looks for a further operator: so a longer chain starts with a shorter one. What holds of all that
a parser may come to is said with `Gives`, part by part.
-/

namespace Lexiscope.Grammar

open Text (Span)
open Lexiscope.Grammar.Parser

def kinds (ts : List Token) : List TokenKind := ts.map Token.kind

@[simp] theorem kinds_append (ts us : List Token) : kinds (ts ++ us) = kinds ts ++ kinds us :=
  List.map_append

theorem length_kinds (ts : List Token) : (kinds ts).length = ts.length := List.length_map _

theorem kinds_eq_nil {ts : List Token} (h : kinds ts = []) : ts = [] := List.map_eq_nil_iff.1 h

theorem kinds_eq_cons {ts : List Token} {k : TokenKind} {ks : List TokenKind}
    (h : kinds ts = k :: ks) : ∃ t us, ts = t :: us ∧ t.kind = k ∧ kinds us = ks := by
  obtain ⟨t, us, rfl, hk, hks⟩ := List.map_eq_cons_iff.1 h
  exact ⟨t, us, rfl, hk, hks⟩

theorem kinds_eq_append {ts : List Token} {ks ls : List TokenKind} (h : kinds ts = ks ++ ls) :
    ∃ us vs, ts = us ++ vs ∧ kinds us = ks ∧ kinds vs = ls := by
  obtain ⟨us, vs, rfl, hks, hls⟩ := List.map_eq_append_iff.1 h
  exact ⟨us, vs, rfl, hks, hls⟩

/-- What the next token is. After the last one there is the end of the source. -/
def nextKind : List Token → TokenKind
  | t :: _ => t.kind
  | [] => .mark .eof

theorem nextKind_append {ts rest : List Token} {k : TokenKind} {ks : List TokenKind}
    (h : kinds ts = k :: ks) : nextKind (ts ++ rest) = k := by
  obtain ⟨t, us, rfl, rfl, -⟩ := kinds_eq_cons h
  rfl

/-- The precedence from which on an expression before the token is continued by it; none is zero.
A comma goes on with a bare tuple, and so does a further item after a comma. Literals of texts are
put together. -/
def TokenKind.binding (k : TokenKind) : Nat :=
  match k with
  | .str _ => 13
  | .mark .lparen | .mark .dot | .mark .lbracket => 12
  | .mark .doubleStar => 10
  | .mark .star | .mark .slash | .mark .doubleSlash | .mark .percent => 8
  | .mark .plus | .mark .minus => 7
  | .mark .eqEq | .mark .notEq | .mark .lt | .mark .ltE | .mark .gt | .mark .gtE | .mark .kwIn
  | .mark .kwIs | .mark .kwNot => 6
  | .mark .kwAnd => 4
  | .mark .kwOr => 3
  | .mark .kwIf => 2
  | .mark .comma => 1
  | k => if k.startsExpr then 1 else 0

/-- An expression of the precedence is not continued by what comes next. -/
def Ends (p : Precedence) (rest : List Token) : Prop := (nextKind rest).binding < p.rank

theorem Ends.mono {p q : Precedence} {rest : List Token} (h : Ends p rest)
    (hpq : p.rank ≤ q.rank) : Ends q rest :=
  Nat.lt_of_lt_of_le h hpq

theorem ends_mark {p : Precedence} {rest : List Token} {m : Mark} (h : nextKind rest = .mark m)
    (hm : (TokenKind.mark m).binding < p.rank) : Ends p rest := by
  rwa [Ends, h]

theorem ends_cons {p : Precedence} {t : Token} {m : Mark} (us : List Token)
    (h : t.kind = .mark m) (hm : (TokenKind.mark m).binding < p.rank) : Ends p (t :: us) :=
  ends_mark h hm

section Running

variable {α β : Type} {p : Parser α} {f : α → Parser β} {c d : Cursor} {a : α}
  {prev : Span} {rest ts : List Token} {t : Token} {m : Mark}

theorem parser_bind_ok (h : p c = .ok (a, d)) : (p >>= f) c = f a d := by
  change (p c >>= fun r => f r.1 r.2) = _
  rw [h]
  rfl

theorem current_kind : (Cursor.mk prev rest).current.kind = nextKind rest := by
  cases rest <;> rfl

theorem kind_run : kind ⟨prev, rest⟩ = .ok (nextKind rest, ⟨prev, rest⟩) := by
  cases rest <;> rfl

theorem atMark_run : atMark m ⟨prev, rest⟩ = .ok ((nextKind rest).isMark m, ⟨prev, rest⟩) := by
  cases rest <;> rfl

theorem advance_run : advance ⟨prev, t :: ts⟩ = .ok (t, ⟨t.span, ts⟩) := rfl

theorem accept_run (h : t.kind = .mark m) : accept m ⟨prev, t :: ts⟩ = .ok (true, ⟨t.span, ts⟩) := by
  simp [accept, Cursor.current, Cursor.next, h, TokenKind.isMark]

theorem accept_other (h : (nextKind rest).isMark m = false) :
    accept m ⟨prev, rest⟩ = .ok (false, ⟨prev, rest⟩) := by
  simp [accept, current_kind, h]

theorem expect_run (h : t.kind = .mark m) :
    expect m ⟨prev, t :: ts⟩ = .ok (t.span, ⟨t.span, ts⟩) := by
  simp [expect, Cursor.current, Cursor.next, h, TokenKind.isMark]

theorem identifier_run {name : Name} (h : t.kind = .ident name) :
    identifier ⟨prev, t :: ts⟩ = .ok (name, ⟨t.span, ts⟩) := by
  simp [identifier, Cursor.current, Cursor.next, h]

theorem spanFrom_run {start : Span} :
    spanFrom start ⟨prev, rest⟩ = .ok (start.merge prev, ⟨prev, rest⟩) := rfl

theorem skip_run {marks : List Mark} (h : marks.any (nextKind rest).isMark = false) :
    skip marks ⟨prev, rest⟩ = .ok ((), ⟨prev, rest⟩) := by
  cases rest with
  | nil => rfl
  | cons t ts =>
    have hnone : (t :: ts).takeWhile (fun t => marks.any t.kind.isMark) = [] :=
      List.takeWhile_cons_of_neg (by rw [nextKind] at h; rw [h]; decide)
    simp [skip, hnone]

end Running

namespace Parser

/-- All that a parser can come to from a cursor has a property. -/
def Gives {α : Type} (g : Parser α) (c : Cursor) (P : α → Cursor → Prop) : Prop :=
  ∀ a d, g c = .ok (a, d) → P a d

namespace Gives

variable {α β : Type} {P : α → Cursor → Prop} {R : β → Cursor → Prop} {c d : Cursor}
  {g : Parser β} {f : β → Parser α} {a : α} {b : β}

theorem bind (hg : g.Gives c R) (hf : ∀ b d, R b d → (f b).Gives d P) : (g >>= f).Gives c P := by
  intro a d h
  change (g c >>= fun r => f r.1 r.2) = _ at h
  cases hc : g c with
  | error e =>
    rw [hc] at h
    cases h
  | ok r =>
    rw [hc] at h
    exact hf r.1 r.2 (hg r.1 r.2 hc) a d h

theorem step (hg : g c = .ok (b, d)) (hf : (f b).Gives d P) : (g >>= f).Gives c P :=
  fun a d' h => hf a d' (by rwa [parser_bind_ok hg] at h)

theorem mono (hg : g.Gives c R) {Q : β → Cursor → Prop} (h : ∀ b d, R b d → Q b d) :
    g.Gives c Q :=
  fun b d hd => h b d (hg b d hd)

theorem pure (h : P a c) : (Pure.pure a : Parser α).Gives c P := by
  intro b d hc
  cases hc
  exact h

theorem fail (fault : SyntaxFault) (span : Span) : (failAt fault span : Parser α).Gives c P :=
  fun _ _ h => nomatch h

theorem bindMap {γ : Type} {h : β → γ} {f : γ → Parser α} (hg : g.Gives c R)
    (hf : ∀ b d, R b d → (f (h b)).Gives d P) : ((h <$> g) >>= f).Gives c P := by
  refine bind (R := fun x d => ∃ b, h b = x ∧ R b d) ?_ fun x d hx => ?_
  · exact bind hg fun b _ hb => pure ⟨b, rfl, hb⟩
  · obtain ⟨b, rfl, hb⟩ := hx
    exact hf b d hb

theorem failed (fault : SyntaxFault) (span : Span) {f : β → Parser α} :
    ((failAt fault span : Parser β) >>= f).Gives c P :=
  bind (R := fun _ _ => False) (fail _ _) fun _ _ h => h.elim

theorem tooDeep : (do failAt .tooDeep (← current).span : Parser α).Gives c P :=
  step rfl (fail _ _)

end Gives

end Parser

/-- The parser takes tokens of the kinds as the expression, if what comes after does not continue
it. -/
def Takes (p : Parser Expr) (ks : List TokenKind) (place : Precedence) (e : Expr) : Prop :=
  ∀ ⦃ts rest⦄, kinds ts = ks → Ends place rest → ∀ prev,
    ∃ e' prev', e'.bare = e.bare ∧ p ⟨prev, ts ++ rest⟩ = .ok (e', ⟨prev', rest⟩)

/-- The parser takes tokens of the kinds as the expression, and then does what `more` does with it.
Each token is paid for by at most one of the steps that are given. -/
def Starts (p : Parser Expr) (more : Nat → Expr → Parser Expr) (steps : Nat)
    (ks : List TokenKind) (place : Precedence) (e : Expr) : Prop :=
  ∀ ⦃ts rest⦄, kinds ts = ks → Ends place rest → ∀ prev,
    ∃ e' prev' m, e'.bare = e.bare ∧ steps ≤ m + ks.length ∧
      p ⟨prev, ts ++ rest⟩ = more m e' ⟨prev', rest⟩

section Chains

variable {combine? : TokenKind → Option (Expr → Expr → Expr)} {next : Parser Expr} {n : Nat}
  {ks ls : List TokenKind} {k : TokenKind} {place looser : Precedence} {l r e : Expr}

def chain (combine? : TokenKind → Option (Expr → Expr → Expr)) (next : Parser Expr) (n : Nat) :
    Parser Expr := do
  leftChain combine? next n (← next)

theorem Takes.starts (h : Takes next ks place l) (hks : ks ≠ []) :
    Starts (chain combine? next n) (leftChain combine? next) (n + 1) ks place l := by
  intro ts rest hts hrest prev
  obtain ⟨l', prev', hl, hrun⟩ := h hts hrest prev
  have hpos := List.length_pos_iff.2 hks
  exact ⟨l', prev', n, hl, by omega, parser_bind_ok hrun⟩

theorem Starts.operand (hl : Starts (chain combine? next n) (leftChain combine? next) (n + 1) ks
      place l) (hr : Takes next ls place r) (hlength : ks.length ≤ n)
    (hk : k.binding < place.rank) {make : Expr → Expr → Span → Expr}
    (hcombine : combine? k = some (Expr.join make))
    (hmake : ∀ l' r' span, l'.bare = l.bare → r'.bare = r.bare →
      (make l' r' span).bare = e.bare) :
    Starts (chain combine? next n) (leftChain combine? next) (n + 1) (ks ++ k :: ls) place e := by
  intro ts rest hts hrest prev
  obtain ⟨us, vs, rfl, hus, hvs⟩ := kinds_eq_append hts
  obtain ⟨t, ws, rfl, ht, hws⟩ := kinds_eq_cons hvs
  have hnext : nextKind ((t :: ws) ++ rest) = k := ht
  have hends : Ends place ((t :: ws) ++ rest) := by rwa [Ends, hnext]
  obtain ⟨l', prev', m, hl', hm, hrun⟩ := hl hus hends prev
  obtain ⟨m, rfl⟩ : ∃ m', m = m' + 1 := ⟨m - 1, by omega⟩
  obtain ⟨r', prev'', hr', hrun'⟩ := hr hws hrest t.span
  refine ⟨Expr.join make l' r', prev'', m, hmake l' r' _ hl' hr', ?_, ?_⟩
  · rw [List.length_append, List.length_cons]
    omega
  · rw [List.append_assoc, hrun, leftChain, parser_bind_ok kind_run, hnext, hcombine]
    exact (parser_bind_ok advance_run).trans (parser_bind_ok hrun')

/-- A chain ends where no operator of it is next. -/
theorem Starts.takes (h : Starts (chain combine? next n) (leftChain combine? next) (n + 1) ks
      place l) (hlength : ks.length ≤ n) (hplace : looser.rank ≤ place.rank)
    (hnone : ∀ k : TokenKind, k.binding < looser.rank → combine? k = none) :
    Takes (chain combine? next n) ks looser l := by
  intro ts rest hts hrest prev
  obtain ⟨l', prev', m, hl, hm, hrun⟩ := h hts (hrest.mono hplace) prev
  obtain ⟨m, rfl⟩ : ∃ m', m = m' + 1 := ⟨m - 1, by omega⟩
  refine ⟨l', prev', hl, ?_⟩
  rw [hrun, leftChain, parser_bind_ok kind_run, hnone _ hrest]
  rfl

end Chains

section Operators

attribute [local simp] TokenKind.binding Precedence.rank

theorem sumOp?_eq_none {k : TokenKind} (h : k.binding < Precedence.sum.rank) :
    sumOp? k = none := by
  unfold sumOp?
  split <;> simp_all

theorem productOp?_eq_none {k : TokenKind} (h : k.binding < Precedence.product.rank) :
    productOp? k = none := by
  unfold productOp?
  split <;> simp_all

theorem andOp?_eq_none {k : TokenKind} (h : k.binding < Precedence.conjunction.rank) :
    andOp? k = none := by
  unfold andOp?
  split <;> simp_all

theorem orOp?_eq_none {k : TokenKind} (h : k.binding < Precedence.disjunction.rank) :
    orOp? k = none := by
  unfold orOp?
  split <;> simp_all

theorem compareOp?_eq_none {k k' : TokenKind} (h : k.binding < Precedence.comparison.rank) :
    compareOp? k k' = none := by
  unfold compareOp?
  split <;> simp_all

theorem isMark_eq_false {k : TokenKind} {m : Mark} {p : Precedence} (h : k.binding < p.rank)
    (hm : p.rank ≤ (TokenKind.mark m).binding) : k.isMark m = false := by
  cases hk : k.isMark m with
  | false => rfl
  | true =>
    cases k with
    | mark m' =>
      obtain rfl : m' = m := by simpa [TokenKind.isMark] using hk
      omega
    | _ => cases hk

end Operators

end Lexiscope.Grammar
