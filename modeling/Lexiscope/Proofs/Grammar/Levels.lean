import Lexiscope.Proofs.Grammar.Taking
/-!
# The levels of the expression grammar

Each line of the table has its parser. Tokens that are taken as an expression by one of these are
taken by all that are looser, and in parentheses they are taken by the tightest.
-/

namespace Lexiscope.Grammar

open Text (Span)
open Lexiscope.Grammar.Parser

/-- The loosest precedence of an expression that starts with the token. -/
def TokenKind.opening : TokenKind → Nat
  | .mark .kwNot => 5
  | .mark .minus | .mark .plus => 9
  | .mark .kwAwait => 11
  | _ => 13

/-- The tokens start with one that may start an expression of the precedence, and do not look like
a keyword argument. -/
def Opens (p : Precedence) (ks : List TokenKind) : Prop :=
  ∃ k ls, ks = k :: ls ∧ k.startsExpr = true ∧ p.rank ≤ k.opening ∧
    ∀ name, k = .ident name → ls.head? ≠ some (.mark .assign)

/-- The parser of the line takes the tokens as the expression, if its bound on the nesting is great
enough for their number. -/
def Reads (ks : List TokenKind) (e : Expr) : Precedence → Prop
  | .bare => ∀ n, 8 * ks.length < n → Takes (expressionListOrYield n) ks .bare e
  | .conditional => ∀ n, 8 * ks.length ≤ n → Takes (expression n) ks .conditional e
  | .disjunction => ∀ m n, 8 * ks.length ≤ m + 1 → ks.length < n →
    Starts (chain orOp? (Level.conjunction (signed m) n) n)
      (leftChain orOp? (Level.conjunction (signed m) n)) (n + 1) ks .conjunction e
  | .conjunction => ∀ m n, 8 * ks.length ≤ m + 1 → ks.length < n →
    Starts (chain andOp? (Level.negation (signed m) n) n)
      (leftChain andOp? (Level.negation (signed m) n)) (n + 1) ks .negation e
  | .negation => ∀ m n, 8 * ks.length ≤ m + 1 → ks.length < n →
    Takes (Level.negation (signed m) n) ks .negation e
  | .comparison => ∀ m n, 8 * ks.length ≤ m + 1 → ks.length ≤ n →
    Takes (Level.comparison (signed m) n) ks .comparison e
  | .sum => ∀ m n, 8 * ks.length ≤ m + 1 → ks.length ≤ n →
    Starts (chain sumOp? (Level.product (signed m) n) n)
      (leftChain sumOp? (Level.product (signed m) n)) (n + 1) ks .product e
  | .product => ∀ m n, 8 * ks.length ≤ m + 1 → ks.length ≤ n →
    Starts (chain productOp? (signed m) n) (leftChain productOp? (signed m)) (n + 1) ks .sign e
  | .sign | .power => ∀ n, 8 * ks.length ≤ n + 1 → Takes (signed n) ks .sign e
  | .await => ∀ n, 8 * ks.length ≤ n + 2 → Takes (awaited n) ks .await e
  | .trailer => ∀ n, 8 * ks.length ≤ n + 3 → Starts (operand n) trailers n ks .atom e
  | .atom => ∀ n, 8 * ks.length ≤ n + 4 → Takes (atom n) ks .atom e

/-- The tokens are taken as the expression where one of the precedence may stand. -/
structure ReadAt (p : Precedence) (ks : List TokenKind) (e : Expr) : Prop where
  opens : Opens p ks
  reads : Reads ks e p

section Openings

variable {p q : Precedence} {ks ls : List TokenKind} {k : TokenKind} {m : Mark}
  {ts rest : List Token} {prev : Span}

theorem Opens.ne_nil (h : Opens p ks) : ks ≠ [] := by
  obtain ⟨k, ls, rfl, -⟩ := h
  exact List.cons_ne_nil k ls

theorem Opens.length_pos (h : Opens p ks) : 0 < ks.length :=
  List.length_pos_iff.2 h.ne_nil

theorem Opens.mono (h : Opens p ks) (hqp : q.rank ≤ p.rank) : Opens q ks := by
  obtain ⟨k, ls, rfl, hstarts, hopening, hassign⟩ := h
  exact ⟨k, ls, rfl, hstarts, Nat.le_trans hqp hopening, hassign⟩

theorem Opens.append (h : Opens p ks) (hls : ls.head? ≠ some (.mark .assign)) :
    Opens p (ks ++ ls) := by
  obtain ⟨k, us, rfl, hstarts, hopening, hassign⟩ := h
  refine ⟨k, us ++ ls, rfl, hstarts, hopening, fun name hname => ?_⟩
  cases us with
  | nil => exact hls
  | cons u us => exact hassign name hname

theorem opens_mark (hm : (TokenKind.mark m).startsExpr = true)
    (hp : p.rank ≤ (TokenKind.mark m).opening) : Opens p (.mark m :: ks) :=
  ⟨.mark m, ks, rfl, hm, hp, nofun⟩

theorem opens_single (hk : k.startsExpr = true) (hp : p.rank ≤ k.opening) : Opens p [k] :=
  ⟨k, [], rfl, hk, hp, fun _ _ => nofun⟩

theorem Opens.startsExpr (h : Opens p ks) (hts : kinds ts = ks) :
    (nextKind (ts ++ rest)).startsExpr = true := by
  obtain ⟨k, ls, rfl, hstarts, -⟩ := h
  rwa [nextKind_append hts]

theorem Opens.isMark (h : Opens p ks) (hts : kinds ts = ks)
    (hm : (TokenKind.mark m).startsExpr = true → (TokenKind.mark m).opening < p.rank) :
    (nextKind (ts ++ rest)).isMark m = false := by
  obtain ⟨k, ls, rfl, hstarts, hopening, -⟩ := h
  rw [nextKind_append hts]
  cases hk : k.isMark m with
  | false => rfl
  | true =>
    cases k with
    | mark m' =>
      obtain rfl : m' = m := by simpa [TokenKind.isMark] using hk
      exact absurd (hm hstarts) (Nat.not_lt.2 hopening)
    | _ => cases hk

theorem Opens.signOp?_eq_none (h : Opens p ks) (hts : kinds ts = ks)
    (hp : Precedence.sign.rank < p.rank) : signOp? (nextKind (ts ++ rest)) = none := by
  have hminus : (nextKind (ts ++ rest)).isMark .minus = false := h.isMark hts fun _ => hp
  have hplus : (nextKind (ts ++ rest)).isMark .plus = false := h.isMark hts fun _ => hp
  unfold signOp?
  split <;> simp_all [TokenKind.isMark]

end Openings

section Outward

variable {p q : Precedence} {ks : List TokenKind} {e : Expr} {n : Nat} {prev : Span}
  {rest : List Token}

theorem trailers_ends (hrest : (nextKind rest).binding < Precedence.trailer.rank) :
    trailers (n + 1) e ⟨prev, rest⟩ = .ok (e, ⟨prev, rest⟩) := by
  unfold trailers
  rw [parser_bind_ok kind_run]
  generalize nextKind rest = k at hrest
  split <;> first | rfl | exact absurd hrest (by decide)

theorem reads_trailer (h : ReadAt .atom ks e) : Reads ks e .trailer := by
  intro n hn ts rest hts hrest prev
  have hpos := h.opens.length_pos
  obtain ⟨n, rfl⟩ : ∃ n', n = n' + 1 := ⟨n - 1, by omega⟩
  obtain ⟨e', prev', he, hrun⟩ := h.reads n (by omega) hts hrest prev
  exact ⟨e', prev', n, he, by omega, parser_bind_ok hrun⟩

theorem reads_await (h : ReadAt .trailer ks e) : Reads ks e .await := by
  intro n hn ts rest hts hrest prev
  have hpos := h.opens.length_pos
  obtain ⟨n, rfl⟩ : ∃ n', n = n' + 1 := ⟨n - 1, by omega⟩
  obtain ⟨e', prev', m, he, hm, hrun⟩ := h.reads n (by omega) hts (hrest.mono (by decide)) prev
  obtain ⟨m, rfl⟩ : ∃ m', m = m' + 1 := ⟨m - 1, by omega⟩
  refine ⟨e', prev', he, ?_⟩
  rw [awaited, parser_bind_ok atMark_run, h.opens.isMark hts (by decide)]
  exact hrun.trans (trailers_ends (hrest.mono (q := .trailer) (by decide)))

theorem reads_power (h : ReadAt .await ks e) : Reads ks e .power := by
  intro n hn ts rest hts hrest prev
  have hpos := h.opens.length_pos
  obtain ⟨n, rfl⟩ : ∃ n', n = n' + 1 := ⟨n - 1, by omega⟩
  obtain ⟨e', prev', he, hrun⟩ := h.reads n (by omega) hts (hrest.mono (by decide)) prev
  refine ⟨e', prev', he, ?_⟩
  rw [signed, parser_bind_ok kind_run, h.opens.signOp?_eq_none hts (by decide)]
  refine (parser_bind_ok hrun).trans ?_
  exact parser_bind_ok (accept_other (isMark_eq_false hrest (by decide)))

theorem reads_product (h : ReadAt .sign ks e) : Reads ks e .product :=
  fun m _ hm _ => (h.reads m hm).starts h.opens.ne_nil

theorem takes_product (h : ReadAt .product ks e) {m n : Nat} (hm : 8 * ks.length ≤ m + 1)
    (hn : ks.length ≤ n) : Takes (Level.product (signed m) n) ks .product e :=
  (h.reads m n hm hn).takes hn (by decide) fun _ => productOp?_eq_none

theorem reads_sum (h : ReadAt .product ks e) : Reads ks e .sum :=
  fun _ _ hm hn => (takes_product h hm hn).starts h.opens.ne_nil

theorem takes_sum (h : ReadAt .sum ks e) {m n : Nat} (hm : 8 * ks.length ≤ m + 1)
    (hn : ks.length ≤ n) : Takes (Level.sum (signed m) n) ks .sum e :=
  (h.reads m n hm hn).takes hn (by decide) fun _ => sumOp?_eq_none

theorem reads_comparison (h : ReadAt .sum ks e) : Reads ks e .comparison := by
  intro m n hm hn ts rest hts hrest prev
  obtain ⟨e', prev', he, hrun⟩ := takes_sum h hm hn hts (hrest.mono (by decide)) prev
  refine ⟨e', prev', he, ?_⟩
  rw [Level.comparison, parser_bind_ok hrun, parser_bind_ok kind_run]
  refine (parser_bind_ok (a := (Cursor.mk prev' rest).next.current.kind) rfl).trans ?_
  rw [compareOp?_eq_none hrest]
  rfl

theorem reads_negation (h : ReadAt .comparison ks e) : Reads ks e .negation := by
  intro m n hm hn ts rest hts hrest prev
  obtain ⟨n, rfl⟩ : ∃ n', n = n' + 1 := ⟨n - 1, by omega⟩
  obtain ⟨e', prev', he, hrun⟩ := h.reads m n hm (by omega) hts (hrest.mono (by decide)) prev
  refine ⟨e', prev', he, ?_⟩
  rw [Level.negation, parser_bind_ok atMark_run, h.opens.isMark hts (by decide)]
  exact hrun

theorem reads_conjunction (h : ReadAt .negation ks e) : Reads ks e .conjunction :=
  fun m n hm hn => (h.reads m n hm hn).starts h.opens.ne_nil

theorem takes_conjunction (h : ReadAt .conjunction ks e) {m n : Nat}
    (hm : 8 * ks.length ≤ m + 1) (hn : ks.length < n) :
    Takes (Level.conjunction (signed m) n) ks .conjunction e :=
  (h.reads m n hm hn).takes (by omega) (by decide) fun _ => andOp?_eq_none

theorem reads_disjunction (h : ReadAt .conjunction ks e) : Reads ks e .disjunction :=
  fun _ _ hm hn => (takes_conjunction h hm hn).starts h.opens.ne_nil

theorem takes_disjunction (h : ReadAt .disjunction ks e) {m n : Nat}
    (hm : 8 * ks.length ≤ m + 1) (hn : ks.length < n) :
    Takes (Level.disjunction (signed m) n) ks .disjunction e :=
  (h.reads m n hm hn).takes (by omega) (by decide) fun _ => orOp?_eq_none

theorem reads_conditional (h : ReadAt .disjunction ks e) : Reads ks e .conditional := by
  intro n hn ts rest hts hrest prev
  have hpos := h.opens.length_pos
  obtain ⟨n, rfl⟩ : ∃ n', n = n' + 1 := ⟨n - 1, by omega⟩
  obtain ⟨e', prev', he, hrun⟩ := takes_disjunction h (m := n) (n := n) (by omega) (by omega) hts
    (hrest.mono (by decide)) prev
  refine ⟨e', prev', he, ?_⟩
  rw [expression, parser_bind_ok hrun]
  exact parser_bind_ok (accept_other (isMark_eq_false hrest (by decide)))

theorem takes_expressionList (h : ReadAt .conditional ks e) (hn : 8 * ks.length < n) :
    Takes (expressionList n) ks .bare e := by
  intro ts rest hts hrest prev
  obtain ⟨n, rfl⟩ : ∃ n', n = n' + 1 := ⟨n - 1, by omega⟩
  obtain ⟨e', prev', he, hrun⟩ := h.reads n (by omega) hts (hrest.mono (by decide)) prev
  refine ⟨e', prev', he, ?_⟩
  rw [expressionList, parser_bind_ok hrun, parser_bind_ok atMark_run,
    isMark_eq_false hrest (by decide)]
  rfl

theorem reads_bare (h : ReadAt .conditional ks e) : Reads ks e .bare := by
  intro n hn ts rest hts hrest prev
  obtain ⟨e', prev', he, hrun⟩ := takes_expressionList h hn hts hrest prev
  refine ⟨e', prev', he, ?_⟩
  rw [expressionListOrYield, parser_bind_ok atMark_run, h.opens.isMark hts (by decide)]
  exact hrun

def Precedence.outer : Precedence → Precedence
  | bare | conditional => bare
  | disjunction => conditional
  | conjunction => disjunction
  | negation => conjunction
  | comparison => negation
  | sum => comparison
  | product => sum
  | sign => product
  | power => sign
  | await => power
  | trailer => await
  | atom => trailer

theorem Precedence.rank_pos (p : Precedence) : 0 < p.rank := by cases p <;> decide

theorem Precedence.rank_injective (h : p.rank = q.rank) : p = q := by
  cases p <;> cases q <;> first | rfl | exact absurd h (by decide)

theorem Precedence.rank_outer (h : 1 < p.rank) : p.outer.rank + 1 = p.rank := by
  cases p <;> first | rfl | exact absurd h (by decide)

theorem ReadAt.outer (h : ReadAt p ks e) : ReadAt p.outer ks e := by
  refine ⟨h.opens.mono (by cases p <;> decide), ?_⟩
  cases p with
  | bare => exact h.reads
  | conditional => exact reads_bare h
  | disjunction => exact reads_conditional h
  | conjunction => exact reads_disjunction h
  | negation => exact reads_conjunction h
  | comparison => exact reads_negation h
  | sum => exact reads_comparison h
  | product => exact reads_sum h
  | sign => exact reads_product h
  | power => exact h.reads
  | await => exact reads_power h
  | trailer => exact reads_await h
  | atom => exact reads_trailer h

/-- What is taken where a precedence may stand is taken where less is asked for. -/
theorem ReadAt.outward (h : ReadAt p ks e) (hqp : q.rank ≤ p.rank) : ReadAt q ks e := by
  obtain ⟨k, hk⟩ := Nat.exists_eq_add_of_le hqp
  induction k generalizing p with
  | zero =>
    obtain rfl := Precedence.rank_injective hk
    exact h
  | succ k ih =>
    have hq := q.rank_pos
    have houter := Precedence.rank_outer (p := p) (by omega)
    exact ih h.outer (by omega) (by omega)

end Outward

end Lexiscope.Grammar
