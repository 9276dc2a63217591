import Lexiscope.Grammar.Statement
import Lexiscope.Proofs.Grammar.Brackets
/-!
# The parser keeps the table of precedence

An expression that is written with the table is read as the same expression, and nothing more is
taken than its tokens.
-/

namespace Lexiscope.Grammar

open Text (Span)
open Lexiscope.Grammar.Parser

section Operators

variable {ks ls us : List TokenKind} {e l r test body orelse : Expr} {span : Span}

theorem readAt_sign {op : UnaryOp} (hop : op.precedence = .sign) (h : ReadAt .sign ks e) :
    ReadAt .sign (.mark op.mark :: ks) (.unary op e span) := by
  have hsign : signOp? (.mark op.mark) = some op := by
    cases op with
    | not => cases hop
    | neg | pos => rfl
  refine ⟨?_, fun n hn ts rest hts hrest prev => ?_⟩
  · cases op with
    | not => cases hop
    | neg | pos => exact opens_mark rfl (by decide)
  · obtain ⟨t, us, rfl, ht, hus⟩ := kinds_eq_cons hts
    rw [List.length_cons] at hn
    obtain ⟨n, rfl⟩ : ∃ n', n = n' + 1 := ⟨n - 1, by omega⟩
    obtain ⟨e', prev', he, hrun⟩ := h.reads n (by omega) hus hrest t.span
    refine ⟨.unary op e' (t.span.merge e'.span), prev', by simp [Expr.bare, he], ?_⟩
    rw [signed, parser_bind_ok kind_run, List.cons_append, nextKind, ht, hsign]
    refine (parser_bind_ok advance_run).trans ?_
    exact parser_bind_ok hrun

theorem readAt_not (h : ReadAt .negation ks e) :
    ReadAt .negation (.mark .kwNot :: ks) (.unary .not e span) := by
  refine ⟨opens_mark rfl (by decide), fun m n hm hn ts rest hts hrest prev => ?_⟩
  obtain ⟨t, us, rfl, ht, hus⟩ := kinds_eq_cons hts
  rw [List.length_cons] at hm hn
  obtain ⟨n, rfl⟩ : ∃ n', n = n' + 1 := ⟨n - 1, by omega⟩
  obtain ⟨e', prev', he, hrun⟩ := h.reads m n (by omega) (by omega) hus hrest t.span
  refine ⟨.unary .not e' (t.span.merge e'.span), prev', by simp [Expr.bare, he], ?_⟩
  rw [Level.negation, parser_bind_ok atMark_run, List.cons_append, nextKind, ht]
  refine (parser_bind_ok advance_run).trans ?_
  exact parser_bind_ok hrun

theorem readAt_await (h : ReadAt .await ks e) :
    ReadAt .await (.mark .kwAwait :: ks) (.await e span) := by
  refine ⟨opens_mark rfl (by decide), fun n hn ts rest hts hrest prev => ?_⟩
  obtain ⟨t, us, rfl, ht, hus⟩ := kinds_eq_cons hts
  rw [List.length_cons] at hn
  obtain ⟨n, rfl⟩ : ∃ n', n = n' + 1 := ⟨n - 1, by omega⟩
  obtain ⟨e', prev', he, hrun⟩ := h.reads n (by omega) hus hrest t.span
  refine ⟨.await e' (t.span.merge e'.span), prev', by simp [Expr.bare, he], ?_⟩
  rw [awaited, parser_bind_ok atMark_run, List.cons_append, nextKind, ht]
  refine (parser_bind_ok advance_run).trans ?_
  exact parser_bind_ok hrun

theorem readAt_power (hl : ReadAt .await ks l) (hr : ReadAt .sign ls r) :
    ReadAt .power (ks ++ .mark .doubleStar :: ls) (.binary .pow l r span) := by
  refine ⟨(hl.opens.mono (by decide)).append (by simp), fun n hn ts rest hts hrest prev => ?_⟩
  obtain ⟨us, vs, rfl, hus, hvs⟩ := kinds_eq_append hts
  obtain ⟨t, ws, rfl, ht, hws⟩ := kinds_eq_cons hvs
  rw [List.length_append, List.length_cons] at hn
  obtain ⟨n, rfl⟩ : ∃ n', n = n' + 1 := ⟨n - 1, by omega⟩
  obtain ⟨l', prev', hl', hrun⟩ := hl.reads n (by omega) hus
    (ends_cons (ws ++ rest) ht (by decide)) prev
  obtain ⟨r', prev'', hr', hrun'⟩ := hr.reads n (by omega) hws hrest t.span
  refine ⟨Expr.join (.binary .pow) l' r', prev'', by simp [Expr.join, Expr.bare, hl', hr'], ?_⟩
  rw [List.append_assoc, signed, parser_bind_ok kind_run,
    hl.opens.signOp?_eq_none hus (by decide)]
  refine (parser_bind_ok hrun).trans ?_
  rw [parser_bind_ok (accept_run ht)]
  exact parser_bind_ok hrun'

theorem readAt_product {op : BinaryOp} (hop : op.precedence = .product)
    (hl : ReadAt .product ks l) (hr : ReadAt .sign ls r) :
    ReadAt .product (ks ++ .mark op.mark :: ls) (.binary op l r span) := by
  refine ⟨hl.opens.append ?_, fun m n hm hn => ?_⟩
  · cases op <;> simp [BinaryOp.mark]
  · rw [List.length_append, List.length_cons] at hm hn
    have hcombine : productOp? (.mark op.mark) = some (Expr.join (.binary op)) ∧
        (TokenKind.mark op.mark).binding < Precedence.sign.rank := by
      cases op with
      | mul | div | floorDiv | mod => exact ⟨rfl, by decide⟩
      | add | sub | pow => cases hop
    refine (hl.reads m n (by omega) (by omega)).operand (hr.reads m (by omega)) (by omega)
      hcombine.2 hcombine.1 fun l' r' _ hl' hr' => ?_
    simp [Expr.bare, hl', hr']

theorem readAt_sum {op : BinaryOp} (hop : op.precedence = .sum)
    (hl : ReadAt .sum ks l) (hr : ReadAt .product ls r) :
    ReadAt .sum (ks ++ .mark op.mark :: ls) (.binary op l r span) := by
  refine ⟨hl.opens.append ?_, fun m n hm hn => ?_⟩
  · cases op <;> simp [BinaryOp.mark]
  · rw [List.length_append, List.length_cons] at hm hn
    have hcombine : sumOp? (.mark op.mark) = some (Expr.join (.binary op)) ∧
        (TokenKind.mark op.mark).binding < Precedence.product.rank := by
      cases op with
      | add | sub => exact ⟨rfl, by decide⟩
      | mul | div | floorDiv | mod | pow => cases hop
    refine (hl.reads m n (by omega) (by omega)).operand
      (takes_product hr (by omega) (by omega)) (by omega) hcombine.2 hcombine.1
      fun l' r' _ hl' hr' => ?_
    simp [Expr.bare, hl', hr']

/-- The marks of a comparison are found. A lone `is` is not taken together with an operand, since
none starts with `not` there. -/
theorem compareOp?_marks (op : CompareOp) :
    (∃ m, op.marks = [m] ∧ (TokenKind.mark m).binding = 6 ∧
      ∀ k : TokenKind, k.isMark .kwNot = false → k.isMark .kwIn = false →
        compareOp? (.mark m) k = some (op, false)) ∨
    ∃ m m', op.marks = [m, m'] ∧ (TokenKind.mark m).binding = 6 ∧
      compareOp? (.mark m) (.mark m') = some (op, true) := by
  cases op with
  | notIn => exact .inr ⟨_, _, rfl, rfl, rfl⟩
  | isNot => exact .inr ⟨_, _, rfl, rfl, rfl⟩
  | is => exact .inl ⟨_, rfl, rfl, fun k hk _ => by simp [compareOp?, hk]⟩
  | _ => exact .inl ⟨_, rfl, rfl, fun _ _ _ => rfl⟩

theorem readAt_compare {op : CompareOp} (hl : ReadAt .sum ks l) (hr : ReadAt .sum ls r) :
    ReadAt .comparison (ks ++ op.marks.map .mark ++ ls) (.compare op l r span) := by
  rw [List.append_assoc]
  refine ⟨(hl.opens.mono (by decide)).append ?_, fun m n hm hn ts rest hts hrest prev => ?_⟩
  · cases op <;> simp [CompareOp.marks]
  obtain ⟨us, vs, rfl, hus, hvs⟩ := kinds_eq_append hts
  rw [List.length_append, List.length_append] at hm hn
  have hleft := takes_sum hl (m := m) (n := n) (by omega) (by omega)
  have hright := takes_sum hr (m := m) (n := n) (by omega) (by omega)
  rw [List.append_assoc]
  rcases compareOp?_marks op with ⟨x, hmarks, hbinding, hop⟩ | ⟨x, y, hmarks, hbinding, hop⟩
  · rw [hmarks] at hvs
    obtain ⟨t, ws, rfl, ht, hws⟩ := kinds_eq_cons hvs
    obtain ⟨l', prev', hl', hrun⟩ := hleft hus
      (ends_cons (ws ++ rest) ht (by rw [hbinding]; decide)) prev
    obtain ⟨r', prev'', hr', hrun'⟩ := hright hws (hrest.mono (by decide)) t.span
    refine ⟨Expr.join (.compare op) l' r', prev'', by simp [Expr.join, Expr.bare, hl', hr'], ?_⟩
    rw [List.cons_append, Level.comparison, parser_bind_ok hrun, parser_bind_ok kind_run]
    rw [parser_bind_ok peekKind_run, nextKind, ht, hop _ (hr.opens.isMark hws (by decide)) (hr.opens.isMark hws (by decide))]
    refine (parser_bind_ok advance_run).trans ?_
    exact parser_bind_ok hrun'
  · rw [hmarks] at hvs
    obtain ⟨t, ws, rfl, ht, hws⟩ := kinds_eq_cons hvs
    obtain ⟨t', xs, rfl, ht', hxs⟩ := kinds_eq_cons hws
    obtain ⟨l', prev', hl', hrun⟩ := hleft hus
      (ends_cons (t' :: (xs ++ rest)) ht (by rw [hbinding]; decide)) prev
    obtain ⟨r', prev'', hr', hrun'⟩ := hright hxs (hrest.mono (by decide)) t'.span
    refine ⟨Expr.join (.compare op) l' r', prev'', by simp [Expr.join, Expr.bare, hl', hr'], ?_⟩
    rw [List.cons_append, List.cons_append, Level.comparison, parser_bind_ok hrun,
      parser_bind_ok kind_run]
    rw [parser_bind_ok peekKind_run, nextKind, ht, nextKind, ht', hop]
    refine (parser_bind_ok advance_run).trans ?_
    refine (parser_bind_ok advance_run).trans ?_
    exact parser_bind_ok hrun'

theorem readAt_and (hl : ReadAt .conjunction ks l) (hr : ReadAt .negation ls r) :
    ReadAt .conjunction (ks ++ .mark .kwAnd :: ls) (.boolean .and l r span) := by
  refine ⟨hl.opens.append (by simp), fun m n hm hn => ?_⟩
  rw [List.length_append, List.length_cons] at hm hn
  refine (hl.reads m n (by omega) (by omega)).operand (hr.reads m n (by omega) (by omega))
    (by omega) (by decide) rfl fun l' r' _ hl' hr' => ?_
  simp [Expr.bare, hl', hr']

theorem readAt_or (hl : ReadAt .disjunction ks l) (hr : ReadAt .conjunction ls r) :
    ReadAt .disjunction (ks ++ .mark .kwOr :: ls) (.boolean .or l r span) := by
  refine ⟨hl.opens.append (by simp), fun m n hm hn => ?_⟩
  rw [List.length_append, List.length_cons] at hm hn
  refine (hl.reads m n (by omega) (by omega)).operand
    (takes_conjunction hr (by omega) (by omega)) (by omega) (by decide) rfl
    fun l' r' _ hl' hr' => ?_
  simp [Expr.bare, hl', hr']

/-- A conditional. What comes after `else` may be one again. -/
theorem readAt_conditional (hbody : ReadAt .disjunction ks body)
    (htest : ReadAt .disjunction ls test) (horelse : ReadAt .conditional us orelse) :
    ReadAt .conditional (ks ++ .mark .kwIf :: ls ++ .mark .kwElse :: us)
      (.conditional test body orelse span) := by
  rw [List.append_assoc]
  refine ⟨(hbody.opens.mono (by decide)).append (by simp), fun n hn ts rest hts hrest prev => ?_⟩
  obtain ⟨xs, vs, rfl, hxs, hvs⟩ := kinds_eq_append hts
  obtain ⟨t, vs, rfl, ht, hvs⟩ := kinds_eq_cons hvs
  obtain ⟨ys, vs, rfl, hys, hvs⟩ := kinds_eq_append hvs
  obtain ⟨t', zs, rfl, ht', hzs⟩ := kinds_eq_cons hvs
  simp only [List.length_append, List.length_cons] at hn
  obtain ⟨n, rfl⟩ : ∃ n', n = n' + 1 := ⟨n - 1, by omega⟩
  obtain ⟨body', prev₁, hbody', hrun₁⟩ := takes_disjunction hbody (m := n) (n := n) (by omega)
    (by omega) hxs (ends_cons (ys ++ t' :: (zs ++ rest)) ht (by decide)) prev
  obtain ⟨test', prev₂, htest', hrun₂⟩ := takes_disjunction htest (m := n) (n := n) (by omega)
    (by omega) hys (ends_cons (zs ++ rest) ht' (by decide)) t.span
  obtain ⟨orelse', prev₃, horelse', hrun₃⟩ := horelse.reads n (by omega) hzs hrest
    t'.span
  refine ⟨.conditional test' body' orelse' (body'.span.merge orelse'.span), prev₃,
    by simp [Expr.bare, hbody', htest', horelse'], ?_⟩
  simp only [List.append_assoc, List.cons_append]
  rw [expression, parser_bind_ok hrun₁, parser_bind_ok (accept_run ht)]
  refine (parser_bind_ok hrun₂).trans ?_
  rw [parser_bind_ok (expect_run ht'), parser_bind_ok hrun₃]
  rfl

end Operators

section Enclosing

variable {own : Precedence} {ks : List TokenKind} {e : Expr}

/-- An expression is in parentheses where its own precedence is not enough. -/
theorem readable_of_own (h : ReadAt own ks e)
    (hown : Precedence.conditional.rank ≤ own.rank) (hwrite : ∀ p, e.write p = enclose own p ks) :
    Readable e := by
  intro p _
  rw [hwrite, enclose]
  split
  · refine (readAt_enclosed (h.outward hown)).outward ?_
    cases p <;> decide
  · exact h.outward (Nat.le_of_not_lt ‹_›)

theorem readable_of_atom (h : ReadAt .atom ks e) (hwrite : ∀ p, e.write p = ks) : Readable e := by
  intro p _
  rw [hwrite]
  refine h.outward ?_
  cases p <;> decide

/-- What has the least precedence is in parentheses in every other expression. -/
theorem readable_of_bare (h : ReadAt .atom (parenthesise ks) e)
    (hwrite : ∀ p, e.write p = enclose .bare p ks) : Readable e := by
  intro p hp
  have hless : Precedence.bare.rank < p.rank := hp
  rw [hwrite, enclose, if_pos hless]
  refine h.outward ?_
  cases p <;> decide

end Enclosing

theorem readable_unary {op : UnaryOp} {e : Expr} {span : Span} (h : Readable e) :
    Readable (.unary op e span) := by
  refine readable_of_own (?_ : ReadAt op.precedence _ _) (by cases op <;> decide) fun _ => rfl
  cases op with
  | neg | pos => exact readAt_sign rfl (h .sign (by decide))
  | not => exact readAt_not (h .negation (by decide))

theorem readable_binary {op : BinaryOp} {l r : Expr} {span : Span} (hl : Readable l)
    (hr : Readable r) : Readable (.binary op l r span) := by
  refine readable_of_own (?_ : ReadAt op.precedence _ _) (by cases op <;> decide) fun _ => rfl
  cases op with
  | add | sub => exact readAt_sum rfl (hl .sum (by decide)) (hr .product (by decide))
  | mul | div | floorDiv | mod =>
    exact readAt_product rfl (hl .product (by decide)) (hr .sign (by decide))
  | pow => exact readAt_power (hl .await (by decide)) (hr .sign (by decide))

theorem readable_boolean {op : BoolOp} {l r : Expr} {span : Span} (hl : Readable l)
    (hr : Readable r) : Readable (.boolean op l r span) := by
  refine readable_of_own (?_ : ReadAt op.precedence _ _) (by cases op <;> decide) fun _ => rfl
  cases op with
  | and => exact readAt_and (hl .conjunction (by decide)) (hr .negation (by decide))
  | or => exact readAt_or (hl .disjunction (by decide)) (hr .conjunction (by decide))

mutual

/-- Every expression is taken wherever it may stand. -/
theorem readable : (e : Expr) → e.Distinct → Readable e
  | .none _, _ => readable_of_atom readAt_none fun _ => rfl
  | .ellipsis _, _ => readable_of_atom readAt_ellipsis fun _ => rfl
  | .bool .., _ => readable_of_atom readAt_bool fun _ => rfl
  | .int .., _ => readable_of_atom readAt_int fun _ => rfl
  | .float .., _ => readable_of_atom readAt_float fun _ => rfl
  | .str .., _ => readable_of_atom readAt_str fun _ => rfl
  | .name .., _ => readable_of_atom readAt_name fun _ => rfl
  | .list items _, h => readable_of_atom (readAt_list (readable_items items h)) fun _ => rfl
  | .tuple [] _, _ => readable_of_atom readAt_emptyTuple fun _ => rfl
  | .tuple (e :: es) _, h =>
    readable_of_bare (readAt_tuple (readable e h.1) (readable_items es h.2)) fun _ => rfl
  | .dict entries _, h => readable_of_atom (readAt_dict (readable_entries entries h)) fun _ => rfl
  | .member value _ _, h =>
    readable_of_own (readAt_member (readable value h .trailer (by decide))) (by decide)
      fun _ => rfl
  | .subscript value index _, h =>
    readable_of_own (readAt_subscript (readable value h.1 .trailer (by decide))
      (readable index h.2)) (by decide) fun _ => rfl
  | .call callee args keywords _, h =>
    readable_of_own (readAt_call (readable callee h.1 .trailer (by decide))
      (readable_items args h.2.1) (readable_keywords keywords h.2.2.2) h.2.2.1) (by decide)
      fun _ => rfl
  | .unary _ operand _, h => readable_unary (readable operand h)
  | .binary _ left right _, h => readable_binary (readable left h.1) (readable right h.2)
  | .compare _ left right _, h =>
    readable_of_own (readAt_compare (readable left h.1 .sum (by decide))
      (readable right h.2 .sum (by decide))) (by decide) fun _ => rfl
  | .boolean _ left right _, h => readable_boolean (readable left h.1) (readable right h.2)
  | .conditional test body orelse _, h =>
    readable_of_own (readAt_conditional (readable body h.2.1 .disjunction (by decide))
      (readable test h.1 .disjunction (by decide))
      (readable orelse h.2.2 .conditional (by decide))) (by decide) fun _ => rfl
  | .yield none _, _ => readable_of_bare (readAt_yield (by simp)) fun _ => rfl
  | .yield (some value) _, h =>
    have hvalue := readable value h
    readable_of_bare (readAt_yield fun v hv => by cases hv; exact hvalue) fun _ => rfl
  | .await value _, h =>
    readable_of_own (readAt_await (readable value h .await (by decide))) (by decide) fun _ => rfl

theorem readable_items : (es : List Expr) → ItemsDistinct es → ∀ e ∈ es, Readable e
  | [], _ => by simp
  | e :: es, h => List.forall_mem_cons.2 ⟨readable e h.1, readable_items es h.2⟩

theorem readable_entries : (es : List (Expr × Expr)) → EntriesDistinct es →
    ∀ e ∈ es, Readable e.1 ∧ Readable e.2
  | [], _ => by simp
  | (key, value) :: es, h =>
    List.forall_mem_cons.2 ⟨⟨readable key h.1, readable value h.2.1⟩, readable_entries es h.2.2⟩

theorem readable_keywords : (ks : List (Name × Expr)) → KeywordsDistinct ks →
    ∀ k ∈ ks, Readable k.2
  | [], _ => by simp
  | (_, value) :: ks, h =>
    List.forall_mem_cons.2 ⟨readable value h.1, readable_keywords ks h.2⟩

end

/-- The first token of an expression that is not part of another one. -/
def TokenKind.startsBare (k : TokenKind) : Bool := k.startsExpr || k.isMark .kwYield

/-- Standing alone, every expression is taken as well, a tuple or `yield` without parentheses. -/
theorem reads_alone {e : Expr} (h : e.Distinct) : Reads (e.write .bare) e .bare ∧
    ∃ k ks, e.write .bare = k :: ks ∧ k.startsBare = true := by
  have hreadable := readable e h .conditional (Nat.le_refl _)
  have halone : e.write .bare = e.write .conditional →
      Reads (e.write .bare) e .bare ∧ ∃ k ks, e.write .bare = k :: ks ∧ k.startsBare = true := by
    intro hwrite
    obtain ⟨k, ks, hks, hstarts, -⟩ := hreadable.opens
    rw [hwrite]
    exact ⟨reads_bare hreadable, k, ks, hks, by rw [TokenKind.startsBare, hstarts]; rfl⟩
  cases e with
  | tuple items span =>
    cases items with
    | nil => exact halone rfl
    | cons e es =>
      have he := readable e h.1
      refine ⟨reads_tuple he (readable_items es h.2), ?_⟩
      have hopens : Opens .conditional (tupleTokens (writeItems (e :: es))) := opens_tupleTokens he
      obtain ⟨k, ks, hks, hstarts, -⟩ := hopens
      exact ⟨k, ks, hks, by rw [TokenKind.startsBare, hstarts]; rfl⟩
  | yield value span =>
    cases value with
    | none => exact ⟨reads_yield (by simp), _, _, rfl, rfl⟩
    | some v =>
      have hv := readable v h
      refine ⟨reads_yield fun w hw => ?_, _, _, rfl, rfl⟩
      cases hw
      exact hv
  | unary op | binary op | boolean op => cases op <;> exact halone rfl
  | _ => exact halone rfl

section Statements

variable {k : TokenKind} {e : Expr} {n : Nat} {prev prev' start : Span} {ts rest : List Token}
  {newline eof : Token}

theorem simpleStatement_run (hk : (nextKind rest).startsBare = true) :
    simpleStatement n start ⟨prev, rest⟩ = expressionStatement n start ⟨prev, rest⟩ := by
  rw [simpleStatement, parser_bind_ok kind_run]
  generalize nextKind rest = k at hk
  cases k with
  | mark m => cases m <;> first | rfl | exact absurd hk (by decide)
  | _ => rfl

theorem statement_run (hk : (nextKind rest).startsBare = true) :
    statement (n + 1) ⟨prev, rest⟩ = (do
      let stmt ← expressionStatement n (Cursor.mk prev rest).current.span
      endSimple
      return stmt : Parser Stmt) ⟨prev, rest⟩ := by
  have hsimple : (do
      let stmt ← simpleStatement n (Cursor.mk prev rest).current.span
      endSimple
      return stmt : Parser Stmt) ⟨prev, rest⟩ = (do
      let stmt ← expressionStatement n (Cursor.mk prev rest).current.span
      endSimple
      return stmt : Parser Stmt) ⟨prev, rest⟩ :=
    congrArg (fun r => r >>= fun r : Stmt × Cursor => (do endSimple; return r.1 : Parser Stmt) r.2)
      (simpleStatement_run hk)
  rw [← hsimple, statement, parser_bind_ok (a := (Cursor.mk prev rest).current) rfl,
    parser_bind_ok kind_run]
  generalize nextKind rest = k at hk
  cases k with
  | mark m => cases m <;> first | rfl | exact absurd hk (by decide)
  | _ => rfl

theorem expressionStatement_run (hnewline : newline.kind = .mark .newline)
    (hrun : expressionListOrYield (n + 1) ⟨prev, rest⟩ = .ok (e, ⟨prev', newline :: ts⟩)) :
    expressionStatement (n + 1) start ⟨prev, rest⟩ =
      .ok (.expr e (start.merge prev'), ⟨prev', newline :: ts⟩) := by
  have hassign : (nextKind (newline :: ts)).isMark .assign = false := by
    rw [nextKind, hnewline]
    rfl
  rw [expressionStatement, parser_bind_ok hrun, parser_bind_ok kind_run, nextKind, hnewline]
  have hvalues : assignedValues (n + 1) ⟨prev', newline :: ts⟩ =
      .ok ([], ⟨prev', newline :: ts⟩) := by
    rw [assignedValues, parser_bind_ok (accept_other hassign)]
    rfl
  refine (parser_bind_ok hvalues).trans ?_
  rfl

theorem endSimple_run (hnewline : newline.kind = .mark .newline) :
    endSimple ⟨prev, newline :: ts⟩ = .ok ((), ⟨newline.span, ts⟩) := by
  rw [endSimple, parser_bind_ok kind_run, nextKind, hnewline]
  rfl

theorem statements_end (heof : eof.kind = .mark .eof) :
    statements (n + 1) ⟨prev, [eof]⟩ = .ok ([], ⟨prev, [eof]⟩) := by
  have hskip : skipSeparators ⟨prev, [eof]⟩ = .ok ((), ⟨prev, [eof]⟩) :=
    skip_run (by rw [nextKind, heof]; rfl)
  rw [statements, parser_bind_ok hskip, parser_bind_ok atMark_run, nextKind, heof]
  rfl

theorem not_isMark_of_startsBare {m : Mark} (hk : k.startsBare = true)
    (hm : (TokenKind.mark m).startsBare = false) : k.isMark m = false := by
  cases hmark : k.isMark m with
  | false => rfl
  | true =>
    rw [eq_mark_of_isMark hmark, hm] at hk
    cases hk

/-- A line with a statement that starts as an expression, and nothing after it. -/
theorem statements_single {stmt : Stmt} (hk : (nextKind rest).startsBare = true)
    (hnewline : newline.kind = .mark .newline) (heof : eof.kind = .mark .eof)
    (hrun : expressionStatement (n + 1) (Cursor.mk prev rest).current.span ⟨prev, rest⟩ =
      .ok (stmt, ⟨prev', [newline, eof]⟩)) :
    statements (n + 3) ⟨prev, rest⟩ = .ok ([stmt], ⟨newline.span, [eof]⟩) := by
  have hskip : skipSeparators ⟨prev, rest⟩ = .ok ((), ⟨prev, rest⟩) := by
    refine skip_run ?_
    rw [List.any_cons, List.any_cons, not_isMark_of_startsBare (m := .newline) hk rfl,
      not_isMark_of_startsBare (m := .semicolon) hk rfl]
    rfl
  have hstatement : statement (n + 2) ⟨prev, rest⟩ = .ok (stmt, ⟨newline.span, [eof]⟩) := by
    rw [statement_run hk, parser_bind_ok hrun, parser_bind_ok (endSimple_run hnewline)]
    rfl
  rw [statements, parser_bind_ok hskip, parser_bind_ok atMark_run,
    not_isMark_of_startsBare hk rfl]
  refine (parser_bind_ok atMark_run).trans ?_
  rw [not_isMark_of_startsBare hk rfl]
  refine (parser_bind_ok hstatement).trans ?_
  rw [parser_bind_ok (statements_end heof)]
  rfl

theorem statements_run (hk : (nextKind rest).startsBare = true)
    (hnewline : newline.kind = .mark .newline) (heof : eof.kind = .mark .eof)
    (hrun : expressionListOrYield (n + 1) ⟨prev, rest⟩ = .ok (e, ⟨prev', [newline, eof]⟩)) :
    ∃ span, statements (n + 3) ⟨prev, rest⟩ = .ok ([.expr e span], ⟨newline.span, [eof]⟩) :=
  ⟨_, statements_single hk hnewline heof (expressionStatement_run hnewline hrun)⟩

end Statements

/-- The tokens of an expression, written with parentheses only where the table asks for them, are
read as that expression again, before a line end and the end of the source. Exactly these tokens
are taken, whatever bound the parser has, if it is great enough; and the whole is a module with
nothing but the expression. -/
theorem precedence_kept {e : Expr} (h : e.Distinct) {tokens : List Token}
    (htokens : kinds tokens = e.write .bare) {newline eof : Token}
    (hnewline : newline.kind = .mark .newline) (heof : eof.kind = .mark .eof) :
    (∀ n prev, 8 * tokens.length < n → ∃ e' prev', e'.bare = e.bare ∧
      expressionListOrYield n ⟨prev, tokens ++ [newline, eof]⟩ =
        .ok (e', ⟨prev', [newline, eof]⟩)) ∧
    ∃ e' span, e'.bare = e.bare ∧ ofTokens (tokens ++ [newline, eof]) = .ok [.expr e' span] := by
  obtain ⟨hreads, k, ks, hks, hstarts⟩ := reads_alone h
  have hlength : (e.write .bare).length = tokens.length := by rw [← htokens, length_kinds]
  have hends : Ends .bare [newline, eof] := ends_mark hnewline (by decide)
  have hlist : ∀ n prev, 8 * tokens.length < n → ∃ e' prev', e'.bare = e.bare ∧
      expressionListOrYield n ⟨prev, tokens ++ [newline, eof]⟩ =
        .ok (e', ⟨prev', [newline, eof]⟩) :=
    fun n prev hn => hreads n (by omega) htokens hends prev
  refine ⟨hlist, ?_⟩
  obtain ⟨e', prev', he, hrun⟩ := hlist (8 * tokens.length + 21 + 1) .origin (by omega)
  have hnext : (nextKind (tokens ++ [newline, eof])).startsBare = true := by
    rw [nextKind_append (htokens.trans hks)]
    exact hstarts
  obtain ⟨span, hstatements⟩ := statements_run hnext hnewline heof hrun
  refine ⟨e', span, he, ?_⟩
  have hbound : nestingBound (tokens ++ [newline, eof]).length = 8 * tokens.length + 21 + 3 := by
    simp only [nestingBound, List.length_append, List.length_cons, List.length_nil]
    omega
  rw [ofTokens, hbound, hstatements]
  rfl

/-- A condition on a sum in which a power has signs inside and outside, and a call has a keyword
with a tuple. -/
def mixedExpr : Expr :=
  let name (n : Name) : Expr := .name n .origin
  let power := Expr.unary .neg
    (.binary .pow (name "a") (.unary .neg (name "b") .origin) .origin) .origin
  let call := Expr.call (.member (name "c") "d" .origin) [.yield none .origin]
    [("key", .tuple [.int 1 .origin] .origin)] .origin
  let test := Expr.compare .notIn (.binary .sub power (.binary .sub call (name "e") .origin) .origin)
    (.subscript (name "g") (.boolean .or (name "h") (.unary .not (name "i") .origin) .origin)
      .origin) .origin
  .conditional test (.tuple [] .origin) (.conditional (name "j") (name "k") (name "l") .origin)
    .origin

theorem precedence_kept_mixedExpr : ∃ e span, e.bare = mixedExpr.bare ∧
    ofTokens ((mixedExpr.write .bare).map (⟨·, .origin⟩) ++
      [⟨.mark .newline, .origin⟩, ⟨.mark .eof, .origin⟩]) = .ok [.expr e span] := by
  have hdistinct : mixedExpr.Distinct := by
    simp [mixedExpr, Expr.Distinct, ItemsDistinct, KeywordsDistinct]
  have htokens : kinds ((mixedExpr.write .bare).map (⟨·, .origin⟩)) = mixedExpr.write .bare := by
    rw [kinds, List.map_map]
    exact List.map_id _
  exact (precedence_kept hdistinct htokens rfl rfl).2

end Lexiscope.Grammar
