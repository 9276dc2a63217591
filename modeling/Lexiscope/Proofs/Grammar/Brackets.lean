import Lexiscope.Proofs.Grammar.Items
/-!
# Brackets

What stands in brackets is an atom: a parenthesised expression, a tuple, a `yield`, a list or a
dictionary. A bracket after an operand calls it or takes an item of it.
-/

namespace Lexiscope.Grammar

open Text (Span)
open Lexiscope.Grammar.Parser

section Bracketed

variable {ks : List TokenKind} {e value index callee : Expr} {items args : List Expr}
  {entries : List (Expr × Expr)} {keywords : List (Name × Expr)} {span : Span} {n : Nat}

theorem bare_withSpan (e : Expr) (span : Span) : (e.withSpan span).bare = e.bare := by
  cases e with
  | yield value => cases value <;> rfl
  | _ => rfl

theorem kinds_eq_bracketed {ts : List Token} {k k' : TokenKind}
    (h : kinds ts = k :: ks ++ [k']) : ∃ t us t', ts = t :: (us ++ [t']) ∧ t.kind = k ∧
      kinds us = ks ∧ t'.kind = k' := by
  obtain ⟨t, vs, rfl, ht, hvs⟩ := kinds_eq_cons h
  obtain ⟨us, ws, rfl, hus, hws⟩ := kinds_eq_append hvs
  obtain ⟨t', xs, rfl, ht', hxs⟩ := kinds_eq_cons hws
  obtain rfl := kinds_eq_nil hxs
  exact ⟨t, us, t', rfl, ht, hus, ht'⟩

theorem readAt_parenthesise (h : ∀ n, 8 * ks.length < n → ∀ ts t rest prev start, kinds ts = ks → t.kind = .mark .rparen →
      ∃ e', e'.bare = e.bare ∧
        parenthesised n start ⟨prev, ts ++ t :: rest⟩ = .ok (e', ⟨t.span, rest⟩)) :
    ReadAt .atom (parenthesise ks) e := by
  refine ⟨opens_mark rfl (by decide), fun n hn ts rest hts hrest prev => ?_⟩
  obtain ⟨t, us, t', rfl, ht, hus, ht'⟩ := kinds_eq_bracketed hts
  simp only [parenthesise, List.length_append, List.length_cons, List.length_nil] at hn
  obtain ⟨n, rfl⟩ : ∃ n', n = n' + 1 := ⟨n - 1, by omega⟩
  obtain ⟨e', he, hrun⟩ := h n (by omega) us t' rest t.span t.span hus ht'
  refine ⟨e', t'.span, he, ?_⟩
  rw [List.cons_append, List.append_assoc, atom, parser_bind_ok advance_run, ht]
  exact hrun

theorem readAt_enclosed (h : ReadAt .conditional ks e) : ReadAt .atom (parenthesise ks) e := by
  refine readAt_parenthesise fun n hn ts t rest prev start hts ht => ?_
  obtain ⟨n, rfl⟩ : ∃ n', n = n' + 1 := ⟨n - 1, by omega⟩
  obtain ⟨e', prev', he, hrun⟩ := h.reads n (by omega) hts
    (ends_cons rest ht (by decide)) prev
  refine ⟨e'.withSpan (start.merge t.span), by rw [bare_withSpan, he], ?_⟩
  rw [parenthesised, parser_bind_ok (accept_other (h.opens.isMark hts (by decide)))]
  refine (parser_bind_ok atMark_run).trans ?_
  rw [h.opens.isMark hts (by decide)]
  refine (parser_bind_ok hrun).trans ?_
  rw [parser_bind_ok (accept_run ht)]
  rfl

theorem readAt_emptyTuple : ReadAt .atom (parenthesise []) (.tuple [] span) := by
  refine readAt_parenthesise fun n hn ts t rest prev start hts ht => ?_
  obtain ⟨n, rfl⟩ : ∃ n', n = n' + 1 := ⟨n - 1, by omega⟩
  obtain rfl := kinds_eq_nil hts
  refine ⟨.tuple [] (start.merge t.span), rfl, ?_⟩
  rw [parenthesised, List.nil_append, parser_bind_ok (accept_run ht)]
  rfl

section Tuples

theorem opens_tupleTokens (he : Readable e) :
    Opens .conditional (tupleTokens (writeItems (e :: items))) := by
  rw [writeItems, tupleTokens_cons]
  exact he.opens.append (by simp)

theorem readAt_tuple (he : Readable e) (hes : ∀ e ∈ items, Readable e) :
    ReadAt .atom (parenthesise (tupleTokens (writeItems (e :: items))))
      (.tuple (e :: items) span) := by
  refine readAt_parenthesise fun n hn ts t rest prev start hts ht => ?_
  obtain ⟨n, rfl⟩ : ∃ n', n = n' + 1 := ⟨n - 1, by omega⟩
  rw [writeItems, tupleTokens_cons] at hts hn
  obtain ⟨us, vs, rfl, hus, hvs⟩ := kinds_eq_append hts
  obtain ⟨comma, ws, rfl, hcomma, hws⟩ := kinds_eq_cons hvs
  rw [List.length_append, List.length_cons] at hn
  obtain ⟨e', prev', he', hrun⟩ := he.expression (n := n) (by omega) hus
    (ends_cons (ws ++ t :: rest) hcomma (by decide)) prev
  obtain ⟨es', prev'', hes', hmore⟩ := sequence_run (n := n) (.inl rfl) hes (by omega) hws ht rest
    comma.span
  refine ⟨.tuple (e' :: es') (start.merge t.span), by simp [Expr.bare, bareItems, he', hes'], ?_⟩
  have hparen : (nextKind (comma :: (ws ++ t :: rest))).isMark .rparen = false := by
    rw [nextKind, hcomma]
    rfl
  rw [List.append_assoc, parenthesised, parser_bind_ok (accept_other (he.not_isMark hus rfl))]
  refine (parser_bind_ok atMark_run).trans ?_
  rw [he.not_isMark hus rfl]
  refine (parser_bind_ok hrun).trans ?_
  rw [parser_bind_ok (accept_other hparen)]
  refine (parser_bind_ok (expect_run hcomma)).trans ?_
  refine (parser_bind_ok hmore).trans ?_
  rw [parser_bind_ok (expect_run ht)]
  rfl

theorem reads_tuple (he : Readable e) (hes : ∀ e ∈ items, Readable e) :
    Reads (tupleTokens (writeItems (e :: items))) (.tuple (e :: items) span) .bare := by
  intro n hn ts rest hts hrest prev
  have hopens : Opens .conditional (tupleTokens (writeItems (e :: items))) := opens_tupleTokens he
  have hyield : (nextKind (ts ++ rest)).isMark .kwYield = false :=
    hopens.isMark hts (by decide)
  obtain ⟨n, rfl⟩ : ∃ n', n = n' + 1 := ⟨n - 1, by omega⟩
  rw [writeItems, tupleTokens_cons] at hts hn
  obtain ⟨us, vs, rfl, hus, hvs⟩ := kinds_eq_append hts
  obtain ⟨comma, ws, rfl, hcomma, hws⟩ := kinds_eq_cons hvs
  rw [List.length_append, List.length_cons] at hn
  obtain ⟨e', prev', he', hrun⟩ := he.expression (n := n) (by omega) hus
    (ends_cons (ws ++ rest) hcomma (by decide)) prev
  obtain ⟨es', prev'', hes', hmore⟩ := moreItems_run (n := n) hes (by omega) hcomma hws hrest prev'
  refine ⟨.tuple (e' :: es') (e'.span.merge prev''), prev'',
    by simp [Expr.bare, bareItems, he', hes'], ?_⟩
  rw [expressionListOrYield, parser_bind_ok atMark_run, hyield, List.append_assoc]
  refine (parser_bind_ok hrun).trans ?_
  rw [parser_bind_ok atMark_run, nextKind, hcomma]
  exact parser_bind_ok hmore

end Tuples

section Yields

theorem takes_yield {value : Option Expr} (hvalue : ∀ v ∈ value, Readable v)
    (hn : 8 * ((Expr.yield value span).write .bare).length ≤ n) :
    Takes (yielded n) ((Expr.yield value span).write .bare) .bare (.yield value span) := by
  intro ts rest hts hrest prev
  have hpos : 0 < ((Expr.yield value span).write .bare).length := by
    cases value <;> simp [Expr.write, enclose]
  obtain ⟨n, rfl⟩ : ∃ n', n = n' + 1 := ⟨n - 1, by omega⟩
  cases value with
  | none =>
    obtain ⟨t, us, rfl, ht, hus⟩ := kinds_eq_cons hts
    obtain rfl := kinds_eq_nil hus
    have hnone : (nextKind rest).startsExpr = false := startsExpr_of_ends hrest
    refine ⟨.yield none (t.span.merge t.span), t.span, rfl, ?_⟩
    rw [yielded, List.cons_append, parser_bind_ok (expect_run ht)]
    refine (parser_bind_ok kind_run).trans ?_
    rw [List.nil_append, hnone]
    rfl
  | some v =>
    have hv := hvalue v rfl
    obtain ⟨t, us, rfl, ht, hus⟩ := kinds_eq_cons hts
    obtain ⟨v', prev', hv', hrun⟩ := takes_expressionList (n := n)
      (hv .conditional (Nat.le_refl _)) (by simp [Expr.write, enclose] at hn; omega) hus
      hrest t.span
    refine ⟨.yield (some v') (t.span.merge prev'), prev', by simp [Expr.bare, hv'], ?_⟩
    rw [yielded, List.cons_append, parser_bind_ok (expect_run ht)]
    refine (parser_bind_ok kind_run).trans ?_
    rw [hv.opens.startsExpr hus]
    exact parser_bind_ok hrun

theorem nextKind_yield {value : Option Expr} {ts rest : List Token}
    (hts : kinds ts = (Expr.yield value span).write .bare) :
    nextKind (ts ++ rest) = .mark .kwYield := by
  cases value <;> exact nextKind_append hts

theorem reads_yield {value : Option Expr} (hvalue : ∀ v ∈ value, Readable v) :
    Reads ((Expr.yield value span).write .bare) (.yield value span) .bare := by
  intro n hn ts rest hts hrest prev
  obtain ⟨e', prev', he, hrun⟩ := takes_yield hvalue (Nat.le_of_lt hn) hts hrest prev
  refine ⟨e', prev', he, ?_⟩
  rw [expressionListOrYield, parser_bind_ok atMark_run, nextKind_yield hts]
  exact hrun

theorem readAt_yield {value : Option Expr} (hvalue : ∀ v ∈ value, Readable v) :
    ReadAt .atom (parenthesise ((Expr.yield value span).write .bare)) (.yield value span) := by
  refine readAt_parenthesise fun n hn ts t rest prev start hts ht => ?_
  obtain ⟨n, rfl⟩ : ∃ n', n = n' + 1 := ⟨n - 1, by omega⟩
  obtain ⟨e', prev', he, hrun⟩ := takes_yield hvalue (n := n) (by omega) hts
    (ends_cons rest ht (by decide)) prev
  refine ⟨e', he, ?_⟩
  rw [parenthesised, parser_bind_ok (accept_other (by rw [nextKind_yield hts]; rfl))]
  refine (parser_bind_ok atMark_run).trans ?_
  rw [nextKind_yield hts]
  refine (parser_bind_ok hrun).trans ?_
  rw [parser_bind_ok (expect_run ht)]
  rfl

end Yields

theorem readAt_list (hes : ∀ e ∈ items, Readable e) :
    ReadAt .atom (.mark .lbracket :: separate (writeItems items) ++ [.mark .rbracket])
      (.list items span) := by
  refine ⟨opens_mark rfl (by decide), fun n hn ts rest hts _ prev => ?_⟩
  obtain ⟨t, us, t', rfl, ht, hus, ht'⟩ := kinds_eq_bracketed hts
  simp only [List.length_append, List.length_cons, List.length_nil] at hn
  obtain ⟨n, rfl⟩ : ∃ n', n = n' + 1 := ⟨n - 1, by omega⟩
  obtain ⟨es', prev', hes', hrun⟩ := sequence_run (n := n) (.inr rfl) hes (by omega) hus
    ht' rest t.span
  refine ⟨.list es' (t.span.merge t'.span), t'.span, by simp [Expr.bare, hes'], ?_⟩
  rw [List.cons_append, List.append_assoc, atom, parser_bind_ok advance_run, ht]
  refine (parser_bind_ok hrun).trans ?_
  rw [parser_bind_ok (expect_run ht')]
  rfl

theorem readAt_dict (hes : ∀ e ∈ entries, Readable e.1 ∧ Readable e.2) :
    ReadAt .atom (.mark .lbrace :: separate (writeEntries entries) ++ [.mark .rbrace])
      (.dict entries span) := by
  refine ⟨opens_mark rfl (by decide), fun n hn ts rest hts _ prev => ?_⟩
  obtain ⟨t, us, t', rfl, ht, hus, ht'⟩ := kinds_eq_bracketed hts
  simp only [List.length_append, List.length_cons, List.length_nil] at hn
  obtain ⟨n, rfl⟩ : ∃ n', n = n' + 1 := ⟨n - 1, by omega⟩
  obtain ⟨es', hes', hrun⟩ := dictEntries_run (n := n) hes (by omega) hus ht' rest t.span
  refine ⟨.dict es' (t.span.merge t'.span), t'.span, by simp [Expr.bare, hes'], ?_⟩
  rw [List.cons_append, List.append_assoc, atom, parser_bind_ok advance_run, ht]
  refine (parser_bind_ok hrun).trans ?_
  rfl

section Trailers

theorem readAt_member (h : ReadAt .trailer ks e) {attr : Name} :
    ReadAt .trailer (ks ++ [.mark .dot, .ident attr]) (.member e attr span) := by
  refine ⟨h.opens.append (by simp), fun n hn ts rest hts hrest prev => ?_⟩
  obtain ⟨us, vs, rfl, hus, hvs⟩ := kinds_eq_append hts
  obtain ⟨dot, ws, rfl, hdot, hws⟩ := kinds_eq_cons hvs
  obtain ⟨word, xs, rfl, hword, hxs⟩ := kinds_eq_cons hws
  obtain rfl := kinds_eq_nil hxs
  simp only [List.length_append, List.length_cons, List.length_nil] at hn ⊢
  obtain ⟨e', prev', m, he, hm, hrun⟩ := h.reads n (by omega) hus
    (ends_cons (word :: rest) hdot (by decide)) prev
  obtain ⟨m, rfl⟩ : ∃ m', m = m' + 1 := ⟨m - 1, by omega⟩
  refine ⟨.member e' attr (e'.span.merge word.span), word.span, m, by simp [Expr.bare, he],
    by omega, ?_⟩
  rw [List.append_assoc]
  refine hrun.trans ?_
  rw [trailers, parser_bind_ok kind_run, nextKind, hdot]
  refine (parser_bind_ok advance_run).trans ?_
  rw [parser_bind_ok (identifier_run hword)]
  exact parser_bind_ok spanFrom_run

theorem readAt_subscript (h : ReadAt .trailer ks e) (hindex : Readable index) :
    ReadAt .trailer (ks ++ .mark .lbracket :: index.write .conditional ++ [.mark .rbracket])
      (.subscript e index span) := by
  rw [List.append_assoc]
  refine ⟨h.opens.append (by simp), fun n hn ts rest hts hrest prev => ?_⟩
  obtain ⟨us, vs, rfl, hus, hvs⟩ := kinds_eq_append hts
  obtain ⟨t, ws, t', rfl, ht, hws, ht'⟩ := kinds_eq_bracketed hvs
  simp only [List.length_append, List.length_cons, List.length_nil] at hn ⊢
  obtain ⟨e', prev', m, he, hm, hrun⟩ := h.reads n (by omega) hus
    (ends_cons (ws ++ t' :: rest) ht (by decide)) prev
  obtain ⟨m, rfl⟩ : ∃ m', m = m' + 1 := ⟨m - 1, by omega⟩
  obtain ⟨i', prev'', hi, hrun'⟩ := takes_expressionList (hindex .conditional (Nat.le_refl _))
    (n := m) (by omega) hws (ends_cons rest ht' (by decide)) t.span
  refine ⟨.subscript e' i' (e'.span.merge t'.span), t'.span, m, by simp [Expr.bare, he, hi],
    by omega, ?_⟩
  rw [List.append_assoc, List.cons_append, List.append_assoc]
  refine hrun.trans ?_
  rw [trailers, parser_bind_ok kind_run, nextKind, ht]
  refine (parser_bind_ok advance_run).trans ?_
  rw [parser_bind_ok hrun']
  exact parser_bind_ok (expect_run ht')

theorem readAt_call (h : ReadAt .trailer ks e) (hargs : ∀ a ∈ args, Readable a)
    (hkeywords : ∀ k ∈ keywords, Readable k.2) (hnodup : (keywords.map Prod.fst).Nodup) :
    ReadAt .trailer
      (ks ++ parenthesise (separate (writeItems args ++ writeKeywords keywords)))
      (.call e args keywords span) := by
  refine ⟨h.opens.append (by simp [parenthesise]), fun n hn ts rest hts hrest prev => ?_⟩
  obtain ⟨us, vs, rfl, hus, hvs⟩ := kinds_eq_append hts
  obtain ⟨t, ws, t', rfl, ht, hws, ht'⟩ := kinds_eq_bracketed hvs
  simp only [parenthesise, List.length_append, List.length_cons, List.length_nil] at hn ⊢
  obtain ⟨e', prev', m, he, hm, hrun⟩ := h.reads n (by omega) hus
    (ends_cons (ws ++ t' :: rest) ht (by decide)) prev
  obtain ⟨m, rfl⟩ : ∃ m', m = m' + 1 := ⟨m - 1, by omega⟩
  have hparen : nextKind (t' :: rest) = .mark .rparen := ht'
  obtain ⟨as', ks', prev'', has, hks, hrun'⟩ := arguments_run (n := m) hargs hkeywords (by omega)
    hnodup hws hparen [] t.span
  refine ⟨.call e' as' ks' (e'.span.merge t'.span), t'.span, m, by simp [Expr.bare, he, has, hks],
    by omega, ?_⟩
  rw [List.append_assoc, List.cons_append, List.append_assoc]
  refine hrun.trans ?_
  rw [trailers, parser_bind_ok kind_run, nextKind, ht]
  refine (parser_bind_ok advance_run).trans ?_
  rw [parser_bind_ok hrun']
  exact parser_bind_ok (expect_run ht')

end Trailers

end Bracketed

end Lexiscope.Grammar
