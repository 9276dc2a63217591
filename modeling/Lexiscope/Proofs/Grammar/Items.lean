import Lexiscope.Proofs.Grammar.Levels
/-!
# Atoms and parts with commas between them

Literals and names; and the items of lists and tuples, the entries of dictionaries and the arguments
of calls, up to the bracket that closes them.
-/

namespace Lexiscope.Grammar

open Text (Span)
open Lexiscope.Grammar.Parser

-- Many rules unfold this parser: its equations are made here, once.
attribute [local simp] atom

/-- Wherever the expression stands as a part of another one, its tokens are taken as it. -/
def Readable (e : Expr) : Prop :=
  ∀ p : Precedence, Precedence.conditional.rank ≤ p.rank → ReadAt p (e.write p) e

section Atoms

variable {p : Precedence} {ks : List TokenKind} {k : TokenKind} {e : Expr} {text : String}
  {prev span : Span} {rest : List Token}

theorem readAt_single (hk : k.startsExpr = true) (hopening : k.opening = Precedence.atom.rank)
    (hrun : ∀ n prev t rest, t.kind = k → Ends .atom rest → ∃ e' : Expr, e'.bare = e.bare ∧
      atom (n + 1) ⟨prev, t :: rest⟩ = .ok (e', ⟨t.span, rest⟩)) : ReadAt .atom [k] e := by
  refine ⟨opens_single hk (Nat.le_of_eq hopening.symm), fun n hn ts rest hts hrest prev => ?_⟩
  obtain ⟨t, us, rfl, ht, hus⟩ := kinds_eq_cons hts
  obtain rfl := kinds_eq_nil hus
  obtain ⟨n, rfl⟩ : ∃ n', n = n' + 1 := ⟨n - 1, by simp at hn; omega⟩
  obtain ⟨e', he, hatom⟩ := hrun n prev t rest ht hrest
  exact ⟨e', t.span, he, hatom⟩

/-- Only literals right after a literal are put together with it. -/
theorem joinStrings_run (hrest : Ends .atom rest) :
    joinStrings text ⟨prev, rest⟩ = .ok (text, ⟨prev, rest⟩) := by
  unfold joinStrings adjacentStrings
  cases rest with
  | nil => rfl
  | cons t ts =>
    obtain ⟨k, span⟩ := t
    cases k with
    | str more => exact absurd hrest (Nat.lt_irrefl 13)
    | _ => rfl

theorem readAt_str : ReadAt .atom [.str text] (.str text span) := by
  refine readAt_single rfl rfl fun n prev t rest ht hrest => ?_
  refine ⟨.str text (t.span.merge t.span), rfl, ?_⟩
  rw [atom, parser_bind_ok advance_run, ht]
  refine (parser_bind_ok (joinStrings_run hrest)).trans ?_
  rw [parser_bind_ok spanFrom_run]
  rfl

theorem readAt_name {name : Name} : ReadAt .atom [.ident name] (.name name span) := by
  refine readAt_single rfl rfl fun n prev t rest ht _ => ⟨.name name t.span, rfl, ?_⟩
  rw [atom, parser_bind_ok advance_run, ht]
  rfl

theorem readAt_int {value : Int64} : ReadAt .atom [.int value] (.int value span) := by
  refine readAt_single rfl rfl fun n prev t rest ht _ => ⟨.int value t.span, rfl, ?_⟩
  rw [atom, parser_bind_ok advance_run, ht]
  rfl

theorem readAt_float {value : Double} : ReadAt .atom [.float value] (.float value span) := by
  refine readAt_single rfl rfl fun n prev t rest ht _ => ⟨.float value t.span, rfl, ?_⟩
  rw [atom, parser_bind_ok advance_run, ht]
  rfl

theorem readAt_bool {value : Bool} :
    ReadAt .atom [.mark (if value then .kwTrue else .kwFalse)] (.bool value span) := by
  cases value with
  | false =>
    refine readAt_single rfl rfl fun n prev t rest ht _ => ⟨.bool false t.span, rfl, ?_⟩
    rw [atom, parser_bind_ok advance_run, ht]
    rfl
  | true =>
    refine readAt_single rfl rfl fun n prev t rest ht _ => ⟨.bool true t.span, rfl, ?_⟩
    rw [atom, parser_bind_ok advance_run, ht]
    rfl

theorem readAt_none : ReadAt .atom [.mark .kwNone] (.none span) := by
  refine readAt_single rfl rfl fun n prev t rest ht _ => ⟨.none t.span, rfl, ?_⟩
  rw [atom, parser_bind_ok advance_run, ht]
  rfl

theorem readAt_ellipsis : ReadAt .atom [.mark .ellipsis] (.ellipsis span) := by
  refine readAt_single rfl rfl fun n prev t rest ht _ => ⟨.ellipsis t.span, rfl, ?_⟩
  rw [atom, parser_bind_ok advance_run, ht]
  rfl

end Atoms

section Items

variable {parts : List (List TokenKind)} {part other : List TokenKind} {es : List Expr}
  {e : Expr} {n : Nat} {ts rest : List Token} {prev : Span}

theorem separate_single : separate [part] = part := by
  simp [separate, List.intercalate]

theorem separate_cons : separate (part :: other :: parts) =
    part ++ .mark .comma :: separate (other :: parts) := by
  simp [separate, List.intercalate]

theorem tupleTokens_cons : tupleTokens (part :: parts) =
    part ++ .mark .comma :: separate parts := by
  cases parts with
  | nil => simp [tupleTokens, separate, List.intercalate]
  | cons other parts => simp [tupleTokens, separate_cons]

theorem Readable.expression (h : Readable e) (hn : 8 * (e.write .conditional).length ≤ n)
    (hts : kinds ts = e.write .conditional) (hrest : Ends .conditional rest) (prev : Span) :
    ∃ e' prev', e'.bare = e.bare ∧
      Grammar.expression n ⟨prev, ts ++ rest⟩ = .ok (e', ⟨prev', rest⟩) :=
  (h .conditional (Nat.le_refl _)).reads n hn hts hrest prev

theorem Readable.opens (h : Readable e) : Opens .conditional (e.write .conditional) :=
  (h .conditional (Nat.le_refl _)).opens

theorem eq_mark_of_isMark {k : TokenKind} {m : Mark} (h : k.isMark m = true) : k = .mark m := by
  cases k with
  | mark m' =>
    obtain rfl : m' = m := by simpa [TokenKind.isMark] using h
    rfl
  | _ => cases h

theorem binding_pos {k : TokenKind} (h : k.startsExpr = true) : 0 < k.binding := by
  unfold TokenKind.binding
  split <;> first | decide | rw [h]; decide

theorem startsExpr_of_ends (h : Ends .bare rest) : (nextKind rest).startsExpr = false := by
  cases hk : (nextKind rest).startsExpr with
  | false => rfl
  | true => exact absurd h (Nat.not_lt.2 (binding_pos hk))

theorem Readable.not_isMark (h : Readable e) (hts : kinds ts = e.write .conditional) {m : Mark}
    (hm : (TokenKind.mark m).startsExpr = false) {us : List Token} :
    (nextKind (ts ++ us)).isMark m = false :=
  h.opens.isMark hts fun hstarts => absurd (hm.symm.trans hstarts) Bool.false_ne_true

section Sequence

variable {us : List Token} {prev' : Span} {c : Cursor} {close : Mark} {t : Token}

theorem sequence_last (hopen : (nextKind us).isMark close = false)
    (hrun : expression n ⟨prev, us⟩ = .ok (e, ⟨prev', rest⟩))
    (hcomma : (nextKind rest).isMark .comma = false) :
    sequence (n + 1) close ⟨prev, us⟩ = .ok ([e], ⟨prev', rest⟩) := by
  rw [sequence, parser_bind_ok atMark_run, hopen]
  refine (parser_bind_ok hrun).trans ?_
  rw [parser_bind_ok (accept_other hcomma)]
  rfl

theorem sequence_more (hopen : (nextKind us).isMark close = false)
    (hrun : expression n ⟨prev, us⟩ = .ok (e, ⟨prev', t :: rest⟩)) (ht : t.kind = .mark .comma)
    (hmore : sequence n close ⟨t.span, rest⟩ = .ok (es, c)) :
    sequence (n + 1) close ⟨prev, us⟩ = .ok (e :: es, c) := by
  rw [sequence, parser_bind_ok atMark_run, hopen]
  refine (parser_bind_ok hrun).trans ?_
  rw [parser_bind_ok (accept_run ht)]
  exact parser_bind_ok hmore

theorem sequence_run (hclose : close = .rparen ∨ close = .rbracket)
    (hes : ∀ e ∈ es, Readable e) (hn : 8 * (separate (writeItems es)).length < n)
    (hts : kinds ts = separate (writeItems es)) (ht : t.kind = .mark close) (rest : List Token)
    (prev : Span) :
    ∃ es' prev', bareItems es' = bareItems es ∧
      sequence n close ⟨prev, ts ++ t :: rest⟩ = .ok (es', ⟨prev', t :: rest⟩) := by
  have hcloses : (TokenKind.mark close).startsExpr = false ∧ (TokenKind.mark close).binding = 0 ∧
      (TokenKind.mark close).isMark .comma = false := by
    rcases hclose with rfl | rfl <;> exact ⟨rfl, rfl, rfl⟩
  have hends : Ends .conditional (t :: rest) := ends_cons rest ht (by rw [hcloses.2.1]; decide)
  obtain ⟨n, rfl⟩ : ∃ n', n = n' + 1 := ⟨n - 1, by omega⟩
  -- The last item is followed by the closing mark and every other one by a comma, so the tail is taken
  -- apart once more.
  induction es generalizing n ts prev with
  | nil =>
    obtain rfl := kinds_eq_nil hts
    refine ⟨[], prev, rfl, ?_⟩
    rw [sequence, List.nil_append, parser_bind_ok atMark_run, nextKind, ht]
    simp [TokenKind.isMark]
    rfl
  | cons e es ih =>
    obtain ⟨he, hes⟩ := List.forall_mem_cons.1 hes
    cases es with
    | nil =>
      rw [writeItems, writeItems, separate_single] at hts hn
      obtain ⟨e', prev', he', hrun⟩ := he.expression (n := n) (by omega) hts hends prev
      refine ⟨[e'], prev', by rw [bareItems, bareItems, he']; rfl, ?_⟩
      exact sequence_last (he.not_isMark hts hcloses.1) hrun (by rw [nextKind, ht]; exact hcloses.2.2)
    | cons e₂ es =>
      rw [writeItems, writeItems, separate_cons, ← writeItems] at hts hn
      obtain ⟨us, vs, rfl, hus, hvs⟩ := kinds_eq_append hts
      obtain ⟨comma, ws, rfl, hcomma, hws⟩ := kinds_eq_cons hvs
      rw [List.length_append, List.length_cons] at hn
      obtain ⟨e', prev', he', hrun⟩ := he.expression (n := n) (by omega) hus
        (ends_cons (ws ++ t :: rest) hcomma (by decide)) prev
      obtain ⟨n, rfl⟩ : ∃ n', n = n' + 1 := ⟨n - 1, by omega⟩
      obtain ⟨es', prev'', hes', hmore⟩ := ih hes hws comma.span n (by omega)
      refine ⟨e' :: es', prev'', by rw [bareItems, bareItems, he', hes'], ?_⟩
      rw [List.append_assoc]
      exact sequence_more (he.not_isMark hus hcloses.1) hrun hcomma hmore

end Sequence

section BareItems

theorem moreItems_run (hes : ∀ e ∈ es, Readable e)
    (hn : 8 * (separate (writeItems es)).length + 1 < n) {comma : Token}
    (hcomma : comma.kind = .mark .comma) (hts : kinds ts = separate (writeItems es))
    (hrest : Ends .bare rest) (prev : Span) :
    ∃ es' prev', bareItems es' = bareItems es ∧
      moreItems n ⟨prev, comma :: (ts ++ rest)⟩ = .ok (es', ⟨prev', rest⟩) := by
  have hlast : ∀ n prev, moreItems (n + 1) ⟨prev, rest⟩ = .ok ([], ⟨prev, rest⟩) := by
    intro n prev
    rw [moreItems, parser_bind_ok (accept_other (isMark_eq_false hrest (by decide)))]
    rfl
  obtain ⟨n, rfl⟩ : ∃ n', n = n' + 2 := ⟨n - 2, by omega⟩
  induction es generalizing n ts prev comma with
  | nil =>
    obtain rfl := kinds_eq_nil hts
    have hnone := startsExpr_of_ends hrest
    refine ⟨[], comma.span, rfl, ?_⟩
    rw [moreItems, parser_bind_ok (accept_run hcomma), List.nil_append]
    refine (parser_bind_ok kind_run).trans ?_
    rw [hnone]
    rfl
  | cons e es ih =>
    obtain ⟨he, hes⟩ := List.forall_mem_cons.1 hes
    -- After a comma there is another item if the next token may start one.
    have hstep : ∀ {us : List Token} {e' : Expr} {es' : List Expr} {prev' : Span} {us' : List Token}
        {c : Cursor}, (nextKind us).startsExpr = true →
        expression (n + 1) ⟨comma.span, us⟩ = .ok (e', ⟨prev', us'⟩) →
        moreItems (n + 1) ⟨prev', us'⟩ = .ok (es', c) →
        moreItems (n + 2) ⟨prev, comma :: us⟩ = .ok (e' :: es', c) := by
      intro us e' es' prev' us' c hstarts hrun hmore
      rw [moreItems, parser_bind_ok (accept_run hcomma)]
      refine (parser_bind_ok kind_run).trans ?_
      rw [hstarts]
      exact (parser_bind_ok hrun).trans (parser_bind_ok hmore)
    cases es with
    | nil =>
      rw [writeItems, writeItems, separate_single] at hts hn
      obtain ⟨e', prev', he', hrun⟩ := he.expression (n := n + 1) (by omega) hts
        (hrest.mono (by decide)) comma.span
      refine ⟨[e'], prev', by rw [bareItems, bareItems, he']; rfl, ?_⟩
      exact hstep (he.opens.startsExpr hts) hrun (hlast n prev')
    | cons e₂ es =>
      rw [writeItems, writeItems, separate_cons, ← writeItems] at hts hn
      obtain ⟨us, vs, rfl, hus, hvs⟩ := kinds_eq_append hts
      obtain ⟨t, ws, rfl, ht, hws⟩ := kinds_eq_cons hvs
      rw [List.length_append, List.length_cons] at hn
      obtain ⟨e', prev', he', hrun⟩ := he.expression (n := n + 1) (by omega) hus
        (ends_cons (ws ++ rest) ht (by decide)) comma.span
      obtain ⟨n, rfl⟩ : ∃ n', n = n' + 1 := ⟨n - 1, by omega⟩
      obtain ⟨es', prev'', hes', hmore⟩ := ih hes ht hws prev' n (by omega)
      refine ⟨e' :: es', prev'', by rw [bareItems, bareItems, he', hes'], ?_⟩
      rw [List.append_assoc]
      exact hstep (he.opens.startsExpr hus) hrun hmore

end BareItems

end Items

section Entries

variable {entries : List (Expr × Expr)} {key value : Expr} {n : Nat}
  {ts us rest : List Token} {prev prev' prev'' : Span} {colon t : Token} {c : Cursor}

theorem skip_newlines {m : Mark} (h : t.kind = .mark m) (hm : m ≠ .newline) :
    skip [.newline] ⟨prev, t :: us⟩ = .ok ((), ⟨prev, t :: us⟩) :=
  skip_run (by simp [nextKind, h, TokenKind.isMark, hm])

theorem skip_expression (h : (nextKind us).startsExpr = true) :
    skip [.newline] ⟨prev, us⟩ = .ok ((), ⟨prev, us⟩) := by
  refine skip_run ?_
  cases hk : nextKind us with
  | mark m =>
    rw [hk] at h
    have hm : m ≠ .newline := by
      rintro rfl
      cases h
    simp [TokenKind.isMark, hm]
  | _ => rfl

theorem dictEntries_entry (hkey : Readable key) (hvalue : Readable value)
    (hn : 8 * (key.write .conditional ++ .mark .colon :: value.write .conditional).length ≤ n)
    (hts : kinds ts = key.write .conditional ++ .mark .colon :: value.write .conditional)
    (ht : t.kind = .mark .comma ∨ t.kind = .mark .rbrace) (rest : List Token) (prev : Span) :
    ∃ key' value' prev', key'.bare = key.bare ∧ value'.bare = value.bare ∧
      dictEntries (n + 1) ⟨prev, ts ++ t :: rest⟩ = (do
        if ← accept .comma then return (key', value') :: (← dictEntries n)
        let _ ← expect .rbrace
        return [(key', value')] : Parser (List (Expr × Expr))) ⟨prev', t :: rest⟩ := by
  obtain ⟨us, vs, rfl, hus, hvs⟩ := kinds_eq_append hts
  obtain ⟨colon, ws, rfl, hcolon, hws⟩ := kinds_eq_cons hvs
  rw [List.length_append, List.length_cons] at hn
  have hends : Ends .conditional (t :: rest) := by
    rcases ht with ht | ht <;> exact ends_cons rest ht (by decide)
  have hskip : ∀ prev, skip [.newline] ⟨prev, t :: rest⟩ = .ok ((), ⟨prev, t :: rest⟩) := by
    rcases ht with ht | ht <;> exact fun prev => skip_newlines ht (by decide)
  obtain ⟨key', prev₁, hkey', hrun₁⟩ := hkey.expression (n := n) (by omega) hus
    (ends_cons (ws ++ t :: rest) hcolon (by decide)) prev
  obtain ⟨value', prev₂, hvalue', hrun₂⟩ := hvalue.expression (n := n) (by omega) hws hends
    colon.span
  refine ⟨key', value', prev₂, hkey', hvalue', ?_⟩
  rw [List.append_assoc, List.cons_append, dictEntries,
    parser_bind_ok (skip_expression (hkey.opens.startsExpr hus)),
    parser_bind_ok (accept_other (hkey.not_isMark hus rfl))]
  refine (parser_bind_ok hrun₁).trans ?_
  rw [parser_bind_ok (skip_newlines hcolon (by decide)),
    parser_bind_ok (expect_run hcolon),
    parser_bind_ok (skip_expression (hvalue.opens.startsExpr hws)), parser_bind_ok hrun₂,
    parser_bind_ok (hskip prev₂)]

theorem dictEntries_run (hes : ∀ e ∈ entries, Readable e.1 ∧ Readable e.2)
    (hn : 8 * (separate (writeEntries entries)).length < n)
    (hts : kinds ts = separate (writeEntries entries)) (ht : t.kind = .mark .rbrace)
    (rest : List Token) (prev : Span) :
    ∃ es', bareEntries es' = bareEntries entries ∧
      dictEntries n ⟨prev, ts ++ t :: rest⟩ = .ok (es', ⟨t.span, rest⟩) := by
  obtain ⟨n, rfl⟩ : ∃ n', n = n' + 1 := ⟨n - 1, by omega⟩
  induction entries generalizing n ts prev with
  | nil =>
    obtain rfl := kinds_eq_nil hts
    refine ⟨[], rfl, ?_⟩
    rw [dictEntries, List.nil_append,
      parser_bind_ok (skip_newlines ht (by decide)),
      parser_bind_ok (accept_run ht)]
    rfl
  | cons e es ih =>
    obtain ⟨⟨hkey, hvalue⟩, hes⟩ := List.forall_mem_cons.1 hes
    cases es with
    | nil =>
      rw [writeEntries, writeEntries, separate_single] at hts hn
      obtain ⟨key', value', prev', hkey', hvalue', hrun⟩ := dictEntries_entry (n := n)
        hkey hvalue (by omega) hts (.inr ht) rest prev
      refine ⟨[(key', value')], by rw [bareEntries, bareEntries, hkey', hvalue']; rfl, ?_⟩
      have hcomma : (nextKind (t :: rest)).isMark .comma = false := by
        rw [nextKind, ht]
        rfl
      rw [hrun, parser_bind_ok (accept_other hcomma)]
      exact parser_bind_ok (expect_run ht)
    | cons e₂ es =>
      obtain ⟨key₂, value₂⟩ := e₂
      rw [writeEntries, writeEntries, separate_cons, ← writeEntries] at hts hn
      obtain ⟨us, vs, rfl, hus, hvs⟩ := kinds_eq_append hts
      obtain ⟨comma, ws, rfl, hcomma, hws⟩ := kinds_eq_cons hvs
      rw [List.length_append, List.length_cons] at hn
      obtain ⟨key', value', prev', hkey', hvalue', hrun⟩ := dictEntries_entry (n := n)
        hkey hvalue (by omega) hus (.inl hcomma) (ws ++ t :: rest) prev
      obtain ⟨n, rfl⟩ : ∃ n', n = n' + 1 := ⟨n - 1, by omega⟩
      obtain ⟨es', hes', hmore⟩ := ih hes hws comma.span n (by omega)
      refine ⟨(key', value') :: es', by rw [bareEntries, bareEntries, hkey', hvalue', hes'], ?_⟩
      rw [List.append_assoc, List.cons_append, hrun, parser_bind_ok (accept_run hcomma)]
      exact parser_bind_ok hmore

end Entries

section Arguments

variable {args found : List Expr} {keywords given : List (Name × Expr)} {e value : Expr}
  {name : Name} {n : Nat} {ts us rest : List Token} {prev prev' : Span} {t word : Token}
  {c : Cursor} {r : List Expr × List (Name × Expr)}

theorem peekKind_run : peekKind ⟨prev, t :: us⟩ = .ok (nextKind us, ⟨prev, t :: us⟩) := by
  cases us <;> rfl

theorem arguments_nil (hrest : nextKind rest = .mark .rparen) :
    arguments (n + 1) found given ⟨prev, rest⟩ = .ok ((found, given), ⟨prev, rest⟩) := by
  rw [arguments, parser_bind_ok atMark_run, hrest]
  rfl

theorem arguments_keyword (hname : word.kind = .ident name) (ht : t.kind = .mark .assign)
    (hnew : name ∉ given.map Prod.fst)
    (hrun : expression n ⟨t.span, us⟩ = .ok (value, ⟨prev', rest⟩)) :
    arguments (n + 1) found given ⟨prev, word :: t :: us⟩ = (do
      if ← accept .comma then arguments n found (given ++ [(name, value)])
      else return (found, given ++ [(name, value)])) ⟨prev', rest⟩ := by
  have hparen : (nextKind (word :: t :: us)).isMark .rparen = false := by
    rw [nextKind, hname]
    rfl
  have hassign : (nextKind (t :: us)).isMark .assign = true := by
    rw [nextKind, ht]
    rfl
  have hfresh : given.any (·.1 == name) = false := by
    rw [List.any_eq_false]
    rintro ⟨other, v⟩ hmem hother
    exact hnew (beq_iff_eq.1 hother ▸ List.mem_map_of_mem hmem)
  rw [arguments, parser_bind_ok atMark_run, hparen]
  refine (parser_bind_ok kind_run).trans ?_
  rw [parser_bind_ok peekKind_run, nextKind, hname, hassign]
  refine (parser_bind_ok advance_run).trans ?_
  refine (parser_bind_ok advance_run).trans ?_
  rw [hfresh]
  exact parser_bind_ok hrun

theorem arguments_positional (he : Readable e) (hts : kinds ts = e.write .conditional)
    (hassign : nextKind rest ≠ .mark .assign)
    (hrun : expression n ⟨prev, ts ++ rest⟩ = .ok (value, ⟨prev', rest⟩)) :
    arguments (n + 1) found [] ⟨prev, ts ++ rest⟩ = (do
      if ← accept .comma then arguments n (found ++ [value]) []
      else return (found ++ [value], [])) ⟨prev', rest⟩ := by
  obtain ⟨k, ls, hks, -, -, hls⟩ := he.opens
  rw [arguments, parser_bind_ok atMark_run, he.not_isMark hts rfl]
  refine (parser_bind_ok kind_run).trans ?_
  rw [hks] at hts
  obtain ⟨t, us, rfl, hk, hus⟩ := kinds_eq_cons hts
  rw [List.cons_append] at hrun ⊢
  rw [parser_bind_ok peekKind_run, nextKind, hk]
  cases k with
  | ident name =>
    have hnext : (nextKind (us ++ rest)).isMark .assign = false := by
      cases hmark : (nextKind (us ++ rest)).isMark .assign with
      | false => rfl
      | true =>
        have hnext := eq_mark_of_isMark hmark
        cases us with
        | nil => exact absurd hnext hassign
        | cons u us =>
          subst hus
          exact absurd (congrArg some hnext) (hls name rfl)
    rw [hnext]
    exact parser_bind_ok hrun
  | _ => exact parser_bind_ok hrun

theorem keywords_run (given : List (Name × Expr)) (hks : ∀ k ∈ keywords, Readable k.2)
    (hn : 8 * (separate (writeKeywords keywords)).length < n)
    (hnodup : (given.map Prod.fst ++ keywords.map Prod.fst).Nodup)
    (hts : kinds ts = separate (writeKeywords keywords)) (hrest : nextKind rest = .mark .rparen)
    (found : List Expr) (prev : Span) :
    ∃ ks' prev', bareKeywords ks' = bareKeywords keywords ∧
      arguments n found given ⟨prev, ts ++ rest⟩ = .ok ((found, given ++ ks'), ⟨prev', rest⟩) := by
  obtain ⟨n, rfl⟩ : ∃ n', n = n' + 1 := ⟨n - 1, by omega⟩
  induction keywords generalizing n ts prev given with
  | nil =>
    obtain rfl := kinds_eq_nil hts
    exact ⟨[], prev, rfl, by rw [List.append_nil]; exact arguments_nil hrest⟩
  | cons k ks ih =>
    obtain ⟨name, value⟩ := k
    obtain ⟨hvalue, hks⟩ := List.forall_mem_cons.1 hks
    change Readable value at hvalue
    have hnew : name ∉ given.map Prod.fst := fun hmem =>
      (List.nodup_append.1 hnodup).2.2 name hmem name List.mem_cons_self rfl
    cases ks with
    | nil =>
      rw [writeKeywords, writeKeywords, separate_single] at hts hn
      obtain ⟨word, us, rfl, hword, hus⟩ := kinds_eq_cons hts
      obtain ⟨t, us, rfl, ht, hus⟩ := kinds_eq_cons hus
      rw [List.length_cons, List.length_cons] at hn
      obtain ⟨value', prev', hvalue', hrun⟩ := hvalue.expression (n := n) (by omega) hus
        (ends_mark hrest (by decide)) t.span
      refine ⟨[(name, value')], prev', by rw [bareKeywords, bareKeywords, hvalue']; rfl, ?_⟩
      refine (arguments_keyword hword ht hnew hrun).trans ?_
      rw [parser_bind_ok (accept_other (by rw [hrest]; rfl))]
      rfl
    | cons k₂ ks =>
      obtain ⟨name₂, value₂⟩ := k₂
      rw [writeKeywords, writeKeywords, separate_cons, ← writeKeywords] at hts hn
      obtain ⟨us, vs, rfl, hus, hvs⟩ := kinds_eq_append hts
      obtain ⟨comma, ws, rfl, hcomma, hws⟩ := kinds_eq_cons hvs
      obtain ⟨word, us, rfl, hword, hus⟩ := kinds_eq_cons hus
      obtain ⟨t, us, rfl, ht, hus⟩ := kinds_eq_cons hus
      simp only [List.length_append, List.length_cons] at hn
      obtain ⟨value', prev', hvalue', hrun⟩ := hvalue.expression (n := n) (by omega) hus
        (ends_cons (ws ++ rest) hcomma (by decide)) t.span
      obtain ⟨n, rfl⟩ : ∃ n', n = n' + 1 := ⟨n - 1, by omega⟩
      have hnodup' : ((given ++ [(name, value')]).map Prod.fst ++
          ((name₂, value₂) :: ks).map Prod.fst).Nodup := by simpa using hnodup
      obtain ⟨ks', prev'', hks', hmore⟩ := ih _ hks hnodup' hws comma.span n (by omega)
      refine ⟨(name, value') :: ks', prev'', by rw [bareKeywords, bareKeywords, hvalue', hks'], ?_⟩
      rw [List.append_assoc]
      refine (arguments_keyword hword ht hnew hrun).trans ?_
      rw [parser_bind_ok (accept_run hcomma), List.append_cons given (name, value') ks']
      exact hmore

/-- Positional arguments and then keywords, before the closing parenthesis. -/
theorem arguments_run (hes : ∀ e ∈ args, Readable e) (hks : ∀ k ∈ keywords, Readable k.2)
    (hn : 8 * (separate (writeItems args ++ writeKeywords keywords)).length < n)
    (hnodup : (keywords.map Prod.fst).Nodup)
    (hts : kinds ts = separate (writeItems args ++ writeKeywords keywords))
    (hrest : nextKind rest = .mark .rparen) (found : List Expr) (prev : Span) :
    ∃ es' ks' prev', bareItems es' = bareItems args ∧ bareKeywords ks' = bareKeywords keywords ∧
      arguments n found [] ⟨prev, ts ++ rest⟩ = .ok ((found ++ es', ks'), ⟨prev', rest⟩) := by
  induction args generalizing n ts prev found with
  | nil =>
    obtain ⟨ks', prev', hks', hrun⟩ := keywords_run [] hks hn
      hnodup hts hrest found prev
    exact ⟨[], ks', prev', rfl, hks', by rw [List.append_nil]; exact hrun⟩
  | cons e es ih =>
    obtain ⟨he, hes⟩ := List.forall_mem_cons.1 hes
    obtain ⟨n, rfl⟩ : ∃ n', n = n' + 1 := ⟨n - 1, by omega⟩
    rw [writeItems, List.cons_append] at hts hn
    cases hparts : writeItems es ++ writeKeywords keywords with
    | nil =>
      obtain ⟨hnil, hnil'⟩ := List.append_eq_nil_iff.1 hparts
      rw [hparts, separate_single] at hts hn
      obtain ⟨e', prev', he', hrun⟩ := he.expression (n := n) (by omega) hts
        (ends_mark hrest (by decide)) prev
      refine ⟨[e'], [], prev', ?_, ?_, ?_⟩
      · cases es with
        | nil => rw [bareItems, bareItems, he']; rfl
        | cons e₂ es => cases hnil
      · cases keywords with
        | nil => rfl
        | cons k ks => cases hnil'
      · refine (arguments_positional he hts (by rw [hrest]; simp) hrun).trans ?_
        rw [parser_bind_ok (accept_other (by rw [hrest]; rfl))]
        rfl
    | cons part parts =>
      rw [hparts, separate_cons, ← hparts] at hts hn
      obtain ⟨us, vs, rfl, hus, hvs⟩ := kinds_eq_append hts
      obtain ⟨comma, ws, rfl, hcomma, hws⟩ := kinds_eq_cons hvs
      rw [List.length_append, List.length_cons] at hn
      obtain ⟨e', prev', he', hrun⟩ := he.expression (n := n) (by omega) hus
        (ends_cons (ws ++ rest) hcomma (by decide)) prev
      obtain ⟨es', ks', prev'', hes', hks', hmore⟩ := ih (n := n) hes (by omega) hws (found ++ [e'])
        comma.span
      refine ⟨e' :: es', ks', prev'', by rw [bareItems, bareItems, he', hes'], hks', ?_⟩
      rw [List.append_assoc]
      refine (arguments_positional he hus (by rw [nextKind, hcomma]; simp)
        hrun).trans ?_
      rw [parser_bind_ok (accept_run hcomma), List.append_cons found e' es']
      exact hmore

end Arguments

end Lexiscope.Grammar
