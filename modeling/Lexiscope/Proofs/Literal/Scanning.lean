import Lexiscope.Grammar.Lexer
import Lexiscope.Proofs.Grammar.Taking
import Lexiscope.Proofs.Grammar.Tiling
import Lexiscope.Proofs.Grammar.Writing
import Lexiscope.Proofs.Literal.Datum
/-!
# The tokens of the text of a datum

The text of a datum is cut into the tokens of a literal: brackets and commas, words, texts between
quotes, and integers, the negative ones with a sign before them.
-/

namespace Lexiscope.Grammar

open Machine (Datum AllWritable EntriesWritable boolText commaSeparated tupleText itemTexts entryTexts)

/-- The text starts with a character that ends every token, if it does not end itself. -/
def Closes (cs : List Char) : Prop := ∀ c ∈ cs.head?, c ∈ [',', ':', ')', ']', '\x7d']

/-- At a depth the text starts with the tokens, and what is left stands at another depth. -/
def Finds (depth : Nat) (cs : List Char) (ks : List TokenKind) (depth' : Nat) (rest : List Char) : Prop :=
  ∀ offset tokens, ∃ offset' new, kinds new = ks ∧
    lexFrom offset depth tokens cs = lexFrom offset' depth' (new.reverse ++ tokens) rest

/-- The text is cut into the tokens wherever something follows that ends them. -/
def Scans (text : String) (ks : List TokenKind) : Prop :=
  ∀ depth rest, Closes rest → Finds depth (text.toList ++ rest) ks depth rest

section Pieces

variable {depth depth' depth'' more : Nat} {c : Char} {cs ds rest : List Char} {k : TokenKind}
  {ks ls : List TokenKind} {m : Mark}

theorem Finds.refl : Finds depth cs [] depth cs := fun offset _ => ⟨offset, [], rfl, rfl⟩

theorem Finds.trans (h : Finds depth cs ks depth' ds) (h' : Finds depth' ds ls depth'' rest) :
    Finds depth cs (ks ++ ls) depth'' rest := by
  intro offset tokens
  obtain ⟨offset', new, rfl, hlex⟩ := h offset tokens
  obtain ⟨offset'', new', rfl, hlex'⟩ := h' offset' (new.reverse ++ tokens)
  refine ⟨offset'', new ++ new', kinds_append new new', ?_⟩
  rw [hlex, hlex', List.reverse_append, List.append_assoc]

theorem finds_token (h : scanPiece c cs = .ok (.token k, more)) (hdepth : depthAfter? depth k = some depth') :
    Finds depth (c :: cs) [k] depth' (cs.drop more) := by
  intro offset tokens
  refine ⟨offset + Text.byteLength (c :: cs.take more),
    [⟨k, .ofOffsets offset (offset + Text.byteLength (c :: cs.take more))⟩], rfl, ?_⟩
  rw [lexFrom, h]
  simp only [hdepth]
  rfl

theorem finds_space : Finds depth (' ' :: cs) [] depth cs := by
  intro offset tokens
  refine ⟨offset + Text.byteLength [' '], [], rfl, ?_⟩
  rw [lexFrom, show scanPiece ' ' cs = .ok (.blank, 0) from rfl]
  rfl

def isMarkStart (c : Char) : Bool :=
  c ∉ [' ', '\t', '\r', '\\', '\n', '#', '"', '\''] && !c.isDigit && !isWordStart c

theorem scanPiece_mark (hc : isMarkStart c = true) (hm : scanMark? c cs = some (m, more)) :
    scanPiece c cs = .ok (.token (.mark m), more) := by
  simp only [isMarkStart, Bool.and_eq_true, Bool.not_eq_true', decide_eq_true_eq, List.mem_cons,
    List.not_mem_nil, not_or] at hc
  simp [scanPiece, hm, hc]

theorem finds_mark (hc : isMarkStart c = true) (hm : scanMark? c cs = some (m, 0))
    (hdepth : depthAfter? depth (.mark m) = some depth') : Finds depth (c :: cs) [.mark m] depth' cs :=
  finds_token (scanPiece_mark hc hm) hdepth

theorem finds_comma : Finds depth (',' :: cs) [.mark .comma] depth cs :=
  finds_mark (by decide) rfl rfl

theorem finds_colon : Finds depth (':' :: cs) [.mark .colon] depth cs :=
  finds_mark (by decide) rfl rfl

theorem finds_lbracket : Finds depth ('[' :: cs) [.mark .lbracket] (depth + 1) cs :=
  finds_mark (by decide) rfl rfl

theorem finds_rbracket : Finds (depth + 1) (']' :: cs) [.mark .rbracket] depth cs :=
  finds_mark (by decide) rfl rfl

theorem finds_lparen : Finds depth ('(' :: cs) [.mark .lparen] (depth + 1) cs :=
  finds_mark (by decide) rfl rfl

theorem finds_rparen : Finds (depth + 1) (')' :: cs) [.mark .rparen] depth cs :=
  finds_mark (by decide) rfl rfl

theorem finds_lbrace : Finds depth ('\x7b' :: cs) [.mark .lbrace] depth cs :=
  finds_mark (by decide) rfl rfl

theorem finds_rbrace : Finds depth ('\x7d' :: cs) [.mark .rbrace] depth cs :=
  finds_mark (by decide) rfl rfl

end Pieces

section Atoms

variable {depth : Nat} {rest : List Char}

theorem Closes.isWordChar (h : Closes rest) : ∀ c ∈ rest.head?, isWordChar c = false := by
  intro c hc
  have hmem := h c hc
  simp only [List.mem_cons, List.not_mem_nil, or_false] at hmem
  rcases hmem with rfl | rfl | rfl | rfl | rfl <;> decide

theorem Closes.isDigitOrGap (h : Closes rest) : ∀ c ∈ rest.head?, isDigitOrGap c = false := by
  intro c hc
  have hmem := h c hc
  simp only [List.mem_cons, List.not_mem_nil, or_false] at hmem
  rcases hmem with rfl | rfl | rfl | rfl | rfl <;> decide

/-- The longest start of a text with a property ends where a character does not have it. -/
theorem takeWhile_append {p : Char → Bool} {cs : List Char} (hcs : ∀ c ∈ cs, p c = true)
    (hrest : ∀ c ∈ rest.head?, p c = false) : (cs ++ rest).takeWhile p = cs := by
  rw [List.takeWhile_append_of_pos hcs]
  cases rest with
  | nil => rw [List.takeWhile_nil, List.append_nil]
  | cons c rest => rw [List.takeWhile_cons, hrest c rfl, if_neg Bool.false_ne_true, List.append_nil]

theorem finds_keyword {c : Char} {cs : List Char} {m : Mark} (hc : isWordStart c = true)
    (hdigit : c.isDigit = false) (hplain : c ∉ [' ', '\t', '\r', '\\', '\n', '#', '"', '\''])
    (hcs : cs.all isWordChar = true) (hm : Mark.keyword? (String.ofList (c :: cs)) = some m)
    (hdepth : depthAfter? depth (.mark m) = some depth) (hrest : Closes rest) :
    Finds depth (c :: cs ++ rest) [.mark m] depth rest := by
  have hword : scanWord c (cs ++ rest) = (.mark m, cs.length) := by
    rw [scanWord, takeWhile_append (List.all_eq_true.1 hcs) hrest.isWordChar, hm]
  have hpiece : scanPiece c (cs ++ rest) = .ok (.token (.mark m), cs.length) := by
    simp only [List.mem_cons, List.not_mem_nil, not_or] at hplain
    simp [scanPiece, hword, hc, hdigit, hplain]
  have hfinds := finds_token hpiece hdepth
  rwa [List.drop_left] at hfinds

theorem finds_none (hrest : Closes rest) :
    Finds depth ("None".toList ++ rest) [.mark .kwNone] depth rest :=
  finds_keyword rfl rfl (by decide) rfl (by decide) rfl hrest

theorem finds_bool (b : Bool) (hrest : Closes rest) :
    Finds depth ((boolText b).toList ++ rest) [.mark (if b then .kwTrue else .kwFalse)] depth rest := by
  cases b
  · exact finds_keyword rfl rfl (by decide) rfl (by decide) rfl hrest
  · exact finds_keyword rfl rfl (by decide) rfl (by decide) rfl hrest

open Text.Quoted

variable {quote : Char}

theorem encodeChar_cases (hquote : quote ∈ ['"', '\'']) (c : Char) :
    (∃ e, encodeChar quote c = ['\\', e] ∧ escape? e = some c) ∨
      (encodeChar quote c = [c] ∧ c ≠ quote ∧ c ≠ '\n' ∧ c ≠ '\\') := by
  unfold encodeChar
  split
  · exact .inl ⟨_, rfl, rfl⟩
  · exact .inl ⟨_, rfl, rfl⟩
  · exact .inl ⟨_, rfl, rfl⟩
  · exact .inl ⟨_, rfl, rfl⟩
  · rename_i hbackslash hnewline _ _
    split
    · rename_i hc
      obtain rfl := beq_iff_eq.1 hc
      refine .inl ⟨_, rfl, ?_⟩
      simp only [List.mem_cons, List.not_mem_nil, or_false] at hquote
      rcases hquote with rfl | rfl <;> rfl
    · rename_i hc
      exact .inr ⟨rfl, fun h => hc (beq_iff_eq.2 h), hnewline, hbackslash⟩

theorem scanString_encode (hquote : quote ∈ ['"', '\'']) (text : List Char) (taken : Nat)
    (cs : List Char) :
    scanString quote text taken (cs.flatMap (encodeChar quote) ++ quote :: rest) =
      .ok (String.ofList (text.reverse ++ cs), taken + (cs.flatMap (encodeChar quote)).length + 1) := by
  induction cs generalizing text taken with
  | nil =>
    rw [List.flatMap_nil, List.nil_append, scanString.eq_def]
    simp
  | cons c cs ih =>
    rw [List.flatMap_cons]
    rcases encodeChar_cases hquote c with ⟨e, hencode, hescape⟩ | ⟨hencode, hc, hnewline, hbackslash⟩
    · have hne : ('\\' == quote) = false := by
        simp only [List.mem_cons, List.not_mem_nil, or_false] at hquote
        rcases hquote with rfl | rfl <;> rfl
      rw [hencode, List.append_assoc, List.cons_append, List.cons_append, scanString.eq_def]
      simp only [hne, hescape, List.nil_append, ih]
      simp
      omega
    · rw [hencode, List.append_assoc, List.cons_append, scanString.eq_def]
      simp only [beq_eq_false_iff_ne.2 hc, beq_eq_false_iff_ne.2 hnewline,
        beq_eq_false_iff_ne.2 hbackslash, List.nil_append, ih]
      simp
      omega

theorem quoteFor_mem (cs : List Char) : quoteFor cs ∈ ['"', '\''] := by
  unfold quoteFor
  split <;> simp

theorem scanPiece_quote (hquote : quote ∈ ['"', '\'']) (cs : List Char) :
    scanPiece quote cs = (scanString quote [] 0 cs).map fun r => (.token (.str r.1), r.2) := by
  simp only [List.mem_cons, List.not_mem_nil, or_false] at hquote
  rcases hquote with rfl | rfl <;> rfl

theorem scanPiece_literal (text : String) : ∃ quote body, (render text).toList = quote :: body ∧
    ∀ rest, scanPiece quote (body ++ rest) = .ok (.token (.str text), body.length) := by
  have hquote := quoteFor_mem text.toList
  rw [render, String.toList_ofList, encode]
  generalize quoteFor text.toList = quote at hquote
  refine ⟨quote, text.toList.flatMap (encodeChar quote) ++ [quote], rfl, fun rest => ?_⟩
  rw [List.append_assoc, List.singleton_append, scanPiece_quote hquote, scanString_encode hquote,
    List.reverse_nil, List.nil_append, String.ofList_toList, Nat.zero_add, List.length_append]
  rfl

theorem finds_str (text : String) :
    Finds depth ((render text).toList ++ rest) [.str text] depth rest := by
  obtain ⟨quote, body, hbody, hpiece⟩ := scanPiece_literal text
  have hfinds : Finds depth _ _ depth _ := finds_token (hpiece rest) rfl
  rwa [List.drop_left, ← List.cons_append, ← hbody] at hfinds

/-- A text with quotes of both kinds, a character of two bytes, a backslash, a line end and a NUL. -/
def mixedText : Machine.Str := ⟨.fresh 0, "it's \"é\"\\\n\x00"⟩

section Integers

theorem NumberParts.of_digits {cs : List Char} (hcs : ∀ c ∈ cs, c.isDigit = true) (hrest : Closes rest) :
    NumberParts.of (cs ++ rest) = ⟨cs, [], [], []⟩ := by
  have hwhole : (cs ++ rest).takeWhile isDigitOrGap = cs := by
    refine takeWhile_append (fun c hc => ?_) hrest.isDigitOrGap
    rw [isDigitOrGap, hcs c hc, Bool.or_true]
  unfold NumberParts.of
  simp only [hwhole, List.drop_left]
  cases rest with
  | nil => rfl
  | cons c rest =>
    have hmem := hrest c rfl
    have hstart : isWordStart c = false := by
      simp only [List.mem_cons, List.not_mem_nil, or_false] at hmem
      rcases hmem with rfl | rfl | rfl | rfl | rfl <;> decide
    simp only [List.mem_cons, List.not_mem_nil, or_false] at hmem
    rcases hmem with rfl | rfl | rfl | rfl | rfl <;>
      simp [fractionPart, exponentPart, excessPart, hstart]

theorem readInt?_toDigits {m : Nat} (hm : m ≤ 9223372036854775807) :
    readInt? (Nat.toDigits 10 m) = some (Int64.ofNat m) := by
  have hall : (Nat.toDigits 10 m).all Char.isDigit = true :=
    List.all_eq_true.2 fun c hc => Nat.isDigit_of_mem_toDigits (by decide) (by decide) hc
  have hvalue : Decimal.digitsValue (Nat.toDigits 10 m) = m := Nat.ofDigitChars_ten_toDigits
  have hempty : (Nat.toDigits 10 m).isEmpty = false := by
    rw [List.isEmpty_eq_false_iff]
    exact Nat.toDigits_ne_nil
  simp [readInt?, hall, hvalue, hempty, hm]

theorem scanPiece_digit {c : Char} (hc : c.isDigit = true) (cs : List Char) :
    scanPiece c cs = (scanNumber (c :: cs)).map fun r => (.token r.1, r.2) := by
  have hne : ∀ d : Char, d.isDigit = false → (c == d) = false := by
    intro d hd
    refine beq_eq_false_iff_ne.2 fun heq => ?_
    rw [heq, hd] at hc
    cases hc
  simp [scanPiece, hc, hne]

theorem finds_nat {m : Nat} (hm : m ≤ 9223372036854775807) (hrest : Closes rest) :
    Finds depth (m.repr.toList ++ rest) [.int (Int64.ofNat m)] depth rest := by
  have hdigits : ∀ c ∈ Nat.toDigits 10 m, c.isDigit = true := fun c hc =>
    Nat.isDigit_of_mem_toDigits (by decide) (by decide) hc
  have hgaps : (Nat.toDigits 10 m).filter (· != '_') = Nat.toDigits 10 m := by
    refine List.filter_eq_self.2 fun c hc => bne_iff_ne.2 ?_
    rintro rfl
    exact Nat.underscore_not_in_toDigits hc
  have hnumber : scanNumber (Nat.toDigits 10 m ++ rest) =
      .ok (.int (Int64.ofNat m), (Nat.toDigits 10 m).length - 1) := by
    simp [scanNumber, NumberParts.of_digits hdigits hrest, NumberParts.text, hgaps, readInt?_toDigits hm]
  rw [Nat.toList_repr]
  obtain ⟨c, cs, hcs⟩ := List.exists_cons_of_ne_nil (Nat.toDigits_ne_nil (n := m) (b := 10))
  rw [hcs] at hnumber hdigits ⊢
  have hpiece : scanPiece c (cs ++ rest) = .ok (.token (.int (Int64.ofNat m)), cs.length) := by
    rw [scanPiece_digit (hdigits c List.mem_cons_self), ← List.cons_append, hnumber]
    rfl
  have hfinds : Finds depth _ _ depth _ := finds_token hpiece rfl
  rwa [List.drop_left] at hfinds

end Integers

end Atoms

mutual

/-- The literal of a datum. A negative integer is one with a sign before it. -/
def literalOf : Datum → Expr
  | .none => .none .origin
  | .bool b => .bool b .origin
  | .int n =>
    let size := Expr.int (Int64.ofNat n.toInt.natAbs) .origin
    if n.toInt < 0 then .unary .neg size .origin else size
  | .str text => .str text .origin
  | .list items => .list (literalsOf items) .origin
  | .tuple items => .tuple (literalsOf items) .origin
  | .dict entries => .dict (entryLiterals entries) .origin

def literalsOf : List Datum → List Expr
  | [] => []
  | d :: ds => literalOf d :: literalsOf ds

def entryLiterals : List (Datum × Datum) → List (Expr × Expr)
  | [] => []
  | (key, value) :: es => (literalOf key, literalOf value) :: entryLiterals es

end

section Data

theorem closes_cons {c : Char} (cs : List Char) (hc : c ∈ [',', ':', ')', ']', '\x7d']) :
    Closes (c :: cs) := by
  intro d hd
  cases hd
  exact hc

theorem natAbs_le_of_ne_minValue {n : Int64} (hn : n ≠ Int64.minValue) :
    n.toInt.natAbs ≤ 9223372036854775807 := by
  have hmin : Int64.minValue.toInt = -9223372036854775808 := rfl
  have hne : n.toInt ≠ Int64.minValue.toInt := fun h => hn (Int64.toInt_inj.1 h)
  have hle := n.le_toInt
  have hlt := n.toInt_lt
  omega

theorem finds_minus {depth : Nat} {cs : List Char} (hcs : cs.head? ≠ some '=') :
    Finds depth ('-' :: cs) [.mark .minus] depth cs := by
  refine finds_mark (by decide) ?_ rfl
  cases cs with
  | nil => rfl
  | cons c cs =>
    unfold scanMark?
    split <;> simp_all

theorem scans_int {n : Int64} (hn : n ≠ Int64.minValue) :
    Scans (toString n.toInt) ((literalOf (.int n)).write .conditional) := by
  intro depth rest hrest
  have hsize : Finds depth _ _ depth _ := finds_nat (natAbs_le_of_ne_minValue hn) hrest
  rw [Int.toString_eq_repr, Int.repr_eq_if, literalOf]
  by_cases hneg : n.toInt < 0
  · have habs : (-n.toInt).toNat = n.toInt.natAbs := by omega
    have hdigit : ((n.toInt.natAbs.repr).toList ++ rest).head? ≠ some '=' := by
      obtain ⟨c, cs, hcs⟩ := List.exists_cons_of_ne_nil
        (Nat.toDigits_ne_nil (n := n.toInt.natAbs) (b := 10))
      have hc : c.isDigit = true :=
        Nat.isDigit_of_mem_toDigits (by decide) (by decide) (hcs ▸ List.mem_cons_self)
      rw [Nat.toList_repr, hcs]
      rintro heq
      cases heq
      cases hc
    have hall := (finds_minus hdigit).trans hsize
    rw [if_neg (by omega), habs, if_pos hneg, String.toList_append]
    exact hall
  · have habs : n.toInt.toNat = n.toInt.natAbs := by omega
    rw [if_pos (by omega), habs, if_neg hneg]
    exact hsize

theorem scans_separated {texts : List String} {parts : List (List TokenKind)}
    (h : List.Forall₂ Scans texts parts) : Scans (commaSeparated texts) (separate parts) := by
  induction h with
  | nil => exact fun depth rest _ => Finds.refl
  | @cons text part texts parts hpart hparts ih =>
    intro depth rest hrest
    cases hparts with
    | nil => simpa [commaSeparated, separate] using hpart depth rest hrest
    | @cons text' part' texts parts hpart' hparts =>
      have hclose : Closes (',' :: ' ' :: ((commaSeparated (text' :: texts)).toList ++ rest)) :=
        closes_cons _ (by decide)
      have hall := (hpart depth _ hclose).trans (finds_comma.trans (finds_space.trans (ih depth rest hrest)))
      simpa [commaSeparated, separate, String.intercalate_cons_cons, List.intercalate_cons_cons] using hall

theorem scans_tuple {texts : List String} {parts : List (List TokenKind)}
    (h : List.Forall₂ Scans texts parts) : Scans (tupleText texts) (parenthesise (tupleTokens parts)) := by
  intro depth rest hrest
  have hitems := scans_separated h (depth + 1)
  by_cases hone : parts.length = 1
  · obtain ⟨text, rfl⟩ := List.length_eq_one_iff.1 (h.length_eq.trans hone)
    have hclose : Closes (',' :: ')' :: rest) := closes_cons _ (by decide)
    have hall := finds_lparen.trans ((hitems _ hclose).trans (finds_comma.trans finds_rparen))
    simpa [tupleText, commaSeparated, parenthesise, tupleTokens, hone] using hall
  · have hclose : Closes (')' :: rest) := closes_cons _ (by decide)
    have hall := finds_lparen.trans ((hitems _ hclose).trans finds_rparen)
    have htext : tupleText texts = "(" ++ commaSeparated texts ++ ")" := by
      unfold tupleText
      split
      · exact absurd h.length_eq.symm hone
      · rfl
    simpa [htext, parenthesise, tupleTokens, hone] using hall

mutual

theorem scans_datum : (d : Datum) → d.Writable → Scans d.text ((literalOf d).write .conditional)
  | .none, _ => fun depth rest hrest => finds_none hrest
  | .bool b, _ => fun depth rest hrest => finds_bool b hrest
  | .int n, h => scans_int h
  | .str text, _ => fun depth rest hrest => finds_str text
  | .list ds, h => fun depth rest hrest => by
    have hitems := scans_separated (scans_items ds h) (depth + 1) _ (closes_cons (c := ']') rest (by decide))
    have hlist := finds_lbracket.trans (hitems.trans finds_rbracket)
    simpa [Datum.text, literalOf, Expr.write] using hlist
  | .tuple ds, h => by
    have htuple := scans_tuple (scans_items ds h)
    cases ds with
    | nil => exact htuple
    | cons d ds => exact htuple
  | .dict es, h => fun depth rest hrest => by
    have hitems := scans_separated (scans_entries es h.2) depth _ (closes_cons (c := '\x7d') rest (by decide))
    have hdict := finds_lbrace.trans (hitems.trans finds_rbrace)
    simpa [Datum.text, literalOf, Expr.write] using hdict

theorem scans_items : (ds : List Datum) → AllWritable ds →
    List.Forall₂ Scans (itemTexts ds) (writeItems (literalsOf ds))
  | [], _ => .nil
  | d :: ds, h => .cons (scans_datum d h.1) (scans_items ds h.2)

theorem scans_entries : (es : List (Datum × Datum)) → EntriesWritable es →
    List.Forall₂ Scans (entryTexts es) (writeEntries (entryLiterals es))
  | [], _ => .nil
  | (key, value) :: es, h => by
    refine .cons (fun depth rest hrest => ?_) (scans_entries es h.2.2.2)
    have hclose : Closes (':' :: ' ' :: (value.text.toList ++ rest)) := closes_cons _ (by decide)
    have hentry := (scans_datum key h.2.1 depth _ hclose).trans
      (finds_colon.trans (finds_space.trans (scans_datum value h.2.2.1 depth rest hrest)))
    simpa using hentry

end

theorem finds_name {depth : Nat} {cs : List Char} :
    Finds depth ('_' :: ' ' :: cs) [.ident "_"] depth (' ' :: cs) := by
  have hword : scanWord '_' (' ' :: cs) = (.ident "_", 0) := by
    rw [scanWord, List.takeWhile_cons, show isWordChar ' ' = false by decide]
    rfl
  have hstart : isWordStart '_' = true := by decide
  have hpiece : scanPiece '_' (' ' :: cs) = .ok (.token (.ident "_"), 0) := by
    simp [scanPiece, hword, hstart]
  exact finds_token hpiece rfl

theorem finds_assign {depth : Nat} {cs : List Char} :
    Finds depth ('=' :: ' ' :: cs) [.mark .assign] depth (' ' :: cs) :=
  finds_mark (by decide) rfl rfl

theorem literal_getLast (d : Datum) : ∃ k ks, (literalOf d).write .conditional = ks ++ [k] ∧
    k.isMark .newline = false := by
  cases d with
  | none => exact ⟨_, [], rfl, rfl⟩
  | bool b => cases b <;> exact ⟨_, [], rfl, rfl⟩
  | int n =>
    rw [literalOf]
    split
    · exact ⟨_, [_], rfl, rfl⟩
    · exact ⟨_, [], rfl, rfl⟩
  | str text => exact ⟨_, [], rfl, rfl⟩
  | list ds => exact ⟨_, _, rfl, rfl⟩
  | tuple ds => cases ds <;> exact ⟨.mark .rparen, _, rfl, rfl⟩
  | dict es => exact ⟨_, _, rfl, rfl⟩

theorem lex_assignment {d : Datum} (h : d.Writable) : ∃ tokens newline eof,
    lex ("_ = " ++ d.text) = .ok (tokens ++ [newline, eof]) ∧
    kinds tokens = .ident "_" :: .mark .assign :: (literalOf d).write .conditional ∧
    newline.kind = .mark .newline ∧ eof.kind = .mark .eof := by
  have hdatum := scans_datum d h 0 [] nofun
  rw [List.append_nil] at hdatum
  have hall := finds_name.trans (finds_space.trans
    (finds_assign.trans (finds_space.trans hdatum)))
  obtain ⟨offset, tokens, hkinds, hlex⟩ := hall 0 []
  obtain ⟨k, ks, hlast, hnewline⟩ := literal_getLast d
  have hsplit : kinds tokens = (.ident "_" :: .mark .assign :: ks) ++ [k] := by
    rw [hkinds, hlast]
    rfl
  obtain ⟨before, last, rfl, -, hlast⟩ := kinds_eq_append hsplit
  obtain ⟨t, us, rfl, rfl, hus⟩ := kinds_eq_cons hlast
  obtain rfl := kinds_eq_nil hus
  have hadd : addNewline ((before ++ [t]).reverse ++ []) offset =
      ⟨.mark .newline, .ofOffsets offset (offset + 1)⟩ :: (before ++ [t]).reverse := by
    rw [List.append_nil, List.reverse_append, List.reverse_singleton, List.singleton_append, addNewline,
      if_neg (by rw [hnewline]; exact Bool.false_ne_true)]
  refine ⟨before ++ [t], ⟨.mark .newline, .ofOffsets offset (offset + 1)⟩,
    ⟨.mark .eof, .ofOffsets offset offset⟩, ?_, hkinds, rfl, rfl⟩
  rw [lex, String.toList_append]
  refine hlex.trans ?_
  rw [lexFrom, hadd]
  simp

end Data

end Lexiscope.Grammar
