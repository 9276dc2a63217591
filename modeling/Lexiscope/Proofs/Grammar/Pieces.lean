import Lexiscope.Grammar.Lexer
import Mathlib.Data.List.Basic
/-!
# What a piece of a source is

A piece that is a token is spelled by the characters that it takes. A blank piece is a character
between tokens, a line that goes on, or a comment up to the end of its line.
-/

namespace Lexiscope.Grammar

open Text.Quoted (escape?)

/-- The characters of a string literal between its quotes, and the text that they stand for. -/
inductive Decodes (quote : Char) : List Char → List Char → Prop where
  | nil : Decodes quote [] []
  | plain {c : Char} {cs text : List Char} : c ≠ quote → c ≠ '\n' → c ≠ '\\' →
    Decodes quote cs text → Decodes quote (c :: cs) (c :: text)
  | escaped {e meaning : Char} {cs text : List Char} : escape? e = some meaning →
    Decodes quote cs text → Decodes quote ('\\' :: e :: cs) (meaning :: text)

/-- The characters of a number that count. -/
def withoutGaps (cs : List Char) : List Char := cs.filter (· != '_')

/-- Digits, with underscores after the first one. -/
def IsDigits (cs : List Char) : Prop :=
  (∃ c ∈ cs.head?, c.isDigit = true) ∧ ∀ c ∈ cs, isDigitOrGap c = true

/-- A point and digits. -/
def IsFraction (cs : List Char) : Prop := ∃ digits, cs = '.' :: digits ∧ IsDigits digits

/-- An exponent, which need not have a digit. -/
def IsExponent (cs : List Char) : Prop :=
  ∃ e ∈ ['e', 'E'], ∃ sign ∈ [[], ['+'], ['-']], ∃ digits, cs = e :: (sign ++ digits) ∧
    ∀ c ∈ digits, isDigitOrGap c = true

/-- The characters spell the token. -/
inductive Spells : List Char → TokenKind → Prop where
  | word {cs : List Char} : (∃ c ∈ cs.head?, isWordStart c = true) →
    (∀ c ∈ cs, isWordChar c = true) → Mark.keyword? (String.ofList cs) = none →
    Spells cs (.ident (String.ofList cs))
  | int {cs : List Char} {n : Int64} : IsDigits cs →
    n.toInt = Decimal.digitsValue (withoutGaps cs) → Spells cs (.int n)
  | float {whole fraction exponent : List Char} {x : Double} : IsDigits whole →
    (fraction = [] ∨ IsFraction fraction) → (exponent = [] ∨ IsExponent exponent) →
    ¬(fraction = [] ∧ exponent = []) →
    Decimal.read? (String.ofList (withoutGaps (whole ++ fraction ++ exponent))) = some x →
    Spells (whole ++ fraction ++ exponent) (.float x)
  | str {quote : Char} {cs text : List Char} : quote ∈ ['"', '\''] → Decodes quote cs text →
    Spells (quote :: (cs ++ [quote])) (.str (String.ofList text))
  | mark {m : Mark} : m ≠ .newline → m ≠ .eof → Spells m.spelling.toList (.mark m)

def TokenKind.isText (k : TokenKind) : Bool := !(k.isMark .newline || k.isMark .eof)

variable {c : Char} {cs rest : List Char} {more : Nat} {k : TokenKind}

theorem Spells.isText (h : Spells cs k) : k.isText = true := by
  cases h with
  | mark hnewline heof => simp [TokenKind.isText, TokenKind.isMark, hnewline, heof]
  | _ => rfl

theorem IsDigits.ne_nil (h : IsDigits cs) : cs ≠ [] := by
  rintro rfl
  obtain ⟨⟨c, hc, -⟩, -⟩ := h
  cases hc

theorem Spells.ne_nil (h : Spells cs k) : cs ≠ [] := by
  cases h with
  | word hstart =>
    rintro rfl
    obtain ⟨c, hc, -⟩ := hstart
    cases hc
  | int hdigits => exact hdigits.ne_nil
  | float hdigits =>
    intro hnil
    exact hdigits.ne_nil (List.append_eq_nil_iff.1 (List.append_eq_nil_iff.1 hnil).1).1
  | str => exact List.cons_ne_nil _ _
  | @mark m _ _ => cases m <;> decide

section Splitting

theorem takeWhile_splits (p : Char → Bool) (cs : List Char) :
    ∃ rest, cs = cs.takeWhile p ++ rest ∧ ∀ c ∈ rest.head?, p c = false := by
  refine ⟨cs.dropWhile p, List.takeWhile_append_dropWhile.symm, fun c hc => ?_⟩
  have hhead := List.head?_dropWhile_not p cs
  rwa [hc] at hhead

end Splitting

section Words

theorem isWordChar_of_start (hc : isWordStart c = true) : isWordChar c = true := by
  unfold isWordStart at hc
  unfold isWordChar Text.isAlphanumeric
  cases h : c == '_' <;> simp_all

theorem spells_scanWord (hc : isWordStart c = true) (cs : List Char) :
    Spells (c :: cs.take (scanWord c cs).2) (scanWord c cs).1 := by
  have htake : cs.take (cs.takeWhile isWordChar).length = cs.takeWhile isWordChar :=
    (List.prefix_iff_eq_take.1 (List.takeWhile_prefix _)).symm
  have hchars : ∀ d ∈ c :: cs.takeWhile isWordChar, isWordChar d = true :=
    List.forall_mem_cons.2 ⟨isWordChar_of_start hc, List.all_eq_true.1 List.all_takeWhile⟩
  unfold scanWord
  simp only
  split
  · rename_i m hm
    rw [htake]
    have hspelling := List.find?_some hm
    have hmem := List.mem_of_find?_eq_some hm
    rw [beq_iff_eq] at hspelling
    have hword : c :: cs.takeWhile isWordChar = m.spelling.toList := by
      rw [hspelling, String.toList_ofList]
    rw [hword]
    refine .mark ?_ ?_ <;> rintro rfl <;> revert hmem <;> decide
  · rename_i hnone
    rw [htake]
    exact .word ⟨c, rfl, hc⟩ hchars hnone

end Words

section Strings

theorem decodes_of_scanString {quote : Char} {text : List Char} {taken : Nat} {s : String}
    (h : scanString quote text taken cs = .ok (s, more)) :
    ∃ inner new rest, cs = inner ++ quote :: rest ∧ more = taken + inner.length + 1 ∧
      s = String.ofList (text.reverse ++ new) ∧ Decodes quote inner new := by
  fun_induction scanString quote text taken cs with
  | case1 | case3 | case4 | case6 => cases h
  | case2 text taken c cs hquote =>
    cases h
    exact ⟨[], [], cs, by rw [beq_iff_eq.1 hquote]; rfl, rfl, by simp, .nil⟩
  | case5 text taken c hquote hline hescape e es meaning hmeaning ih =>
    obtain ⟨inner, new, rest, rfl, rfl, rfl, hdecodes⟩ := ih h
    refine ⟨c :: e :: inner, meaning :: new, rest, rfl, ?_, by simp, ?_⟩
    · simp only [List.length_cons]
      omega
    · rw [beq_iff_eq.1 hescape]
      exact .escaped hmeaning hdecodes
  | case7 text taken c cs hquote hline hescape ih =>
    obtain ⟨inner, new, rest, rfl, rfl, rfl, hdecodes⟩ := ih h
    refine ⟨c :: inner, c :: new, rest, rfl, ?_, by simp, ?_⟩
    · simp only [List.length_cons]
      omega
    · exact .plain (fun heq => hquote (beq_iff_eq.2 heq)) (fun heq => hline (beq_iff_eq.2 heq))
        (fun heq => hescape (beq_iff_eq.2 heq)) hdecodes

theorem spells_scanString {quote : Char} {s : String} (hquote : quote ∈ ['"', '\''])
    (h : scanString quote [] 0 cs = .ok (s, more)) : Spells (quote :: cs.take more) (.str s) := by
  obtain ⟨inner, new, rest, rfl, rfl, rfl, hdecodes⟩ := decodes_of_scanString h
  have htake : (inner ++ quote :: rest).take (0 + inner.length + 1) = inner ++ [quote] := by
    rw [List.append_cons, List.take_left' (by simp)]
  rw [htake]
  exact .str hquote hdecodes

end Strings

section Marks

theorem spells_scanMark {m : Mark} (h : scanMark? c cs = some (m, more)) :
    Spells (c :: cs.take more) (.mark m) := by
  have hspelling : c :: cs.take more = m.spelling.toList ∧ m ≠ .newline ∧ m ≠ .eof := by
    unfold scanMark? at h
    split at h <;> first | (cases h; exact ⟨rfl, by decide, by decide⟩) | cases h
  rw [hspelling.1]
  exact .mark hspelling.2.1 hspelling.2.2

end Marks

section Numbers

def EndsDigits (cs : List Char) : Prop := ∀ c ∈ cs.head?, isDigitOrGap c = false

theorem takeWhile_digits_splits (cs : List Char) :
    ∃ rest, cs = cs.takeWhile isDigitOrGap ++ rest ∧ EndsDigits rest ∧
      ∀ c ∈ cs.takeWhile isDigitOrGap, isDigitOrGap c = true :=
  let ⟨rest, hcs, hrest⟩ := takeWhile_splits isDigitOrGap cs
  ⟨rest, hcs, hrest, List.all_eq_true.1 List.all_takeWhile⟩

theorem isDigits_takeWhile (hc : c.isDigit = true) (cs : List Char) :
    IsDigits ((c :: cs).takeWhile isDigitOrGap) := by
  have hgap : isDigitOrGap c = true := by rw [isDigitOrGap, hc, Bool.or_true]
  refine ⟨⟨c, ?_, hc⟩, List.all_eq_true.1 List.all_takeWhile⟩
  rw [List.takeWhile_cons_of_pos hgap]
  rfl

theorem fractionPart_splits (h : EndsDigits cs) :
    ∃ rest, cs = fractionPart cs ++ rest ∧ EndsDigits rest ∧
      (fractionPart cs = [] ∨ IsFraction (fractionPart cs)) := by
  unfold fractionPart
  split
  · rename_i d ds
    split
    · rename_i hd
      obtain ⟨rest, hcs, hrest, -⟩ := takeWhile_digits_splits (d :: ds)
      exact ⟨rest, congrArg ('.' :: ·) hcs, hrest, .inr ⟨_, rfl, isDigits_takeWhile hd ds⟩⟩
    · exact ⟨_, rfl, h, .inl rfl⟩
  · exact ⟨cs, rfl, h, .inl rfl⟩

theorem exponentPart_splits (h : EndsDigits cs) :
    ∃ rest, cs = exponentPart cs ++ rest ∧ EndsDigits rest ∧
      (exponentPart cs = [] ∧ (∀ c ∈ rest.head?, c ∉ ['e', 'E']) ∨
        IsExponent (exponentPart cs)) := by
  unfold exponentPart
  split
  · rename_i e cs
    split
    · rename_i he
      have he : e ∈ ['e', 'E'] := by simpa using he
      split
      · rename_i s ds
        split
        · rename_i hs
          obtain ⟨rest, hcs, hrest, hdigits⟩ := takeWhile_digits_splits ds
          refine ⟨rest, congrArg (e :: s :: ·) hcs, hrest, .inr ⟨e, he, [s], ?_, _, rfl, hdigits⟩⟩
          simpa using hs
        · obtain ⟨rest, hcs, hrest, hdigits⟩ := takeWhile_digits_splits (s :: ds)
          exact ⟨rest, congrArg (e :: ·) hcs, hrest, .inr ⟨e, he, [], by simp, _, rfl, hdigits⟩⟩
      · exact ⟨[], rfl, nofun, .inr ⟨e, he, [], by simp, [], rfl, nofun⟩⟩
    · rename_i he
      refine ⟨e :: cs, rfl, h, .inl ⟨rfl, ?_⟩⟩
      rintro _ ⟨⟩
      simpa using he
  · exact ⟨[], rfl, h, .inl ⟨rfl, nofun⟩⟩

/-- A letter that sticks to a number. -/
def Sticks (exponent : List Char) (c : Char) : Prop :=
  isWordStart c = true ∧ isDigitOrGap c = false ∧ (exponent = [] → c ∉ ['e', 'E'])

theorem excessPart_splits (cs : List Char) :
    ∃ rest, cs = excessPart cs ++ rest ∧
      ∀ c ∈ (excessPart cs).head?, c ∈ cs.head? ∧ isWordStart c = true := by
  unfold excessPart
  split
  · rename_i c cs
    split
    · rename_i hc
      obtain ⟨rest, hcs, -⟩ := takeWhile_splits isWordChar (c :: cs)
      refine ⟨rest, hcs, ?_⟩
      rw [List.takeWhile_cons_of_pos (isWordChar_of_start hc)]
      rintro _ ⟨⟩
      exact ⟨rfl, hc⟩
    · exact ⟨_, rfl, nofun⟩
  · exact ⟨_, rfl, nofun⟩

/-- The parts of a number are in the text one after the other. -/
structure NumberParts.Starts (p : NumberParts) (cs : List Char) : Prop where
  text : ∃ rest, cs = p.text ++ rest
  whole : IsDigits p.whole
  fraction : p.fraction = [] ∨ IsFraction p.fraction
  exponent : p.exponent = [] ∨ IsExponent p.exponent
  excess : ∀ c ∈ p.excess.head?, Sticks p.exponent c

theorem drop_of_splits {front : List Char} (h : cs = front ++ rest) :
    cs.drop front.length = rest := by
  rw [h, List.drop_left]

theorem NumberParts.starts_of (hc : c.isDigit = true) (cs : List Char) :
    (NumberParts.of (c :: cs)).Starts (c :: cs) := by
  obtain ⟨rest₁, hcs, hends₁, -⟩ := takeWhile_digits_splits (c :: cs)
  obtain ⟨rest₂, hrest₁, hends₂, hfraction⟩ := fractionPart_splits hends₁
  obtain ⟨rest₃, hrest₂, hends₃, hexponent⟩ := exponentPart_splits hends₂
  obtain ⟨rest, hrest₃, hexcess⟩ := excessPart_splits rest₃
  have hof : NumberParts.of (c :: cs) = ⟨(c :: cs).takeWhile isDigitOrGap, fractionPart rest₁,
      exponentPart rest₂, excessPart rest₃⟩ := by
    unfold NumberParts.of
    simp only [drop_of_splits hcs, drop_of_splits hrest₁, drop_of_splits hrest₂]
  rw [hof]
  constructor
  case text =>
    refine ⟨rest, ?_⟩
    calc c :: cs = (c :: cs).takeWhile isDigitOrGap ++ rest₁ := hcs
      _ = (c :: cs).takeWhile isDigitOrGap ++ (fractionPart rest₁ ++ (exponentPart rest₂ ++
          (excessPart rest₃ ++ rest))) := by rw [← hrest₃, ← hrest₂, ← hrest₁]
      _ = _ := by simp only [NumberParts.text, List.append_assoc]
  case whole => exact isDigits_takeWhile hc cs
  case fraction => exact hfraction
  case exponent => exact hexponent.imp_left And.left
  case excess =>
    intro d hd
    obtain ⟨hhead, hstart⟩ := hexcess d hd
    refine ⟨hstart, hends₃ d hhead, fun hnil => ?_⟩
    rcases hexponent with ⟨-, hletter⟩ | ⟨e, -, sign, -, digits, hcons, -⟩
    · exact hletter d hhead
    · exact absurd (hnil.symm.trans hcons) (List.cons_ne_nil _ _).symm

section Reading

/-- A character that is part of no number, if it is not the letter of an exponent. -/
def isStray (c : Char) : Bool := !(c.isDigit || c ∈ ['.', '+', '-'])

theorem stray_takeWhile (cs : List Char) : (cs.takeWhile Char.isDigit).filter isStray = [] := by
  refine List.filter_eq_nil_iff.2 fun c hc => ?_
  simp [isStray, List.all_eq_true.1 List.all_takeWhile c hc]

theorem stray_dropWhile (cs : List Char) :
    (cs.dropWhile Char.isDigit).filter isStray = cs.filter isStray := by
  have hsplit := congrArg (List.filter isStray)
    (List.takeWhile_append_dropWhile (p := Char.isDigit) (l := cs))
  rwa [List.filter_append, stray_takeWhile, List.nil_append] at hsplit

theorem stray_of_readDigits? {n : Nat} (h : Decimal.readDigits? cs = some n) :
    cs.filter isStray = [] := by
  unfold Decimal.readDigits? at h
  split at h
  · cases h
  · rename_i hall
    rw [Bool.or_eq_true, not_or, Bool.not_eq_true', Bool.not_eq_false, List.all_eq_true] at hall
    refine List.filter_eq_nil_iff.2 fun c hc => ?_
    simp [isStray, hall.2 c hc]

theorem stray_of_readInt? {n : Int} (h : Decimal.readInt? cs = some n) :
    cs.filter isStray = [] := by
  unfold Decimal.readInt? at h
  split at h <;> obtain ⟨m, hm, -⟩ := Option.map_eq_some_iff.1 h <;>
    obtain ⟨k, hk, -⟩ := Option.bind_eq_some_iff.1 hm
  · rw [List.filter_cons_of_neg (by decide), stray_of_readDigits? hk]
  · rw [List.filter_cons_of_neg (by decide), stray_of_readDigits? hk]
  · exact stray_of_readDigits? hk

/-- Of all the characters that a double is read from, at most one is a letter. -/
theorem stray_of_readUnsigned? {x : Double} (h : Decimal.readUnsigned? false cs = some x) :
    cs.filter isStray ∈ [[], ['e'], ['E']] := by
  have htail : ∃ tail, cs.filter isStray = tail.filter isStray ∧
      (tail = [] ∨ ∃ e ∈ ['e', 'E'], ∃ es n, tail = e :: es ∧ Decimal.readInt? es = some n) := by
    unfold Decimal.readUnsigned? at h
    rw [← stray_dropWhile cs]
    generalize cs.dropWhile Char.isDigit = rest at h ⊢
    simp only at h
    split at h
    case' h_1 ds =>
      refine ⟨ds.dropWhile Char.isDigit, ?_, ?_⟩
      · rw [List.filter_cons_of_neg (by decide), stray_dropWhile]
      generalize ds.dropWhile Char.isDigit = tail at h ⊢
    case' h_2 => refine ⟨_, rfl, ?_⟩
    -- What is left is an exponent in both cases.
    all_goals
      split at h
      · cases h
      split at h
      · exact .inl rfl
      · obtain ⟨n, hn, -⟩ := Option.map_eq_some_iff.1 h
        exact .inr ⟨'e', by simp, _, n, rfl, hn⟩
      · obtain ⟨n, hn, -⟩ := Option.map_eq_some_iff.1 h
        exact .inr ⟨'E', by simp, _, n, rfl, hn⟩
      · cases h
  obtain ⟨tail, hfilter, rfl | ⟨e, he, es, n, rfl, hn⟩⟩ := htail
  · rw [hfilter]
    simp
  · have hstray : isStray e = true := by
      simp only [List.mem_cons, List.not_mem_nil, or_false] at he
      rcases he with rfl | rfl <;> decide
    rw [hfilter, List.filter_cons_of_pos hstray, stray_of_readInt? hn]
    simpa using he

theorem toLower_of_digit (hc : c.isDigit = true) : c.toLower = c := by
  unfold Char.isDigit at hc
  unfold Char.toLower
  rw [Bool.and_eq_true, decide_eq_true_iff, decide_eq_true_iff] at hc
  rw [dif_neg]
  rintro ⟨hA, -⟩
  have hle : (65 : UInt32) ≤ 57 := UInt32.le_trans hA hc.2
  exact absurd hle (by decide)

/-- A text that starts with a digit is not the name of a double, and has no sign. -/
theorem read?_of_digit (hc : c.isDigit = true) (cs : List Char) :
    Decimal.read? (String.ofList (c :: cs)) = Decimal.readUnsigned? false (c :: cs) := by
  have hword : ∀ w : String, (∃ d ∈ w.toList.head?, d.isDigit = false) →
      (String.ofList ((c :: cs).map Char.toLower) == w) = false := by
    rintro _ ⟨d, hd, hdigit⟩
    refine beq_false_of_ne ?_
    rintro rfl
    rw [String.toList_ofList, List.map_cons, toLower_of_digit hc] at hd
    cases hd
    rw [hc] at hdigit
    cases hdigit
  unfold Decimal.read?
  rw [String.toList_ofList]
  split
  · rename_i heq
    cases heq
    exact absurd hc (by decide)
  · rename_i heq
    cases heq
    exact absurd hc (by decide)
  · simp only [Decimal.readMagnitude?, hword "inf" ⟨'i', by decide, by decide⟩,
      hword "infinity" ⟨'i', by decide, by decide⟩, hword "nan" ⟨'n', by decide, by decide⟩]
    rfl

end Reading

section Letters

def letters (cs : List Char) : List Char := (withoutGaps cs).filter isStray

theorem withoutGaps_cons (hc : c ≠ '_') (cs : List Char) :
    withoutGaps (c :: cs) = c :: withoutGaps cs :=
  List.filter_cons_of_pos (bne_iff_ne.2 hc)

theorem letters_append (cs ds : List Char) : letters (cs ++ ds) = letters cs ++ letters ds := by
  simp only [letters, withoutGaps, List.filter_append]

theorem letters_cons (hc : c ≠ '_') (hstray : isStray c = true) (cs : List Char) :
    letters (c :: cs) = c :: letters cs := by
  rw [letters, withoutGaps_cons hc, List.filter_cons_of_pos hstray, letters]

theorem isStray_of_start (hc : isWordStart c = true) (hgap : isDigitOrGap c = false) :
    isStray c = true := by
  have hne : c ∉ ['.', '+', '-'] := by
    intro hmem
    simp only [List.mem_cons, List.not_mem_nil, or_false] at hmem
    rcases hmem with rfl | rfl | rfl <;> exact absurd hc (by decide)
  rw [isDigitOrGap, Bool.or_eq_false_iff] at hgap
  simp only [isStray, hgap.2, hne, decide_false, Bool.or_false, Bool.not_false]

theorem letters_of_read? {x : Double} (h : IsDigits cs) (ds : List Char)
    (hx : Decimal.read? (String.ofList (withoutGaps (cs ++ ds))) = some x) :
    letters (cs ++ ds) ∈ [[], ['e'], ['E']] := by
  obtain ⟨⟨d, hd, hdigit⟩, -⟩ := h
  obtain ⟨cs, rfl⟩ := List.head?_eq_some_iff.1 hd
  have hne : d ≠ '_' := by
    rintro rfl
    exact absurd hdigit (by decide)
  rw [List.cons_append, withoutGaps_cons hne, read?_of_digit hdigit] at hx
  rw [List.cons_append, letters, withoutGaps_cons hne]
  exact stray_of_readUnsigned? hx

theorem isExponent_letters (h : IsExponent cs) : letters cs ≠ [] := by
  obtain ⟨e, he, sign, -, digits, rfl, -⟩ := h
  have hletter : e ≠ '_' ∧ isStray e = true := by
    simp only [List.mem_cons, List.not_mem_nil, or_false] at he
    rcases he with rfl | rfl <;> decide
  rw [letters_cons hletter.1 hletter.2]
  exact List.cons_ne_nil _ _

theorem NumberParts.Starts.excess_nil {p : NumberParts} (h : p.Starts cs) {x : Double}
    (hx : Decimal.read? (String.ofList (withoutGaps p.text)) = some x) : p.excess = [] := by
  have hletters : letters p.whole ++ letters p.fraction ++ letters p.exponent ++
      letters p.excess ∈ [[], ['e'], ['E']] := by
    rw [← letters_append, ← letters_append, ← letters_append, List.append_assoc, List.append_assoc]
    refine letters_of_read? (x := x) h.whole _ ?_
    rw [← List.append_assoc, ← List.append_assoc]
    exact hx
  by_contra hexcess
  obtain ⟨l, ls, hls⟩ := List.exists_cons_of_ne_nil hexcess
  obtain ⟨hstart, hgap, hletter⟩ := h.excess l (by rw [hls]; rfl)
  have hl : l ≠ '_' := by
    rintro rfl
    exact absurd hgap (by decide)
  rw [hls, letters_cons hl (isStray_of_start hstart hgap)] at hletters
  -- The letter is the only one of the text. So there is no exponent, and it would start one.
  have honly : letters p.whole ++ letters p.fraction ++ letters p.exponent = [] ∧
      l ∈ ['e', 'E'] := by
    generalize letters p.whole ++ letters p.fraction ++ letters p.exponent = before at hletters
    cases before with
    | nil =>
      refine ⟨rfl, ?_⟩
      simp only [List.nil_append, List.mem_cons, List.not_mem_nil, reduceCtorEq, false_or, or_false,
        List.cons.injEq] at hletters ⊢
      exact hletters.imp And.left And.left
    | cons => simp at hletters
  rcases h.exponent with hnil | hexponent
  · exact hletter hnil honly.2
  · exact isExponent_letters hexponent (List.append_eq_nil_iff.1 honly.1).2

end Letters

theorem digits_of_readInt? {n : Int64} (h : readInt? cs = some n) :
    (∀ c ∈ cs, c.isDigit = true) ∧ n.toInt = Decimal.digitsValue cs := by
  unfold readInt? at h
  split at h
  · cases h
  rename_i hall
  rw [Bool.or_eq_true, not_or, Bool.not_eq_true', Bool.not_eq_false, List.all_eq_true] at hall
  simp only at h
  split at h
  · rename_i hle
    cases h
    refine ⟨hall.2, ?_⟩
    rw [Int64.toInt_ofNat_of_lt (by omega)]
  · cases h

theorem spells_scanNumber (hc : c.isDigit = true)
    (h : scanNumber (c :: cs) = .ok (k, more)) : Spells (c :: cs.take more) k := by
  have hstarts := NumberParts.starts_of hc cs
  unfold scanNumber at h
  generalize NumberParts.of (c :: cs) = p at h hstarts
  simp only at h
  split at h
  case h_2 => cases h
  case h_1 k hkind =>
    cases h
    have hword : c :: cs.take (p.text.length - 1) = p.text := by
      obtain ⟨rest, hrest⟩ := hstarts.text
      have hlength : p.text.length - 1 + 1 = p.text.length := by
        refine Nat.sub_add_cancel (List.length_pos_of_ne_nil fun hnil => ?_)
        simp only [NumberParts.text, List.append_eq_nil_iff] at hnil
        exact hstarts.whole.ne_nil hnil.1.1.1
      rw [← List.take_succ_cons, hlength, hrest, List.take_left]
    rw [hword]
    split at hkind
    · rename_i hempty
      rw [Bool.and_eq_true, List.isEmpty_iff, List.isEmpty_iff] at hempty
      obtain ⟨n, hn, rfl⟩ := Option.map_eq_some_iff.1 hkind
      obtain ⟨hdigits, hvalue⟩ := digits_of_readInt? hn
      have hexcess : p.excess = [] := by
        by_contra hne
        obtain ⟨l, ls, hls⟩ := List.exists_cons_of_ne_nil hne
        obtain ⟨-, hgap, -⟩ := hstarts.excess l (by rw [hls]; rfl)
        rw [isDigitOrGap, Bool.or_eq_false_iff] at hgap
        have hmem : l ∈ p.text.filter (· != '_') :=
          List.mem_filter.2 ⟨by simp [NumberParts.text, hls], by rw [bne, hgap.1, Bool.not_false]⟩
        exact absurd (hdigits l hmem) (by rw [hgap.2]; exact Bool.false_ne_true)
      have htext : p.text = p.whole := by
        rw [NumberParts.text, hempty.1, hempty.2, hexcess, List.append_nil, List.append_nil,
          List.append_nil]
      rw [htext] at hvalue ⊢
      exact .int hstarts.whole hvalue
    · rename_i hempty
      rw [Bool.and_eq_true, List.isEmpty_iff, List.isEmpty_iff] at hempty
      obtain ⟨x, hx, rfl⟩ := Option.map_eq_some_iff.1 hkind
      have htext : p.text = p.whole ++ p.fraction ++ p.exponent := by
        rw [NumberParts.text, hstarts.excess_nil hx, List.append_nil]
      rw [htext] at hx ⊢
      exact .float hstarts.whole hstarts.fraction hstarts.exponent hempty hx

end Numbers

section Blanks

/-- A piece that is blank, before the rest of a text. -/
inductive IsBlank : List Char → List Char → Prop where
  | space {c : Char} {rest : List Char} : c ∈ [' ', '\t', '\r'] → IsBlank [c] rest
  | pair {rest : List Char} : IsBlank ['\\', '\n'] rest
  | comment {cs rest : List Char} : '\n' ∉ cs → (∀ c ∈ rest.head?, c = '\n') →
    IsBlank ('#' :: cs) rest

theorem IsBlank.head {piece : List Char} (h : IsBlank piece rest) :
    ∃ c cs, piece = c :: cs ∧ c ≠ '\n' := by
  cases h with
  | @space c _ hc =>
    exact ⟨c, [], rfl, fun hline => absurd (hline ▸ hc) (by decide)⟩
  | pair => exact ⟨_, _, rfl, by decide⟩
  | comment => exact ⟨_, _, rfl, by decide⟩

/-- A blank piece goes as far as its first character says. -/
theorem IsBlank.unique {piece piece' rest' : List Char} (h : IsBlank piece rest)
    (h' : IsBlank piece' rest') (heq : piece ++ rest = piece' ++ rest') : piece = piece' := by
  have hcomment : ∀ {cs rest : List Char}, '\n' ∉ cs → (∀ c ∈ rest.head?, c = '\n') →
      (cs ++ rest).takeWhile (· != '\n') = cs := by
    intro cs rest hcs hrest
    have hall : ∀ c ∈ cs, (c != '\n') = true := fun c hc => bne_iff_ne.2 fun hline =>
      hcs (hline ▸ hc)
    rw [List.takeWhile_append_of_pos hall]
    cases rest with
    | nil => exact List.append_nil cs
    | cons c rest => rw [List.takeWhile_cons_of_neg (by simp [hrest c rfl]), List.append_nil]
  cases h <;> cases h' <;> injection heq with hhead htail <;> subst_vars
  case space.space | pair.pair => rfl
  case comment.comment cs hcs hrest cs' hcs' hrest' =>
    rw [← hcomment hcs hrest, ← hcomment hcs' hrest']
    exact congrArg (fun ds => '#' :: List.takeWhile _ ds) htail
  case pair.comment | comment.pair => exact absurd hhead (by decide)
  case space.pair hc | space.comment hc => exact absurd hc (by decide)
  case pair.space hc | comment.space hc => exact absurd hc (by decide)

def Piece.Is : Piece → List Char → List Char → Prop
  | .blank, cs, rest => IsBlank cs rest
  | .lineEnd, cs, _ => cs = ['\n']
  | .token k, cs, _ => Spells cs k

theorem is_of_scanPiece {p : Piece} (h : scanPiece c cs = .ok (p, more)) :
    p.Is (c :: cs.take more) (cs.drop more) := by
  unfold scanPiece at h
  split at h
  case isTrue hspace =>
    cases h
    exact .space (by simpa [or_assoc] using hspace)
  split at h
  case isTrue hpair =>
    cases h
    rw [Bool.and_eq_true, beq_iff_eq, beq_iff_eq] at hpair
    obtain ⟨cs, rfl⟩ := List.head?_eq_some_iff.1 hpair.2
    rw [hpair.1]
    exact .pair
  split at h
  case isTrue hline =>
    cases h
    rw [beq_iff_eq.1 hline]
    rfl
  split at h
  case isTrue hcomment =>
    cases h
    obtain ⟨rest, hcs, hrest⟩ := takeWhile_splits (· != '\n') cs
    have htake := (List.prefix_iff_eq_take.1 (List.takeWhile_prefix (l := cs) (· != '\n'))).symm
    rw [beq_iff_eq.1 hcomment, htake, drop_of_splits hcs]
    refine .comment (fun hline => ?_) fun c hc => by simpa using hrest c hc
    exact absurd (List.all_eq_true.1 List.all_takeWhile '\n' hline) (by decide)
  split at h
  case isTrue hquote =>
    cases hstring : scanString c [] 0 cs with
    | error =>
      rw [hstring] at h
      cases h
    | ok r =>
      rw [hstring] at h
      cases h
      exact spells_scanString (by simpa using hquote) hstring
  split at h
  case isTrue hdigit =>
    cases hnumber : scanNumber (c :: cs) with
    | error =>
      rw [hnumber] at h
      cases h
    | ok r =>
      rw [hnumber] at h
      cases h
      exact spells_scanNumber hdigit hnumber
  split at h
  case isTrue hstart =>
    cases h
    exact spells_scanWord hstart cs
  split at h
  case h_1 m more hmark =>
    cases h
    exact spells_scanMark hmark
  case h_2 => cases h

end Blanks

end Lexiscope.Grammar
