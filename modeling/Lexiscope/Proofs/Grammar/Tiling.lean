import Lexiscope.Proofs.Grammar.Pieces
/-!
# Tokens tile a source

Between the tokens that come from text there are blank pieces and line ends only. A line end becomes
a token where it is the first of its gap, outside parentheses and brackets, and a token stands
before it.
-/

namespace Lexiscope.Grammar

open Text (Span byteLength)

/-- Text between tokens, before the rest of a text: blank pieces and line ends. With it goes the
number of bytes before the first line end, if there is one. -/
inductive Gap (rest : List Char) : Option Nat → List Char → Prop where
  | nil : Gap rest none []
  | blank {piece cs : List Char} {line : Option Nat} : IsBlank piece (cs ++ rest) →
    Gap rest line cs → Gap rest (line.map (byteLength piece + ·)) (piece ++ cs)
  | lineEnd {cs : List Char} {line : Option Nat} : Gap rest line cs →
    Gap rest (some 0) ('\n' :: cs)

/-- Where the first line end of a gap is depends on the text alone. -/
theorem Gap.line_unique {rest cs : List Char} {line line' : Option Nat} (h : Gap rest line cs)
    (h' : Gap rest line' cs) : line = line' := by
  induction h generalizing line' with
  | nil =>
    generalize hcs : [] = cs at h'
    cases h' with
    | nil => rfl
    | blank hpiece =>
      obtain ⟨c, cs, rfl, -⟩ := hpiece.head
      cases hcs
    | lineEnd => cases hcs
  | @blank piece cs line hpiece hgap ih =>
    generalize hcs : piece ++ cs = ds at h'
    cases h' with
    | nil =>
      obtain ⟨c, cs, rfl, -⟩ := hpiece.head
      cases hcs
    | @blank piece' cs' line'' hpiece' hgap' =>
      have hpieces : piece = piece' :=
        hpiece.unique hpiece' (by rw [← List.append_assoc, hcs, List.append_assoc])
      subst hpieces
      obtain rfl := List.append_cancel_left hcs
      rw [ih hgap']
    | lineEnd =>
      obtain ⟨c, cs, rfl, hc⟩ := hpiece.head
      cases hcs
      exact absurd rfl hc
  | @lineEnd cs line hgap ih =>
    generalize hcs : '\n' :: cs = ds at h'
    cases h' with
    | nil => cases hcs
    | blank hpiece =>
      obtain ⟨c, cs, rfl, hc⟩ := hpiece.head
      cases hcs
      exact absurd rfl hc
    | lineEnd => rfl

def newlineAt (offset : Nat) : Token := ⟨.mark .newline, .ofOffsets offset (offset + 1)⟩

def counted (depth : Int) (line : Option Nat) : Option Nat := if depth = 0 then line else none

/-- The line end token of a gap from an offset on, if it has one. -/
def breakIn (depth : Int) (offset : Nat) (line : Option Nat) : List Token :=
  ((counted depth line).map fun n => newlineAt (offset + n)).toList

def eofAt (offset : Nat) : Token := ⟨.mark .eof, .ofOffsets offset offset⟩

/-- The tokens that a text is cut into from an offset on, at a depth. `after` says that the token
before them is no line end. -/
inductive Cuts : Nat → Nat → Bool → List Char → List Token → Prop where
  | finish {offset depth : Nat} {after : Bool} {line : Option Nat} {gap : List Char} :
    Gap [] line gap →
    Cuts offset depth after gap
      ((if after then [newlineAt (offset + (counted depth line).getD (byteLength gap))] else []) ++
        [eofAt (offset + byteLength gap)])
  | token {offset depth depth' : Nat} {after : Bool} {line : Option Nat} {gap word rest : List Char}
      {kind : TokenKind} {tokens : List Token} :
    Gap (word ++ rest) line gap → Spells word kind → depthAfter? depth kind = some depth' →
    Cuts (offset + byteLength gap + byteLength word) depth' true rest tokens →
    Cuts offset depth after (gap ++ (word ++ rest))
      ((if after then breakIn depth offset line else []) ++
        ⟨kind, .ofOffsets (offset + byteLength gap) (offset + byteLength gap + byteLength word)⟩ ::
          tokens)

section Run

variable {offset depth : Nat} {after : Bool} {piece rest : List Char} {tokens : List Token}

@[simp] theorem byteLength_append (cs ds : List Char) :
    byteLength (cs ++ ds) = byteLength cs + byteLength ds := by
  induction cs with
  | nil => exact (Nat.zero_add _).symm
  | cons c cs ih =>
    change c.utf8Size + byteLength (cs ++ ds) = c.utf8Size + byteLength cs + byteLength ds
    rw [ih, Nat.add_assoc]

theorem byteLength_pos {cs : List Char} (h : cs ≠ []) : 0 < byteLength cs := by
  obtain ⟨c, cs, rfl⟩ := List.exists_cons_of_ne_nil h
  exact Nat.add_pos_left c.utf8Size_pos _

@[simp] theorem counted_none (depth : Int) : counted depth none = none := ite_self none

@[simp] theorem counted_zero (line : Option Nat) : counted 0 line = line := if_pos rfl

@[simp] theorem counted_succ (depth : Nat) (line : Option Nat) :
    counted (depth + 1) line = none :=
  if_neg (by omega)

theorem counted_map (depth : Int) (line : Option Nat) (f : Nat → Nat) :
    counted depth (line.map f) = (counted depth line).map f := by
  unfold counted
  split <;> rfl

theorem breakIn_map (depth : Int) (offset n : Nat) (line : Option Nat) :
    breakIn depth offset (line.map (n + ·)) = breakIn depth (offset + n) line := by
  rw [breakIn, breakIn, counted_map]
  cases counted depth line <;> simp [Nat.add_assoc]

/-- A blank piece before a text belongs to the gap that the text starts with. -/
theorem Cuts.blank (hpiece : IsBlank piece rest)
    (h : Cuts (offset + byteLength piece) depth after rest tokens) :
    Cuts offset depth after (piece ++ rest) tokens := by
  cases h with
  | @finish _ _ _ line gap hgap =>
    have hcuts : Cuts offset depth after (piece ++ rest) _ :=
      .finish (.blank (by rwa [List.append_nil]) hgap)
    have hline : offset + (counted depth (line.map (byteLength piece + ·))).getD
        (byteLength (piece ++ rest)) =
        offset + byteLength piece + (counted depth line).getD (byteLength rest) := by
      rw [counted_map, byteLength_append]
      cases counted depth line <;> simp [Nat.add_assoc]
    rwa [hline, byteLength_append, ← Nat.add_assoc] at hcuts
  | @token _ _ depth' _ line gap word rest kind tokens hgap hspells hdepth hrest =>
    have hblank : Gap (word ++ rest) _ (piece ++ gap) := .blank hpiece hgap
    have hfollows : Cuts (offset + byteLength (piece ++ gap) + byteLength word) depth' true rest
        tokens := by
      rwa [byteLength_append, ← Nat.add_assoc]
    have hcuts : Cuts offset depth after ((piece ++ gap) ++ (word ++ rest)) _ :=
      .token hblank hspells hdepth hfollows
    rwa [breakIn_map, byteLength_append, ← Nat.add_assoc, List.append_assoc] at hcuts

theorem byteLength_newline (cs : List Char) : byteLength ('\n' :: cs) = 1 + byteLength cs := rfl

/-- A line end before a text belongs to its gap as well, and is the first one there. -/
theorem Cuts.lineEnd (h : Cuts (offset + 1) depth (after && depth != 0) rest tokens) :
    Cuts offset depth after ('\n' :: rest)
      (if after && depth == 0 then newlineAt offset :: tokens else tokens) := by
  generalize hopen : (after && depth != 0) = before at h
  cases h with
  | @finish _ _ _ line gap hgap =>
    have hcuts : Cuts offset depth after ('\n' :: rest) _ := .finish (.lineEnd hgap)
    subst hopen
    cases after <;> cases depth <;>
      simpa [breakIn, byteLength_newline, Nat.add_assoc] using hcuts
  | @token _ _ depth' _ line gap word rest kind tokens hgap hspells hdepth hrest =>
    have hfollows : Cuts (offset + byteLength ('\n' :: gap) + byteLength word) depth' true rest
        tokens := by
      rwa [byteLength_newline, ← Nat.add_assoc]
    have hcuts : Cuts offset depth after ('\n' :: gap ++ (word ++ rest)) _ :=
      .token (.lineEnd hgap) hspells hdepth hfollows
    subst hopen
    cases after <;> cases depth <;>
      simpa [breakIn, byteLength_newline, Nat.add_assoc] using hcuts

def isOpen (tokens : List Token) : Bool := tokens.head?.any fun t => !t.kind.isMark .newline

theorem addNewline_eq (tokens : List Token) (offset : Nat) : addNewline tokens offset =
    if isOpen tokens then newlineAt offset :: tokens else tokens := by
  unfold addNewline
  split
  · rfl
  · rename_i t ts
    cases h : t.kind.isMark .newline <;> simp [isOpen, h, newlineAt]

theorem isOpen_addNewline (tokens : List Token) (offset : Nat) :
    isOpen (addNewline tokens offset) = false := by
  rw [addNewline_eq]
  cases h : isOpen tokens
  · exact h
  · rfl

theorem isOpen_of_isText {t : Token} (ht : t.kind.isText = true) (ts : List Token) :
    isOpen (t :: ts) = true := by
  simp_all [isOpen, TokenKind.isText]

theorem Cuts.here {word : List Char} {kind : TokenKind} {depth' : Nat}
    (hspells : Spells word kind) (hdepth : depthAfter? depth kind = some depth')
    (h : Cuts (offset + byteLength word) depth' true rest tokens) :
    Cuts offset depth after (word ++ rest)
      (⟨kind, .ofOffsets offset (offset + byteLength word)⟩ :: tokens) := by
  have hcuts : Cuts offset depth after ([] ++ (word ++ rest)) _ :=
    .token .nil hspells hdepth h
  cases after <;> simpa [byteLength, breakIn] using hcuts

theorem cuts_of_lexFrom {cs : List Char} {found all : List Token}
    (h : lexFrom offset depth found cs = .ok all) :
    ∃ tokens, all = found.reverse ++ tokens ∧ Cuts offset depth (isOpen found) cs tokens := by
  fun_induction lexFrom offset depth found cs with
  | case2 | case6 => cases h
  | case1 offset depth found =>
    cases h
    refine ⟨_, ?_, .finish .nil⟩
    rw [addNewline_eq, counted_none]
    cases isOpen found <;> simp [byteLength, eofAt]
  | case3 offset depth found c cs more next rest hpiece ih =>
    obtain ⟨tokens, rfl, hcuts⟩ := ih h
    refine ⟨tokens, rfl, ?_⟩
    rw [← List.take_append_drop more cs, ← List.cons_append]
    exact .blank (is_of_scanPiece hpiece) hcuts
  | case4 offset depth found c cs more next rest hpiece ih =>
    obtain ⟨tokens, rfl, hcuts⟩ := ih h
    -- A line end counts only outside brackets, and only after a token that is none.
    have hline : c :: cs.take more = ['\n'] := is_of_scanPiece hpiece
    have hnext : next = offset + 1 := congrArg (offset + byteLength ·) hline
    refine ⟨if isOpen found && depth == 0 then newlineAt offset :: tokens else tokens, ?_, ?_⟩
    · cases hdepth : depth == 0 <;> cases hopen : isOpen found <;> simp [addNewline_eq, hopen]
    · rw [← List.take_append_drop more cs, ← List.cons_append, hline]
      refine .lineEnd ?_
      rw [hnext, dite_eq_ite] at hcuts
      cases hdepth : depth == 0
      · rw [hdepth] at hcuts
        rwa [bne, hdepth, Bool.not_false, Bool.and_true]
      · rw [hdepth, if_pos rfl, isOpen_addNewline] at hcuts
        rwa [bne, hdepth, Bool.not_true, Bool.and_false]
  | case5 offset depth found c cs more next rest kind depth' hdepth hpiece ih =>
    obtain ⟨tokens, rfl, hcuts⟩ := ih h
    have hspells : Spells (c :: cs.take more) kind := is_of_scanPiece hpiece
    rw [isOpen_of_isText hspells.isText] at hcuts
    refine ⟨⟨kind, .ofOffsets offset next⟩ :: tokens, ?_, ?_⟩
    · rw [List.reverse_cons, List.append_assoc]
      rfl
    · rw [← List.take_append_drop more cs, ← List.cons_append]
      exact .here hspells hdepth hcuts

end Run

section Places

variable {source : String} {offset depth : Nat} {after : Bool} {cs ds : List Char}
  {tokens : List Token}

/-- From the offset to its end the source has the text. -/
def HasRest (source : String) (offset : Nat) (cs : List Char) : Prop :=
  ∃ before, source.toList = before ++ cs ∧ offset = byteLength before

def Token.StandsIn (source : String) (t : Token) : Prop :=
  ∃ before word rest, source.toList = before ++ word ++ rest ∧
    t.span = ⟨byteLength before, byteLength (before ++ word)⟩ ∧ Spells word t.kind

/-- Between the offsets the source has a gap, with a line end so many bytes from its start. -/
def GapBetween (source : String) (start stop : Nat) (line : Option Nat) : Prop :=
  ∃ before gap rest, source.toList = before ++ gap ++ rest ∧ start = byteLength before ∧
    stop = byteLength (before ++ gap) ∧ Gap rest line gap

def TokenKind.opens (k : TokenKind) : Bool := k.isMark .lparen || k.isMark .lbracket

def TokenKind.closes (k : TokenKind) : Bool := k.isMark .rparen || k.isMark .rbracket

/-- The parentheses and brackets that are opened, less those that are closed. -/
def bracketDepth (tokens : List Token) : Int :=
  tokens.countP (·.kind.opens) - tokens.countP (·.kind.closes)

/-- The last line end of a source of a size, which is the end of the source if no other one counts
in the gap before it. -/
def lastBreak (depth : Int) (offset : Nat) (line : Option Nat) (size : Nat) : Token :=
  newlineAt (((counted depth line).map (offset + ·)).getD size)

/-- The tokens tile the source from an offset on, at a depth. `after` says that another token ends
there. -/
structure Tile (source : String) (offset : Nat) (depth : Int) (after : Bool) (tokens : List Token) :
    Prop where
  stands : ∀ t ∈ tokens, t.kind.isText = true →
    t.StandsIn source ∧ offset ≤ t.span.start ∧ t.span.start < t.span.stop
  ordered : (tokens.filter (·.kind.isText)).Pairwise fun t u => t.span.stop ≤ u.span.start
  /-- Two tokens have a line end between them if one counts in their gap, and then only that one. -/
  between : ∀ xs t ys u zs, tokens = xs ++ t :: (ys ++ u :: zs) → t.kind.isText = true →
    u.kind.isText = true → (∀ n ∈ ys, n.kind.isText = false) →
      ∃ line, GapBetween source t.span.stop u.span.start line ∧
        ys = breakIn (depth + bracketDepth (xs ++ [t])) t.span.stop line
  first : ∀ ys u zs, tokens = ys ++ u :: zs → u.kind.isText = true →
    (∀ n ∈ ys, n.kind.isText = false) →
      ∃ line, GapBetween source offset u.span.start line ∧
        ys = if after then breakIn depth offset line else []
  last : (∃ line, GapBetween source offset source.utf8ByteSize line ∧
      tokens = (if after then [lastBreak depth offset line source.utf8ByteSize] else []) ++
        [eofAt source.utf8ByteSize]) ∨
    ∃ xs t line, GapBetween source t.span.stop source.utf8ByteSize line ∧ t.kind.isText = true ∧
      tokens = xs ++ [t, lastBreak (depth + bracketDepth (xs ++ [t])) t.span.stop line
        source.utf8ByteSize, eofAt source.utf8ByteSize]

/-- All offsets of the source fit into spans. -/
def Fits (source : String) : Prop := source.utf8ByteSize ≤ Span.limit

theorem byteLength_toList (s : String) : byteLength s.toList = s.utf8ByteSize := by
  have hofList : ∀ cs : List Char, byteLength cs = (String.ofList cs).utf8ByteSize := by
    intro cs
    induction cs with
    | nil => rfl
    | cons c cs ih =>
      rw [String.ofList_cons, String.utf8ByteSize_append, String.utf8ByteSize_singleton, ← ih]
      rfl
  rw [hofList, String.ofList_toList]

theorem HasRest.skip (h : HasRest source offset (cs ++ ds)) :
    HasRest source (offset + byteLength cs) ds := by
  obtain ⟨before, hsource, rfl⟩ := h
  exact ⟨before ++ cs, by rw [hsource, List.append_assoc], (byteLength_append _ _).symm⟩

theorem HasRest.size (h : HasRest source offset cs) :
    offset + byteLength cs = source.utf8ByteSize := by
  obtain ⟨before, hsource, rfl⟩ := h
  rw [← byteLength_append, ← hsource, byteLength_toList]

theorem HasRest.gap {line : Option Nat} (h : HasRest source offset (cs ++ ds))
    (hgap : Gap ds line cs) : GapBetween source offset (offset + byteLength cs) line := by
  obtain ⟨before, hsource, rfl⟩ := h
  have hsplit : source.toList = before ++ cs ++ ds := by rw [hsource, List.append_assoc]
  exact ⟨before, cs, ds, hsplit, rfl, (byteLength_append _ _).symm, hgap⟩

theorem ofOffsets_eq {start stop : Nat} (hstart : start ≤ stop) (hstop : stop ≤ Span.limit) :
    Span.ofOffsets start stop = ⟨start, stop⟩ := by
  rw [Span.ofOffsets, Nat.min_eq_left hstop, Nat.min_eq_left (Nat.le_trans hstart hstop)]

theorem HasRest.span (h : HasRest source offset (cs ++ ds)) (hfits : Fits source) :
    Span.ofOffsets offset (offset + byteLength cs) = ⟨offset, offset + byteLength cs⟩ := by
  refine ofOffsets_eq (Nat.le_add_right _ _) (Nat.le_trans ?_ hfits)
  have hsize := h.size
  rw [byteLength_append] at hsize
  omega

theorem HasRest.standsIn {kind : TokenKind} (h : HasRest source offset (cs ++ ds))
    (hspells : Spells cs kind) :
    Token.StandsIn source ⟨kind, ⟨offset, offset + byteLength cs⟩⟩ := by
  obtain ⟨before, hsource, rfl⟩ := h
  exact ⟨before, cs, ds, by rw [hsource, List.append_assoc], by rw [byteLength_append], hspells⟩

theorem isText_breakIn {depth : Int} {line : Option Nat} {t : Token}
    (ht : t ∈ if after then breakIn depth offset line else []) : t.kind.isText = false := by
  cases after
  · cases ht
  · rw [if_pos rfl, breakIn, Option.mem_toList, Option.map_eq_some_iff] at ht
    obtain ⟨n, -, rfl⟩ := ht
    rfl

theorem filter_isText {ns : List Token} (h : ∀ n ∈ ns, n.kind.isText = false) :
    ns.filter (·.kind.isText) = [] :=
  List.filter_eq_nil_iff.2 fun n hn => by simp [h n hn]

theorem Tile.finish {line : Option Nat} (h : HasRest source offset cs) (hgap : Gap [] line cs) :
    Tile source offset depth after
      ((if after then [newlineAt (offset + (counted depth line).getD (byteLength cs))] else []) ++
        [eofAt (offset + byteLength cs)]) := by
  have hnone : ∀ t ∈ (if after then [newlineAt (offset + (counted depth line).getD (byteLength cs))]
      else []) ++ [eofAt (offset + byteLength cs)], t.kind.isText = false := by
    cases after <;> simp [newlineAt, eofAt, TokenKind.isText, TokenKind.isMark]
  constructor
  case stands =>
    intro t ht htext
    rw [hnone t ht] at htext
    cases htext
  case ordered =>
    rw [filter_isText hnone]
    exact .nil
  case between =>
    intro xs t ys u zs htokens htext
    rw [hnone t (by rw [htokens]; simp)] at htext
    cases htext
  case first =>
    intro ys u zs htokens htext
    rw [hnone u (by rw [htokens]; simp)] at htext
    cases htext
  case last =>
    refine .inl ⟨line, ?_, ?_⟩
    · have hrest : HasRest source offset (cs ++ []) := by rwa [List.append_nil]
      rw [← h.size]
      exact hrest.gap hgap
    · rw [← h.size, lastBreak]
      cases counted depth line <;> rfl

theorem split_at_text {ns xs ts rest : List Token} {s t : Token}
    (hns : ∀ n ∈ ns, n.kind.isText = false) (ht : t.kind.isText = true)
    (h : ns ++ s :: ts = xs ++ t :: rest) :
    (xs = ns ∧ t = s ∧ rest = ts) ∨ ∃ xs', xs = ns ++ s :: xs' ∧ ts = xs' ++ t :: rest := by
  induction ns generalizing xs with
  | nil =>
    cases xs with
    | nil =>
      cases h
      exact .inl ⟨rfl, rfl, rfl⟩
    | cons x xs =>
      cases h
      exact .inr ⟨xs, rfl, rfl⟩
  | cons n ns ih =>
    obtain ⟨hn, hns⟩ := List.forall_mem_cons.1 hns
    cases xs with
    | nil =>
      cases h
      rw [hn] at ht
      cases ht
    | cons x xs =>
      obtain ⟨rfl, htail⟩ := List.cons.inj h
      rcases ih hns htail with ⟨rfl, rfl, rfl⟩ | ⟨xs', rfl, rfl⟩
      · exact .inl ⟨rfl, rfl, rfl⟩
      · exact .inr ⟨xs', rfl, rfl⟩

theorem bracketDepth_append (xs ys : List Token) :
    bracketDepth (xs ++ ys) = bracketDepth xs + bracketDepth ys := by
  simp only [bracketDepth, List.countP_append]
  omega

theorem eq_of_not_isText {k : TokenKind} (h : k.isText = false) :
    k = .mark .newline ∨ k = .mark .eof := by
  cases k with
  | mark m => simpa [TokenKind.isText, TokenKind.isMark, ← Decidable.or_iff_not_imp_left] using h
  | _ => cases h

theorem bracketDepth_of_not_isText {ns : List Token} (h : ∀ n ∈ ns, n.kind.isText = false) :
    bracketDepth ns = 0 := by
  have hnone : ∀ n ∈ ns, n.kind.opens = false ∧ n.kind.closes = false := by
    intro n hn
    rcases eq_of_not_isText (h n hn) with hkind | hkind <;> rw [hkind] <;> decide
  rw [bracketDepth, List.countP_eq_zero.2 fun n hn => by simp [hnone n hn],
    List.countP_eq_zero.2 fun n hn => by simp [hnone n hn]]
  rfl

theorem closes_of_opens {k : TokenKind} (h : k.opens = true) : k.closes = false := by
  cases k with
  | mark m => cases m <;> first | rfl | cases h
  | _ => rfl

theorem depth_of_depthAfter? {depth' : Nat} {t : Token}
    (h : depthAfter? depth t.kind = some depth') : (depth' : Int) = depth + bracketDepth [t] := by
  have hboth : t.kind.opens = true → t.kind.closes = false := closes_of_opens
  change (if t.kind.opens then some (depth + 1) else if t.kind.closes then
    if depth == 0 then none else some (depth - 1) else some depth) = some depth' at h
  simp only [bracketDepth, List.countP_cons, List.countP_nil]
  cases hopens : t.kind.opens <;> cases hcloses : t.kind.closes <;> simp_all <;> omega

/-- The rest of a source after a token is tiled. So is what starts with the gap before the token. -/
theorem Tile.token {depth' : Nat} {line : Option Nat} {gap word rest : List Char} {t : Token}
    (hspan : t.span = ⟨offset + byteLength gap, offset + byteLength gap + byteLength word⟩)
    (h : HasRest source offset (gap ++ (word ++ rest))) (hgap : Gap (word ++ rest) line gap)
    (hspells : Spells word t.kind) (hdepth : depthAfter? depth t.kind = some depth')
    (hrest : Tile source t.span.stop depth' true tokens) :
    Tile source offset depth after
      ((if after then breakIn depth offset line else []) ++ t :: tokens) := by
  have hnewline : ∀ n ∈ if after then breakIn depth offset line else [], n.kind.isText = false :=
    fun n => isText_breakIn
  -- Of a line end before the token only this matters: it does not come from text.
  generalize hns : (if after then breakIn depth offset line else []) = ns at hnewline
  have htext : t.kind.isText = true := hspells.isText
  have hgapBetween : GapBetween source offset t.span.start line := by
    rw [hspan]
    exact h.gap hgap
  have hstands : t.StandsIn source := by
    have hstands := h.skip.standsIn hspells
    rwa [← hspan] at hstands
  have hlt : t.span.start < t.span.stop := by
    rw [hspan]
    exact Nat.lt_add_of_pos_right (byteLength_pos hspells.ne_nil)
  have hstart : offset ≤ t.span.start := by
    rw [hspan]
    exact Nat.le_add_right _ _
  have hdepths : ∀ xs, (depth : Int) + bracketDepth (ns ++ t :: xs) = depth' + bracketDepth xs := by
    intro xs
    rw [bracketDepth_append, bracketDepth_of_not_isText hnewline, ← List.singleton_append,
      bracketDepth_append, depth_of_depthAfter? hdepth]
    omega
  have hdepths' : ∀ xs u, (depth : Int) + bracketDepth (ns ++ t :: xs ++ [u]) =
      depth' + bracketDepth (xs ++ [u]) := by
    intro xs u
    rw [List.append_assoc, List.cons_append, hdepths]
  constructor
  case stands =>
    simp only [List.forall_mem_append, List.forall_mem_cons]
    refine ⟨fun n hn hntext => ?_, fun _ => ⟨hstands, hstart, hlt⟩, fun u hu hutext => ?_⟩
    · rw [hnewline n hn] at hntext
      cases hntext
    obtain ⟨hu, hle, hu'⟩ := hrest.stands u hu hutext
    exact ⟨hu, by omega, hu'⟩
  case ordered =>
    rw [List.filter_append, filter_isText hnewline, List.nil_append,
      List.filter_cons_of_pos (by exact htext), List.pairwise_cons]
    refine ⟨fun u hu => ?_, hrest.ordered⟩
    obtain ⟨hu, hutext⟩ := List.mem_filter.1 hu
    exact (hrest.stands u hu hutext).2.1
  case first =>
    intro ys u zs htokens hutext hys
    rcases split_at_text hnewline hutext htokens with ⟨rfl, rfl, rfl⟩ | ⟨xs, rfl, -⟩
    · exact ⟨line, hgapBetween, hns.symm⟩
    · rw [hys t (by simp)] at htext
      cases htext
  case between =>
    intro xs t' ys u zs htokens htext' hutext hys
    rcases split_at_text hnewline htext' htokens with ⟨rfl, rfl, hzs⟩ | ⟨xs', rfl, hxs⟩
    · obtain ⟨line', hbetween, hys'⟩ := hrest.first ys u zs hzs.symm hutext hys
      refine ⟨line', hbetween, ?_⟩
      rw [hdepths]
      simpa [bracketDepth] using hys'
    · obtain ⟨line', hbetween, hys'⟩ := hrest.between xs' t' ys u zs hxs htext' hutext hys
      refine ⟨line', hbetween, ?_⟩
      rw [hdepths']
      exact hys'
  case last =>
    rcases hrest.last with ⟨line', hbetween, htokens⟩ | ⟨xs, t', line', hbetween, htext', htokens⟩
    · refine .inr ⟨ns, t, line', hbetween, htext, ?_⟩
      rw [hdepths, htokens]
      simp [bracketDepth]
    · refine .inr ⟨ns ++ t :: xs, t', line', hbetween, htext', ?_⟩
      rw [hdepths', List.append_assoc, List.cons_append, ← htokens]

theorem Cuts.tile (h : Cuts offset depth after cs tokens) (hrest : HasRest source offset cs)
    (hfits : Fits source) : Tile source offset depth after tokens := by
  induction h with
  | finish hgap => exact .finish hrest hgap
  | @token offset depth depth' after line gap word rest kind tokens hgap hspells hdepth _ ih =>
    rw [hrest.skip.span hfits]
    exact .token rfl hrest hgap hspells hdepth (ih hrest.skip.skip)

/-- The tokens of a source of less than four gigabytes tile it. -/
theorem tokens_tile {source : String} {tokens : List Token} (h : lex source = .ok tokens)
    (hsize : source.utf8ByteSize < UInt32.size) : Tile source 0 0 false tokens := by
  obtain ⟨_, rfl, hcuts⟩ := cuts_of_lexFrom h
  exact hcuts.tile ⟨[], rfl, rfl⟩ (Nat.le_of_lt_succ hsize)

/-- A source with a comment inside parentheses, a line that goes on, and empty lines. -/
def sampleSource : String :=
  "é = f(1_0,  # size\n  2.5e1)\\\n  + 'a\\'b'\n\n\nreturn é"

/-- Two line ends of that source become tokens. -/
theorem tokens_tile_sample : sampleSource.utf8ByteSize < UInt32.size ∧ ∃ tokens,
    lex sampleSource = .ok tokens ∧ tokens.length = 15 ∧ Tile sampleSource 0 0 false tokens := by
  have hlex : (lex sampleSource).toOption.any (·.length == 15) = true := by decide +kernel
  have hsize : sampleSource.utf8ByteSize < UInt32.size := by decide +kernel
  cases htokens : lex sampleSource with
  | error e =>
    rw [htokens] at hlex
    cases hlex
  | ok tokens =>
    rw [htokens] at hlex
    exact ⟨hsize, tokens, rfl, beq_iff_eq.1 hlex, tokens_tile htokens hsize⟩

end Places

end Lexiscope.Grammar
