import Lexiscope.Naming.Interner
import Mathlib.Data.Finset.Card
import Mathlib.Logic.Relation
/-!
# Interning under every interleaving

Callers intern texts side by side. Each looks its text up under a lock that others may share, and
if the text is not there, comes back later under a lock of its own, looks again and only then
inserts. In between, others may have inserted the same text.

What every step keeps is that the index of each shard leads from each of its texts to the one place
where the text stands, that a text stands in no shard but its own, and that the table knows just the
texts whose handles were given out, and the empty one. A step never takes an entry away, so that a
handle keeps its text forever.
-/

namespace Lexiscope.Naming

namespace Handle

variable {shard shard' : Fin shardCount} {place place' : UInt32}

theorem toNat_word_ofPlace (h : place ≤ maxPlace) :
    (ofPlace shard place).word.toNat = shard * 268435456 + place.toNat := by
  have hplace : place.toNat < 2 ^ 28 := Nat.lt_succ_of_le (UInt32.le_iff_toNat_le.1 h)
  have hshard : shard.val < 16 := shard.isLt
  have hword : (UInt32.ofNat shard.val).toNat = shard.val := by
    rw [UInt32.toNat_ofNat']
    omega
  have hshift : (UInt32.ofNat shard.val <<< 28).toNat = shard.val <<< 28 := by
    rw [UInt32.toNat_shiftLeft, hword, Nat.shiftLeft_eq, Nat.shiftLeft_eq]
    exact Nat.mod_eq_of_lt (by simp; omega)
  unfold ofPlace
  rw [UInt32.toNat_or, hshift, ← Nat.shiftLeft_add_eq_or_of_lt hplace, Nat.shiftLeft_eq]

theorem shard_ofPlace (h : place ≤ maxPlace) : (ofPlace shard place).shard = shard := by
  have hplace : place.toNat ≤ 268435455 := UInt32.le_iff_toNat_le.1 h
  apply Fin.ext
  change ((ofPlace shard place).word >>> 28).toNat = shard.val
  rw [UInt32.toNat_shiftRight, toNat_word_ofPlace h, Nat.shiftRight_eq_div_pow]
  simp
  omega

theorem place_ofPlace (h : place ≤ maxPlace) : (ofPlace shard place).place = place.toNat := by
  have hplace : place.toNat ≤ 268435455 := UInt32.le_iff_toNat_le.1 h
  have hmask : maxPlace.toNat = 2 ^ 28 - 1 := by decide
  unfold Handle.place
  rw [UInt32.toNat_and, toNat_word_ofPlace h, hmask, Nat.and_two_pow_sub_one_eq_mod]
  omega

end Handle

variable {text text' : String}

theorem shardOf_eq_first_iff : shardOf text = Handle.firstShard ↔ text = "" := by
  unfold shardOf
  constructor
  · intro h
    split at h
    · exact String.isEmpty_iff.1 ‹_›
    · exact absurd (congrArg Fin.val h) (Nat.succ_ne_zero _)
  · rintro rfl
    rfl

namespace Shard

variable {s : Shard} {place : UInt32}

/-- The index leads from each text of the shard to the place where it stands, its only one. -/
structure Sound (s : Shard) : Prop where
  size_le : s.texts.size ≤ Handle.maxPlace.toNat + 1
  find?_iff : ∀ {text place}, s.find? text = some place ↔ s.texts[place.toNat]? = some text

theorem sound_empty : ({} : Shard).Sound where
  size_le := Nat.zero_le _
  find?_iff := by
    intro text place
    simp [find?]

theorem Sound.place_le (h : s.Sound) (hfind : s.find? text = some place) :
    place ≤ Handle.maxPlace := by
  obtain ⟨hlt, -⟩ := Array.getElem?_eq_some_iff.1 (h.find?_iff.1 hfind)
  exact UInt32.le_iff_toNat_le.2 (Nat.le_of_lt_succ (Nat.lt_of_lt_of_le hlt h.size_le))

theorem find?_add : (s.add text).find? text' =
    if text = text' then some (.ofNat s.texts.size) else s.find? text' := by
  unfold find? add
  split
  · subst text'
    exact OrderedMap.get?_insert_self ..
  · exact OrderedMap.get?_insert_of_ne _ _ (beq_false_of_ne ‹_›)

theorem Sound.add (h : s.Sound) (hnew : s.find? text = none)
    (hroom : s.texts.size ≤ Handle.maxPlace.toNat) : (s.add text).Sound := by
  have hsize : (UInt32.ofNat s.texts.size).toNat = s.texts.size :=
    UInt32.toNat_ofNat_of_lt' (Nat.lt_of_le_of_lt hroom (by decide))
  refine ⟨?_, ?_⟩
  · exact (Array.size_push ..).trans_le (Nat.succ_le_succ hroom)
  · intro text' place
    have hpush : (s.add text).texts = s.texts.push text := rfl
    rw [find?_add, hpush, Array.getElem?_push]
    by_cases htext : text = text'
    · subst text'
      rw [if_pos rfl, Option.some.injEq, ← UInt32.toNat_inj, hsize]
      split
      · exact iff_of_true (by omega) rfl
      · refine iff_of_false (by omega) fun hplace => ?_
        rw [← h.find?_iff, hnew] at hplace
        contradiction
    · rw [if_neg htext, h.find?_iff]
      split
      · rw [Array.getElem?_eq_none (by omega)]
        exact iff_of_false nofun fun heq => htext (Option.some.inj heq)
      · exact Iff.rfl

end Shard

namespace Interner

variable {t : Interner} {h h' : Handle} {shard : Fin Handle.shardCount}

/-- Every shard is sound, a text stands in its own shard only, and the first shard holds the empty
text alone. -/
structure Sound (t : Interner) : Prop where
  sound : ∀ shard, (t.shardAt shard).Sound
  home : ∀ shard, ∀ text ∈ (t.shardAt shard).texts, shardOf text = shard
  first : (t.shardAt Handle.firstShard).texts = #[""]

def add (t : Interner) (text : String) : Interner where
  shards := t.shards.set (shardOf text) ((t.shardAt (shardOf text)).add text) (shardOf text).isLt
  count := t.count + 1

theorem shardAt_add : (t.add text).shardAt shard =
    if shardOf text = shard then (t.shardAt shard).add text else t.shardAt shard := by
  have hset : (t.add text).shardAt shard =
      if (shardOf text).val = shard.val then (t.shardAt (shardOf text)).add text
        else t.shardAt shard :=
    Vector.getElem_set (shardOf text).isLt shard.isLt
  rw [hset]
  by_cases hshard : shardOf text = shard
  · rw [if_pos hshard, if_pos (congrArg Fin.val hshard), hshard]
  · rw [if_neg hshard, if_neg fun heq => hshard (Fin.ext heq)]

theorem find?_eq_some_iff : t.find? text = some h ↔ ∃ place,
    (t.shardAt (shardOf text)).find? text = some place ∧ Handle.ofPlace (shardOf text) place = h :=
  Option.map_eq_some_iff

theorem find?_eq_none_iff :
    t.find? text = none ↔ (t.shardAt (shardOf text)).find? text = none :=
  Option.map_eq_none_iff

theorem find?_add : (t.add text).find? text' =
    if text = text' then
      some (.ofPlace (shardOf text) (.ofNat (t.shardAt (shardOf text)).texts.size))
    else t.find? text' := by
  unfold find?
  dsimp only
  rw [shardAt_add]
  by_cases htext : text = text'
  · subst text'
    rw [if_pos rfl, if_pos rfl, Shard.find?_add, if_pos rfl]
    rfl
  · rw [if_neg htext]
    split
    · rw [Shard.find?_add, if_neg htext]
    · rfl

theorem Sound.find? (ht : t.Sound) (hfind : t.find? text = some h) : ∃ place,
    h = .ofPlace (shardOf text) place ∧ place ≤ Handle.maxPlace ∧ h.shard = shardOf text ∧
      h.place = place.toNat ∧ (t.shardAt (shardOf text)).texts[place.toNat]? = some text := by
  obtain ⟨place, hplace, rfl⟩ := find?_eq_some_iff.1 hfind
  have hle := (ht.sound _).place_le hplace
  exact ⟨place, rfl, hle, Handle.shard_ofPlace hle, Handle.place_ofPlace hle,
    (ht.sound _).find?_iff.1 hplace⟩

theorem Sound.lookup (ht : t.Sound) (hfind : t.find? text = some h) : t.lookup h = text := by
  obtain ⟨place, -, -, hshard, hplace, htext⟩ := ht.find? hfind
  unfold Interner.lookup
  rw [hshard, hplace, Array.getD_eq_getD_getElem?, htext]
  rfl

theorem Sound.find?_empty (ht : t.Sound) : t.find? "" = some .empty := by
  refine find?_eq_some_iff.2 ⟨0, ((ht.sound _).find?_iff).2 ?_, rfl⟩
  rw [shardOf_eq_first_iff.2 rfl, ht.first]
  rfl

theorem Sound.eq_empty_iff (ht : t.Sound) (hfind : t.find? text = some h) :
    h = .empty ↔ text = "" := by
  constructor
  · rintro rfl
    rw [← ht.lookup hfind, ht.lookup ht.find?_empty]
  · rintro rfl
    exact Option.some.inj (hfind.symm.trans ht.find?_empty)

theorem shardAt_fresh : fresh.shardAt shard =
    if shard = Handle.firstShard then ({} : Shard).add "" else {} := by
  have hset : fresh.shardAt shard = if 0 = shard.val then ({} : Shard).add ""
      else (Vector.replicate Handle.shardCount ({} : Shard))[shard.val] :=
    Vector.getElem_set (by decide) shard.isLt
  rw [hset, Vector.getElem_replicate]
  by_cases hfirst : shard = Handle.firstShard
  · subst hfirst
    rfl
  · rw [if_neg hfirst, if_neg fun heq => hfirst (Fin.ext heq.symm)]

theorem sound_fresh : fresh.Sound := by
  refine ⟨?_, ?_, ?_⟩
  · intro shard
    rw [shardAt_fresh]
    split
    · exact Shard.sound_empty.add rfl (Nat.zero_le _)
    · exact Shard.sound_empty
  · intro shard text htext
    rw [shardAt_fresh] at htext
    split at htext
    · subst shard
      exact shardOf_eq_first_iff.2 (by simpa [Shard.add] using htext)
    · simp at htext
  · rw [shardAt_fresh]
    rfl

theorem find?_fresh (htext : text ≠ "") : fresh.find? text = none := by
  rw [find?_eq_none_iff, shardAt_fresh, if_neg (mt shardOf_eq_first_iff.1 htext)]
  rfl

theorem Sound.add (ht : t.Sound) (hnew : t.find? text = none)
    (hroom : (t.shardAt (shardOf text)).texts.size ≤ Handle.maxPlace.toNat) :
    (t.add text).Sound := by
  refine ⟨?_, ?_, ?_⟩
  · intro shard
    rw [shardAt_add]
    split
    · subst shard
      exact (ht.sound _).add (find?_eq_none_iff.1 hnew) hroom
    · exact ht.sound shard
  · intro shard text' htext
    rw [shardAt_add] at htext
    split at htext
    · rcases Array.mem_push.1 htext with htext | rfl
      · exact ht.home shard text' htext
      · assumption
    · exact ht.home shard text' htext
  · rw [shardAt_add, if_neg]
    · exact ht.first
    · intro hfirst
      rw [shardOf_eq_first_iff.1 hfirst, ht.find?_empty] at hnew
      contradiction

/-- What a look and an insertion under one lock can do: find the text, add it, or find its shard
full. -/
theorem findOrInsert_cases (t : Interner) (text : String) :
    (∃ h, t.find? text = some h ∧ t.findOrInsert text = (.ok h, t)) ∨
    (t.find? text = none ∧ (t.shardAt (shardOf text)).texts.size ≤ Handle.maxPlace.toNat ∧
      ∃ h, (t.add text).find? text = some h ∧ t.findOrInsert text = (.ok h, t.add text)) ∨
    (t.find? text = none ∧ Handle.maxPlace.toNat < (t.shardAt (shardOf text)).texts.size ∧
      t.findOrInsert text = (.error (.shardOverflow (shardOf text)
        (t.shardAt (shardOf text)).texts.size), t)) := by
  unfold findOrInsert
  cases hfind : t.find? text with
  | some h => exact .inl ⟨h, rfl, rfl⟩
  | none =>
    unfold Shard.insert
    by_cases hroom : (t.shardAt (shardOf text)).texts.size ≤ Handle.maxPlace.toNat
    · refine .inr (.inl ⟨rfl, hroom, ?_⟩)
      rw [find?_add, if_pos rfl]
      dsimp only
      rw [if_pos hroom]
      exact ⟨_, rfl, rfl⟩
    · refine .inr (.inr ⟨rfl, Nat.lt_of_not_le hroom, ?_⟩)
      dsimp only
      rw [if_neg hroom]

theorem find?_findOrInsert (text : String) (hfind : t.find? text' = some h) :
    (t.findOrInsert text).2.find? text' = some h := by
  obtain ⟨h', -, heq⟩ | ⟨hnew, -, h', -, heq⟩ | ⟨-, -, heq⟩ := t.findOrInsert_cases text
  · rwa [heq]
  · rw [heq, find?_add, if_neg]
    · exact hfind
    · rintro rfl
      rw [hnew] at hfind
      contradiction
  · rwa [heq]

/-- A full shard stays as it is. -/
theorem size_findOrInsert (text : String) (hfull : (t.shardAt shard).texts.size = 268435456) :
    ((t.findOrInsert text).2.shardAt shard).texts.size = 268435456 := by
  obtain ⟨h', -, heq⟩ | ⟨-, hroom, h', -, heq⟩ | ⟨-, -, heq⟩ := t.findOrInsert_cases text
  · rwa [heq]
  · rw [heq, shardAt_add, if_neg]
    · exact hfull
    · rintro rfl
      rw [hfull] at hroom
      exact absurd hroom (by decide)
  · rwa [heq]

end Interner

/-- The table that callers share, the texts that callers have looked up and not found yet, and the
answers that were given so far. -/
structure Session (Caller : Type) where
  table : Interner
  missing : Caller → Option String
  answers : List (String × Except InternError Handle)

namespace Session

variable {Caller : Type} {s s' : Session Caller} {h h' : Handle}

def start : Session Caller := ⟨.fresh, fun _ => none, []⟩

/-- The texts that have a handle: the empty one and those that got one. -/
def texts (s : Session Caller) : Finset String :=
  insert "" (s.answers.filterMap fun a => a.2.toOption.map fun _ => a.1).toFinset

theorem mem_texts : text ∈ s.texts ↔ text = "" ∨ ∃ h, (text, .ok h) ∈ s.answers := by
  unfold texts
  rw [Finset.mem_insert, List.mem_toFinset, List.mem_filterMap]
  refine or_congr_right ⟨?_, ?_⟩
  · rintro ⟨⟨text', answer⟩, hmem, htext⟩
    cases answer with
    | error e => simp [Except.toOption] at htext
    | ok h =>
      obtain rfl : text' = text := by simpa [Except.toOption] using htext
      exact ⟨h, hmem⟩
  · rintro ⟨h, hmem⟩
    exact ⟨(text, .ok h), hmem, rfl⟩

/-- What every step keeps: the table knows the texts that have a handle, by this handle, and counts
them; who was refused met a full shard. -/
structure Sound (s : Session Caller) : Prop where
  table : s.table.Sound
  given : ∀ {text h}, (text, .ok h) ∈ s.answers → s.table.find? text = some h
  known : ∀ {text h}, s.table.find? text = some h → text ∈ s.texts
  count : s.table.size = s.texts.card
  refused : ∀ {text e}, (text, .error e) ∈ s.answers → e = .shardOverflow (shardOf text) 268435456 ∧
    (s.table.shardAt (shardOf text)).texts.size = 268435456

theorem sound_start : (start : Session Caller).Sound := by
  refine ⟨Interner.sound_fresh, nofun, ?_, rfl, nofun⟩
  intro text h hfind
  refine mem_texts.2 (.inl (Classical.byContradiction fun htext => ?_))
  rw [start, Interner.find?_fresh htext] at hfind
  contradiction

theorem Sound.find?_of_mem (hs : s.Sound) (hmem : text ∈ s.texts) :
    ∃ h, s.table.find? text = some h := by
  rcases mem_texts.1 hmem with rfl | ⟨h, hgiven⟩
  · exact ⟨_, hs.table.find?_empty⟩
  · exact ⟨h, hs.given hgiven⟩

theorem Sound.refuse {missing : Caller → Option String} (hs : s.Sound)
    (hfull : (s.table.shardAt (shardOf text)).texts.size = 268435456) :
    (⟨s.table, missing, s.answers ++ [(text, .error (.shardOverflow (shardOf text) 268435456))]⟩ :
      Session Caller).Sound := by
  have hgiven : ∀ {text' h}, (text', .ok h) ∈ s.answers ++
      [(text, .error (.shardOverflow (shardOf text) 268435456))] ↔ (text', .ok h) ∈ s.answers := by
    simp
  have htexts : (⟨s.table, missing, s.answers ++
      [(text, .error (.shardOverflow (shardOf text) 268435456))]⟩ : Session Caller).texts =
      s.texts := by
    ext text'
    simp only [mem_texts, hgiven]
  refine ⟨hs.table, fun hmem => hs.given (hgiven.1 hmem), ?_, ?_, ?_⟩
  · rw [htexts]
    exact hs.known
  · rw [htexts]
    exact hs.count
  · intro text' e hmem
    rcases List.mem_append.1 hmem with hmem | hmem
    · exact hs.refused hmem
    · cases List.mem_singleton.1 hmem
      exact ⟨rfl, hfull⟩

/-- A caller got a handle from a table that knows all that the old one knew, and maybe its text. -/
theorem Sound.answer {t : Interner} {missing : Caller → Option String} (hs : s.Sound) (ht : t.Sound)
    (hfind : t.find? text = some h)
    (hkept : ∀ {text h}, s.table.find? text = some h → t.find? text = some h)
    (hknown : ∀ {text' h}, t.find? text' = some h → text' = text ∨ text' ∈ s.texts)
    (hcount : t.size = (insert text s.texts).card)
    (hfull : ∀ {shard}, (s.table.shardAt shard).texts.size = 268435456 →
      (t.shardAt shard).texts.size = 268435456) :
    (⟨t, missing, s.answers ++ [(text, .ok h)]⟩ : Session Caller).Sound := by
  have htexts : (⟨t, missing, s.answers ++ [(text, .ok h)]⟩ : Session Caller).texts =
      insert text s.texts := by
    ext text'
    simp only [mem_texts, Finset.mem_insert, List.mem_append, List.mem_singleton, Prod.mk.injEq,
      Except.ok.injEq, exists_or]
    tauto
  refine ⟨ht, ?_, ?_, hcount.trans (congrArg Finset.card htexts).symm, ?_⟩
  · intro text' h' hmem
    rcases List.mem_append.1 hmem with hmem | hmem
    · exact hkept (hs.given hmem)
    · cases List.mem_singleton.1 hmem
      exact hfind
  · intro text' h' hfind'
    rw [htexts]
    exact Finset.mem_insert.2 (hknown hfind')
  · intro text' e hmem
    rcases List.mem_append.1 hmem with hmem | hmem
    · exact (hs.refused hmem).imp id hfull
    · cases List.mem_singleton.1 hmem

variable [DecidableEq Caller]

/-- What one caller does under one lock. -/
inductive Step (s : Session Caller) : Session Caller → Prop where
  /-- The text is there: the caller is done. -/
  | found {c : Caller} {text : String} {h : Handle} (idle : s.missing c = none)
      (find : s.table.find? text = some h) :
      Step s { s with answers := s.answers ++ [(text, .ok h)] }
  /-- The text is not there: the caller has to come back. -/
  | missed {c : Caller} {text : String} (idle : s.missing c = none)
      (find : s.table.find? text = none) :
      Step s { s with missing := Function.update s.missing c (some text) }
  /-- The caller is back, looks again and inserts its text unless it is there by now. -/
  | entered {c : Caller} {text : String} (back : s.missing c = some text) :
      Step s
        { table := (s.table.findOrInsert text).2
          missing := Function.update s.missing c none
          answers := s.answers ++ [(text, (s.table.findOrInsert text).1)] }

/-- Any number of steps, of any callers. -/
def Steps : Session Caller → Session Caller → Prop := Relation.ReflTransGen Step

theorem Sound.step (hs : s.Sound) (hstep : Step s s') : s'.Sound := by
  -- A text that is known adds nothing to the texts that have a handle.
  have hcount : ∀ {text h}, s.table.find? text = some h →
      s.table.size = (insert text s.texts).card := fun hfind => by
    rw [Finset.insert_eq_of_mem (hs.known hfind)]
    exact hs.count
  cases hstep with
  | found idle hfind =>
    exact hs.answer hs.table hfind id (fun hknown => .inr (hs.known hknown)) (hcount hfind) id
  | missed idle hfind => exact ⟨hs.table, hs.given, hs.known, hs.count, hs.refused⟩
  | @entered c text back =>
    -- Since the caller missed its text, another one may have added it or filled the shard.
    obtain ⟨h, hfind, heq⟩ | ⟨hnew, hroom, h, hfind, heq⟩ | ⟨-, hfull, heq⟩ :=
      s.table.findOrInsert_cases text
    · rw [heq]
      exact hs.answer hs.table hfind id (fun hknown => .inr (hs.known hknown)) (hcount hfind) id
    · have hkept : ∀ {text' h}, s.table.find? text' = some h →
          (s.table.add text).find? text' = some h := fun hold => by
        have h := Interner.find?_findOrInsert text hold
        rwa [heq] at h
      rw [heq]
      refine hs.answer (hs.table.add hnew hroom) hfind hkept ?_ ?_ ?_
      · intro text' h' hfind'
        rw [Interner.find?_add] at hfind'
        split at hfind'
        · exact .inl ‹text = text'›.symm
        · exact .inr (hs.known hfind')
      · have hfresh : text ∉ s.texts := fun hmem => by
          obtain ⟨h', hold⟩ := hs.find?_of_mem hmem
          rw [hnew] at hold
          contradiction
        rw [Finset.card_insert_of_notMem hfresh, ← hs.count]
        rfl
      · intro shard hshard
        have h := Interner.size_findOrInsert text hshard
        rwa [heq] at h
    · have hsize : (s.table.shardAt (shardOf text)).texts.size = 268435456 :=
        Nat.le_antisymm (hs.table.sound _).size_le hfull
      rw [heq, hsize]
      exact hs.refuse hsize

theorem Sound.steps (hs : s.Sound) (hsteps : Steps s s') : s'.Sound := by
  induction hsteps with
  | refl => exact hs
  | tail _ hstep ih => exact ih.step hstep

/-- A text that the table knows keeps its handle. -/
theorem Step.find? (hstep : Step s s') (hfind : s.table.find? text = some h) :
    s'.table.find? text = some h := by
  cases hstep with
  | found | missed => exact hfind
  | entered => exact Interner.find?_findOrInsert _ hfind

theorem Steps.find? (hsteps : Steps s s') (hfind : s.table.find? text = some h) :
    s'.table.find? text = some h := by
  induction hsteps with
  | refl => exact hfind
  | tail _ hstep ih => exact hstep.find? ih

/-- The handles that were given out name their texts: equal ones for equal texts and different ones
for different texts, each with the shard and the place that it was made of, and each for good. The
empty text has its own handle and is the only one in the first shard, the size counts the texts, and
nobody is refused whose shard is not full. -/
structure Faithful (s : Session Caller) : Prop where
  same : ∀ {text text' h h'}, (text, .ok h) ∈ s.answers → (text', .ok h') ∈ s.answers →
    (h = h' ↔ text = text')
  lasting : ∀ {text h}, (text, .ok h) ∈ s.answers → ∀ {s'}, Steps s s' → s'.table.lookup h = text
  empty : ∀ {text h}, (text, .ok h) ∈ s.answers → (h = .empty ↔ text = "")
  first : (s.table.shardAt Handle.firstShard).texts = #[""] ∧
    ∀ {text h}, (text, .ok h) ∈ s.answers → (h.shard = Handle.firstShard ↔ text = "")
  parts : ∀ {text h}, (text, .ok h) ∈ s.answers → ∃ place, place ≤ Handle.maxPlace ∧
    h = .ofPlace (shardOf text) place ∧ h.shard = shardOf text ∧ h.place = place.toNat
  size : s.table.size = s.texts.card
  refused : ∀ {text e}, (text, .error e) ∈ s.answers → e = .shardOverflow (shardOf text) 268435456 ∧
    (s.table.shardAt (shardOf text)).texts.size = 268435456

theorem Sound.faithful (hs : s.Sound) : s.Faithful where
  same hgiven hgiven' := by
    constructor
    · rintro rfl
      rw [← hs.table.lookup (hs.given hgiven), hs.table.lookup (hs.given hgiven')]
    · rintro rfl
      exact Option.some.inj ((hs.given hgiven).symm.trans (hs.given hgiven'))
  lasting hgiven _ hsteps := (hs.steps hsteps).table.lookup (hsteps.find? (hs.given hgiven))
  empty hgiven := hs.table.eq_empty_iff (hs.given hgiven)
  first := by
    refine ⟨hs.table.first, fun hgiven => ?_⟩
    obtain ⟨place, -, -, hshard, -, -⟩ := hs.table.find? (hs.given hgiven)
    rw [hshard, shardOf_eq_first_iff]
  parts hgiven := by
    obtain ⟨place, heq, hle, hshard, hplace, -⟩ := hs.table.find? (hs.given hgiven)
    exact ⟨place, hle, heq, hshard, hplace⟩
  size := hs.count
  refused := hs.refused

/-- A caller that nobody interferes with takes the steps of an interning. -/
theorem steps_tryIntern {c : Caller} (hidle : s.missing c = none) (text : String) :
    Steps s { s with
      table := (s.table.tryIntern text).2
      answers := s.answers ++ [(text, (s.table.tryIntern text).1)] } := by
  unfold Interner.tryIntern
  cases hfind : s.table.find? text with
  | some h => exact .single (.found hidle hfind)
  | none =>
    refine (Relation.ReflTransGen.single (Step.missed hidle hfind)).tail ?_
    have hback := Step.entered (s := { s with missing := Function.update s.missing c (some text) })
      (Function.update_self ..)
    have hsame : Function.update (Function.update s.missing c (some text)) c none = s.missing := by
      rw [Function.update_idem, ← hidle, Function.update_eq_self]
    rwa [hsame] at hback

end Session

/-- The answers of interning some texts one after the other, and the table then. -/
def Interner.tryInternAll (t : Interner) :
    List String → List (String × Except InternError Handle) × Interner
  | [] => ([], t)
  | text :: texts =>
    let (answer, t) := t.tryIntern text
    let (answers, t) := t.tryInternAll texts
    ((text, answer) :: answers, t)

namespace Session

variable {Caller : Type} [DecidableEq Caller]

theorem steps_tryInternAll {c : Caller} (texts : List String) {s : Session Caller}
    (hidle : s.missing c = none) :
    Steps s { s with
      table := (s.table.tryInternAll texts).2
      answers := s.answers ++ (s.table.tryInternAll texts).1 } := by
  induction texts generalizing s with
  | nil =>
    simp only [Interner.tryInternAll, List.append_nil]
    exact .refl
  | cons text texts ih =>
    have hrest := (steps_tryIntern hidle text).trans (ih hidle)
    rw [List.append_assoc] at hrest
    exact hrest

/-- Whatever the callers do, in whatever order: handles and texts correspond. Interning texts one
after the other is what a single caller does. -/
theorem interning_faithful (c : Caller) :
    (∀ {s : Session Caller}, Steps start s → s.Faithful) ∧
      ∀ texts, Steps start (⟨(Interner.fresh.tryInternAll texts).2, fun _ => none,
        (Interner.fresh.tryInternAll texts).1⟩ : Session Caller) :=
  ⟨fun hsteps => (sound_start.steps hsteps).faithful, fun texts => by
    simpa [start] using steps_tryInternAll (c := c) texts (s := start) rfl⟩

/-- Two callers miss the same text. The one that comes back last finds what the other inserted. -/
theorem interning_faithful_racing : ∃ s : Session Bool, Steps start s ∧ s.Faithful ∧
    s.answers = [("x", .ok ⟨0x10000000⟩), ("x", .ok ⟨0x10000000⟩)] ∧
    (∀ {s'}, Steps s s' → s'.table.lookup ⟨0x10000000⟩ = "x") ∧ s.texts.card = 2 := by
  have hmissed : Interner.fresh.find? "x" = none := by decide +kernel
  have hfirst : (Interner.fresh.findOrInsert "x").1 = .ok ⟨0x10000000⟩ := by decide +kernel
  have hsecond : ((Interner.fresh.findOrInsert "x").2.findOrInsert "x").1 = .ok ⟨0x10000000⟩ := by
    decide +kernel
  have hsize : ((Interner.fresh.findOrInsert "x").2.findOrInsert "x").2.size = 2 := by decide +kernel
  have hsteps := (((Relation.ReflTransGen.refl.tail
    (@Step.missed Bool _ start false "x" rfl hmissed)).tail
    (@Step.missed Bool _ _ true "x" rfl hmissed)).tail
    (@Step.entered Bool _ _ true "x" rfl)).tail
    (@Step.entered Bool _ _ false "x" rfl)
  have hfaithful := (interning_faithful true).1 hsteps
  dsimp only [start] at hsteps hfaithful
  rw [hfirst, hsecond] at hfaithful hsteps
  exact ⟨_, hsteps, hfaithful, rfl, hfaithful.lasting List.mem_cons_self,
    hfaithful.size.symm.trans hsize⟩

end Session

end Lexiscope.Naming
