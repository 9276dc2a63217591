import Mathlib.Data.List.Nodup
import Lexiscope.Proofs.Capture.Simulation
import Lexiscope.Proofs.Machine.Making
/-!
# Signatures and arguments

The parameters of a function have the first slots of its frames: positional ones, keyword-only ones,
the one for surplus positional arguments and the one for surplus keywords. A call fills the slots
one after another from different sides, and refuses arguments on the way. Here a call is told in one
breath: what a parameter gets depends on its place, its name and its own default.
-/

namespace Lexiscope.Machine

open Exec

/-- A parameter that arguments can be meant for, with the value of its own default. -/
structure Parameter where
  name : Name
  default : Option Value

/-- The parameters of a function. -/
structure Signature where
  positional : List Parameter
  keywordOnly : List Parameter
  /-- The parameter for surplus positional arguments. -/
  rest : Option Name
  restKeywords : Option Name

namespace Signature

variable (sig : Signature) (args : List Value) (keywords : Keywords)

def named : List Parameter := sig.positional ++ sig.keywordOnly

def names : List Name := sig.named.map (·.name)

def slotNames : List Name := sig.names ++ sig.rest.toList ++ sig.restKeywords.toList

/-- What a call gives to the parameter in a slot: the positional argument of this place, or else the
keyword of this name. -/
def given (i : Nat) (p : Parameter) : Option Value :=
  ((args.take sig.positional.length)[i]?).or (keywords.lookup p.name)

/-- What the parameter in a slot is bound to. -/
def value (i : Nat) (p : Parameter) : Option Value := (sig.given args keywords i p).or p.default

/-- The slots of a call after its positional arguments, so many in all. -/
def firstSlots (n : Nat) : Slots := fillPositional n (args.take sig.positional.length)

theorem length_firstSlots (n : Nat) : (sig.firstSlots args n).length = n :=
  length_fillPositional _ _

def unclaimed : Keywords := keywords.filter fun k => k.1 ∉ sig.names

/-- The keywords that name parameters, in the order of the parameters. -/
def claimed : Keywords := sig.names.filterMap fun n => (keywords.lookup n).map (n, ·)

/-- What the slots of a call hold. -/
structure Filled (fast : Array (Option Value)) (t : Store) : Prop where
  named : ∀ (i : Nat) p, sig.named[i]? = some p →
    ∃ v, sig.value args keywords i p = some v ∧ fast[i]? = some (some v)
  rest : ∀ name, sig.rest = some name → ∃ id,
    fast[sig.named.length]? = some (some (.tuple id (args.drop sig.positional.length)))
  restKeywords : ∀ name, sig.restKeywords = some name → ∃ r,
    fast[sig.named.length + sig.rest.toList.length]? = some (some (.dict r)) ∧
      Capture.Probe.namesOf (t.dict r).entries = some (sig.unclaimed keywords)

/-- Why a call is refused. -/
inductive Refuses : Prop where
  | surplus (hrest : sig.rest = none) (hargs : sig.positional.length < args.length)
  | filled {i : Nat} {p : Parameter} (hp : sig.positional[i]? = some p) (hi : i < args.length)
    (hkeyword : p.name ∈ keywords.map Prod.fst)
  | repeated (hkeywords : ¬ (keywords.map Prod.fst).Nodup)
  | unexpected {name : Name} (hrest : sig.restKeywords = none)
    (hkeyword : name ∈ keywords.map Prod.fst) (hname : name ∉ sig.names)
  | missing {i : Nat} {p : Parameter} (hp : sig.named[i]? = some p) (hdefault : p.default = none)
    (hgiven : sig.given args keywords i p = none)

theorem length_names : sig.names.length = sig.named.length := List.length_map _

theorem length_slotNames : sig.slotNames.length =
    sig.named.length + sig.rest.toList.length + sig.restKeywords.toList.length := by
  simp only [slotNames, names, List.length_append, List.length_map]

theorem mem_iff_lookup {name : Name} {v : Value} (hkeywords : (keywords.map Prod.fst).Nodup) :
    (name, v) ∈ keywords ↔ keywords.lookup name = some v := by
  rw [List.lookup_eq_some_iff]
  constructor
  · intro hmem
    obtain ⟨before, after, rfl⟩ := List.append_of_mem hmem
    refine ⟨before, after, rfl, fun k hk => bne_iff_ne.2 fun heq => ?_⟩
    rw [List.map_append, List.nodup_append] at hkeywords
    exact hkeywords.2.2 _ (List.mem_map_of_mem hk) name (by simp) heq.symm
  · rintro ⟨before, after, rfl, -⟩
    exact List.mem_append_right _ List.mem_cons_self

theorem keywords_perm (hnames : sig.names.Nodup) (hkeywords : (keywords.map Prod.fst).Nodup) :
    keywords.Perm (sig.claimed keywords ++ sig.unclaimed keywords) := by
  have hclaimed : ∀ k, k ∈ sig.claimed keywords ↔ k.1 ∈ sig.names ∧ k ∈ keywords := by
    rintro ⟨name, v⟩
    rw [mem_iff_lookup keywords hkeywords]
    simp only [claimed, List.mem_filterMap, Option.map_eq_some_iff, Prod.mk.injEq]
    constructor
    · rintro ⟨n, hn, w, hw, rfl, rfl⟩
      exact ⟨hn, hw⟩
    · rintro ⟨hname, hv⟩
      exact ⟨name, hname, v, hv, rfl, rfl⟩
  have hunclaimed : ∀ k, k ∈ sig.unclaimed keywords ↔ k.1 ∉ sig.names ∧ k ∈ keywords := by
    intro k
    rw [unclaimed, List.mem_filter, decide_eq_true_iff, and_comm]
  have hown : (sig.claimed keywords).Nodup := by
    refine List.Nodup.filterMap (fun n n' k hn hn' => ?_) hnames
    obtain ⟨_, _, heq⟩ := Option.map_eq_some_iff.1 (Option.mem_def.1 hn)
    obtain ⟨_, _, heq'⟩ := Option.map_eq_some_iff.1 (Option.mem_def.1 hn')
    exact congrArg Prod.fst (heq.trans heq'.symm)
  have hothers : (sig.unclaimed keywords).Nodup := hkeywords.of_map.filter _
  have happart : List.Disjoint (sig.claimed keywords) (sig.unclaimed keywords) :=
    fun k hk hk' => ((hunclaimed k).1 hk').1 ((hclaimed k).1 hk).1
  refine (List.perm_ext_iff_of_nodup hkeywords.of_map (hown.append hothers happart)).2 fun k => ?_
  rw [List.mem_append, hclaimed, hunclaimed, ← or_and_right]
  exact (and_iff_right (Decidable.em _)).symm

end Signature

/-- The code of the function and its defaults are those of the signature. -/
structure FunctionValue.Has (f : FunctionValue) (sig : Signature) : Prop where
  argCount : f.code.object.argCount = sig.positional.length
  keywordOnlyCount : f.code.object.keywordOnlyCount = sig.keywordOnly.length
  takesRest : f.code.object.flags.takesRest = sig.rest.isSome
  takesRestKeywords : f.code.object.flags.takesRestKeywords = sig.restKeywords.isSome
  varnames : sig.slotNames <+: f.code.object.varnames.toList
  distinct : sig.slotNames.Nodup
  defaults : alignDefaults sig.positional.length f.defaults = sig.positional.map (·.default)
  keywordDefaults : ∀ p ∈ sig.keywordOnly, f.keywordDefaults.get? p.name = p.default

section Filling

theorem getElem?_fillPositional (n : Nat) (args : List Value) (i : Nat) :
    (fillPositional n args)[i]? = if i < n then some args[i]? else none := by
  induction n generalizing args i with
  | zero => simp [fillPositional]
  | succ n ih =>
    cases args <;> cases i <;> simp [fillPositional, ih]

theorem getElem?_fillDefaults (slots : Slots) (defaults : List (Option Value)) (i : Nat) :
    (fillDefaults slots defaults)[i]? =
      (slots[i]?).map fun slot => slot.or (defaults[i]?).join := by
  induction slots generalizing defaults i with
  | nil => simp [fillDefaults]
  | cons slot slots ih =>
    cases defaults <;> cases i <;> simp [fillDefaults, ih]

/-- The keywords can all be taken: no two have one name, and each is for an empty slot, or may be
surplus and was not before. -/
structure Acceptable (names : List Name) (takesRest : Bool) (slots : Slots) (extra : NameMap)
    (keywords : Keywords) : Prop where
  distinct : (keywords.map Prod.fst).Nodup
  isEmpty : ∀ k ∈ keywords, ∀ i : Nat, names[i]? = some k.1 → (slots[i]?).join = none
  surplus : ∀ k ∈ keywords, k.1 ∉ names → takesRest = true ∧ extra.contains k.1 = false

variable {names : List Name} {takesRest : Bool} {slots : Slots} {extra : NameMap}
  {keywords : Keywords} {name : Name} {value : Value} {i : Nat}

theorem eq_of_getElem?_eq_some {names : List Name} {name : Name} {i j : Nat} (hnames : names.Nodup)
    (hi : names[i]? = some name) (hj : names[j]? = some name) : i = j :=
  (List.getElem?_inj (List.getElem?_eq_some_iff.1 hi).1 hnames).1 (hi.trans hj.symm)

theorem acceptable_claimed (hnames : names.Nodup) (hslots : names.length ≤ slots.length)
    (hi : names[i]? = some name) :
    Acceptable names takesRest slots extra ((name, value) :: keywords) ↔
      (slots[i]?).join = none ∧
        Acceptable names takesRest (slots.set i (some value)) extra keywords := by
  have hlt : i < slots.length := by
    obtain ⟨hi, -⟩ := List.getElem?_eq_some_iff.1 hi
    omega
  constructor
  · rintro ⟨hdistinct, hempty, hsurplus⟩
    obtain ⟨hhead, htail⟩ := List.forall_mem_cons.1 hempty
    rw [List.map_cons, List.nodup_cons] at hdistinct
    refine ⟨hhead i hi, hdistinct.2, fun k hk j hj => ?_, (List.forall_mem_cons.1 hsurplus).2⟩
    have hne : i ≠ j := by
      rintro rfl
      have hname : name = k.1 := Option.some.inj (hi.symm.trans hj)
      exact hdistinct.1 (List.mem_map.2 ⟨k, hk, hname.symm⟩)
    rw [List.getElem?_set_ne hne]
    exact htail k hk j hj
  · rintro ⟨hhead, hdistinct, hempty, hsurplus⟩
    -- A second keyword of this name would find the slot filled.
    have hnew : ∀ k ∈ keywords, k.1 ≠ name := by
      rintro k hk rfl
      have hfilled := hempty k hk i hi
      rw [List.getElem?_set_self hlt] at hfilled
      cases hfilled
    refine ⟨?_, List.forall_mem_cons.2 ⟨fun j hj => ?_, fun k hk j hj => ?_⟩,
      List.forall_mem_cons.2 ⟨fun hname => absurd (List.mem_of_getElem? hi) hname, hsurplus⟩⟩
    · rw [List.map_cons, List.nodup_cons]
      refine ⟨fun hmem => ?_, hdistinct⟩
      obtain ⟨k, hk, hname⟩ := List.mem_map.1 hmem
      exact hnew k hk hname
    · obtain rfl := eq_of_getElem?_eq_some hnames hi hj
      exact hhead
    · have hne : i ≠ j := by
        rintro rfl
        exact hnew k hk (Option.some.inj (hj.symm.trans hi))
      rw [← List.getElem?_set_ne hne]
      exact hempty k hk j hj

theorem contains_insert (m : NameMap) (n : Name) (v : Value) (k : Name) :
    (m.insert n v).contains k = true ↔ k = n ∨ m.contains k = true := by
  rw [OrderedMap.contains_eq_isSome_get?, OrderedMap.contains_eq_isSome_get?]
  by_cases h : n = k
  · subst h
    simp [OrderedMap.get?_insert_self]
  · rw [OrderedMap.get?_insert_of_ne m v (beq_false_of_ne h)]
    simp [Ne.symm h]

theorem acceptable_surplus (hname : name ∉ names) :
    Acceptable names takesRest slots extra ((name, value) :: keywords) ↔
      (takesRest = true ∧ extra.contains name = false) ∧
        Acceptable names takesRest slots (extra.insert name value) keywords := by
  have hcontains : ∀ k, (extra.insert name value).contains k = false ↔
      k ≠ name ∧ extra.contains k = false := by
    intro k
    rw [← Bool.not_eq_true, contains_insert, not_or, Bool.not_eq_true]
  constructor
  · rintro ⟨hdistinct, hempty, hsurplus⟩
    obtain ⟨hhead, htail⟩ := List.forall_mem_cons.1 hsurplus
    rw [List.map_cons, List.nodup_cons] at hdistinct
    refine ⟨hhead hname, hdistinct.2, (List.forall_mem_cons.1 hempty).2, fun k hk hk' => ?_⟩
    obtain ⟨hrest, hfresh⟩ := htail k hk hk'
    refine ⟨hrest, (hcontains k.1).2 ⟨fun heq => hdistinct.1 ?_, hfresh⟩⟩
    exact List.mem_map.2 ⟨k, hk, heq⟩
  · rintro ⟨hhead, hdistinct, hempty, hsurplus⟩
    refine ⟨?_, List.forall_mem_cons.2 ⟨fun i hi => absurd (List.mem_of_getElem? hi) hname, hempty⟩,
      List.forall_mem_cons.2 ⟨fun _ => hhead, fun k hk hk' => ?_⟩⟩
    · rw [List.map_cons, List.nodup_cons]
      refine ⟨fun hmem => ?_, hdistinct⟩
      obtain ⟨k, hk, rfl⟩ := List.mem_map.1 hmem
      exact ((hcontains k.1).1 (hsurplus k hk hname).2).1 rfl
    · obtain ⟨hrest, hfresh⟩ := hsurplus k hk hk'
      exact ⟨hrest, ((hcontains k.1).1 hfresh).2⟩

theorem idxOf?_eq_some_iff (hnames : names.Nodup) :
    names.idxOf? name = some i ↔ names[i]? = some name := by
  rw [List.idxOf?, List.findIdx?_eq_some_iff_getElem, List.getElem?_eq_some_iff]
  constructor
  · rintro ⟨hlt, hfound, -⟩
    exact ⟨hlt, beq_iff_eq.1 hfound⟩
  · rintro ⟨hlt, hi⟩
    refine ⟨hlt, beq_iff_eq.2 hi, fun j hj hsame => Nat.ne_of_lt hj ?_⟩
    exact eq_of_getElem?_eq_some hnames
      (List.getElem?_eq_some_iff.2 ⟨Nat.lt_trans hj hlt, beq_iff_eq.1 hsame⟩)
      (List.getElem?_eq_some_iff.2 ⟨hlt, hi⟩)

/-- What the keywords do to the slots and to the surplus. -/
structure Fills (names : List Name) (keywords : Keywords) (slots : Slots) (extra : NameMap)
    (slots' : Slots) (extra' : NameMap) : Prop where
  length : slots'.length = slots.length
  slot : ∀ (i : Nat) n, names[i]? = some n →
    (slots'[i]?).join = ((slots[i]?).join).or (keywords.lookup n)
  extra : extra'.entries = extra.entries ++ keywords.filter fun k => k.1 ∉ names

theorem Fills.claimed {slots' : Slots} {extra' : NameMap} (hnames : names.Nodup)
    (hslots : names.length ≤ slots.length) (hi : names[i]? = some name)
    (hempty : (slots[i]?).join = none)
    (h : Fills names keywords (slots.set i (some value)) extra slots' extra') :
    Fills names ((name, value) :: keywords) slots extra slots' extra' := by
  refine ⟨h.length.trans List.length_set, fun j n hn => ?_, ?_⟩
  · rw [h.slot j n hn, List.lookup_cons]
    by_cases hj : i = j
    · subst hj
      obtain rfl : name = n := Option.some.inj (hi.symm.trans hn)
      have hlt := Nat.lt_of_lt_of_le (List.getElem?_eq_some_iff.1 hi).1 hslots
      rw [List.getElem?_set_self hlt]
      simp [hempty]
    · have hne : (n == name) = false := by
        refine beq_false_of_ne fun hn' => hj ?_
        exact eq_of_getElem?_eq_some hnames hi (hn' ▸ hn)
      rw [List.getElem?_set_ne hj, hne]
  · rw [h.extra, List.filter_cons_of_neg]
    simpa using List.mem_of_getElem? hi

theorem Fills.surplus {slots' : Slots} {extra' : NameMap} (hname : name ∉ names)
    (hnew : extra.contains name = false)
    (h : Fills names keywords slots (extra.insert name value) slots' extra') :
    Fills names ((name, value) :: keywords) slots extra slots' extra' := by
  have hinsert : (extra.insert name value).entries = extra.entries ++ [(name, value)] :=
    OrderedMap.insertIn_of_forall_ne value (by simpa using List.any_eq_false.1 hnew)
  refine ⟨h.length, fun j n hn => ?_, ?_⟩
  · have hne : (n == name) = false :=
      beq_false_of_ne fun hn' => hname (hn' ▸ List.mem_of_getElem? hn)
    rw [h.slot j n hn, List.lookup_cons, hne]
  · rw [h.extra, hinsert, List.filter_cons_of_pos (by simpa using hname), List.append_assoc]
    rfl

theorem fillKeywords_spec (takesRest : Bool) (extra : NameMap) (keywords : Keywords)
    (hnames : names.Nodup) (hslots : names.length ≤ slots.length) :
    (Acceptable names takesRest slots extra keywords ∧ ∃ slots' extra',
      fillKeywords names takesRest slots extra keywords = .ok (slots', extra') ∧
        Fills names keywords slots extra slots' extra') ∨
    (¬ Acceptable names takesRest slots extra keywords ∧ ∃ fault,
      fillKeywords names takesRest slots extra keywords = .error fault) := by
  induction keywords generalizing slots extra with
  | nil =>
    refine .inl ⟨⟨List.nodup_nil, by simp, by simp⟩, slots, extra, rfl, rfl, ?_, by simp⟩
    intro i n _
    simp
  | cons k ks ih =>
    obtain ⟨name, value⟩ := k
    unfold fillKeywords
    cases hi : names.idxOf? name with
    | some i =>
      -- The keyword names a parameter. It is refused if that has a value already.
      rw [idxOf?_eq_some_iff hnames] at hi
      dsimp only
      rw [acceptable_claimed hnames hslots hi]
      cases hempty : (slots[i]?).join with
      | some v => exact .inr ⟨by simp, _, rfl⟩
      | none =>
        rw [if_neg (by simp)]
        have hlength : (slots.set i (some value)).length = slots.length := List.length_set
        rcases ih extra (Nat.le_trans hslots (Nat.le_of_eq hlength.symm)) with
          ⟨hks, slots', extra', hfill, hfills⟩ | ⟨hks, hfault⟩
        · exact .inl ⟨⟨rfl, hks⟩, slots', extra', hfill, hfills.claimed hnames hslots hi hempty⟩
        · exact .inr ⟨fun h => hks h.2, hfault⟩
    | none =>
      -- It names none. Then it is surplus, and it is refused if it came before.
      have hname : name ∉ names := by simpa using hi
      dsimp only
      rw [acceptable_surplus hname]
      cases takesRest with
      | false => exact .inr ⟨by simp, _, rfl⟩
      | true =>
        cases hnew : extra.contains name with
        | true => exact .inr ⟨by simp, _, rfl⟩
        | false =>
          rcases ih (extra.insert name value) hslots with
            ⟨hks, slots', extra', hfill, hfills⟩ | ⟨hks, hfault⟩
          · exact .inl ⟨⟨⟨rfl, rfl⟩, hks⟩, slots', extra', hfill, hfills.surplus hname hnew⟩
          · exact .inr ⟨fun h => hks h.2, hfault⟩

theorem missingNames_eq_nil_iff (hlength : names.length = slots.length) :
    missingNames names slots = [] ↔ ∀ slot ∈ slots, slot.isSome = true := by
  unfold missingNames
  rw [List.filterMap_eq_nil_iff]
  constructor
  · intro h slot hslot
    obtain ⟨i, hi⟩ := List.getElem?_of_mem hslot
    obtain ⟨hlt, -⟩ := List.getElem?_eq_some_iff.1 hi
    have hname : names[i]? = some names[i] := List.getElem?_eq_getElem (hlength ▸ hlt)
    have hzip : (names.zip slots)[i]? = some (names[i], slot) :=
      List.getElem?_zip_eq_some.2 ⟨hname, hi⟩
    have hpair := h _ (List.mem_of_getElem? hzip)
    cases slot with
    | none => simp at hpair
    | some v => rfl
  · rintro h ⟨n, slot⟩ hmem
    cases slot with
    | none => exact absurd (h none (List.of_mem_zip hmem).2) (by simp)
    | some v => rfl

/-- A computation of the machine ended with a type error. -/
def IsTypeError {α : Type} (r : EStateM.Result Halt Store α) : Prop :=
  ∃ message t, r = .error (.raised { kind := .typeError, message }) t

theorem requireFilled_spec (function : Name) (what : String) (hlength : names.length = slots.length)
    (s : Store) :
    ((∀ slot ∈ slots, slot.isSome = true) ∧ requireFilled function what names slots s = .ok () s) ∨
      (¬ (∀ slot ∈ slots, slot.isSome = true) ∧
        IsTypeError (requireFilled function what names slots s)) := by
  rw [← missingNames_eq_nil_iff hlength]
  unfold requireFilled
  cases missingNames names slots with
  | nil => exact .inl ⟨rfl, rfl⟩
  | cons n ns => exact .inr ⟨by simp, _, _, rfl⟩

theorem requireSlots_ok {code : Code.Object} {count : Nat} (h : count ≤ code.varnames.size)
    (s : Store) : requireSlots code count s = .ok () s := by
  unfold requireSlots
  rw [if_neg (Nat.not_lt.2 h)]
  rfl

theorem surplus_run {code : Code.Object} {isTaken : Bool} {slots : Nat} {value : Exec Value}
    {v : Value} {s t : Store} (hslots : isTaken = true → slots ≤ code.varnames.size)
    (hvalue : value s = .ok v t) : surplus code isTaken slots value s =
      if isTaken = true then .ok (some v) t else .ok none s := by
  unfold surplus
  cases isTaken with
  | false => rfl
  | true =>
    rw [if_pos rfl, if_pos rfl, bind_ok (requireSlots_ok (hslots rfl) s), bind_ok hvalue]
    rfl

end Filling

namespace FunctionValue.Has

variable {f : FunctionValue} {sig : Signature} (hf : f.Has sig)

include hf

theorem length_le : sig.slotNames.length ≤ f.code.object.varnames.size := by
  rw [← Array.length_toList]
  exact hf.varnames.length_le

theorem named_le : f.code.object.argCount + f.code.object.keywordOnlyCount ≤
    f.code.object.varnames.size := by
  have hle := hf.length_le
  rw [hf.argCount, hf.keywordOnlyCount]
  rw [sig.length_slotNames, Signature.named, List.length_append] at hle
  omega

theorem take_varnames : f.code.object.varnames.toList.take
    (f.code.object.argCount + f.code.object.keywordOnlyCount) = sig.names := by
  have hprefix : sig.names <+: f.code.object.varnames.toList := by
    refine List.IsPrefix.trans ?_ hf.varnames
    rw [Signature.slotNames, List.append_assoc]
    exact List.prefix_append _ _
  have hlength : f.code.object.argCount + f.code.object.keywordOnlyCount = sig.names.length := by
    rw [hf.argCount, hf.keywordOnlyCount, Signature.names, Signature.named, List.length_map,
      List.length_append]
  rw [hlength]
  exact (List.prefix_iff_eq_take.1 hprefix).symm

theorem nodup_names : sig.names.Nodup := by
  have hdistinct := hf.distinct
  rw [Signature.slotNames, List.append_assoc] at hdistinct
  exact (List.nodup_append.1 hdistinct).1

theorem refuseSurplus_spec (args : List Value) (s : Store) :
    ((sig.rest = none → args.length ≤ sig.positional.length) ∧
      refuseSurplus f.code.object args.length s = .ok () s) ∨
    ((sig.rest = none ∧ sig.positional.length < args.length) ∧
      IsTypeError (refuseSurplus f.code.object args.length s)) := by
  unfold refuseSurplus
  rw [hf.takesRest, hf.argCount]
  cases hrest : sig.rest with
  | some name => exact .inl ⟨nofun, rfl⟩
  | none =>
    by_cases hlt : sig.positional.length < args.length
    · refine .inr ⟨⟨rfl, hlt⟩, ?_⟩
      rw [if_pos (by simpa using hlt)]
      exact ⟨_, _, rfl⟩
    · refine .inl ⟨fun _ => Nat.not_lt.1 hlt, ?_⟩
      rw [if_neg (by simpa using hlt)]
      rfl

end FunctionValue.Has

namespace Signature

variable {sig : Signature} {args : List Value} {keywords : Keywords} {i n : Nat} {p : Parameter}

theorem getElem?_names (h : sig.named[i]? = some p) : sig.names[i]? = some p.name := by
  rw [names, List.getElem?_map, h]
  rfl

theorem getElem?_named (h : sig.positional[i]? = some p) : sig.named[i]? = some p := by
  rw [named, List.getElem?_append_left (List.getElem?_eq_some_iff.1 h).1, h]

theorem getElem?_slotNames_named (h : sig.named[i]? = some p) :
    sig.slotNames[i]? = some p.name := by
  have hname := getElem?_names h
  rw [slotNames, List.append_assoc,
    List.getElem?_append_left (List.getElem?_eq_some_iff.1 hname).1, hname]

theorem getElem?_slotNames_rest {name : Name} (h : sig.rest = some name) :
    sig.slotNames[sig.named.length]? = some name := by
  rw [slotNames, List.append_assoc, ← sig.length_names,
    List.getElem?_append_right (Nat.le_refl _), Nat.sub_self, h]
  rfl

theorem getElem?_slotNames_restKeywords {name : Name} (h : sig.restKeywords = some name) :
    sig.slotNames[sig.named.length + sig.rest.toList.length]? = some name := by
  rw [slotNames, ← sig.length_names, ← List.length_append,
    List.getElem?_append_right (Nat.le_refl _), Nat.sub_self, h]
  rfl

theorem join_firstSlots (hi : i < n) :
    ((sig.firstSlots args n)[i]?).join = (args.take sig.positional.length)[i]? := by
  rw [firstSlots, getElem?_fillPositional, if_pos hi]
  rfl

/-- The keywords of a call are acceptable if it is not for them that the call is refused. -/
theorem acceptable_iff (hn : sig.names.length ≤ n) :
    Acceptable sig.names sig.restKeywords.isSome (sig.firstSlots args n)
      .empty keywords ↔
    (keywords.map Prod.fst).Nodup ∧
    (∀ {i : Nat} {p}, sig.positional[i]? = some p → i < args.length →
      p.name ∉ keywords.map Prod.fst) ∧
    (sig.restKeywords = none → ∀ name ∈ keywords.map Prod.fst, name ∈ sig.names) := by
  constructor
  · rintro ⟨hdistinct, hempty, hsurplus⟩
    refine ⟨hdistinct, fun {i p} hp hi hkeyword => ?_, fun hrest name hkeyword => ?_⟩
    · obtain ⟨k, hk, hname⟩ := List.mem_map.1 hkeyword
      have hslot := hempty k hk i (hname ▸ getElem?_names (getElem?_named hp))
      have hlt : i < sig.positional.length := (List.getElem?_eq_some_iff.1 hp).1
      have hnames : i < sig.names.length :=
        (List.getElem?_eq_some_iff.1 (getElem?_names (getElem?_named hp))).1
      rw [join_firstSlots (Nat.lt_of_lt_of_le hnames hn), List.getElem?_take_of_lt hlt,
        List.getElem?_eq_getElem hi] at hslot
      cases hslot
    · obtain ⟨k, hk, rfl⟩ := List.mem_map.1 hkeyword
      refine Classical.byContradiction fun hname => ?_
      have htaken := (hsurplus k hk hname).1
      rw [hrest] at htaken
      cases htaken
  · rintro ⟨hdistinct, hfilled, hexpected⟩
    refine ⟨hdistinct, fun k hk i hi => ?_, fun k hk hname => ⟨?_, rfl⟩⟩
    · have hlt : i < n := Nat.lt_of_lt_of_le (List.getElem?_eq_some_iff.1 hi).1 hn
      rw [join_firstSlots hlt, List.getElem?_eq_none_iff, List.length_take]
      refine Nat.le_of_not_lt fun hfew => ?_
      obtain ⟨hcount, hargs⟩ := Nat.lt_min.1 hfew
      obtain ⟨p, hp⟩ : ∃ p, sig.positional[i]? = some p := ⟨_, List.getElem?_eq_getElem hcount⟩
      have hname : some p.name = some k.1 := (getElem?_names (getElem?_named hp)).symm.trans hi
      exact hfilled hp hargs (Option.some.inj hname ▸ List.mem_map_of_mem hk)
    · cases hrest : sig.restKeywords with
      | some name => rfl
      | none => exact absurd (hexpected hrest k.1 (List.mem_map_of_mem hk)) hname

theorem filled_of_slots {slots others : Slots} {rest restKeywords : Option Value} {t : Store}
    (hlength : slots.length = sig.named.length)
    (hslot : ∀ (i : Nat) p, sig.named[i]? = some p →
      ∃ v, sig.value args keywords i p = some v ∧ slots[i]? = some (some v))
    (hnoRest : sig.rest = none → rest = none)
    (hrest : ∀ name, sig.rest = some name → ∃ id,
      rest = some (.tuple id (args.drop sig.positional.length)))
    (hrestKeywords : ∀ name, sig.restKeywords = some name → ∃ r, restKeywords = some (.dict r) ∧
      Capture.Probe.namesOf (t.dict r).entries = some (sig.unclaimed keywords)) :
    sig.Filled args keywords
      (slots ++ (rest.toList ++ restKeywords.toList).map some ++ others).toArray t := by
  refine ⟨fun i p hp => ?_, fun name hname => ?_, fun name hname => ?_⟩
  · obtain ⟨v, hv, hi⟩ := hslot i p hp
    refine ⟨v, hv, ?_⟩
    rw [List.getElem?_toArray, List.append_assoc,
      List.getElem?_append_left (List.getElem?_eq_some_iff.1 hi).1, hi]
  · obtain ⟨id, rfl⟩ := hrest name hname
    refine ⟨id, ?_⟩
    rw [List.getElem?_toArray, List.append_assoc, ← hlength,
      List.getElem?_append_right (Nat.le_refl _), Nat.sub_self]
    rfl
  · obtain ⟨r, rfl, hentries⟩ := hrestKeywords name hname
    have hcount : rest.toList.length = sig.rest.toList.length := by
      cases hsome : sig.rest with
      | none =>
        rw [hnoRest hsome]
        rfl
      | some rest =>
        obtain ⟨id, rfl⟩ := hrest rest hsome
        rfl
    refine ⟨r, ?_, hentries⟩
    rw [List.getElem?_toArray, List.append_assoc, ← hlength, ← hcount,
      List.getElem?_append_right (Nat.le_add_right _ _), Nat.add_sub_cancel_left, List.map_append,
      List.append_assoc, List.getElem?_append_right (Nat.le_of_eq (List.length_map _)),
      List.length_map, Nat.sub_self]
    rfl

end Signature

namespace FunctionValue.Has

variable {f : FunctionValue} {sig : Signature} (hf : f.Has sig)

include hf

theorem takeKeywords_spec (args : List Value) (keywords : Keywords) (s : Store) :
    (Acceptable sig.names sig.restKeywords.isSome
        (sig.firstSlots args f.code.object.varnames.size) .empty keywords ∧
      ∃ slots extra, takeKeywords f.code.object sig.names
          (sig.firstSlots args f.code.object.varnames.size) keywords s =
            .ok (slots, extra) s ∧
        Fills sig.names keywords
          (sig.firstSlots args f.code.object.varnames.size) .empty slots extra) ∨
    (¬ Acceptable sig.names sig.restKeywords.isSome
        (sig.firstSlots args f.code.object.varnames.size) .empty keywords ∧
      IsTypeError (takeKeywords f.code.object sig.names
        (sig.firstSlots args f.code.object.varnames.size) keywords s)) := by
  have hnames : sig.names.length ≤ f.code.object.varnames.size := by
    have hle := hf.named_le
    rw [hf.argCount, hf.keywordOnlyCount] at hle
    simpa [Signature.names, Signature.named] using hle
  have hslots : requireSlots f.code.object (if keywords.isEmpty = true then 0
      else f.code.object.argCount + f.code.object.keywordOnlyCount) s = .ok () s := by
    refine requireSlots_ok ?_ s
    split
    · exact Nat.zero_le _
    · exact hf.named_le
  have hlength : sig.names.length ≤ (sig.firstSlots args f.code.object.varnames.size).length := by
    rwa [sig.length_firstSlots]
  have hkeywords := fillKeywords_spec sig.restKeywords.isSome .empty keywords hf.nodup_names hlength
  unfold takeKeywords
  rw [bind_ok hslots, hf.takesRestKeywords]
  rcases hkeywords with ⟨hok, slots, extra, hfill, hfills⟩ | ⟨hbad, fault, hfault⟩
  · exact .inl ⟨hok, slots, extra, by rw [hfill]; rfl, hfills⟩
  · exact .inr ⟨hbad, _, _, by rw [hfault]; rfl⟩

end FunctionValue.Has

def positionalSlots (f : FunctionValue) (slots : Slots) : Slots :=
  fillDefaults (slots.take f.code.object.argCount)
    (alignDefaults f.code.object.argCount f.defaults)

def keywordOnlySlots (f : FunctionValue) (names : List Name) (slots : Slots) : Slots :=
  let code := f.code.object
  fillDefaults ((slots.take (code.argCount + code.keywordOnlyCount)).drop code.argCount)
    ((names.drop code.argCount).map f.keywordDefaults.get?)

/-- The last part of binding: empty slots take their defaults, and no parameter may be left. -/
def bindDefaults (f : FunctionValue) (names : List Name) (slots : Slots)
    (rest restKeywords : Option Value) : Exec (Array (Option Value)) := do
  let code := f.code.object
  requireSlots code code.argCount
  let positional := positionalSlots f slots
  requireFilled code.name "positional" (names.take code.argCount) positional
  requireSlots code (code.argCount + code.keywordOnlyCount)
  let keywordOnly := keywordOnlySlots f names slots
  requireFilled code.name "keyword-only" (names.drop code.argCount) keywordOnly
  let params := positional ++ keywordOnly ++ (rest.toList ++ restKeywords.toList).map some
  return (params ++ List.replicate (code.varnames.size - params.length) none).toArray

theorem bindArguments_eq (f : FunctionValue) (args : List Value) (keywords : Keywords) :
    bindArguments f args keywords = (do
      let code := f.code.object
      let named := code.argCount + code.keywordOnlyCount
      let names := code.varnames.toList.take named
      requireSlots code (min args.length code.argCount)
      refuseSurplus code args.length
      let rest ← surplus code code.flags.takesRest (named + 1) (newTuple (args.drop code.argCount))
      let (slots, extra) ← takeKeywords code names
        (fillPositional code.varnames.size (args.take code.argCount)) keywords
      let restKeywords ← surplus code code.flags.takesRestKeywords code.paramCount
        (do newDict (← dictOfNames extra))
      bindDefaults f names slots rest restKeywords) := rfl

section Defaults

variable {f : FunctionValue} {sig : Signature} (hf : f.Has sig) {args : List Value}
  {keywords : Keywords} {slots : Slots} {extra : NameMap}
  (hfills : Fills sig.names keywords (sig.firstSlots args f.code.object.varnames.size) .empty slots
    extra)

include hf hfills

theorem length_positionalSlots : (positionalSlots f slots).length = sig.positional.length := by
  have hle := hf.named_le
  have hslots := hfills.length
  rw [sig.length_firstSlots] at hslots
  rw [positionalSlots, length_fillDefaults, List.length_take, hf.argCount]
  rw [hf.argCount] at hle
  omega

theorem length_keywordOnlySlots :
    (keywordOnlySlots f sig.names slots).length = sig.keywordOnly.length := by
  have hle := hf.named_le
  have hslots := hfills.length
  rw [sig.length_firstSlots] at hslots
  dsimp only [keywordOnlySlots]
  rw [length_fillDefaults, List.length_drop, List.length_take, hf.argCount, hf.keywordOnlyCount]
  rw [hf.argCount, hf.keywordOnlyCount] at hle
  omega

theorem getElem?_namedSlots {i : Nat} {p : Parameter} (hp : sig.named[i]? = some p) :
    (positionalSlots f slots ++ keywordOnlySlots f sig.names slots)[i]? =
      some (sig.value args keywords i p) := by
  have hname := Signature.getElem?_names hp
  have hle := hf.named_le
  rw [hf.argCount, hf.keywordOnlyCount] at hle
  have hi : i < sig.positional.length + sig.keywordOnly.length := by
    rw [← List.length_append]
    exact (List.getElem?_eq_some_iff.1 hp).1
  have hlength := hfills.length
  rw [sig.length_firstSlots] at hlength
  have hslot : slots[i]? = some (sig.given args keywords i p) := by
    have hjoin := hfills.slot i p.name hname
    rw [Signature.join_firstSlots (by omega)] at hjoin
    obtain ⟨slot, hslot⟩ : ∃ slot, slots[i]? = some slot := ⟨_, List.getElem?_eq_getElem (by omega)⟩
    rw [hslot] at hjoin ⊢
    exact congrArg some hjoin
  by_cases hlt : i < sig.positional.length
  · have hdefault : (alignDefaults sig.positional.length f.defaults)[i]? = some p.default := by
      rw [Signature.named, List.getElem?_append_left hlt] at hp
      rw [hf.defaults, List.getElem?_map, hp]
      rfl
    rw [List.getElem?_append_left (by rwa [length_positionalSlots hf hfills]), positionalSlots,
      hf.argCount, getElem?_fillDefaults, List.getElem?_take_of_lt hlt, hslot, hdefault]
    rfl
  · have hkeywordOnly : p ∈ sig.keywordOnly := by
      rw [Signature.named, List.getElem?_append_right (Nat.not_lt.1 hlt)] at hp
      exact List.mem_of_getElem? hp
    have hback : sig.positional.length + (i - sig.positional.length) = i := by omega
    rw [List.getElem?_append_right (by rw [length_positionalSlots hf hfills]; omega),
      length_positionalSlots hf hfills]
    dsimp only [keywordOnlySlots]
    rw [hf.argCount, hf.keywordOnlyCount, getElem?_fillDefaults, List.getElem?_drop, hback,
      List.getElem?_take_of_lt hi, hslot, List.getElem?_map, List.getElem?_drop, hback, hname]
    exact congrArg (fun d => some ((sig.given args keywords i p).or d))
      (hf.keywordDefaults p hkeywordOnly)

theorem bindDefaults_spec (rest restKeywords : Option Value) (s : Store) :
    ((∀ (i : Nat) p, sig.named[i]? = some p → sig.value args keywords i p ≠ none) ∧
      ∃ slots' : Slots, slots'.length = sig.named.length ∧
        (∀ (i : Nat) p, sig.named[i]? = some p → slots'[i]? = some (sig.value args keywords i p)) ∧
        ∃ others, bindDefaults f sig.names slots rest restKeywords s = .ok
          (slots' ++ (rest.toList ++ restKeywords.toList).map some ++ others).toArray s) ∨
    ((∃ (i : Nat) (p : _), sig.named[i]? = some p ∧ sig.value args keywords i p = none) ∧
      IsTypeError (bindDefaults f sig.names slots rest restKeywords s)) := by
  have hvalue := fun i p hp => getElem?_namedSlots hf hfills (i := i) (p := p) hp
  have hP := length_positionalSlots hf hfills
  have hK := length_keywordOnlySlots hf hfills
  have hlength : (positionalSlots f slots ++ keywordOnlySlots f sig.names slots).length =
      sig.named.length := by
    rw [List.length_append, hP, hK, Signature.named, List.length_append]
  have hnames : sig.names.length = sig.positional.length + sig.keywordOnly.length := by
    rw [Signature.names, List.length_map, Signature.named, List.length_append]
  -- An empty slot belongs to a parameter that got nothing and has no default.
  have hmissing : none ∈ positionalSlots f slots ++ keywordOnlySlots f sig.names slots →
      ∃ (i : Nat) (p : _), sig.named[i]? = some p ∧ sig.value args keywords i p = none := by
    intro hmem
    obtain ⟨i, hi⟩ := List.getElem?_of_mem hmem
    have hlt := (List.getElem?_eq_some_iff.1 hi).1
    rw [hlength] at hlt
    have hp : sig.named[i]? = some sig.named[i] := List.getElem?_eq_getElem hlt
    exact ⟨i, _, hp, Option.some.inj ((hvalue i _ hp).symm.trans hi)⟩
  have hnone : ∀ {slots : Slots}, ¬ (∀ slot ∈ slots, slot.isSome = true) → none ∈ slots := by
    intro slots hslots
    simpa using hslots
  have hfirst : (sig.names.take sig.positional.length).length =
      (positionalSlots f slots).length := by
    rw [List.length_take, hP]
    omega
  have hsecond : (sig.names.drop sig.positional.length).length =
      (keywordOnlySlots f sig.names slots).length := by
    rw [List.length_drop, hK]
    omega
  have hpositional := requireFilled_spec f.code.object.name "positional" hfirst s
  have hkeywordOnly := requireFilled_spec f.code.object.name "keyword-only" hsecond s
  have hslots : requireSlots f.code.object f.code.object.argCount s = .ok () s :=
    requireSlots_ok (by have hle := hf.named_le; omega) s
  unfold bindDefaults
  dsimp only
  rw [bind_ok hslots, hf.argCount]
  rcases hpositional with ⟨hpositional, hok⟩ | ⟨hempty, message, t, herror⟩
  swap
  · exact .inr ⟨hmissing (List.mem_append_left _ (hnone hempty)), message, t, bind_error herror⟩
  have hnamed : sig.positional.length + f.code.object.keywordOnlyCount ≤
      f.code.object.varnames.size := hf.argCount ▸ hf.named_le
  rw [bind_ok hok, bind_ok (requireSlots_ok hnamed s)]
  rcases hkeywordOnly with ⟨hkeywordOnly, hok⟩ | ⟨hempty, message, t, herror⟩
  swap
  · exact .inr ⟨hmissing (List.mem_append_right _ (hnone hempty)), message, t, bind_error herror⟩
  rw [bind_ok hok]
  refine .inl ⟨fun i p hp hnothing => ?_, _, hlength, hvalue, _, rfl⟩
  have hslot := hvalue i p hp
  rw [hnothing] at hslot
  have hall := List.forall_mem_append.2 ⟨hpositional, hkeywordOnly⟩
  exact absurd (hall none (List.mem_of_getElem? hslot)) (by simp)

end Defaults

namespace FunctionValue.Has

variable {f : FunctionValue} {sig : Signature} (hf : f.Has sig)

include hf

theorem rest_run (args : List Value) (s : Store) : ∃ rest t,
    surplus f.code.object sig.rest.isSome (sig.named.length + 1)
      (newTuple (args.drop sig.positional.length)) s = .ok rest t ∧ t.cells = s.cells ∧
      (sig.rest = none → rest = none) ∧ (∀ name, sig.rest = some name → ∃ id,
        rest = some (.tuple id (args.drop sig.positional.length))) := by
  have hlength := sig.length_slotNames
  have hle := hf.length_le
  have htuple : newTuple (args.drop sig.positional.length) s = .ok
    (.tuple (.fresh s.next) (args.drop sig.positional.length)) { s with next := s.next + 1 } := rfl
  rw [surplus_run (fun htaken => ?_) htuple]
  · cases sig.rest with
    | none => exact ⟨none, s, rfl, rfl, fun _ => rfl, nofun⟩
    | some name => exact ⟨_, _, rfl, rfl, nofun, fun _ _ => ⟨_, rfl⟩⟩
  · obtain ⟨name, hname⟩ := Option.isSome_iff_exists.1 htaken
    rw [hname, Option.toList_some, List.length_singleton] at hlength
    omega

theorem restKeywords_run (extra : NameMap) (s : Store) : ∃ rest t,
    surplus f.code.object sig.restKeywords.isSome f.code.object.paramCount
      (do newDict (← dictOfNames extra)) s = .ok rest t ∧ t.cells = s.cells ∧
      (sig.restKeywords = none → rest = none) ∧ (∀ name, sig.restKeywords = some name → ∃ r,
        rest = some (.dict r) ∧ Capture.Probe.namesOf (t.dict r).entries = some extra.entries) := by
  obtain ⟨entries, next, hentries, -, hnames⟩ := Capture.dictOfNames_run extra s
  have hdict : (do newDict (← dictOfNames extra) : Exec Value) s = .ok (.dict ⟨s.dicts.size⟩)
      { s with next, dicts := s.dicts.push ⟨entries⟩ } := by
    rw [bind_ok hentries]
    rfl
  have hcount : f.code.object.paramCount = sig.slotNames.length := by
    rw [Code.Object.paramCount, hf.argCount, hf.keywordOnlyCount, hf.takesRest,
      hf.takesRestKeywords, sig.length_slotNames, Signature.named, List.length_append]
    cases sig.rest <;> cases sig.restKeywords <;> rfl
  rw [surplus_run (fun _ => hcount ▸ hf.length_le) hdict]
  cases sig.restKeywords with
  | none => exact ⟨none, s, rfl, rfl, fun _ => rfl, nofun⟩
  | some name =>
    refine ⟨_, _, rfl, rfl, nofun, fun _ _ => ⟨_, rfl, ?_⟩⟩
    rw [Store.dict, Likeness.getD_push, if_pos rfl]
    exact hnames

/-- A call is refused with a type error, or every slot of a parameter gets what belongs there. -/
theorem bindArguments_spec (args : List Value) (keywords : Keywords) (s : Store) :
    (¬ sig.Refuses args keywords ∧ ∃ fast t, bindArguments f args keywords s = .ok fast t ∧
      t.cells = s.cells ∧ sig.Filled args keywords fast t) ∨
    (sig.Refuses args keywords ∧ IsTypeError (bindArguments f args keywords s)) := by
  have hlength := sig.length_slotNames
  have hle := hf.length_le
  have hnamed : f.code.object.argCount + f.code.object.keywordOnlyCount = sig.named.length := by
    rw [hf.argCount, hf.keywordOnlyCount, Signature.named, List.length_append]
  have hnames := sig.length_names
  have hslots : requireSlots f.code.object (min args.length f.code.object.argCount) s = .ok () s :=
    requireSlots_ok (by omega) s
  have hfirst : fillPositional f.code.object.varnames.size (args.take sig.positional.length) =
    sig.firstSlots args f.code.object.varnames.size := rfl
  rw [bindArguments_eq]
  dsimp only
  -- Each part of binding comes to its end or refuses, and a part that refuses is the last one.
  rw [hf.take_varnames, bind_ok hslots, hf.takesRest, hf.takesRestKeywords, hnamed, hf.argCount,
    hfirst]
  rcases hf.refuseSurplus_spec args s with ⟨hfew, hok⟩ | ⟨⟨hrest, hmany⟩, message, t, herror⟩
  swap
  · exact .inr ⟨.surplus hrest hmany, message, t, bind_error herror⟩
  obtain ⟨rest, s₁, hrun, hcells₁, hnoRest, hrest⟩ := hf.rest_run args s
  rw [bind_ok hok, bind_ok hrun]
  rcases hf.takeKeywords_spec args keywords s₁ with
    ⟨hacceptable, slots, extra, hok, hfills⟩ | ⟨hbad, message, t, herror⟩
  swap
  · refine .inr ⟨Classical.byContradiction fun hfine => hbad ?_, message, t, bind_error herror⟩
    refine (Signature.acceptable_iff (by omega)).2 ⟨?_, fun hp hi hkeyword => ?_, fun hrest => ?_⟩
    · exact Classical.byContradiction fun hkeywords => hfine (.repeated hkeywords)
    · exact hfine (.filled hp hi hkeyword)
    · exact fun name hkeyword => Classical.byContradiction fun hname =>
        hfine (.unexpected hrest hkeyword hname)
  obtain ⟨restKeywords, s₂, hrun, hcells₂, hnoRestKeywords, hrestKeywords⟩ :=
    hf.restKeywords_run extra s₁
  rw [bind_ok hok]
  dsimp only
  rw [bind_ok hrun]
  rcases bindDefaults_spec hf hfills rest restKeywords s₂ with
    ⟨hvalues, slots', hlength', hslot, others, hok⟩ | ⟨⟨i, p, hp, hnothing⟩, herror⟩
  swap
  · obtain ⟨hgiven, hdefault⟩ := Option.or_eq_none_iff.1 hnothing
    exact .inr ⟨.missing hp hdefault hgiven, herror⟩
  obtain ⟨hdistinct, hfilled, hexpected⟩ := (Signature.acceptable_iff (by omega)).1 hacceptable
  refine .inl ⟨?_, _, s₂, hok, hcells₂.trans hcells₁, ?_⟩
  · rintro (⟨hrest, hmany⟩ | ⟨hp, hi, hkeyword⟩ | hrepeated | ⟨hrest, hkeyword, hname⟩ |
      ⟨hp, hdefault, hgiven⟩)
    · exact absurd (hfew hrest) (Nat.not_le.2 hmany)
    · exact hfilled hp hi hkeyword
    · exact hrepeated hdistinct
    · exact hname (hexpected hrest _ hkeyword)
    · exact hvalues _ _ hp (Option.or_eq_none_iff.2 ⟨hgiven, hdefault⟩)
  · refine Signature.filled_of_slots hlength' (fun i p hp => ?_) hnoRest hrest fun name hname => ?_
    · obtain ⟨v, hv⟩ := Option.ne_none_iff_exists'.1 (hvalues i p hp)
      exact ⟨v, hv, hv ▸ hslot i p hp⟩
    · obtain ⟨r, hr, hentries⟩ := hrestKeywords name hname
      exact ⟨r, hr, hentries.trans (congrArg some hfills.extra)⟩

end FunctionValue.Has

end Lexiscope.Machine
