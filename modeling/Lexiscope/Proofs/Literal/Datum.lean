import Mathlib.Data.Fintype.Card
import Mathlib.Data.Fintype.Sum
import Lexiscope.Machine.Render
import Lexiscope.Proofs.Machine.Equality
/-!
# Values as data

A value that is made of nothing, truth values, integers, texts, lists, tuples and dictionaries, and
does not contain itself, shows a datum: what is left of it without the identities of its parts. Values
that show the same datum are equal and have the same text.
-/

namespace Lexiscope.Machine

/-- What a value without identities is. -/
inductive Datum where
  | none
  | bool (b : Bool)
  | int (n : Int64)
  | str (text : String)
  | list (items : List Datum)
  | tuple (items : List Datum)
  | dict (entries : List (Datum × Datum))

mutual

def Key.datum : Key → Datum
  | .none => .none
  | .bool b => .bool b
  | .int n => .int n
  | .str s => .str s.text
  | .tuple items => .tuple (keyData items)

def keyData : List Key → List Datum
  | [] => []
  | k :: ks => k.datum :: keyData ks

end

mutual

/-- The value shows the datum. -/
def Value.Shows (s : Store) : Value → Datum → Prop
  | .none, .none => True
  | .bool b, .bool c => b = c
  | .int n, .int m => n = m
  | .str t, .str u => t.text = u
  | .list r, .list ds => r.index < s.lists.size ∧ AllShow s (s.list r).toList ds
  | .tuple _ vs, .tuple ds => AllShow s vs ds
  | .dict r, .dict es => r.index < s.dicts.size ∧ EntriesShow s (s.dict r).entries es
  | _, _ => False
termination_by structural _ d => d

def AllShow (s : Store) : List Value → List Datum → Prop
  | [], [] => True
  | v :: vs, d :: ds => v.Shows s d ∧ AllShow s vs ds
  | _, _ => False
termination_by structural _ ds => ds

/-- The keys and values of a dictionary show the data, one by one. -/
def EntriesShow (s : Store) : List (Key × Value) → List (Datum × Datum) → Prop
  | [], [] => True
  | (k, v) :: es, (key, value) :: ds => k.datum = key ∧ v.Shows s value ∧ EntriesShow s es ds
  | _, _ => False
termination_by structural _ ds => ds

end

mutual

/-- The datum can be written: no integer is the least one, which has no literal, and the keys of a
dictionary are different. -/
def Datum.Writable : Datum → Prop
  | .none | .bool _ | .str _ => True
  | .int n => n ≠ Int64.minValue
  | .list items | .tuple items => AllWritable items
  | .dict entries => (entries.map Prod.fst).Nodup ∧ EntriesWritable entries

def AllWritable : List Datum → Prop
  | [] => True
  | d :: ds => d.Writable ∧ AllWritable ds

def EntriesWritable : List (Datum × Datum) → Prop
  | [] => True
  | (key, value) :: es =>
    (∃ k : Key, k.datum = key) ∧ key.Writable ∧ value.Writable ∧ EntriesWritable es

end

mutual

def Datum.levels : Datum → Nat
  | .none | .bool _ | .int _ | .str _ => 0
  | .list items => levelsOf items + 1
  | .tuple items => levelsOf items
  | .dict entries => entryLevels entries + 1

def levelsOf : List Datum → Nat
  | [] => 0
  | d :: ds => max d.levels (levelsOf ds)

def entryLevels : List (Datum × Datum) → Nat
  | [] => 0
  | (_, value) :: es => max value.levels (entryLevels es)

end

mutual

def Datum.text : Datum → String
  | .none => "None"
  | .bool b => boolText b
  | .int n => toString n.toInt
  | .str t => Text.Quoted.render t
  | .list items => "[" ++ commaSeparated (itemTexts items) ++ "]"
  | .tuple items => tupleText (itemTexts items)
  | .dict entries => "\x7b" ++ commaSeparated (entryTexts entries) ++ "\x7d"

def itemTexts : List Datum → List String
  | [] => []
  | d :: ds => d.text :: itemTexts ds

def entryTexts : List (Datum × Datum) → List String
  | [] => []
  | (key, value) :: es => (key.text ++ ": " ++ value.text) :: entryTexts es

end

section Keys

mutual

theorem render_key : (k : Key) → k.render = k.datum.text
  | .none | .bool _ | .int _ | .str _ => rfl
  | .tuple ks => by rw [Key.render, render_keys ks, Key.datum, Datum.text]

theorem render_keys : (ks : List Key) → renderKeys ks = itemTexts (keyData ks)
  | [] => rfl
  | k :: ks => by rw [renderKeys, render_key k, render_keys ks, keyData, itemTexts]

end

mutual

theorem same_iff_datum : (k l : Key) → k.same l = true ↔ k.datum = l.datum
  | .none, l | .bool _, l | .int _, l | .str _, l => by cases l <;> simp [Key.same, Key.datum]
  | .tuple ks, l => by
    cases l with
    | tuple ls => simpa [Key.same, Key.datum] using sameAll_iff_keyData ks ls
    | _ => simp [Key.same, Key.datum]

theorem sameAll_iff_keyData : (ks ls : List Key) → Key.sameAll ks ls = true ↔ keyData ks = keyData ls
  | [], ls => by cases ls <;> simp [Key.sameAll, keyData]
  | k :: ks, ls => by
    cases ls with
    | nil => simp [Key.sameAll, keyData]
    | cons l ls => simp [Key.sameAll, keyData, same_iff_datum k l, sameAll_iff_keyData ks ls]

end

theorem beq_iff_datum (k l : Key) : (k == l) = true ↔ k.datum = l.datum := same_iff_datum k l

end Keys

section Showing

variable {s : Store}

mutual

/-- A value shows one datum only. -/
theorem shows_unique : (d : Datum) → ∀ {v : Value} {e : Datum}, v.Shows s d → v.Shows s e → d = e
  | .none, v, e, hd, he | .bool _, v, e, hd, he | .int _, v, e, hd, he | .str _, v, e, hd, he => by
    cases v <;> cases e <;> simp_all [Value.Shows]
  | .list ds, v, e, hd, he => by
    cases v <;> cases e <;> simp only [Value.Shows] at hd he
    rw [allShow_unique ds hd.2 he.2]
  | .tuple ds, v, e, hd, he => by
    cases v <;> cases e <;> simp only [Value.Shows] at hd he
    rw [allShow_unique ds hd he]
  | .dict es, v, e, hd, he => by
    cases v <;> cases e <;> simp only [Value.Shows] at hd he
    rw [entriesShow_unique es hd.2 he.2]

theorem allShow_unique : (ds : List Datum) → ∀ {vs : List Value} {es : List Datum},
    AllShow s vs ds → AllShow s vs es → ds = es
  | [], vs, es, hd, he => by cases vs <;> cases es <;> simp_all [AllShow]
  | d :: ds, vs, es, hd, he => by
    cases vs <;> cases es <;> simp only [AllShow] at hd he
    rw [shows_unique d hd.1 he.1, allShow_unique ds hd.2 he.2]

theorem entriesShow_unique : (ds : List (Datum × Datum)) → ∀ {entries : List (Key × Value)}
    {es : List (Datum × Datum)}, EntriesShow s entries ds → EntriesShow s entries es → ds = es
  | [], entries, es, hd, he => by cases entries <;> cases es <;> simp_all [EntriesShow]
  | (key, value) :: ds, entries, es, hd, he => by
    cases entries <;> cases es <;> simp only [EntriesShow] at hd he
    obtain ⟨rfl, hvalue, hds⟩ := hd
    obtain ⟨hkey, hvalue', hes⟩ := he
    rw [hkey, shows_unique value hvalue hvalue', entriesShow_unique ds hds hes]

end

abbrev Store.Container (s : Store) := Fin s.lists.size ⊕ Fin s.dicts.size

def containerValue : s.Container → Value
  | .inl i => .list ⟨i⟩
  | .inr i => .dict ⟨i⟩

mutual

/-- Inside a value there are lists or dictionaries of any lower number of levels. -/
theorem exists_container : (d : Datum) → ∀ {v : Value} {k : Nat}, v.Shows s d → k < d.levels →
    ∃ (c : s.Container) (e : Datum), e.levels = k + 1 ∧ (containerValue c).Shows s e
  | .none, v, k, _, hk | .bool _, v, k, _, hk | .int _, v, k, _, hk | .str _, v, k, _, hk => by
    cases hk
  | .list ds, v, k, h, hk => by
    cases v <;> simp only [Value.Shows] at h
    rename_i r
    rcases Nat.lt_succ_iff_lt_or_eq.1 hk with hk | rfl
    · exact exists_container_items ds h.2 hk
    · exact ⟨.inl ⟨r.index, h.1⟩, .list ds, rfl, by simpa only [containerValue, Value.Shows]⟩
  | .tuple ds, v, k, h, hk => by
    cases v <;> simp only [Value.Shows] at h
    exact exists_container_items ds h hk
  | .dict es, v, k, h, hk => by
    cases v <;> simp only [Value.Shows] at h
    rename_i r
    rcases Nat.lt_succ_iff_lt_or_eq.1 hk with hk | rfl
    · exact exists_container_entries es h.2 hk
    · exact ⟨.inr ⟨r.index, h.1⟩, .dict es, rfl, by simpa only [containerValue, Value.Shows]⟩

theorem exists_container_items : (ds : List Datum) → ∀ {vs : List Value} {k : Nat}, AllShow s vs ds →
    k < levelsOf ds → ∃ (c : s.Container) (e : Datum), e.levels = k + 1 ∧ (containerValue c).Shows s e
  | [], vs, k, _, hk => by cases hk
  | d :: ds, vs, k, h, hk => by
    cases vs <;> simp only [AllShow] at h
    rcases lt_max_iff.1 hk with hk | hk
    · exact exists_container d h.1 hk
    · exact exists_container_items ds h.2 hk

theorem exists_container_entries : (ds : List (Datum × Datum)) → ∀ {es : List (Key × Value)} {k : Nat},
    EntriesShow s es ds → k < entryLevels ds →
      ∃ (c : s.Container) (e : Datum), e.levels = k + 1 ∧ (containerValue c).Shows s e
  | [], es, k, _, hk => by cases hk
  | (key, value) :: ds, es, k, h, hk => by
    cases es <;> simp only [EntriesShow] at h
    rcases lt_max_iff.1 hk with hk | hk
    · exact exists_container value h.2.1 hk
    · exact exists_container_entries ds h.2.2 hk

end

/-- There are no more levels than lists and dictionaries, since one of each number of levels is
inside, and all these are different. -/
theorem levels_le_nesting {v : Value} {d : Datum} (h : v.Shows s d) : d.levels ≤ s.nesting := by
  choose c e hlevels hshows using fun k : Fin d.levels => exists_container d h k.2
  have hinjective : Function.Injective c := by
    intro i j hij
    have hi := hshows i
    rw [hij] at hi
    have heq : e i = e j := shows_unique _ hi (hshows j)
    have hsucc := hlevels i
    rw [heq, hlevels j] at hsucc
    exact Fin.ext (Nat.succ_injective hsucc.symm)
  have hcard := Fintype.card_le_of_injective c hinjective
  rw [Fintype.card_fin, Fintype.card_sum, Fintype.card_fin, Fintype.card_fin] at hcard
  exact Nat.le_succ_of_le hcard

end Showing

section Text

variable {s : Store}

theorem renderAllWith_eq_map (list : ListRef → String) (dict : DictRef → String) (vs : List Value) :
    renderAllWith s list dict vs = vs.map (·.renderWith s list dict) := by
  induction vs with
  | nil => rfl
  | cons v vs ih => rw [renderAllWith, ih, List.map_cons]

theorem renderTo_list (n : Nat) (r : ListRef) : (Value.list r).renderTo s (n + 1) =
    "[" ++ commaSeparated ((s.list r).toList.map (Value.renderTo s n)) ++ "]" := rfl

theorem renderTo_dict (n : Nat) (r : DictRef) : (Value.dict r).renderTo s (n + 1) =
    "\x7b" ++ commaSeparated ((s.dict r).entries.map fun e =>
      e.1.render ++ ": " ++ Value.renderTo s n e.2) ++ "\x7d" := rfl

theorem renderTo_tuple (n : Nat) (id : Identity) (vs : List Value) :
    (Value.tuple id vs).renderTo s n = tupleText (vs.map (Value.renderTo s n)) := by
  cases n with
  | zero => exact congrArg tupleText (renderAllWith_eq_map _ _ vs)
  | succ n => exact congrArg tupleText (renderAllWith_eq_map _ _ vs)

mutual

theorem renderTo_of_shows : (d : Datum) → ∀ {v : Value} {n : Nat}, v.Shows s d → d.levels ≤ n →
    v.renderTo s n = d.text
  | .none, v, n, h, _ => by
    cases v <;> simp only [Value.Shows] at h
    cases n <;> rfl
  | .bool _, v, n, h, _ | .int _, v, n, h, _ | .str _, v, n, h, _ => by
    cases v <;> simp only [Value.Shows] at h
    subst h
    cases n <;> rfl
  | .list ds, v, n, h, hn => by
    cases v <;> simp only [Value.Shows] at h
    obtain ⟨m, rfl⟩ : ∃ m, n = m + 1 := Nat.exists_eq_succ_of_ne_zero (Nat.ne_zero_of_lt hn)
    rw [renderTo_list, renderTo_of_allShow ds h.2 (Nat.le_of_succ_le_succ hn),
      Datum.text]
  | .tuple ds, v, n, h, hn => by
    cases v <;> simp only [Value.Shows] at h
    rw [renderTo_tuple, renderTo_of_allShow ds h hn, Datum.text]
  | .dict es, v, n, h, hn => by
    cases v <;> simp only [Value.Shows] at h
    obtain ⟨m, rfl⟩ : ∃ m, n = m + 1 := Nat.exists_eq_succ_of_ne_zero (Nat.ne_zero_of_lt hn)
    rw [renderTo_dict, renderTo_of_entriesShow es h.2 (Nat.le_of_succ_le_succ hn),
      Datum.text]

theorem renderTo_of_allShow : (ds : List Datum) → ∀ {vs : List Value} {n : Nat}, AllShow s vs ds →
    levelsOf ds ≤ n → vs.map (Value.renderTo s n) = itemTexts ds
  | [], vs, n, h, _ => by
    cases vs <;> simp only [AllShow] at h
    rfl
  | d :: ds, vs, n, h, hn => by
    cases vs <;> simp only [AllShow] at h
    obtain ⟨hd, hds⟩ := max_le_iff.1 hn
    rw [List.map_cons, renderTo_of_shows d h.1 hd, renderTo_of_allShow ds h.2 hds, itemTexts]

theorem renderTo_of_entriesShow : (ds : List (Datum × Datum)) → ∀ {es : List (Key × Value)} {n : Nat},
    EntriesShow s es ds → entryLevels ds ≤ n →
      es.map (fun e => e.1.render ++ ": " ++ Value.renderTo s n e.2) = entryTexts ds
  | [], es, n, h, _ => by
    cases es <;> simp only [EntriesShow] at h
    rfl
  | (key, value) :: ds, es, n, h, hn => by
    cases es <;> simp only [EntriesShow] at h
    obtain ⟨rfl, hvalue, hds⟩ := h
    obtain ⟨hn, hns⟩ := max_le_iff.1 hn
    rw [List.map_cons, renderTo_of_shows value hvalue hn, renderTo_of_entriesShow ds hds hns, entryTexts,
      render_key]

end

theorem render_of_shows {v : Value} {d : Datum} (h : v.Shows s d) : v.render s = d.text :=
  renderTo_of_shows d h (levels_le_nesting h)

end Text

section Equality

variable {s : Store}

theorem length_of_entriesShow {es : List (Key × Value)} {ds : List (Datum × Datum)}
    (h : EntriesShow s es ds) : es.length = ds.length := by
  induction es generalizing ds with
  | nil => cases ds <;> simp_all [EntriesShow]
  | cons e es ih =>
    cases ds <;> simp only [EntriesShow] at h
    rw [List.length_cons, List.length_cons, ih h.2.2]

theorem mem_of_entriesShow {es : List (Key × Value)} {ds : List (Datum × Datum)}
    (h : EntriesShow s es ds) {e : Key × Value} (he : e ∈ es) :
    ∃ value, (e.1.datum, value) ∈ ds ∧ e.2.Shows s value := by
  induction es generalizing ds with
  | nil => cases he
  | cons x es ih =>
    cases ds <;> simp only [EntriesShow] at h
    obtain ⟨hkey, hvalue, hds⟩ := h
    rcases List.mem_cons.1 he with rfl | he
    · exact ⟨_, by rw [hkey]; exact List.mem_cons_self, hvalue⟩
    · obtain ⟨value, hmem, hshows⟩ := ih hds he
      exact ⟨value, List.mem_cons_of_mem _ hmem, hshows⟩

theorem findIn_of_entriesShow {es : List (Key × Value)} {ds : List (Datum × Datum)}
    (h : EntriesShow s es ds) (hnodup : (ds.map Prod.fst).Nodup) {k : Key} {value : Datum}
    (hk : (k.datum, value) ∈ ds) : ∃ v, OrderedMap.findIn k es = some v ∧ v.Shows s value := by
  induction es generalizing ds with
  | nil => cases ds <;> simp_all [EntriesShow]
  | cons x es ih =>
    cases ds with
    | nil => simp only [EntriesShow] at h
    | cons d ds =>
      simp only [EntriesShow] at h
      obtain ⟨hkey, hvalue, hds⟩ := h
      rw [List.map_cons, List.nodup_cons] at hnodup
      rcases List.mem_cons.1 hk with rfl | hk
      · refine ⟨x.2, ?_, hvalue⟩
        rw [OrderedMap.findIn, if_pos ((beq_iff_datum _ _).2 hkey)]
      · have hne : ¬ (x.1 == k) = true := by
          intro heq
          rw [(beq_iff_datum _ _).1 heq] at hkey
          exact hnodup.1 (hkey ▸ List.mem_map_of_mem hk)
        rw [OrderedMap.findIn, if_neg hne]
        exact ih hds hnodup.2 hk

mutual

theorem equalTo_of_shows : (d : Datum) → ∀ {v w : Value} {n : Nat}, d.Writable → v.Shows s d →
    w.Shows s d → d.levels ≤ n → v.equalTo s n w = true
  | .none, v, w, n, _, hv, hw, _ => by
    cases v <;> simp only [Value.Shows] at hv
    cases w <;> simp only [Value.Shows] at hw
    cases n <;> rfl
  | .bool _, v, w, n, _, hv, hw, _ | .int _, v, w, n, _, hv, hw, _ => by
    cases v <;> simp only [Value.Shows] at hv
    cases w <;> simp only [Value.Shows] at hw
    subst hv hw
    cases n <;> simp [Value.equalTo, Value.equalWith, Value.number?, Number.equal]
  | .str _, v, w, n, _, hv, hw, _ => by
    cases v <;> simp only [Value.Shows] at hv
    cases w <;> simp only [Value.Shows] at hw
    cases n <;> simp [Value.equalTo, Value.equalWith, Value.number?, hv, hw]
  | .list ds, v, w, n, h, hv, hw, hn => by
    cases v <;> simp only [Value.Shows] at hv
    cases w <;> simp only [Value.Shows] at hw
    obtain ⟨m, rfl⟩ : ∃ m, n = m + 1 := Nat.exists_eq_succ_of_ne_zero (Nat.ne_zero_of_lt hn)
    rw [equalTo_list, allRelated_of_allShow ds h hv.2 hw.2 (Nat.le_of_succ_le_succ hn), Bool.or_true]
  | .tuple ds, v, w, n, h, hv, hw, hn => by
    cases v <;> simp only [Value.Shows] at hv
    cases w <;> simp only [Value.Shows] at hw
    rw [equalTo_tuple, allRelated_of_allShow ds h hv hw hn]
  | .dict es, v, w, n, h, hv, hw, hn => by
    cases v <;> simp only [Value.Shows] at hv
    cases w <;> simp only [Value.Shows] at hw
    obtain ⟨m, rfl⟩ : ∃ m, n = m + 1 := Nat.exists_eq_succ_of_ne_zero (Nat.ne_zero_of_lt hn)
    have hvalues := equalTo_of_entries es h.2 (Nat.le_of_succ_le_succ hn)
    rw [equalTo_dict, OrderedMap.sameBy, OrderedMap.size, OrderedMap.size, length_of_entriesShow hv.2,
      length_of_entriesShow hw.2, beq_self_eq_true, Bool.true_and, Bool.or_eq_true]
    refine .inr (List.all_eq_true.2 fun e he => ?_)
    obtain ⟨value, hmem, hshows⟩ := mem_of_entriesShow hv.2 he
    obtain ⟨x, hfind, hx⟩ := findIn_of_entriesShow hw.2 h.1 hmem
    rw [OrderedMap.get?, hfind]
    exact hvalues _ hmem hshows hx

theorem allRelated_of_allShow : (ds : List Datum) → ∀ {vs ws : List Value} {n : Nat}, AllWritable ds →
    AllShow s vs ds → AllShow s ws ds → levelsOf ds ≤ n → allRelated (Value.equalTo s n) vs ws = true
  | [], vs, ws, n, _, hv, hw, _ => by
    cases vs <;> cases ws <;> simp_all [AllShow, allRelated]
  | d :: ds, vs, ws, n, h, hv, hw, hn => by
    cases vs <;> simp only [AllShow] at hv
    cases ws <;> simp only [AllShow] at hw
    obtain ⟨hd, hds⟩ := max_le_iff.1 hn
    rw [allRelated, equalTo_of_shows d h.1 hv.1 hw.1 hd, allRelated_of_allShow ds h.2 hv.2 hw.2 hds]
    rfl

theorem equalTo_of_entries : (ds : List (Datum × Datum)) → ∀ {n : Nat}, EntriesWritable ds →
    entryLevels ds ≤ n → ∀ d ∈ ds, ∀ {v w : Value}, v.Shows s d.2 → w.Shows s d.2 →
      v.equalTo s n w = true
  | [], n, _, _, d, hd, v, w, _, _ => by cases hd
  | (key, value) :: ds, n, h, hn, d, hd, v, w, hv, hw => by
    obtain ⟨hvalue, hds⟩ := max_le_iff.1 hn
    rcases List.mem_cons.1 hd with rfl | hd
    · exact equalTo_of_shows value h.2.2.1 hv hw hvalue
    · exact equalTo_of_entries ds h.2.2.2 hds d hd hv hw

end

theorem equal_of_shows {v w : Value} {d : Datum} (h : d.Writable) (hv : v.Shows s d) (hw : w.Shows s d) :
    v.equal s w = true :=
  equalTo_of_shows d h hv hw (levels_le_nesting hv)

end Equality

section Values

mutual

/-- No integer in the key is the least one. -/
def Key.Writable : Key → Prop
  | .none | .bool _ | .str _ => True
  | .int n => n ≠ Int64.minValue
  | .tuple items => KeysWritable items

def KeysWritable : List Key → Prop
  | [] => True
  | k :: ks => k.Writable ∧ KeysWritable ks

end

/-- The value is made of nothing, truth values, integers but the least one, texts, lists, tuples and
dictionaries, of as many levels as there may be. It does not contain itself. -/
inductive Value.Writable (s : Store) : Value → Prop
  | none : Writable s .none
  | bool {b : Bool} : Writable s (.bool b)
  | int {n : Int64} : n ≠ Int64.minValue → Writable s (.int n)
  | str {t : Str} : Writable s (.str t)
  | list {r : ListRef} : r.index < s.lists.size → (∀ v ∈ (s.list r).toList, Writable s v) →
    Writable s (.list r)
  | tuple {id : Identity} {items : List Value} : (∀ v ∈ items, Writable s v) →
    Writable s (.tuple id items)
  | dict {r : DictRef} : r.index < s.dicts.size →
    ((s.dict r).entries.Pairwise fun e e' => (e.1 == e'.1) = false) →
    (∀ e ∈ (s.dict r).entries, e.1.Writable) → (∀ e ∈ (s.dict r).entries, Writable s e.2) →
    Writable s (.dict r)

mutual

theorem writable_key : (k : Key) → k.Writable → k.datum.Writable
  | .none, _ | .bool _, _ | .str _, _ => trivial
  | .int _, h => h
  | .tuple ks, h => writable_keys ks h

theorem writable_keys : (ks : List Key) → KeysWritable ks → AllWritable (keyData ks)
  | [], _ => trivial
  | k :: ks, h => ⟨writable_key k h.1, writable_keys ks h.2⟩

end

variable {s : Store}

theorem exists_allShow {vs : List Value} (h : ∀ v ∈ vs, ∃ d : Datum, d.Writable ∧ v.Shows s d) :
    ∃ ds, AllWritable ds ∧ AllShow s vs ds := by
  induction vs with
  | nil => exact ⟨[], trivial, trivial⟩
  | cons v vs ih =>
    obtain ⟨d, hd, hshows⟩ := h v List.mem_cons_self
    obtain ⟨ds, hds, hall⟩ := ih fun w hw => h w (List.mem_cons_of_mem _ hw)
    exact ⟨d :: ds, ⟨hd, hds⟩, hshows, hall⟩

theorem exists_entriesShow {es : List (Key × Value)} (hkeys : ∀ e ∈ es, e.1.Writable)
    (h : ∀ e ∈ es, ∃ d : Datum, d.Writable ∧ e.2.Shows s d) :
    ∃ ds, ds.map Prod.fst = es.map (·.1.datum) ∧ EntriesWritable ds ∧ EntriesShow s es ds := by
  induction es with
  | nil => exact ⟨[], rfl, trivial, trivial⟩
  | cons e es ih =>
    obtain ⟨d, hd, hshows⟩ := h e List.mem_cons_self
    obtain ⟨ds, hmap, hds, hall⟩ := ih (fun x hx => hkeys x (List.mem_cons_of_mem _ hx))
      fun x hx => h x (List.mem_cons_of_mem _ hx)
    exact ⟨(e.1.datum, d) :: ds, by rw [List.map_cons, hmap, List.map_cons],
      ⟨⟨e.1, rfl⟩, writable_key _ (hkeys e List.mem_cons_self), hd, hds⟩, rfl, hshows, hall⟩

theorem exists_shows {v : Value} (h : v.Writable s) : ∃ d : Datum, d.Writable ∧ v.Shows s d := by
  induction h with
  | none => exact ⟨.none, trivial, trivial⟩
  | @bool b => exact ⟨.bool b, trivial, rfl⟩
  | @int n hn => exact ⟨.int n, hn, rfl⟩
  | @str t => exact ⟨.str t.text, trivial, rfl⟩
  | list hr _ ih =>
    obtain ⟨ds, hds, hall⟩ := exists_allShow ih
    exact ⟨.list ds, hds, hr, hall⟩
  | tuple _ ih =>
    obtain ⟨ds, hds, hall⟩ := exists_allShow ih
    exact ⟨.tuple ds, hds, hall⟩
  | dict hr hkeys hwritable _ ih =>
    obtain ⟨ds, hmap, hds, hall⟩ := exists_entriesShow hwritable ih
    refine ⟨.dict ds, ⟨?_, hds⟩, hr, hall⟩
    rw [hmap, List.Nodup, List.pairwise_map]
    refine hkeys.imp fun hne heq => ?_
    rw [(beq_iff_datum _ _).2 heq] at hne
    cases hne

end Values

end Lexiscope.Machine
