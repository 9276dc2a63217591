import Lexiscope.Capture.View
import Lexiscope.Proofs.Data.OrderedMap
/-!
# Scopes as mappings

The outer and the inner names of a scope are one mapping. Whatever asks a scope for its names or for a
value sees this mapping, and scopes are compared as such.
-/

namespace Lexiscope.Capture

open Machine (Store Value NameMap)

namespace View

structure Distinct (v : View) : Prop where
  outer : v.outer.keys.Nodup
  inner : v.inner.keys.Nodup

variable {s : Store} {v w : View} {m : NameMap} {n : Name} {x : Value}

theorem contains_outer (v : View) (n : Name) : v.outer.contains n = decide (n ∈ v.outer.keys) := by
  rw [Bool.eq_iff_iff, OrderedMap.contains_eq_isSome_get?, OrderedMap.isSome_get?_iff,
    decide_eq_true_iff]

theorem innerOnly_eq (v : View) :
    v.innerOnly = (v.inner.filter fun n _ => n ∉ v.outer.keys).entries := by
  refine List.filter_congr fun e _ => ?_
  rw [contains_outer]
  exact (decide_not).symm

theorem keys_eq (v : View) :
    v.keys = v.outer.keys ++ v.inner.keys.filter fun n => n ∉ v.outer.keys := by
  have hinner : v.innerOnly.map Prod.fst = v.inner.keys.filter fun n => n ∉ v.outer.keys := by
    rw [innerOnly_eq, ← OrderedMap.keys_filter]
    rfl
  simp [keys, entries, hinner, OrderedMap.keys]

theorem nodup_keys (hv : v.Distinct) : v.keys.Nodup := by
  rw [keys_eq, List.nodup_append]
  refine ⟨hv.outer, hv.inner.filter _, ?_⟩
  rintro n hn _ hm rfl
  exact of_decide_eq_true (List.mem_filter.1 hm).2 hn

theorem size_eq (v : View) : v.size = v.keys.length := by
  simp [keys, entries, size, OrderedMap.size]

theorem isEmpty_iff (v : View) : v.isEmpty = true ↔ v.size = 0 := by
  obtain ⟨⟨outer⟩, ⟨inner⟩, _, _⟩ := v
  cases outer with
  | nil => cases inner <;> simp [isEmpty, size, innerOnly, OrderedMap.isEmpty, OrderedMap.size,
      OrderedMap.contains]
  | cons e es => simp [isEmpty, size, OrderedMap.isEmpty, OrderedMap.size]

theorem findIn_covered (inner : NameMap) (n : Name) (outer : List (Name × Value)) :
    OrderedMap.findIn n (outer.map fun e => (e.1, (inner.get? e.1).getD e.2)) =
      (OrderedMap.findIn n outer).map (inner.get? n).getD := by
  induction outer with
  | nil => rfl
  | cons e es ih =>
    rw [List.map_cons, OrderedMap.findIn, OrderedMap.findIn, ih]
    by_cases he : e.1 = n
    · simp [he]
    · simp [beq_false_of_ne he]

theorem findIn_entries (v : View) (n : Name) : OrderedMap.findIn n v.entries = v.get? n := by
  have hinner : OrderedMap.findIn n v.innerOnly =
      if n ∉ v.outer.keys then v.inner.get? n else none := by
    rw [innerOnly_eq, ← OrderedMap.get?, OrderedMap.get?_filter]
    simp only [decide_eq_true_eq]
  rw [entries, OrderedMap.findIn_append, findIn_covered, hinner, get?]
  change (Option.map _ (v.outer.get? n)).or _ = _
  cases houter : v.outer.get? n with
  | none =>
    rw [if_pos (OrderedMap.get?_eq_none_iff.1 houter)]
    simp
  | some x => cases v.inner.get? n <;> rfl

theorem get?_eq_none_iff : v.get? n = none ↔ n ∉ v.keys := by
  rw [← findIn_entries]
  exact OrderedMap.get?_eq_none_iff (m := ⟨v.entries⟩)

theorem contains_iff : v.contains n = true ↔ n ∈ v.keys := by
  rw [contains, ← findIn_entries]
  exact OrderedMap.isSome_get?_iff (m := ⟨v.entries⟩)

theorem entries_toMap (hv : v.Distinct) : v.toMap.entries = v.entries := by
  have hkeys : OrderedMap.keys ⟨v.entries⟩ = v.keys := rfl
  exact congrArg OrderedMap.entries (OrderedMap.ofList_entries (hkeys ▸ nodup_keys hv))

theorem nodup_keys_toMap (v : View) : v.toMap.keys.Nodup := OrderedMap.nodup_keys_ofList v.entries

theorem get?_toMap (hv : v.Distinct) (n : Name) : v.toMap.get? n = v.get? n := by
  rw [OrderedMap.get?, entries_toMap hv, findIn_entries]

theorem mem_entries_iff (hv : v.Distinct) : (n, x) ∈ v.entries ↔ v.get? n = some x := by
  have hdistinct : OrderedMap.Distinct ⟨v.entries⟩ := (nodup_keys hv).imp beq_false_of_ne
  rw [← findIn_entries]
  constructor
  · exact fun hmem => hdistinct.get?_of_mem hmem
  · intro hfind
    obtain ⟨e, he, hn, rfl⟩ := OrderedMap.exists_mem_of_get? (m := ⟨v.entries⟩) hfind
    rwa [← eq_of_beq hn]

theorem equalMap_iff (hv : v.Distinct) (hm : m.keys.Nodup) : v.equalMap s m = true ↔
    ∀ n, Option.Rel (fun x y => x.equal s y = true) (v.get? n) (m.get? n) := by
  have hmap : v.toMap.Distinct := (nodup_keys_toMap v).imp beq_false_of_ne
  rw [equalMap, OrderedMap.sameBy_iff hmap (hm.imp beq_false_of_ne)]
  simp only [get?_toMap hv]

theorem equal_iff (hv : v.Distinct) (hw : w.Distinct) : v.equal s w = true ↔
    ∀ n, Option.Rel (fun x y => x.equal s y = true) (v.get? n) (w.get? n) := by
  rw [equal, equalMap_iff hv (nodup_keys_toMap w)]
  simp only [get?_toMap hw]

/-- A scope is one mapping. Its names are the outer ones, then those of the inner ones that are not
among them, each once, and they are counted. A look-up, an iteration and the scope as a mapping
have the inner value of a name if there is one, and else the outer value. A scope equals another one,
or a mapping, if both have the same names with equal values, wherever these stand, and so it equals
what it is as a mapping, unless a value does not equal itself. -/
theorem one_mapping (hv : v.Distinct) :
    v.keys = v.outer.keys ++ v.inner.keys.filter (fun n => n ∉ v.outer.keys) ∧ v.keys.Nodup ∧
    v.size = v.keys.length ∧ (v.isEmpty = true ↔ v.size = 0) ∧
    (∀ n, v.get? n = (v.inner.get? n).or (v.outer.get? n) ∧
      (v.contains n = true ↔ n ∈ v.keys) ∧ v.toMap.get? n = v.get? n ∧
      ∀ x, (n, x) ∈ v.entries ↔ v.get? n = some x) ∧
    v.toMap.entries = v.entries ∧
    (∀ s w, w.Distinct → (v.equal s w = true ↔
      ∀ n, Option.Rel (fun x y => x.equal s y = true) (v.get? n) (w.get? n))) ∧
    (∀ s m, m.keys.Nodup → (v.equalMap s m = true ↔
      ∀ n, Option.Rel (fun x y => x.equal s y = true) (v.get? n) (m.get? n))) ∧
    ∀ s, (∀ n x, v.get? n = some x → x.equal s x = true) → v.equalMap s v.toMap = true := by
  refine ⟨keys_eq v, nodup_keys hv, size_eq v, isEmpty_iff v, fun n => ?_, entries_toMap hv,
    fun s w hw => equal_iff hv hw, fun s m hm => equalMap_iff hv hm, fun s hself => ?_⟩
  · exact ⟨rfl, contains_iff, get?_toMap hv n, fun x => mem_entries_iff hv⟩
  · rw [equalMap_iff hv (nodup_keys_toMap v)]
    intro n
    rw [get?_toMap hv]
    cases hn : v.get? n with
    | none => exact .none
    | some x => exact .some (hself n x hn)

def overlapping : View :=
  { outer := ⟨[("a", .int 1), ("b", .int 2)]⟩, inner := ⟨[("b", .int 3)]⟩, returned := .none,
    options := default }

/-- The same names the other way round, with an equal value of another type. -/
def swapped : View :=
  { outer := ⟨[("b", .int 3)]⟩, inner := ⟨[("a", .bool true)]⟩, returned := .none,
    options := default }

theorem one_mapping_overlapping : overlapping.Distinct ∧ swapped.Distinct ∧
    overlapping.keys = ["a", "b"] ∧ overlapping.size = 2 ∧
    ("b", Value.int 3) ∈ overlapping.entries ∧ overlapping.equal {} swapped = true := by
  have hv : overlapping.Distinct := ⟨by decide, by decide⟩
  have hw : swapped.Distinct := ⟨by decide, by decide⟩
  obtain ⟨hkeys, -, hsize, -, hlookup, -, hequal, -⟩ := one_mapping hv
  have hnames : overlapping.keys = ["a", "b"] := hkeys.trans (by decide)
  have hnames' : swapped.keys = ["b", "a"] := (keys_eq swapped).trans (by decide)
  refine ⟨hv, hw, hnames, by rw [hsize, hnames]; rfl, ((hlookup "b").2.2.2 _).2 rfl, ?_⟩
  refine (hequal {} swapped hw).2 fun n => ?_
  by_cases ha : n = "a"
  · subst ha
    exact .some (by decide)
  · by_cases hb : n = "b"
    · subst hb
      exact .some (by decide)
    · have hother : n ∉ ["a", "b"] := by simp [ha, hb]
      have hother' : n ∉ ["b", "a"] := by simp [ha, hb]
      rw [get?_eq_none_iff.2 (hnames ▸ hother), get?_eq_none_iff.2 (hnames' ▸ hother')]
      exact .none

end View

end Lexiscope.Capture
