import Lexiscope.Machine.Builtins.Call
import Lexiscope.Proofs.Machine.Orders
import Lexiscope.Proofs.Machine.Turn
/-!
# Sorting and extremes

Of values that all have an order to one another, sorting gives the only arrangement in which none is
less than one before it and equal ones stand as they stood before. The least and the greatest that the
built-ins find are the first of their kind.
-/

namespace Lexiscope.Machine

open Exec

variable {s : Store} {w : Ordering} {a b c item : Value} {items done rest xs ys : List Value}

/-- The first value has an order to the second one, and it is not against a direction. -/
def Precedes (s : Store) (w : Ordering) (a b : Value) : Prop := ∃ o, a.order s b = some o ∧ o ≠ w.swap

/-- The values have an order. -/
def Comparable (s : Store) (a b : Value) : Prop := ∃ o, a.order s b = some o

section Precedes

theorem precedes_of_order (hw : w ≠ .eq) (h : a.order s b = some w) : Precedes s w a b :=
  ⟨w, h, by cases w <;> simp_all⟩

theorem Precedes.trans (ha : a.Regular s) (hb : b.Regular s) (hc : c.Regular s) (hw : w ≠ .eq)
    (hab : Precedes s w a b) (hbc : Precedes s w b c) : Precedes s w a c := by
  obtain ⟨o, hab, ho⟩ := hab
  obtain ⟨o', hbc, ho'⟩ := hbc
  refine ⟨o.then o', order_then ha hb hc hw hab hbc ho ho', ?_⟩
  cases o <;> simp_all

theorem Precedes.swap (ha : a.Regular s) (hb : b.Regular s) (h : Precedes s w a b) :
    Precedes s w.swap b a := by
  obtain ⟨o, hab, ho⟩ := h
  refine ⟨o.swap, by rw [order_swap ha hb, hab, Option.map_some], ?_⟩
  cases o <;> cases w <;> simp_all

theorem Comparable.symm (ha : a.Regular s) (hb : b.Regular s) (h : Comparable s a b) :
    Comparable s b a := by
  obtain ⟨o, hab⟩ := h
  exact ⟨o.swap, by rw [order_swap ha hb, hab, Option.map_some]⟩

theorem Precedes.antisymm (ha : a.Regular s) (hb : b.Regular s) (hab : Precedes s w a b)
    (hba : Precedes s w b a) (hw : w ≠ .eq) : a.equal s b = true := by
  obtain ⟨o, hab, ho⟩ := hab
  obtain ⟨o', hba, ho'⟩ := hba
  rw [order_swap ha hb, hab, Option.map_some, Option.some.injEq] at hba
  refine (order_eq_eq ha hb hab).1 ?_
  subst hba
  cases o <;> cases w <;> simp_all

end Precedes

/-- The items such that none is less than one before it, and equal ones as they stood before. -/
structure Arranged (s : Store) (items sorted : List Value) : Prop where
  perm : sorted.Perm items
  ascending : sorted.Pairwise (Precedes s .lt)
  stable : ∀ x : Value, x.Regular s → sorted.filter (x.equal s) = items.filter (x.equal s)

theorem insertSorted_between (hitem : item.Regular s) (hitems : ∀ v ∈ items, v.Regular s)
    (hdescending : items.Pairwise (Precedes s .gt)) (hcomparable : ∀ v ∈ items, Comparable s item v) :
    ∃ front back, items = front ++ back ∧ insertSorted s item items = .ok (front ++ item :: back) ∧
      (∀ v ∈ front, item.order s v = some .lt) ∧ ∀ v ∈ back, Precedes s .gt item v := by
  induction items with
  | nil => exact ⟨[], [], rfl, rfl, by simp, by simp⟩
  | cons v vs ih =>
    obtain ⟨hfirst, hdescending⟩ := List.pairwise_cons.1 hdescending
    obtain ⟨hv, hvs⟩ := List.forall_mem_cons.1 hitems
    obtain ⟨⟨o, ho⟩, hcomparable⟩ := List.forall_mem_cons.1 hcomparable
    by_cases hless : o = .lt
    · subst hless
      obtain ⟨front, back, rfl, hsorted, hfront, hback⟩ := ih hvs hdescending hcomparable
      refine ⟨v :: front, back, rfl, ?_, List.forall_mem_cons.2 ⟨ho, hfront⟩, hback⟩
      simp only [insertSorted, ho, hsorted]
      rfl
    · have hitem_v : Precedes s .gt item v := ⟨o, ho, hless⟩
      refine ⟨[], v :: vs, rfl, ?_, by simp, List.forall_mem_cons.2 ⟨hitem_v, fun u hu => ?_⟩⟩
      · cases o <;> simp_all [insertSorted]
      · exact hitem_v.trans hitem hv (hvs u hu) (by simp) (hfirst u hu)

/-- An item between the greater ones and the others of an arrangement, after those equal to it. -/
theorem Arranged.insert {front back : List Value} (h : Arranged s done (front ++ back).reverse)
    (hitem : item.Regular s) (hdone : ∀ v ∈ done, v.Regular s)
    (hfront : ∀ v ∈ front, item.order s v = some .lt) (hback : ∀ v ∈ back, Precedes s .gt item v) :
    Arranged s (done ++ [item]) (front ++ item :: back).reverse := by
  have hmem : ∀ v, v ∈ front ∨ v ∈ back → v.Regular s := fun v hv =>
    hdone v (h.perm.subset (List.mem_reverse.2 (List.mem_append.2 hv)))
  obtain ⟨hperm, hascending, hstable⟩ := h
  rw [List.reverse_append] at hperm hascending hstable
  rw [List.reverse_append, List.reverse_cons, List.append_assoc, List.singleton_append]
  refine ⟨?_, ?_, fun x hx => ?_⟩
  · exact List.perm_middle.trans ((hperm.cons item).trans (List.perm_append_singleton item done).symm)
  · obtain ⟨hbefore, hafter, hcross⟩ := List.pairwise_append.1 hascending
    refine List.pairwise_append.2 ⟨hbefore, List.pairwise_cons.2 ⟨fun v hv => ?_, hafter⟩, fun v hv u hu => ?_⟩
    · exact precedes_of_order (by simp) (hfront v (List.mem_reverse.1 hv))
    · rcases List.mem_cons.1 hu with rfl | hu
      · have hv' := List.mem_reverse.1 hv
        exact (hback v hv').swap hitem (hmem v (.inr hv'))
      · exact hcross v hv u hu
  · have hstable := hstable x hx
    rw [List.filter_append] at hstable ⊢
    rw [List.filter_append, ← hstable]
    by_cases heq : x.equal s item = true
    · -- What is greater than the item does not equal what the item equals.
      have hnone : front.reverse.filter (x.equal s) = [] := by
        refine List.filter_eq_nil_iff.2 fun v hv hxv => ?_
        have hv := List.mem_reverse.1 hv
        have hreg := hmem v (.inl hv)
        have hsame := equal_trans hitem hx hreg (equal_symm hx hitem heq) hxv
        exact Ordering.noConfusion ((order_eq_eq hitem hreg (hfront v hv)).2 hsame)
      rw [List.filter_cons_of_pos heq, hnone, List.append_nil, List.filter_cons_of_pos heq,
        List.filter_nil]
    · rw [List.filter_cons_of_neg heq, List.filter_cons_of_neg heq, List.filter_nil, List.append_nil]

/-- Sorting goes on with an arrangement of the items that have been inserted. -/
theorem insertionSort_arranged {sorted : List Value} (hitems : ∀ v ∈ done ++ rest, v.Regular s)
    (hcomparable : (done ++ rest).Pairwise (Comparable s)) (h : Arranged s done sorted.reverse) :
    ∃ out, insertionSort s sorted rest = .ok out ∧ Arranged s (done ++ rest) out.reverse := by
  induction rest generalizing done sorted with
  | nil => exact ⟨sorted, rfl, by rwa [List.append_nil]⟩
  | cons item rest ih =>
    obtain ⟨hdone, hrest⟩ := List.forall_mem_append.1 hitems
    have hitem := hrest item List.mem_cons_self
    have hmem : ∀ {v}, v ∈ sorted → v ∈ done := fun hv => h.perm.subset (List.mem_reverse.2 hv)
    have hdescending : sorted.Pairwise (Precedes s .gt) := by
      refine (List.pairwise_reverse.1 h.ascending).imp_of_mem fun hu hv huv => ?_
      exact huv.swap (hdone _ (hmem hv)) (hdone _ (hmem hu))
    have hnew : ∀ v ∈ sorted, Comparable s item v := fun v hv =>
      ((List.pairwise_append.1 hcomparable).2.2 v (hmem hv) item List.mem_cons_self).symm
        (hdone v (hmem hv)) hitem
    obtain ⟨front, back, rfl, hsorted, hfront, hback⟩ :=
      insertSorted_between hitem (fun v hv => hdone v (hmem hv)) hdescending hnew
    have hstep := h.insert hitem hdone hfront hback
    rw [List.append_cons] at hitems hcomparable ⊢
    simp only [insertionSort, hsorted]
    exact ih hitems hcomparable hstep

theorem eq_of_ascending (hxs : ∀ v ∈ xs, v.Regular s) (hperm : xs.Perm ys)
    (hx : xs.Pairwise (Precedes s .lt)) (hy : ys.Pairwise (Precedes s .lt))
    (hstable : ∀ v : Value, v.Regular s → xs.filter (v.equal s) = ys.filter (v.equal s)) : xs = ys := by
  induction xs generalizing ys with
  | nil => exact hperm.nil_eq
  | cons x xs ih =>
    cases ys with
    | nil => exact absurd hperm.length_eq (by simp)
    | cons y ys =>
      obtain ⟨hfirst_x, hrest_x⟩ := List.pairwise_cons.1 hx
      obtain ⟨hfirst_y, hrest_y⟩ := List.pairwise_cons.1 hy
      have hreg_x := hxs x List.mem_cons_self
      have hreg_y := hxs y (hperm.mem_iff.2 List.mem_cons_self)
      -- Each of the first values precedes the other one, so they are equal and stand as before.
      have hequal : x.equal s y = true := by
        rcases List.mem_cons.1 (hperm.mem_iff.2 List.mem_cons_self) with rfl | hmem_y
        · exact equal_refl hreg_y
        rcases List.mem_cons.1 (hperm.mem_iff.1 List.mem_cons_self) with rfl | hmem_x
        · exact equal_refl hreg_x
        exact (hfirst_x y hmem_y).antisymm hreg_x hreg_y (hfirst_y x hmem_x) (by simp)
      have hsame : x = y := by
        have hfilter := hstable x hreg_x
        rw [List.filter_cons_of_pos (equal_refl hreg_x), List.filter_cons_of_pos hequal] at hfilter
        exact (List.cons.inj hfilter).1
      subst hsame
      rw [ih (fun v hv => hxs v (.tail _ hv)) hperm.cons_inv hrest_x hrest_y fun v hv => ?_]
      have hfilter := hstable v hv
      by_cases hvx : v.equal s x = true
      · rw [List.filter_cons_of_pos hvx, List.filter_cons_of_pos hvx] at hfilter
        exact (List.cons.inj hfilter).2
      · rwa [List.filter_cons_of_neg hvx, List.filter_cons_of_neg hvx] at hfilter

/-- There is only one arrangement. -/
theorem Arranged.unique (hitems : ∀ v ∈ items, v.Regular s) (hx : Arranged s items xs)
    (hy : Arranged s items ys) : xs = ys :=
  eq_of_ascending (fun v hv => hitems v (hx.perm.subset hv)) (hx.perm.trans hy.perm.symm) hx.ascending
    hy.ascending fun v hv => (hx.stable v hv).trans (hy.stable v hv).symm

/-- The value is the first one of the items that is before all others in a direction. -/
def Foremost (s : Store) (w : Ordering) (items : List Value) (best : Value) : Prop :=
  ∃ before after, items = before ++ best :: after ∧ (∀ x ∈ before, best.order s x = some w) ∧
    ∀ x ∈ after, Precedes s w best x

theorem Foremost.mem (h : Foremost s w items a) : a ∈ items := by
  obtain ⟨before, after, rfl, -⟩ := h
  simp

theorem Foremost.append {o : Ordering} (h : Foremost s w done a) (hw : w ≠ .eq)
    (hdone : ∀ v ∈ done, v.Regular s) (hitem : item.Regular s) (ho : item.order s a = some o) :
    Foremost s w (done ++ [item]) (if o == w then item else a) := by
  have ha := hdone a h.mem
  obtain ⟨before, after, rfl, hbefore, hafter⟩ := h
  have hwswap : w ≠ w.swap := by cases w <;> simp_all
  by_cases hbetter : o = w
  · subst hbetter
    rw [if_pos (beq_self_eq_true o)]
    refine ⟨_, [], rfl, fun x hx => ?_, by simp⟩
    have hx' := hdone x hx
    have hthen : ∀ {o'}, a.order s x = some o' → o' ≠ o.swap → item.order s x = some o := by
      intro o' hax ho'
      rw [order_then hitem ha hx' hw ho hax hwswap ho']
      cases o <;> simp_all
    rcases List.mem_append.1 hx with hx | hx
    · exact hthen (hbefore x hx) hwswap
    · rcases List.mem_cons.1 hx with rfl | hx
      · exact ho
      · obtain ⟨o', hax, ho'⟩ := hafter x hx
        exact hthen hax ho'
  · rw [if_neg (by simpa using hbetter)]
    refine ⟨before, after ++ [item], by simp, hbefore, fun x hx => ?_⟩
    rcases List.mem_append.1 hx with hx | hx
    · exact hafter x hx
    · rw [List.mem_singleton.1 hx]
      refine ⟨o.swap, by rw [order_swap hitem ha, ho, Option.map_some], ?_⟩
      cases o <;> cases w <;> simp_all

/-- The search for the foremost value finds it. -/
theorem bestOf_foremost (symbol : String) (hw : w ≠ .eq) (hitems : ∀ v ∈ done ++ rest, v.Regular s)
    (hcomparable : (done ++ rest).Pairwise (Comparable s)) (h : Foremost s w done a) :
    ∃ best, bestOf symbol w a rest s = .ok best s ∧ Foremost s w (done ++ rest) best := by
  induction rest generalizing done a with
  | nil => exact ⟨a, rfl, by rwa [List.append_nil]⟩
  | cons item rest ih =>
    obtain ⟨hdone, hrest⟩ := List.forall_mem_append.1 hitems
    have hitem := hrest item List.mem_cons_self
    obtain ⟨o, ho⟩ := ((List.pairwise_append.1 hcomparable).2.2 a h.mem item List.mem_cons_self).symm
      (hdone a h.mem) hitem
    have horder : orderOf symbol item a s = .ok o s := by
      unfold orderOf
      refine (bind_ok (x := get) rfl).trans ?_
      rw [ho]
      rfl
    rw [bestOf, bind_ok horder]
    have hstep := h.append hw hdone hitem ho
    rw [List.append_cons] at hitems hcomparable ⊢
    exact ih hitems hcomparable hstep

theorem Arranged.descending (h : Arranged s items xs) (hitems : ∀ v ∈ items, v.Regular s) :
    xs.reverse.Pairwise (Precedes s .gt) := by
  refine List.pairwise_reverse.2 (h.ascending.imp_of_mem fun hu hv huv => ?_)
  exact huv.swap (hitems _ (h.perm.subset hu)) (hitems _ (h.perm.subset hv))

section Builtins

variable {supply : Supply} {v : Value} {s₀ : Store} {drained : Array Value}

theorem sorted_arranged {keywords : Keywords} {descending : Bool}
    (hall : supply.all v s₀ = .ok drained s)
    (hkeywords : readReverse s₀ false keywords s₀ = .ok descending s₀)
    (hitems : ∀ x ∈ drained.toList, x.Regular s) (hcomparable : drained.toList.Pairwise (Comparable s)) :
    ∃ r t sorted, callBuiltin supply .sorted [v] keywords s₀ = .ok (.list r) t ∧
      Arranged s drained.toList sorted ∧
      (t.list r).toList = if descending then sorted.reverse else sorted := by
  have hnone : Arranged s [] ([] : List Value).reverse := ⟨.nil, .nil, fun _ _ => rfl⟩
  obtain ⟨out, hout, harranged⟩ := insertionSort_arranged hitems hcomparable hnone
  have hsort : sortItems drained.toList descending s =
      newList (if descending then out else out.reverse).toArray s := by
    unfold sortItems
    refine (bind_ok (x := get) rfl).trans ?_
    rw [hout]
  have hsorted : callBuiltin supply .sorted [v] keywords s₀ =
      newList (if descending then out else out.reverse).toArray s := by
    change (readReverse s₀ false keywords >>= fun d => supply.all v >>= fun items =>
      sortItems items.toList d) s₀ = _
    rw [bind_ok hkeywords, bind_ok hall, hsort]
  refine ⟨⟨s.lists.size⟩, _, out.reverse, hsorted, harranged, ?_⟩
  cases descending <;> simp [Store.list]

theorem extreme_foremost (name : Name) {symbol : String} (hw : w ≠ .eq)
    (hall : supply.all v s₀ = .ok drained s) (hsome : drained.toList ≠ [])
    (hitems : ∀ x ∈ drained.toList, x.Regular s) (hcomparable : drained.toList.Pairwise (Comparable s)) :
    ∃ best, extreme supply name symbol w [v] s₀ = .ok best s ∧ Foremost s w drained.toList best := by
  obtain ⟨first, rest, hdrained⟩ := List.exists_cons_of_ne_nil hsome
  rw [hdrained] at hitems hcomparable ⊢
  have hfirst : Foremost s w [first] first := ⟨[], [], rfl, by simp, by simp⟩
  obtain ⟨best, hbest, hforemost⟩ := bestOf_foremost symbol hw hitems hcomparable hfirst
  have hitems : (Array.toList <$> supply.all v) s₀ = .ok (first :: rest) s := by
    rw [map_ok hall, hdrained]
  refine ⟨best, ?_, hforemost⟩
  unfold extreme
  exact (bind_ok hitems).trans hbest

end Builtins

/-- Equality is an equivalence of regular values. Where they have an order, the other way round it is
the opposite one, it is that of equals exactly if they are equal, and it is transitive. Sorting items
that all have an order to one another gives their only arrangement, or the reverse of it, and the
built-ins for extremes give the first of the least and the first of the greatest. -/
theorem order_coherent (s : Store) :
    Equivalence (fun a b : { v : Value // v.Regular s } => a.1.equal s b.1 = true) ∧
    (∀ a b : Value, a.Regular s → b.Regular s → b.order s a = (a.order s b).map Ordering.swap ∧
      ∀ o, a.order s b = some o → (o = .eq ↔ a.equal s b = true)) ∧
    (∀ a b c : Value, a.Regular s → b.Regular s → c.Regular s → ∀ o o', a.order s b = some o →
      b.order s c = some o' → o ≠ .gt → o' ≠ .gt → a.order s c = some (o.then o')) ∧
    ∀ (supply : Supply) (v : Value) (s₀ : Store) (drained : Array Value),
      supply.all v s₀ = .ok drained s → (∀ x ∈ drained.toList, x.Regular s) →
      drained.toList.Pairwise (Comparable s) →
      (∀ keywords descending, readReverse s₀ false keywords s₀ = .ok descending s₀ →
        ∃ r t sorted, callBuiltin supply .sorted [v] keywords s₀ = .ok (.list r) t ∧
          (t.list r).toList = (if descending then sorted.reverse else sorted) ∧
          Arranged s drained.toList sorted ∧ sorted.reverse.Pairwise (Precedes s .gt) ∧
          ∀ other, Arranged s drained.toList other → other = sorted) ∧
      (drained.toList ≠ [] →
        (∃ best, callBuiltin supply .min [v] [] s₀ = .ok best s ∧ Foremost s .lt drained.toList best) ∧
        ∃ best, callBuiltin supply .max [v] [] s₀ = .ok best s ∧
          Foremost s .gt drained.toList best) := by
  refine ⟨⟨fun a => equal_refl a.2, fun {a b} => equal_symm a.2 b.2,
    fun {a b c} => equal_trans a.2 b.2 c.2⟩, ?_, ?_, ?_⟩
  · exact fun a b ha hb => ⟨order_swap ha hb, fun o => order_eq_eq ha hb⟩
  · exact fun a b c ha hb hc o o' hab hbc => order_then_of_ne_gt ha hb hc hab hbc
  · intro supply v s₀ drained hall hitems hcomparable
    refine ⟨fun keywords descending hkeywords => ?_, fun hsome => ⟨?_, ?_⟩⟩
    · obtain ⟨r, t, sorted, hcall, harranged, hlist⟩ :=
        sorted_arranged hall hkeywords hitems hcomparable
      exact ⟨r, t, sorted, hcall, hlist, harranged, harranged.descending hitems,
        fun other hother => hother.unique hitems harranged⟩
    · exact extreme_foremost "min" (by simp) hall hsome hitems hcomparable
    · exact extreme_foremost "max" (by simp) hall hsome hitems hcomparable

def mixedPairs : Array Value :=
  #[.tuple (.fresh 0) [.int 1, .int 2], .tuple (.fresh 1) [.bool true, .int 2],
    .tuple (.fresh 2) [.bool false, .int 5]]

theorem order_coherent_mixedPairs :
    ∃ r t, callBuiltin ⟨fun _ => pure mixedPairs, fun _ => pure none⟩ .sorted [.none]
      [("reverse", .bool true)] {} = .ok (.list r) t ∧
    (t.list r).toList.Perm mixedPairs.toList ∧ (t.list r).toList.Pairwise (Precedes {} .gt) := by
  have hint : ∀ n, (Value.int n).Regular {} := fun n =>
    Value.regular_of_parts (fun w hw => by cases hw) (by simp) (by simp)
  have hbool : ∀ b, (Value.bool b).Regular {} := fun b =>
    Value.regular_of_parts (fun w hw => by cases hw) (by simp) (by simp)
  have hpair : ∀ id v w, v.Regular {} → w.Regular {} → (Value.tuple id [v, w]).Regular {} := by
    intro id v w hv hw
    refine Value.regular_of_parts (fun u hu => ?_) (by simp) (by simp)
    have hu : u ∈ [v, w] := hu
    rcases List.mem_pair.1 hu with rfl | rfl
    · exact hv
    · exact hw
  have hitems : ∀ x ∈ mixedPairs.toList, x.Regular {} := by
    simp only [mixedPairs, List.forall_mem_cons]
    exact ⟨hpair _ _ _ (hint 1) (hint 2), hpair _ _ _ (hbool true) (hint 2),
      hpair _ _ _ (hbool false) (hint 5), by simp⟩
  have hcomparable : mixedPairs.toList.Pairwise (Comparable {}) := by
    simp only [mixedPairs, List.pairwise_cons, List.forall_mem_cons]
    exact ⟨⟨⟨.eq, rfl⟩, ⟨.gt, rfl⟩, by simp⟩, ⟨⟨.gt, rfl⟩, by simp⟩, by simp, .nil⟩
  obtain ⟨-, -, -, hbuiltins⟩ := order_coherent {}
  obtain ⟨hsorted, -⟩ := hbuiltins ⟨fun _ => pure mixedPairs, fun _ => pure none⟩ .none {} mixedPairs
    rfl hitems hcomparable
  obtain ⟨r, t, sorted, hcall, hlist, harranged, hdescending, -⟩ :=
    hsorted [("reverse", .bool true)] true rfl
  refine ⟨r, t, hcall, ?_⟩
  rw [hlist]
  exact ⟨(List.reverse_perm sorted).trans harranged.perm, hdescending⟩

end Lexiscope.Machine
