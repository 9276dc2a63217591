import Lexiscope.Proofs.Machine.Iterators
import Lexiscope.Proofs.Machine.Keys
import Lexiscope.Proofs.Machine.Progressions
/-!
# Iterators over items that are there

Lists, tuples, texts, dictionaries and ranges hold their items. An iterator that is made of one stands
before the first of them, and they come one after the other for as long as no list is changed.
-/

namespace Lexiscope.Machine

open Exec
open Likeness (getD_push)

/-- The source holds these items, and they are next. -/
inductive Source.Holds (s : Store) : Source → List Value → Prop where
  | nothing {source} : source.isHeld = true → source.draw? s = none → Holds s source []
  | item {source source' v vs} : source.draw? s = some (v, source') → Holds s source' vs →
    Holds s source (v :: vs)

section Sources

variable {s t : Store} {source : Source} {vs : List Value}

theorem Source.Holds.of_lists (h : source.Holds s vs) (hlists : t.lists = s.lists) :
    source.Holds t vs := by
  induction h with
  | nothing hheld hdraw => exact .nothing hheld ((draw?_of_lists hlists).trans hdraw)
  | item hdraw _ ih => exact .item ((draw?_of_lists hlists).trans hdraw) ih

theorem Source.holds_array {place : Nat → Source} {all : Array Value}
    (hheld : ∀ i, (place i).isHeld = true)
    (hdraw : ∀ i, (place i).draw? s = all[i]?.map fun v => (v, place (i + 1))) (i : Nat) :
    (place i).Holds s (all.toList.drop i) := by
  generalize hrest : all.toList.drop i = rest
  induction rest generalizing i with
  | nil =>
    have hover : all.size ≤ i := List.drop_eq_nil_iff.1 hrest
    exact .nothing (hheld i) (by rw [hdraw, Array.getElem?_eq_none hover]; rfl)
  | cons v rest ih =>
    have hnext : all[i]? = some v := by
      rw [← Array.getElem?_toList, ← List.head?_drop, hrest]
      rfl
    refine .item (by rw [hdraw, hnext]; rfl) (ih (i + 1) ?_)
    rw [← List.tail_drop, hrest]
    rfl

theorem Source.holds_items (s : Store) (all : Array Value) (i : Nat) :
    (Source.items all i).Holds s (all.toList.drop i) :=
  holds_array (fun _ => rfl) (fun _ => rfl) i

theorem Source.holds_list (s : Store) (l : ListRef) (i : Nat) :
    (Source.list l i).Holds s ((s.list l).toList.drop i) :=
  holds_array (fun _ => rfl) (fun _ => rfl) i

theorem Source.holds_range (s : Store) {range : Range} (hstep : range.step ≠ 0) {i left : Nat}
    (hleft : i + left = range.length) : (Source.range range i).Holds s (range.integers i left) := by
  induction left generalizing i with
  | zero => exact .nothing rfl (by rw [draw?, Range.get?_eq_none (by omega)]; rfl)
  | succ left ih =>
    rw [Range.integers, List.range'_succ, List.map_cons]
    exact .item (by rw [draw?, Range.get?_of_lt hstep (by omega)]; rfl) (ih (by omega))

end Sources

def Value.holdsItems : Value → Bool
  | .list _ | .tuple .. | .str _ | .dict _ => true
  | .range r => r.step != 0
  | _ => false

/-- The items of a value. Characters and keys are made into values when they are asked for. -/
inductive Value.Items (s : Store) : Value → List Value → Prop where
  | list {l} : Items s (.list l) (s.list l).toList
  | tuple {id items} : Items s (.tuple id items) items
  | str {x items} : items.map Value.text? = x.text.toList.map (fun c => some c.toString) →
    Items s (.str x) items
  | dict {d items} : toKeys items = .ok (s.dict d).keys → Items s (.dict d) items
  | range {r} : Items s (.range r) (r.integers 0 r.length)

section Making

variable {s t : Store} {v inner : Value} {source : Source} {items : List Value}

theorem newStrs_ok (cs : List Char) (s : Store) : ∃ items t,
    (cs.mapM fun c => newStr c.toString) s = .ok items t ∧
      items.map Value.text? = cs.map (fun c => some c.toString) ∧ t = { s with next := t.next } := by
  induction cs generalizing s with
  | nil => exact ⟨[], s, rfl, rfl, rfl⟩
  | cons c cs ih =>
    have hnew : newStr c.toString s = .ok (.str ⟨.fresh s.next, c.toString⟩) { s with next := s.next + 1 } :=
      rfl
    obtain ⟨items, t, hrun, htexts, ht⟩ := ih { s with next := s.next + 1 }
    refine ⟨.str ⟨.fresh s.next, c.toString⟩ :: items, t, ?_, congrArg (some c.toString :: ·) htexts, ht⟩
    rw [List.mapM_cons, bind_ok hnew, bind_ok hrun]
    rfl

theorem newIterator_stands (hheld : source.Holds s items) : ∃ q t,
    newIterator source s = .ok (.iterator q) t ∧ q.index < t.iterators.size ∧
      (t.iterator q).busy = false ∧ (t.iterator q).source.Holds t items := by
  obtain ⟨t, ht⟩ : ∃ t, { s with iterators := s.iterators.push { source } } = t := ⟨_, rfl⟩
  have hnew : t.iterator ⟨s.iterators.size⟩ = { source } := by
    rw [← ht]
    unfold Store.iterator
    rw [getD_push, if_pos rfl]
  refine ⟨⟨s.iterators.size⟩, t, ht ▸ rfl, ?_, by rw [hnew], ?_⟩
  · rw [← ht, Array.size_push]
    exact Nat.lt_succ_self _
  · rw [hnew]
    exact hheld.of_lists (by rw [← ht])

/-- The iterator of a value that holds its items holds them, and stands before the first. -/
theorem makeIterator_holds (hv : v.holdsItems = true) (h : makeIterator v s = .ok inner t) :
    ∃ q items, inner = .iterator q ∧ v.Items s items ∧ q.index < t.iterators.size ∧
      (t.iterator q).busy = false ∧ (t.iterator q).source.Holds t items := by
  have hmakes : ∀ {source items u}, makeIterator v s = newIterator source u → v.Items s items →
      source.Holds u items → ∃ q items, inner = .iterator q ∧ v.Items s items ∧
        q.index < t.iterators.size ∧ (t.iterator q).busy = false ∧
        (t.iterator q).source.Holds t items := by
    intro source items u hmade hitems hheld
    obtain ⟨q, w, hnew, hstands⟩ := newIterator_stands hheld
    cases (hmade.trans hnew).symm.trans h
    exact ⟨q, items, rfl, hitems, hstands⟩
  cases v with
  | list l => exact hmakes rfl .list (Source.holds_list s l 0)
  | tuple id items => exact hmakes rfl .tuple (Source.holds_items s items.toArray 0)
  | range r =>
    have hstep : r.step ≠ 0 := bne_iff_ne.1 hv
    exact hmakes rfl .range (Source.holds_range s hstep (Nat.zero_add r.length))
  | str x =>
    obtain ⟨items, u, hrun, htexts, -⟩ := newStrs_ok x.text.toList s
    exact hmakes (bind_ok hrun) (.str htexts) (Source.holds_items u items.toArray 0)
  | dict d =>
    obtain ⟨items, u, hrun, hkeys, -⟩ := keyValues_ok (s.dict d).keys s
    have hget : (get : Exec Store) s = .ok s s := rfl
    exact hmakes ((bind_ok hget).trans (bind_ok hrun)) (.dict hkeys) (Source.holds_items u items.toArray 0)
  | _ => cases hv

end Making

end Lexiscope.Machine
