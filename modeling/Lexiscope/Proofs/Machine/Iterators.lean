import Lexiscope.Proofs.Machine.Running
/-!
# What an advance of an iterator comes to

An iterator that is being advanced refuses to be advanced. Any other one is busy while an item is drawn
from its source. A source that holds its items gives the next of them, and a source over other iterators
asks these.
-/

namespace Lexiscope.Machine

open Exec
open Likeness (getD_push getD_setIfInBounds)

variable {s t : Store} {r q : IteratorRef} {i : Iterator} {n : Nat}

def Store.withIterator (s : Store) (i : IteratorRef) (it : Iterator) : Store :=
  { s with iterators := s.iterators.setIfInBounds i.index it }

theorem Store.iterator_withIterator (hr : r.index < s.iterators.size) :
    (s.withIterator r i).iterator r = i := by
  unfold Store.iterator Store.withIterator
  rw [getD_setIfInBounds, if_pos ⟨rfl, hr⟩]

theorem Store.iterator_withIterator_of_ne (h : q ≠ r) : (s.withIterator r i).iterator q = s.iterator q := by
  unfold Store.iterator Store.withIterator
  rw [getD_setIfInBounds, if_neg fun heq => h (congrArg IteratorRef.mk heq.1.symm)]

theorem Store.size_withIterator : (s.withIterator r i).iterators.size = s.iterators.size :=
  Array.size_setIfInBounds

def Store.withBusy (s : Store) (r : IteratorRef) (busy : Bool) : Store :=
  s.withIterator r { s.iterator r with busy }

theorem Store.size_withBusy {busy : Bool} : (s.withBusy r busy).iterators.size = s.iterators.size :=
  size_withIterator

@[simp] theorem Store.source_withBusy {busy : Bool} :
    ((s.withBusy r busy).iterator q).source = (s.iterator q).source := by
  by_cases hq : q = r
  · subst hq
    unfold Store.withBusy Store.withIterator Store.iterator
    rw [getD_setIfInBounds]
    split <;> rfl
  · rw [Store.withBusy, Store.iterator_withIterator_of_ne hq]

theorem Store.withIterator_withIterator {j : Iterator} :
    (s.withIterator r i).withIterator r j = s.withIterator r j := by
  unfold withIterator
  dsimp only
  rw [Array.setIfInBounds_setIfInBounds]

theorem Store.withBusy_withIterator {busy : Bool} :
    (s.withIterator r i).withBusy r busy = s.withIterator r { i with busy } := by
  rw [withBusy, withIterator_withIterator]
  by_cases hr : r.index < s.iterators.size
  · rw [iterator_withIterator hr]
  · unfold withIterator
    have hout := Nat.le_of_not_lt hr
    rw [Array.setIfInBounds_eq_of_size_le hout, Array.setIfInBounds_eq_of_size_le hout]

theorem Store.withIterator_self (s : Store) (r : IteratorRef) :
    s.withIterator r (s.iterator r) = s := by
  have hsame : s.iterators.setIfInBounds r.index (s.iterator r) = s.iterators := by
    refine Array.ext Array.size_setIfInBounds fun j _ hj => ?_
    rw [Array.getElem_setIfInBounds hj]
    split
    · rename_i heq
      unfold Store.iterator
      rw [heq, Array.getD_eq_getD_getElem?, Array.getElem?_eq_getElem hj]
      rfl
    · rfl
  unfold Store.withIterator
  rw [hsame]

/-- An advance that has changed nothing else leaves the store as it was. -/
theorem Store.withBusy_withBusy (hidle : (s.iterator r).busy = false) :
    (s.withBusy r true).withBusy r false = s := by
  have hback : Iterator.mk ((s.withBusy r true).iterator r).source false = s.iterator r := by
    rw [source_withBusy, ← hidle]
  have htwice : (s.withBusy r true).withBusy r false = s.withIterator r (s.iterator r) := by
    rw [← hback]
    exact withIterator_withIterator
  rw [htwice, withIterator_self]

theorem setBusy_run (r : IteratorRef) (busy : Bool) (s : Store) :
    setBusy r busy s = .ok () (s.withBusy r busy) := rfl

theorem nextItem_busy (hbusy : (s.iterator r).busy = true) (n : Nat) :
    nextItem (n + 1) (.iterator r) s = .error .reentered s := by
  have hget : (get : Exec Store) s = .ok s s := rfl
  unfold nextItem
  refine (bind_ok hget).trans ?_
  rw [hbusy]
  rfl

theorem nextItem_idle (hidle : (s.iterator r).busy = false) (n : Nat) :
    nextItem (n + 1) (.iterator r) s =
      match draw n r (s.withBusy r true) with
      | .ok item t => .ok item (t.withBusy r false)
      | .error e t => .error e (t.withBusy r false) := by
  have hget : (get : Exec Store) s = .ok s s := rfl
  unfold nextItem
  refine (bind_ok hget).trans ?_
  rw [hidle]
  refine (bind_ok (setBusy_run r true s)).trans ?_
  cases hdraw : draw n r (s.withBusy r true) with
  | ok item t =>
    rw [bind_ok (attempt_ok hdraw), bind_ok (setBusy_run r false t)]
    rfl
  | error e t =>
    rw [bind_ok (attempt_error hdraw), bind_ok (setBusy_run r false t)]
    rfl

theorem drawn_of_next {item : Option Value} (h : nextItem n (.iterator r) s = .ok item t) : ∃ m u,
    n = m + 2 ∧ (s.iterator r).busy = false ∧ draw (m + 1) r (s.withBusy r true) = .ok item u ∧
      t = u.withBusy r false := by
  cases hbusy : (s.iterator r).busy with
  | true =>
    cases n with
    | zero => cases h
    | succ n =>
      rw [nextItem_busy hbusy] at h
      cases h
  | false =>
    obtain _ | _ | m := n
    · cases h
    · rw [nextItem_idle hbusy] at h
      cases h
    · rw [nextItem_idle hbusy] at h
      cases hdraw : draw (m + 1) r (s.withBusy r true) with
      | error e u =>
        rw [hdraw] at h
        cases h
      | ok drawn u =>
        rw [hdraw] at h
        cases h
        exact ⟨m, u, rfl, rfl, hdraw, rfl⟩

/-- The tuple with items that is made in the store, and the store after that. -/
def Store.tupled (s : Store) (items : List Value) : Value × Store :=
  (.tuple (.fresh s.next) items, { s with next := s.next + 1 })

def Source.isHeld : Source → Bool
  | .list .. | .items .. | .range .. => true
  | .enumerate .. | .zip _ => false

/-- The iterators that a source asks for its items. -/
def Source.inners : Source → List Value
  | .enumerate inner _ => [inner]
  | .zip inners => inners
  | .list .. | .items .. | .range .. => []

theorem Source.inners_of_held {source : Source} (h : source.isHeld = true) : source.inners = [] := by
  cases source with
  | enumerate | zip => cases h
  | list | items | range => rfl

theorem Source.isHeld_of_draw {source : Source} {drawn : Value × Source}
    (h : source.draw? s = some drawn) :
    source.isHeld = true ∧ drawn.2.isHeld = true := by
  cases source with
  | enumerate | zip => cases h
  | list | items | range =>
    obtain ⟨v, -, rfl⟩ := Option.map_eq_some_iff.1 h
    exact ⟨rfl, rfl⟩

theorem Source.draw?_of_lists {source : Source} (h : t.lists = s.lists) :
    source.draw? t = source.draw? s := by
  cases source with
  | list l i =>
    unfold draw? Store.list
    rw [h]
  | items | range | enumerate | zip => rfl

section Draw

theorem draw_held (hheld : (s.iterator r).source.isHeld = true) (n : Nat) :
    draw (n + 1) r s =
      match (s.iterator r).source.draw? s with
      | none => .ok none s
      | some (item, source) => .ok (some item) (s.withIterator r { s.iterator r with source }) := by
  have hget : (get : Exec Store) s = .ok s s := rfl
  unfold draw
  refine (bind_ok hget).trans ?_
  generalize (s.iterator r).source = source at hheld
  cases source with
  | enumerate inner count => cases hheld
  | zip inners => cases hheld
  | list | items | range =>
    refine (bind_ok hget).trans ?_
    cases Source.draw? s _ <;> rfl

/-- An iterator over items that it holds gives the next one, if there is one, and nothing else happens. -/
theorem nextItem_held (hheld : (s.iterator r).source.isHeld = true)
    (hidle : (s.iterator r).busy = false) (n : Nat) :
    nextItem (n + 2) (.iterator r) s =
      match (s.iterator r).source.draw? s with
      | none => .ok none s
      | some (item, source) => .ok (some item) (s.withIterator r ⟨source, false⟩) := by
  have hsource : ((s.withBusy r true).iterator r).source = (s.iterator r).source := Store.source_withBusy
  have hdraw : (s.iterator r).source.draw? (s.withBusy r true) = (s.iterator r).source.draw? s :=
    Source.draw?_of_lists rfl
  rw [nextItem_idle hidle, draw_held (hsource ▸ hheld), hsource, hdraw]
  cases (s.iterator r).source.draw? s with
  | none =>
    dsimp only
    rw [Store.withBusy_withBusy hidle]
  | some drawn =>
    dsimp only
    rw [Store.withBusy_withIterator, Store.withBusy, Store.withIterator_withIterator]

theorem draw_enumerate {inner : Value} {count : Int64}
    (hsource : (s.iterator r).source = .enumerate inner count) (n : Nat) :
    draw (n + 1) r s =
      match nextItem n inner s with
      | .error e t => .error e t
      | .ok none t => .ok none t
      | .ok (some item) t =>
        match Word.add? count 1 with
        | none => .error .countOverflow t
        | some next =>
          let u := t.withIterator r { s.iterator r with source := .enumerate inner next }
          .ok (some (u.tupled [.int count, item]).1) (u.tupled [.int count, item]).2 := by
  have hget : (get : Exec Store) s = .ok s s := rfl
  unfold draw
  refine (bind_ok hget).trans ?_
  rw [hsource]
  cases hnext : nextItem n inner s with
  | error e t => exact bind_error hnext
  | ok item t =>
    refine (bind_ok hnext).trans ?_
    cases item with
    | none => rfl
    | some item => cases hsum : Word.add? count 1 <;> rfl

theorem draw_zip_nil (hsource : (s.iterator r).source = .zip []) (n : Nat) :
    draw (n + 1) r s = .ok none s := by
  have hget : (get : Exec Store) s = .ok s s := rfl
  unfold draw
  refine (bind_ok hget).trans ?_
  rw [hsource]
  rfl

theorem draw_zip {v : Value} {vs : List Value} (hsource : (s.iterator r).source = .zip (v :: vs))
    (n : Nat) : draw (n + 1) r s =
      match nextRow n (v :: vs) s with
      | .error e t => .error e t
      | .ok none t => .ok none t
      | .ok (some row) t => .ok (some (t.tupled row).1) (t.tupled row).2 := by
  have hget : (get : Exec Store) s = .ok s s := rfl
  unfold draw
  refine (bind_ok hget).trans ?_
  rw [hsource]
  cases hrow : nextRow n (v :: vs) s with
  | error e t => exact bind_error hrow
  | ok row t =>
    refine (bind_ok hrow).trans ?_
    cases row <;> rfl

theorem nextRow_cons (v : Value) (vs : List Value) (n : Nat) (s : Store) :
    nextRow (n + 1) (v :: vs) s =
      match nextItem n v s with
      | .error e t => .error e t
      | .ok none t => .ok none t
      | .ok (some item) t =>
        match nextRow n vs t with
        | .error e u => .error e u
        | .ok row u => .ok (row.map (item :: ·)) u := by
  conv => lhs; unfold nextRow
  cases hnext : nextItem n v s with
  | error e t => exact bind_error hnext
  | ok item t =>
    refine (bind_ok hnext).trans ?_
    cases item with
    | none => rfl
    | some item =>
      dsimp only
      cases hrow : nextRow n vs t with
      | error e u => exact bind_error hrow
      | ok row u => exact bind_ok hrow

theorem row_of_cons {v : Value} {vs : List Value} {row : Option (List Value)}
    (h : nextRow n (v :: vs) s = .ok row t) : ∃ m, n = m + 1 ∧
      (row = none ∧ nextItem m v s = .ok none t ∨ ∃ item u rest,
        nextItem m v s = .ok (some item) u ∧ nextRow m vs u = .ok rest t ∧
        row = rest.map (item :: ·)) := by
  cases n with
  | zero => cases h
  | succ n =>
    refine ⟨n, rfl, ?_⟩
    rw [nextRow_cons] at h
    cases hnext : nextItem n v s with
    | error e u =>
      rw [hnext] at h
      cases h
    | ok item u =>
      rw [hnext] at h
      cases item with
      | none =>
        cases h
        exact .inl ⟨rfl, rfl⟩
      | some item =>
        dsimp only at h
        cases hrow : nextRow n vs u with
        | error e w =>
          rw [hrow] at h
          cases h
        | ok rest w =>
          rw [hrow] at h
          cases h
          exact .inr ⟨item, u, rest, rfl, hrow, rfl⟩

/-- What is drawn, where something is or where the end is found. -/
inductive Drawn (n : Nat) (r : IteratorRef) (s : Store) : Option Value → Store → Prop where
  | done : (s.iterator r).source.inners = [] → (s.iterator r).source.draw? s = none → Drawn n r s none s
  | held {v source} : (s.iterator r).source.draw? s = some (v, source) →
    Drawn n r s (some v) (s.withIterator r { s.iterator r with source })
  | enumerates {inner count t} : (s.iterator r).source = .enumerate inner count →
    nextItem n inner s = .ok none t → Drawn n r s none t
  | counts {inner count item t next} : (s.iterator r).source = .enumerate inner count →
    nextItem n inner s = .ok (some item) t → Word.add? count 1 = some next →
    Drawn n r s
      (some ((t.withIterator r { s.iterator r with source := .enumerate inner next }).tupled
        [.int count, item]).1)
      ((t.withIterator r { s.iterator r with source := .enumerate inner next }).tupled [.int count, item]).2
  | breaks {vs t} : (s.iterator r).source = .zip vs → nextRow n vs s = .ok none t → Drawn n r s none t
  | zips {vs row t} : (s.iterator r).source = .zip vs → nextRow n vs s = .ok (some row) t → vs ≠ [] →
    Drawn n r s (some (t.tupled row).1) (t.tupled row).2

theorem drawn_of_draw {item : Option Value} (h : draw (n + 1) r s = .ok item t) : Drawn n r s item t := by
  cases hsource : (s.iterator r).source with
  | enumerate inner count =>
    rw [draw_enumerate hsource] at h
    cases hnext : nextItem n inner s with
    | error e u =>
      rw [hnext] at h
      cases h
    | ok item u =>
      rw [hnext] at h
      cases item with
      | none =>
        cases h
        exact .enumerates hsource hnext
      | some item =>
        dsimp only at h
        cases hsum : Word.add? count 1 with
        | none =>
          rw [hsum] at h
          cases h
        | some next =>
          rw [hsum] at h
          cases h
          exact .counts hsource hnext hsum
  | zip vs =>
    cases vs with
    | nil =>
      rw [draw_zip_nil hsource] at h
      cases h
      exact .done (by rw [hsource]; rfl) (by rw [hsource]; rfl)
    | cons v vs =>
      rw [draw_zip hsource] at h
      cases hrow : nextRow n (v :: vs) s with
      | error e u =>
        rw [hrow] at h
        cases h
      | ok row u =>
        rw [hrow] at h
        cases row <;> cases h
        · exact .breaks hsource hrow
        · exact .zips hsource hrow (List.cons_ne_nil v vs)
  | list | items | range =>
    have hheld : (s.iterator r).source.isHeld = true := by
      rw [hsource]
      rfl
    rw [draw_held hheld] at h
    cases hdrawn : (s.iterator r).source.draw? s with
    | none =>
      rw [hdrawn] at h
      cases h
      exact .done (Source.inners_of_held hheld) hdrawn
    | some drawn =>
      rw [hdrawn] at h
      cases h
      exact .held hdrawn

end Draw

end Lexiscope.Machine
