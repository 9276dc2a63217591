import Lexiscope.Proofs.Machine.Advances
import Lexiscope.Proofs.Machine.Holdings
import Lexiscope.Proofs.Machine.Integers
/-!
# Enumerations

An enumeration gives the items of its iterator with their numbers, each one more than the one before,
whoever asks for them. The greatest number of 64 bits is never given: the machine stops when it counts
on from there.
-/

namespace Lexiscope.Machine

open Exec
open Likeness (getD_push)

/-- The pairs are the items with their numbers, in order. -/
structure Numbers (start : Int64) (items pairs : List Value) : Prop where
  length : pairs.length = items.length
  pair : ∀ (k : Nat) (item : Value), items[k]? = some item → ∃ id index,
    pairs[k]? = some (.tuple id [.int index, item]) ∧ index.toInt = start.toInt + k

section Numbers

variable {start next : Int64} {items pairs : List Value} {item : Value} {id : Identity}

theorem Numbers.nil (start : Int64) : Numbers start [] [] := by
  refine ⟨rfl, fun k item h => ?_⟩
  cases h

theorem Numbers.cons (h : Numbers next items pairs) (hnext : next.toInt = start.toInt + 1) :
    Numbers start (item :: items) (.tuple id [.int start, item] :: pairs) := by
  refine ⟨congrArg Nat.succ h.length, fun k x hx => ?_⟩
  cases k with
  | zero =>
    cases hx
    exact ⟨id, start, rfl, (Int.add_zero _).symm⟩
  | succ k =>
    obtain ⟨i, index, hpair, hindex⟩ := h.pair k x hx
    exact ⟨i, index, hpair, by omega⟩

theorem Numbers.snoc (h : Numbers start items pairs) (hnext : next.toInt = start.toInt + pairs.length) :
    Numbers start (items ++ [item]) (pairs ++ [.tuple id [.int next, item]]) := by
  refine ⟨by simp [h.length], fun k x hx => ?_⟩
  have hk := (List.getElem?_eq_some_iff.1 hx).1
  rw [List.length_append, List.length_singleton] at hk
  rcases Nat.lt_succ_iff_lt_or_eq.1 hk with hlt | rfl
  · rw [List.getElem?_append_left hlt] at hx
    obtain ⟨i, index, hpair, hindex⟩ := h.pair k x hx
    exact ⟨i, index, by rwa [List.getElem?_append_left (h.length ▸ hlt)], hindex⟩
  · rw [List.getElem?_append_right (Nat.le_refl _), Nat.sub_self] at hx
    cases hx
    refine ⟨id, next, ?_, by rw [hnext, h.length]⟩
    rw [List.getElem?_append_right (Nat.le_of_eq h.length), h.length, Nat.sub_self]
    rfl

end Numbers

/-- The store in which an enumeration has given a pair and counted on. -/
def Store.counted (s : Store) (r : IteratorRef) (inner : Value) (next : Int64) : Store :=
  { s.withIterator r ⟨.enumerate inner next, false⟩ with next := s.next + 1 }

/-- What an advance of an enumeration comes to that has counted so far. -/
inductive Enumerates (n : Nat) (r : IteratorRef) (inner : Value) (count : Int64) (s : Store) :
    EStateM.Result Halt Store (Option Value) → Prop where
  | fails {e t} : nextItem n inner (s.withBusy r true) = .error e t →
    Enumerates n r inner count s (.error e (t.withBusy r false))
  | ends {t} : nextItem n inner (s.withBusy r true) = .ok none t →
    Enumerates n r inner count s (.ok none (t.withBusy r false))
  | overflows {item t} : nextItem n inner (s.withBusy r true) = .ok (some item) t →
    count.toInt = Word.greatest → Enumerates n r inner count s (.error .countOverflow (t.withBusy r false))
  | gives {item t next} : nextItem n inner (s.withBusy r true) = .ok (some item) t →
    next.toInt = count.toInt + 1 →
    Enumerates n r inner count s
      (.ok (some (.tuple (.fresh t.next) [.int count, item])) (t.counted r inner next))

/-- The iterator of an enumeration gives these items, one after the other, and then no more. -/
inductive Drains (r : IteratorRef) (inner : Value) : Int64 → Store → List Value → Store → Prop where
  | ends {count n s t} : nextItem n inner (s.withBusy r true) = .ok none t →
    Drains r inner count s [] (t.withBusy r false)
  | gives {count n s item t next items u} : nextItem n inner (s.withBusy r true) = .ok (some item) t →
    next.toInt = count.toInt + 1 → Drains r inner next (t.counted r inner next) items u →
    Drains r inner count s (item :: items) u

section Advance

variable {s t u : Store} {r : IteratorRef} {inner v : Value} {start count next : Int64} {n : Nat}
  {pairs : List Value} {source : Source}

theorem Store.iterator_counted (hr : r.index < s.iterators.size) :
    (s.counted r inner next).iterator r = ⟨.enumerate inner next, false⟩ :=
  Store.iterator_withIterator hr

theorem nextItem_enumerates (hsource : (s.iterator r).source = .enumerate inner count)
    (hidle : (s.iterator r).busy = false) (n : Nat) :
    Enumerates n r inner count s (nextItem (n + 2) (.iterator r) s) := by
  rw [nextItem_idle hidle, draw_enumerate (Store.source_withBusy.trans hsource)]
  cases hitem : nextItem n inner (s.withBusy r true) with
  | error e t => exact .fails hitem
  | ok item t =>
    cases item with
    | none => exact .ends hitem
    | some item =>
      dsimp only
      cases hnext : Word.add? count 1 with
      | none =>
        have hle := (Word.inRange_toInt count).2
        have hge := (Word.inRange_toInt count).1
        have hout : count.toInt + 1 < Word.least ∨ Word.greatest < count.toInt + 1 :=
          Word.fit?_eq_none_iff.1 hnext
        exact .overflows hitem (by omega)
      | some next =>
        have hcounted : t.counted r inner next =
            ((t.withIterator r { (s.withBusy r true).iterator r with source := .enumerate inner next }).tupled
              [.int count, item]).2.withBusy r false := by
          change _ = { Store.withBusy _ r false with next := t.next + 1 }
          rw [Store.withBusy_withIterator]
          rfl
        have hgives := Enumerates.gives (r := r) hitem (Word.fit?_eq_some_iff.1 hnext)
        rw [hcounted] at hgives
        exact hgives

theorem enumerates_of_ok {item : Option Value} (hsource : (s.iterator r).source = .enumerate inner count)
    (h : nextItem n (.iterator r) s = .ok item t) : ∃ m, Enumerates m r inner count s (.ok item t) := by
  obtain ⟨m, -, rfl, hidle, -, -⟩ := drawn_of_next h
  exact ⟨m, h ▸ nextItem_enumerates hsource hidle m⟩

theorem iterator_of_gives {m : Nat} {item : Value} (hsource : (s.iterator r).source = .enumerate inner count)
    (h : nextItem m inner (s.withBusy r true) = .ok (some item) u) :
    (u.counted r inner next).iterator r = ⟨.enumerate inner next, false⟩ := by
  have hin : r.index < s.iterators.size := inBounds_of_source (by simp [hsource])
  have hrest : (s.withBusy r true).Resettled u := ((advancing_steady.runsAt m).nextItem inner).ok h
  exact Store.iterator_counted (Nat.lt_of_lt_of_le (Store.size_withIterator.symm ▸ hin) hrest.size)

/-- What an enumeration has given are items of its iterator with their numbers, and it counts on from
there. -/
theorem numbers_of_delivers (h : Delivers r (.enumerate inner start) pairs source) : ∃ items count,
    Numbers start items pairs ∧
      (∀ item ∈ items, ∃ n s t, nextItem n inner s = .ok (some item) t) ∧
      source = .enumerate inner count ∧ count.toInt = start.toInt + pairs.length := by
  induction h with
  | nothing => exact ⟨[], start, .nil start, by simp, rfl, by simp⟩
  | item _ _ hnext ih =>
    obtain ⟨items, count, hnumbers, hitems, hsource, hcount⟩ := ih
    obtain ⟨m, hgives⟩ := enumerates_of_ok hsource hnext
    cases hgives with
    | @gives item u next hitem hon =>
      refine ⟨items ++ [item], next, hnumbers.snoc hcount, ?_, ?_, ?_⟩
      · intro x hx
        rcases List.mem_append.1 hx with hx | hx
        · exact hitems x hx
        · rw [List.mem_singleton.1 hx]
          exact ⟨m, _, u, hitem⟩
      · rw [iterator_of_gives hsource hitem]
      · rw [List.length_append, List.length_singleton]
        omega

/-- What is collected from an enumeration are the items that its iterator gives, one after the other,
with their numbers. -/
theorem drains_of_drain {items all : Array Value}
    (hsource : (s.iterator r).source = .enumerate inner count)
    (h : drain n (.iterator r) items s = .ok all t) : ∃ given pairs,
    all.toList = items.toList ++ pairs ∧ Drains r inner count s given t ∧ Numbers count given pairs := by
  induction n generalizing s items count with
  | zero => cases h
  | succ n ih =>
    unfold drain at h
    obtain ⟨pair, u, hnext, hrest⟩ := bind_eq_ok h
    obtain ⟨m, hgives⟩ := enumerates_of_ok hsource hnext
    cases hgives with
    | ends hend =>
      cases hrest
      exact ⟨[], [], (List.append_nil _).symm, .ends hend, .nil count⟩
    | @gives item u next hitem hon =>
      obtain ⟨given, pairs, hall, hdrains, hnumbers⟩ := ih (by rw [iterator_of_gives hsource hitem]) hrest
      refine ⟨item :: given, .tuple (.fresh u.next) [.int count, item] :: pairs, ?_,
        .gives hitem hon hdrains, hnumbers.cons hon⟩
      rw [hall, Array.toList_push, List.append_assoc]
      rfl

end Advance

section Held

variable {s t : Store} {r q : IteratorRef} {v : Value} {count : Int64} {n : Nat} {vs : List Value}
  {source : Source}

theorem nextItem_inside (hne : q ≠ r) (hheld : (s.iterator q).source.isHeld = true)
    (hfree : (s.iterator q).busy = false) (n : Nat) :
    nextItem (n + 2) (.iterator q) (s.withBusy r true) =
      match (s.iterator q).source.draw? s with
      | none => .ok none (s.withBusy r true)
      | some (item, source) =>
        .ok (some item) ((s.withBusy r true).withIterator q ⟨source, false⟩) := by
  have hkept : (s.withBusy r true).iterator q = s.iterator q := Store.iterator_withIterator_of_ne hne
  have hdraw : (s.iterator q).source.draw? (s.withBusy r true) = (s.iterator q).source.draw? s :=
    Source.draw?_of_lists rfl
  have hnext := nextItem_held (hkept ▸ hheld) (hkept ▸ hfree) n
  rw [hkept, hdraw] at hnext
  exact hnext

variable (hsource : (s.iterator r).source = .enumerate (.iterator q) count)
  (hidle : (s.iterator r).busy = false) (hq : q.index < s.iterators.size)
  (hfree : (s.iterator q).busy = false)

include hsource

theorem ne_of_held (hheld : (s.iterator q).source.isHeld = true) : q ≠ r := by
  rintro rfl
  rw [hsource] at hheld
  cases hheld

include hidle hfree

theorem next_ends (hheld : (s.iterator q).source.isHeld = true)
    (hdraw : (s.iterator q).source.draw? s = none) (n : Nat) :
    ∃ u, nextItem (n + 4) (.iterator r) s = .ok none u := by
  have hnext := nextItem_inside (ne_of_held hsource hheld) hheld hfree n
  rw [hdraw] at hnext
  have hgives := nextItem_enumerates hsource hidle (n + 2)
  generalize nextItem (n + 4) (.iterator r) s = result at hgives
  cases hgives with
  | ends => exact ⟨_, rfl⟩
  | fails h | overflows h | gives h => cases hnext.symm.trans h

include hq

/-- An enumeration gives the item that its iterator holds next, with its number, and both go on. -/
theorem next_counts (hdraw : (s.iterator q).source.draw? s = some (v, source))
    (hcount : count.toInt < Word.greatest) (n : Nat) : ∃ id next u,
    nextItem (n + 4) (.iterator r) s = .ok (some (.tuple id [.int count, v])) u ∧
      next.toInt = count.toInt + 1 ∧ u.iterator r = ⟨.enumerate (.iterator q) next, false⟩ ∧
      u.iterator q = ⟨source, false⟩ ∧ u.iterators.size = s.iterators.size ∧ u.lists = s.lists := by
  have hheld := (Source.isHeld_of_draw hdraw).1
  have hne := ne_of_held hsource hheld
  have hnext := nextItem_inside hne hheld hfree n
  rw [hdraw] at hnext
  have hgives := nextItem_enumerates hsource hidle (n + 2)
  generalize nextItem (n + 4) (.iterator r) s = result at hgives
  cases hgives with
  | fails h | ends h => cases hnext.symm.trans h
  | overflows _ hgreatest => omega
  | @gives item t next h hon =>
    cases hnext.symm.trans h
    refine ⟨_, next, _, rfl, hon, iterator_of_gives hsource hnext, ?_, ?_, rfl⟩
    · refine (Store.iterator_withIterator_of_ne hne).trans (Store.iterator_withIterator ?_)
      rwa [Store.size_withBusy]
    · exact Store.size_withIterator.trans (Store.size_withIterator.trans Store.size_withBusy)

/-- An enumeration gives all items that its iterator holds, with their numbers, if there is a number
after the last one. -/
theorem drain_counts (hheld : (s.iterator q).source.Holds s vs)
    (hfits : count.toInt + vs.length ≤ Word.greatest) (n : Nat) (items : Array Value) : ∃ pairs t,
    drain (n + vs.length + 5) (.iterator r) items s = .ok (items ++ pairs.toArray) t ∧
      Numbers count vs pairs := by
  induction vs generalizing s count items with
  | nil =>
    cases hheld with
    | nothing hheld hdraw =>
      obtain ⟨u, hend⟩ := next_ends hsource hidle hfree hheld hdraw n
      refine ⟨[], u, ?_, .nil count⟩
      rw [Array.append_empty]
      unfold drain
      exact bind_ok hend
  | cons v vs ih =>
    cases hheld with
    | item hdraw hrest =>
      rw [List.length_cons] at hfits
      obtain ⟨id, next, u, hnext, hon, hcounted, hgone, hsize, hlists⟩ :=
        next_counts hsource hidle hq hfree hdraw (by omega) (n + vs.length + 1)
      obtain ⟨pairs, w, hdrain, hnumbers⟩ := ih (by rw [hcounted]) (by rw [hcounted]) (hsize ▸ hq)
        (by rw [hgone]) (by rw [hgone]; exact hrest.of_lists hlists) (by omega)
        (items.push (.tuple id [.int count, v]))
      refine ⟨.tuple id [.int count, v] :: pairs, w, ?_, hnumbers.cons hon⟩
      have hfirst : drain (n + (v :: vs).length + 5) (.iterator r) items s =
          drain (n + vs.length + 5) (.iterator r) (items.push (.tuple id [.int count, v])) u := by
        conv => lhs; unfold drain
        exact bind_ok hnext
      rw [hfirst, hdrain]
      simp

end Held

/-- The enumeration has counted so far, and this is what becomes of it, whoever asks for its items. -/
structure CountsOn (r : IteratorRef) (inner : Value) (count : Int64) (s : Store) : Prop where
  source : (s.iterator r).source = .enumerate inner count
  next : (s.iterator r).busy = false → ∀ n, Enumerates n r inner count s (nextItem (n + 2) (.iterator r) s)
  all : ∀ {n pairs t}, collect n (.iterator r) s = .ok pairs t → ∃ items,
    Drains r inner count s items t ∧ Numbers count items pairs.toList
  held : ∀ {q items}, inner = .iterator q → q.index < s.iterators.size →
    (s.iterator r).busy = false → (s.iterator q).busy = false → (s.iterator q).source.Holds s items →
    count.toInt + items.length ≤ Word.greatest → ∀ n, ∃ pairs t,
      collect (n + items.length + 6) (.iterator r) s = .ok pairs t ∧ Numbers count items pairs.toList

section Whole

variable {s t u : Store} {r : IteratorRef} {inner v : Value} {start count : Int64} {keywords : Keywords}
  {supply : Supply}

theorem collect_iterator (n : Nat) (r : IteratorRef) (s : Store) :
    collect (n + 1) (.iterator r) s = drain n (.iterator r) #[] s := by
  unfold collect
  exact bind_ok (x := makeIterator (.iterator r)) rfl

theorem countsOn_of_source (hsource : (s.iterator r).source = .enumerate inner count) :
    CountsOn r inner count s := by
  refine ⟨hsource, nextItem_enumerates hsource, ?_, ?_⟩
  · intro n pairs t h
    cases n with
    | zero => cases h
    | succ n =>
      rw [collect_iterator] at h
      obtain ⟨items, given, hall, hdrains, hnumbers⟩ := drains_of_drain hsource h
      exact ⟨items, hdrains, by rwa [hall]⟩
  · rintro q items rfl hq hidle hfree hheld hfits n
    obtain ⟨pairs, t, hdrain, hnumbers⟩ := drain_counts hsource hidle hq hfree hheld hfits n #[]
    refine ⟨pairs.toArray, t, ?_, hnumbers⟩
    rw [collect_iterator, hdrain, Array.empty_append]

/-- A list with an item, its iterator, and an enumeration of it that starts one before the greatest
number. -/
def almostAll : Store where
  lists := #[#[.int 7]]
  iterators := #[{ source := .list ⟨0⟩ 0 },
    { source := .enumerate (.iterator ⟨0⟩) 9223372036854775806 }]

def haltOfModule (source : String) : Option Halt :=
  match load 60 source "m" {} with
  | (.error (.halted h), _) => some h
  | _ => none

/-- An iterator of two items, and an enumeration of it that starts at the greatest number. -/
def atTheEdge : Store where
  iterators := #[{ source := .items #[.int 7, .int 8] 0 },
    { source := .enumerate (.iterator ⟨0⟩) 9223372036854775807 }]

end Whole

end Lexiscope.Machine
