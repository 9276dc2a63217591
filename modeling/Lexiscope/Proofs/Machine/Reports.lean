import Mathlib.Data.List.Induction
import Lexiscope.Machine.Store
/-!
# What is told of frames

Reports of moments in the lives of frames, in the order in which they are told. Complete groups are
nested: between the entry of a frame and its leaving lie only complete groups. The moments of one
frame are in order: it is entered new or suspended, and left as it was entered.
-/

namespace Lexiscope.Machine

abbrev Report := Moment × Nat

/-- The last moment that was told of a frame. -/
def lastTold (told : List Report) (id : Nat) : Option Moment :=
  (told.reverse.find? (·.2 == id)).map Prod.fst

/-- A frame may come to a moment after the last one that it came to. -/
def Moment.MayFollow : Option Moment → Moment → Prop
  | none, m => m = enter
  | some suspend, m => m = enter
  | some enter, m => m ≠ enter
  | some exit, _ | some unwind, _ => False

/-- Every frame has come to its moments in order. -/
inductive Orderly : List Report → Prop where
  | nil : Orderly []
  | snoc {told m id} : Orderly told → m.MayFollow (lastTold told id) → Orderly (told ++ [(m, id)])

/-- Complete groups, one after the other. -/
inductive Nested : List Report → Prop where
  | nil : Nested []
  | group {inner rest m id} : Nested inner → m ≠ .enter → Nested rest →
    Nested ((.enter, id) :: inner ++ (m, id) :: rest)

/-- Complete groups with the entries of frames that have not been left, the innermost first. -/
inductive Opens : List Report → List Nat → Prop where
  | groups {told} : Nested told → Opens told []
  | enter {told inner ids id} : Opens told ids → Nested inner →
    Opens (told ++ (.enter, id) :: inner) (id :: ids)

section Last

variable {told : List Report} {m : Moment} {id other : Nat}

@[simp] theorem lastTold_nil : lastTold [] id = none := rfl

@[simp] theorem lastTold_snoc_self : lastTold (told ++ [(m, id)]) id = some m := by
  simp [lastTold]

theorem lastTold_snoc_of_ne (h : other ≠ id) :
    lastTold (told ++ [(m, other)]) id = lastTold told id := by
  have hne : (other == id) = false := beq_eq_false_iff_ne.2 h
  simp [lastTold, List.find?_cons_of_neg, hne]

theorem lastTold_eq_none (h : ∀ m, (m, id) ∉ told) : lastTold told id = none := by
  unfold lastTold
  rw [Option.map_eq_none_iff, List.find?_eq_none]
  intro e he hid
  have hmem := List.mem_reverse.1 he
  have heq : e.2 = id := beq_iff_eq.1 hid
  exact h e.1 (heq ▸ hmem)

theorem mem_of_lastTold (h : lastTold told id = some m) : (m, id) ∈ told := by
  unfold lastTold at h
  obtain ⟨e, he, rfl⟩ := Option.map_eq_some_iff.1 h
  have hfound := List.find?_some he
  have hid : e.2 = id := beq_iff_eq.1 hfound
  have hmem := List.mem_reverse.1 (List.mem_of_find?_eq_some he)
  rwa [← hid]

/-- The last moment is the same where frames are numbered in another way. -/
theorem lastTold_map {f : Nat → Nat} (hf : ∀ e ∈ told, f e.2 = f id → e.2 = id) :
    lastTold (told.map fun e => (e.1, f e.2)) (f id) = lastTold told id := by
  induction told using List.reverseRecOn with
  | nil => rfl
  | append_singleton told e ih =>
    have hold := ih fun e' he' => hf e' (List.mem_append_left _ he')
    obtain ⟨m, n⟩ := e
    rw [List.map_append, List.map_cons, List.map_nil]
    by_cases hn : n = id
    · subst hn
      rw [lastTold_snoc_self, lastTold_snoc_self]
    · have hfn : f n ≠ f id := fun h => hn (hf (m, n) (by simp) h)
      rw [lastTold_snoc_of_ne hfn, lastTold_snoc_of_ne hn, hold]

theorem Orderly.map {f : Nat → Nat} (h : Orderly told)
    (hf : ∀ e ∈ told, ∀ e' ∈ told, f e.2 = f e'.2 → e.2 = e'.2) :
    Orderly (told.map fun e => (e.1, f e.2)) := by
  induction h with
  | nil => exact .nil
  | @snoc told m id _ hm ih =>
    have hlast : lastTold (told.map fun e => (e.1, f e.2)) (f id) = lastTold told id := by
      apply lastTold_map
      intro e he heq
      exact hf e (List.mem_append_left _ he) (m, id) (by simp) heq
    have hbefore := ih fun e he e' he' => hf e (List.mem_append_left _ he) e'
      (List.mem_append_left _ he')
    rw [List.map_append, List.map_cons, List.map_nil]
    refine .snoc hbefore ?_
    rw [hlast]
    exact hm

end Last

section Groups

variable {told told' : List Report} {ids : List Nat} {m : Moment} {id : Nat}

theorem Nested.append (h : Nested told) (h' : Nested told') : Nested (told ++ told') := by
  induction h with
  | nil => exact h'
  | @group inner rest m id hinner hm _ _ ih =>
    have hgroup := @Nested.group inner _ m id hinner hm ih
    simpa using hgroup

theorem Opens.append (h : Opens told ids) (h' : Nested told') : Opens (told ++ told') ids := by
  cases h with
  | groups hnested => exact .groups (hnested.append h')
  | enter hopens hinner =>
    rw [List.append_assoc, List.cons_append]
    exact .enter hopens (hinner.append h')

theorem Opens.prepend (h : Opens told ids) (h' : Nested told') : Opens (told' ++ told) ids := by
  induction h with
  | groups hnested => exact .groups (h'.append hnested)
  | enter _ hinner ih =>
    rw [← List.append_assoc]
    exact .enter ih hinner

theorem Opens.entered (h : Opens told ids) : Opens (told ++ [(.enter, id)]) (id :: ids) :=
  .enter h .nil

theorem Opens.left (h : Opens told (id :: ids)) (hm : m ≠ .enter) : Opens (told ++ [(m, id)]) ids := by
  cases h with
  | enter hopens hinner =>
    have hgroup : Nested ((.enter, id) :: _ ++ [(m, id)]) := .group hinner hm .nil
    have happend := hopens.append hgroup
    simpa using happend

theorem Opens.nested (h : Opens told []) : Nested told := by
  cases h
  assumption

theorem Nested.map (h : Nested told) (f : Nat → Nat) : Nested (told.map fun e => (e.1, f e.2)) := by
  induction h with
  | nil => exact .nil
  | @group inner rest m id _ hm _ ihinner ihrest =>
    have hgroup := @Nested.group _ _ m (f id) ihinner hm ihrest
    simpa using hgroup

theorem Opens.map (h : Opens told ids) (f : Nat → Nat) :
    Opens (told.map fun e => (e.1, f e.2)) (ids.map f) := by
  induction h with
  | groups hnested => exact .groups (hnested.map f)
  | @enter told inner ids id _ hinner ih =>
    have hentered := @Opens.enter _ _ _ (f id) ih (hinner.map f)
    simpa using hentered

end Groups

end Lexiscope.Machine
