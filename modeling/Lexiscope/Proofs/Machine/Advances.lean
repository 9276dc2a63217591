import Lexiscope.Proofs.Machine.Generators
import Lexiscope.Proofs.Machine.Iterators
/-!
# Iterators that are advanced

Nothing but an advance that gives an item makes anything of an iterator, whatever runs. While an iterator
is being advanced it is left alone, so each advance takes it up as the one before has left it.
-/

namespace Lexiscope.Machine

open Exec
open Likeness (getD_push)

/-- What an iterator has given in advances that took it from one source to another. -/
inductive Delivers (r : IteratorRef) (a : Source) : List Value → Source → Prop where
  | nothing : Delivers r a [] a
  | item {vs n s v t} : Delivers r a vs (s.iterator r).source → r.index < s.iterators.size →
    nextItem n (.iterator r) s = .ok (some v) t → Delivers r a (vs ++ [v]) (t.iterator r).source

theorem Delivers.append {r : IteratorRef} {a b c : Source} {vs ws : List Value} (h : Delivers r a vs b)
    (h' : Delivers r b ws c) : Delivers r a (vs ++ ws) c := by
  induction h' with
  | nothing => rwa [List.append_nil]
  | item _ hr hnext ih =>
    rw [← List.append_assoc]
    exact .item ih hr hnext

/-- Iterators have been advanced, and none has been removed. -/
structure Store.Advanced (s t : Store) : Prop where
  size : s.iterators.size ≤ t.iterators.size
  given : ∀ r, r.index < s.iterators.size →
    ∃ vs, Delivers r (s.iterator r).source vs (t.iterator r).source

/-- The advances are over: what was being advanced before has been left alone. -/
structure Store.Resettled (s t : Store) : Prop extends s.Advanced t where
  busy : ∀ r, r.index < s.iterators.size → (s.iterator r).busy = true → t.iterator r = s.iterator r
  idle : ∀ r, r.index < s.iterators.size → (s.iterator r).busy = false → (t.iterator r).busy = false

section Order

variable {s t u : Store}

theorem Store.Advanced.of_source (hsize : s.iterators.size ≤ t.iterators.size)
    (hsource : ∀ r, r.index < s.iterators.size → (t.iterator r).source = (s.iterator r).source) :
    s.Advanced t :=
  ⟨hsize, fun r hr => ⟨[], hsource r hr ▸ .nothing⟩⟩

theorem Store.Advanced.trans (h : s.Advanced t) (h' : t.Advanced u) : s.Advanced u := by
  refine ⟨Nat.le_trans h.size h'.size, fun r hr => ?_⟩
  obtain ⟨vs, hgiven⟩ := h.given r hr
  obtain ⟨ws, hgiven'⟩ := h'.given r (Nat.lt_of_lt_of_le hr h.size)
  exact ⟨vs ++ ws, hgiven.append hgiven'⟩

theorem Store.Resettled.trans (h : s.Resettled t) (h' : t.Resettled u) : s.Resettled u := by
  refine ⟨h.toAdvanced.trans h'.toAdvanced, fun r hr hbusy => ?_, fun r hr hidle => ?_⟩
  · have hkept := h.busy r hr hbusy
    exact (h'.busy r (Nat.lt_of_lt_of_le hr h.size) (hkept ▸ hbusy)).trans hkept
  · exact h'.idle r (Nat.lt_of_lt_of_le hr h.size) (h.idle r hr hidle)

theorem Store.Resettled.of_kept (hsize : s.iterators.size ≤ t.iterators.size)
    (hkept : ∀ r : IteratorRef, r.index < s.iterators.size → t.iterator r = s.iterator r) :
    s.Resettled t := by
  refine ⟨.of_source hsize fun r hr => by rw [hkept r hr], fun r hr _ => hkept r hr, fun r hr h => ?_⟩
  rwa [hkept r hr]

theorem Store.Resettled.of_eq (h : t.iterators = s.iterators) : s.Resettled t := by
  refine .of_kept (Nat.le_of_eq (congrArg Array.size h.symm)) fun r _ => ?_
  unfold Store.iterator
  rw [h]

end Order

def Change.advancing : Change :=
  ⟨Store.Resettled, Store.Resettled.trans, fun h => .of_kept h.iterators h.iterator⟩

section Draw

variable {s : Store} {r : IteratorRef} {n : Nat}

/-- What comes of drawing an item. Other advances are over by then, and only the iterator itself has been
set beside them, where there is an item. -/
inductive Draws (r : IteratorRef) (s : Store) : EStateM.Result Halt Store (Option Value) → Prop where
  | fails {e t} : s.Resettled t → Draws r s (.error e t)
  | ends {t} : s.Resettled t → Draws r s (.ok none t)
  | gives {v t u} : s.Resettled t → u.iterators.size = t.iterators.size →
    (∀ q, q ≠ r → u.iterator q = t.iterator q) → Draws r s (.ok (some v) u)

theorem draw_draws (hruns : ∀ m < n, Change.advancing.RunsAt m) (r : IteratorRef) (s : Store) :
    Draws r s (draw n r s) := by
  cases n with
  | zero => exact .fails (.of_eq rfl)
  | succ n =>
    have hnext := (hruns n (Nat.lt_succ_self n)).nextItem
    have hrow := (hruns n (Nat.lt_succ_self n)).nextRow
    cases hsource : (s.iterator r).source with
    | enumerate inner count =>
      rw [draw_enumerate hsource]
      cases hitem : nextItem n inner s with
      | error e t => exact .fails ((hnext inner).error hitem)
      | ok item t =>
        have hrest : s.Resettled t := (hnext inner).ok hitem
        cases item with
        | none => exact .ends hrest
        | some item =>
          dsimp only
          split
          · exact .fails hrest
          · exact .gives hrest Store.size_withIterator fun q hq => Store.iterator_withIterator_of_ne hq
    | zip inners =>
      cases inners with
      | nil =>
        rw [draw_zip_nil hsource]
        exact .ends (.of_eq rfl)
      | cons v vs =>
        rw [draw_zip hsource]
        cases hitems : nextRow n (v :: vs) s with
        | error e t => exact .fails ((hrow _).error hitems)
        | ok row t =>
          have hrest : s.Resettled t := (hrow _).ok hitems
          cases row with
          | none => exact .ends hrest
          | some row => exact .gives hrest rfl fun _ _ => rfl
    | list | items | range =>
      rw [draw_held (by rw [hsource]; rfl)]
      split
      · exact .ends (.of_eq rfl)
      · exact .gives (.of_eq rfl) Store.size_withIterator
          fun q hq => Store.iterator_withIterator_of_ne hq

/-- The iterator was not being advanced, it was while others were advanced, and it is not any more. -/
theorem Store.Resettled.around {t u : Store} (hidle : (s.iterator r).busy = false)
    (hrest : (s.withBusy r true).Resettled t) (hsize : u.iterators.size = t.iterators.size)
    (hothers : ∀ q, q ≠ r → u.iterator q = t.iterator q)
    (hself : r.index < s.iterators.size →
      ∃ vs, Delivers r (s.iterator r).source vs ((u.withBusy r false).iterator r).source) :
    s.Resettled (u.withBusy r false) := by
  have hbefore : (s.withBusy r true).iterators.size = s.iterators.size := Store.size_withIterator
  have hafter : (u.withBusy r false).iterators.size = t.iterators.size :=
    Store.size_withIterator.trans hsize
  have hle : s.iterators.size ≤ (u.withBusy r false).iterators.size := by
    rw [hafter, ← hbefore]
    exact hrest.size
  have hsame : ∀ {q}, q ≠ r → (s.withBusy r true).iterator q = s.iterator q ∧
      (u.withBusy r false).iterator q = t.iterator q := fun hq =>
    ⟨Store.iterator_withIterator_of_ne hq, (Store.iterator_withIterator_of_ne hq).trans (hothers _ hq)⟩
  refine ⟨⟨hle, fun q hq => ?_⟩, fun q hq hbusy => ?_, fun q hq hfree => ?_⟩
  · by_cases heq : q = r
    · subst heq
      exact hself hq
    · have hgiven := hrest.given q (hbefore ▸ hq)
      rwa [(hsame heq).1, ← (hsame heq).2] at hgiven
  · have heq : q ≠ r := by
      rintro rfl
      exact Bool.noConfusion (hidle.symm.trans hbusy)
    have hkept := hrest.busy q (hbefore ▸ hq)
    rw [(hsame heq).1] at hkept
    exact (hsame heq).2.trans (hkept hbusy)
  · by_cases heq : q = r
    · subst heq
      have hin : q.index < u.iterators.size := by
        rw [hsize, ← hafter]
        exact Nat.lt_of_lt_of_le hq hle
      rw [Store.withBusy, Store.iterator_withIterator hin]
    · have hkept := hrest.idle q (hbefore ▸ hq)
      rw [(hsame heq).1] at hkept
      rw [(hsame heq).2]
      exact hkept hfree

/-- While an iterator is being advanced, its source stays where it is. -/
theorem Store.Resettled.source_kept {t : Store} (hrest : (s.withBusy r true).Resettled t)
    (hr : r.index < s.iterators.size) : (t.iterator r).source = (s.iterator r).source := by
  have hin : r.index < (s.withBusy r true).iterators.size := Store.size_withIterator.symm ▸ hr
  have hself : (s.withBusy r true).iterator r = { s.iterator r with busy := true } :=
    Store.iterator_withIterator hr
  rw [hrest.busy r hin (by rw [hself]), hself]

/-- An advance leaves the other iterators as the advances within it have left them. It takes its own one
further only if it gives an item. -/
theorem advancing_iterator (hruns : ∀ m < n, Change.advancing.RunsAt m) (r : IteratorRef) :
    Change.advancing.Allows (nextItem (n + 1) (.iterator r)) := by
  constructor
  intro s
  cases hbusy : (s.iterator r).busy with
  | true =>
    rw [after_error (nextItem_busy hbusy n)]
    exact .of_eq rfl
  | false =>
    have hrun := nextItem_idle hbusy n
    have hdraws := draw_draws hruns r (s.withBusy r true)
    -- Without an item the iterator is as it was, since nobody else may advance it meanwhile.
    have hwaits : ∀ t : Store, (s.withBusy r true).Resettled t → s.Resettled (t.withBusy r false) := by
      intro t hrest
      refine .around hbusy hrest rfl (fun _ _ => rfl) fun hr => ⟨[], ?_⟩
      have hsource : ((t.withBusy r false).iterator r).source = (s.iterator r).source :=
        Store.source_withBusy.trans (hrest.source_kept hr)
      rw [hsource]
      exact .nothing
    generalize draw n r (s.withBusy r true) = result at hrun hdraws
    cases hdraws with
    | fails hrest =>
      rw [after_error hrun]
      exact hwaits _ hrest
    | ends hrest =>
      rw [after_ok hrun]
      exact hwaits _ hrest
    | gives hrest hsize hothers =>
      rw [after_ok hrun]
      exact .around hbusy hrest hsize hothers fun hr => ⟨_, .item .nothing hr hrun⟩

end Draw

section Steady

variable {n : Nat}

theorem advancing_entered (s : Store) (f : Frame) : Change.advancing.rel s (s.entered f) := .of_eq rfl

theorem advancing_left (s : Store) (q : Stopped) : Change.advancing.rel s (s.left q) := .of_eq rfl

instance : Change.advancing.Writes where
  newCell _ := ⟨fun _ => .of_eq rfl⟩
  newSpace _ := ⟨fun _ => .of_eq rfl⟩
  setCell _ _ := ⟨fun _ => .of_eq rfl⟩
  setName _ _ _ := ⟨fun _ => .of_eq rfl⟩

instance : Change.advancing.Wakes where
  newGenerator _ := ⟨fun _ => .of_eq rfl⟩
  setGenerator _ _ := ⟨fun _ => .of_eq rfl⟩

theorem advancing_steady : Change.advancing.Steady := by
  apply Change.steady_of_writes
  · exact advancing_entered
  · exact advancing_left
  · exact fun _ => allows_newGenerator
  · intro n hruns
    exact (hruns n (Nat.le_refl n)).nextItem_of
      (advancing_iterator fun m hm => hruns m (Nat.le_of_lt hm))
  · exact allows_resume advancing_entered advancing_left

theorem advancing_execute (n : Nat) (f : Frame) : Change.advancing.Allows (execute n f) :=
  allows_execute advancing_entered advancing_left (fun m _ => (advancing_steady.runsAt m).runFrame) f

theorem resettled_of_operation {task : Task} {s : Store} (h : task.IsOperation) :
    s.Resettled (Stage.after ⟨n, task, s⟩) := by
  refine advancing_steady.operation (fun n code globals => ?_) h
  refine allows_make.bind fun f => (advancing_execute n f).bind fun r => ?_
  split <;> infer_instance

end Steady

/-- What the machine does, as a whole or on the way. -/
inductive Proceeds : Store → Store → Prop where
  | mild {s t} : s.Mild t → Proceeds s t
  | whole {n task s} : task.IsOperation → Proceeds s (Stage.after ⟨n, task, s⟩)
  | turn {n f s} : Proceeds s ((turn n f).after s)
  | step {f s} : Proceeds s ((step f).after s)
  | function {f args keywords s} : Proceeds s ((enterFunction f args keywords).after s)
  | space {s} : Proceeds s ((newSpace .empty).after s)
  | classBody {f space s} : Proceeds s ((enterClassBody f space).after s)
  | enters {f s} : Proceeds s (s.entered f)
  | wakes {r s} : Proceeds s ((wake r).after s)
  | marks {r busy s} : Proceeds s (s.withBusy r busy)

/-- A store that comes later. -/
abbrev Later : Store → Store → Prop := Relation.ReflTransGen Proceeds

section Later

variable {s t : Store} {r : GeneratorRef}

theorem Proceeds.advanced (h : Proceeds s t) : s.Advanced t := by
  have hallowed : ∀ {α : Type} {x : Exec α}, Change.advancing.Allows x → s.Advanced (x.after s) :=
    fun hx => (hx.after s).toAdvanced
  cases h with
  | mild h => exact (Change.advancing.mild h).toAdvanced
  | whole h => exact (resettled_of_operation h).toAdvanced
  | turn => exact hallowed ((advancing_steady.runsAt _).turn advancing_steady.step _)
  | step => exact hallowed (allows_step_of_writes _)
  | function => exact hallowed allows_enterFunction
  | space => exact hallowed allows_newSpace
  | classBody => exact hallowed allows_enterClassBody
  | enters => exact (advancing_entered _ _).toAdvanced
  | wakes => exact hallowed allows_wake
  | marks => exact .of_source (Nat.le_of_eq Store.size_withBusy.symm) fun _ _ => Store.source_withBusy

/-- A generator that is finished stays so. -/
theorem Proceeds.finished (h : Proceeds s t) (hin : r.index < s.generators.size)
    (hs : (s.generator r).state = .finished) :
    r.index < t.generators.size ∧ (t.generator r).state = .finished := by
  have hstill : s.Onward t → r.index < t.generators.size ∧ (t.generator r).state = .finished := by
    intro honward
    refine ⟨Nat.lt_of_lt_of_le hin honward.size, ?_⟩
    rw [(honward.generator r hin).still (by simp [hs]), hs]
  have hallowed : ∀ {α : Type} {x : Exec α}, Change.calm.Allows x → s.Onward (x.after s) :=
    fun hx => (onward_of_calm hx).after s
  cases h with
  | mild h => exact hstill (Change.onward.mild h)
  | @whole n task _ => exact hstill (onward_stage ⟨n, task, s⟩)
  | turn => exact hstill (((onward_steady.runsAt _).turn onward_steady.step _).after s)
  | step => exact hstill (hallowed calm_step)
  | function => exact hstill (hallowed calm_enterFunction)
  | space => exact hstill (hallowed calm_newSpace)
  | classBody => exact hstill (hallowed calm_enterClassBody)
  | enters => exact hstill (onward_entered _ _)
  | marks => exact ⟨hin, hs⟩
  | @wakes q =>
    rcases wake_cases q s with ⟨e, hwake⟩ | ⟨f, u, hwake⟩
    · rw [after_error hwake]
      exact ⟨hin, hs⟩
    · obtain ⟨-, ⟨f', hf', -⟩, hsize, -, hothers⟩ := woken hwake
      have hne : r ≠ q := by
        rintro rfl
        rw [hs] at hf'
        cases hf'
      rw [after_ok hwake, hothers r hne, hsize]
      exact ⟨hin, hs⟩

theorem Later.finished (h : Later s t) (hin : r.index < s.generators.size)
    (hs : (s.generator r).state = .finished) :
    r.index < t.generators.size ∧ (t.generator r).state = .finished := by
  induction h with
  | refl => exact ⟨hin, hs⟩
  | tail _ hstep ih => exact hstep.finished ih.1 ih.2

theorem Later.advanced (h : Later s t) : s.Advanced t := by
  induction h with
  | refl => exact (Change.advancing.refl s).toAdvanced
  | tail _ hstep ih => exact ih.trans hstep.advanced

end Later

/-- How a source goes on when an item is given. -/
inductive Source.Onto (s : Store) : Source → Source → Prop where
  | held {v source source'} : source.draw? s = some (v, source') → Onto s source source'
  | enumerate {inner count next} : Onto s (.enumerate inner count) (.enumerate inner next)
  | zip {vs} : Onto s (.zip vs) (.zip vs)

section Sources

variable {s t : Store} {r : IteratorRef} {n : Nat} {v : Value} {vs : List Value} {a b : Source}

theorem inBounds_of_source (h : ∀ l i, (s.iterator r).source ≠ .list l i) :
    r.index < s.iterators.size := by
  by_contra hout
  have hdefault : s.iterator r = default := by
    unfold Store.iterator
    rw [Array.getD_eq_getD_getElem?, Array.getElem?_eq_none (Nat.le_of_not_lt hout)]
    rfl
  exact h ⟨default⟩ default (by rw [hdefault]; rfl)

theorem onto_of_next (hr : r.index < s.iterators.size) (h : nextItem n (.iterator r) s = .ok (some v) t) :
    (s.iterator r).source.Onto s (t.iterator r).source := by
  obtain ⟨m, u, -, -, hdraw, rfl⟩ := drawn_of_next h
  have hsame : ((s.withBusy r true).iterator r).source = (s.iterator r).source :=
    Store.source_withBusy
  have hin : r.index < (s.withBusy r true).iterators.size := Store.size_withBusy.symm ▸ hr
  rw [Store.source_withBusy]
  cases drawn_of_draw hdraw with
  | held hdrawn =>
    rw [Store.iterator_withIterator hin]
    exact .held (hsame ▸ hdrawn)
  | @counts inner count item u next hsource hnext hsum =>
    -- The iterator is set after the one below was advanced. It is still there.
    have hsize := (((advancing_steady.runsAt m).nextItem inner).ok hnext).size
    have hset : ((u.withIterator r { (s.withBusy r true).iterator r with
        source := .enumerate inner next }).tupled [.int count, item]).2.iterator r = _ :=
      Store.iterator_withIterator (Nat.lt_of_lt_of_le hin hsize)
    rw [hset, ← hsame, hsource]
    exact .enumerate
  | @zips vs row u hsource hrow =>
    have hkept := Store.Resettled.source_kept (((advancing_steady.runsAt m).nextRow vs).ok hrow) hr
    have hset : ((u.tupled row).2.iterator r).source = (u.iterator r).source := rfl
    rw [hset, hkept, ← hsame, hsource]
    exact .zip

theorem Source.Onto.inners (h : a.Onto s b) : b.inners = a.inners := by
  cases h with
  | held hdrawn =>
    obtain ⟨hbefore, hafter⟩ := isHeld_of_draw hdrawn
    rw [inners_of_held hbefore, inners_of_held hafter]
  | enumerate | zip => rfl

theorem Delivers.inners (h : Delivers r a vs b) : b.inners = a.inners := by
  induction h with
  | nothing => rfl
  | item _ hr hnext ih => exact (onto_of_next hr hnext).inners.trans ih

end Sources

section Ends

variable {s t : Store} {r : IteratorRef} {n : Nat}

theorem source_of_end (hr : r.index < s.iterators.size) (h : nextItem n (.iterator r) s = .ok none t) :
    (t.iterator r).source = (s.iterator r).source := by
  obtain ⟨m, u, -, -, hdraw, rfl⟩ := drawn_of_next h
  have hdraws := draw_draws (n := m + 1) (fun m _ => advancing_steady.runsAt m) r (s.withBusy r true)
  rw [hdraw] at hdraws
  cases hdraws with
  | ends hrest => exact Store.source_withBusy.trans (hrest.source_kept hr)

end Ends

end Lexiscope.Machine
