import Mathlib.Logic.Relation
import Lexiscope.Proofs.Machine.Changes
import Lexiscope.Proofs.Machine.Course
import Lexiscope.Proofs.Machine.Reports
/-!
# Frames that come and go

Seen from far, the machine does few things with frames. It enters a new frame, or one that a generator
holds; it leaves the frame that it entered last, for good or to have it held by a generator; it puts a
new frame into a new generator, or lets a generator lose its frame. All else is calm. Whatever these
steps lead to, the frames that are open are as many as the depth of calls says, and every frame comes
to its moments in order.
-/

namespace Lexiscope.Machine

open Exec

/-- Generators, observers and the depth of calls are as they were, and nothing has been removed. -/
structure Store.Calm (s t : Store) : Prop where
  generators : t.generators = s.generators
  observers : t.observers = s.observers
  depth : t.depth = s.depth
  limit : t.limit = s.limit
  next : s.next ≤ t.next
  cells : s.cells.size ≤ t.cells.size
  spaces : s.spaces.size ≤ t.spaces.size

theorem Store.Calm.trans {s t u : Store} (h : s.Calm t) (h' : t.Calm u) : s.Calm u := by
  constructor
  · exact h'.generators.trans h.generators
  · exact h'.observers.trans h.observers
  · exact h'.depth.trans h.depth
  · exact h'.limit.trans h.limit
  · exact Nat.le_trans h.next h'.next
  · exact Nat.le_trans h.cells h'.cells
  · exact Nat.le_trans h.spaces h'.spaces

theorem Store.Quiet.calm {s t : Store} (h : s.Quiet t) : s.Calm t := by
  have hcells : s.cells.size ≤ t.cells.size :=
    Nat.le_of_eq (congrArg Array.size h.cells.symm)
  have hspaces : s.spaces.size ≤ t.spaces.size :=
    Nat.le_of_eq (congrArg Array.size h.spaces.symm)
  exact ⟨h.generators, h.observers, h.depth, h.limit, h.next, hcells, hspaces⟩

def Change.calm : Change := ⟨Store.Calm, Store.Calm.trans, fun h => h.toQuiet.calm⟩

instance : Change.calm.Loose := ⟨Store.Quiet.calm⟩

/-- The generator holds the frame. -/
def Store.Holds (s : Store) (r : GeneratorRef) (f : Frame) : Prop :=
  (s.generator r).state = .suspended f

/-- How far a run has come: the store, what was told, and the frames that are open, the innermost
first. -/
structure Situation where
  store : Store
  told : List Report
  active : List Nat

/-- Nothing was told of the frame with the number, and no generator holds it. -/
structure Situation.Unknown (σ : Situation) (id : Nat) : Prop where
  next : id < σ.store.next
  told : ∀ m, (m, id) ∉ σ.told
  held : ∀ r f, σ.store.Holds r f → f.id ≠ id

/-- A step of the machine, as far as frames are concerned. -/
inductive Advance : Situation → Situation → Prop where
  | calm {s t told active} : s.Calm t → Advance ⟨s, told, active⟩ ⟨t, told, active⟩
  /-- A new frame is entered. -/
  | start {s f told active} : Situation.Unknown ⟨s, told, active⟩ f.id → s.depth < s.limit →
    Advance ⟨s, told, active⟩ ⟨s.entered f, told ++ [(.enter, f.id)], f.id :: active⟩
  /-- The frame of a generator is woken and entered. -/
  | goOn {s t r f told active} : wake r s = .ok f t → t.depth < t.limit →
    Advance ⟨s, told, active⟩ ⟨t.entered f, told ++ [(.enter, f.id)], f.id :: active⟩
  /-- The innermost frame is left. -/
  | stop {s told active} (q : Stopped) : Advance ⟨s, told, q.frame.id :: active⟩
      ⟨s.left q, told ++ [(q.moment, q.frame.id)], active⟩
  /-- The innermost frame is left to be held by a generator. -/
  | rest {s told active q v} (r : GeneratorRef) : q.result = .ok (.yielded v) →
    Advance ⟨s, told, q.frame.id :: active⟩
      ⟨(setState r (.suspended q.frame)).after (s.left q), told ++ [(.suspend, q.frame.id)], active⟩
  /-- A new frame is held by a new generator. -/
  | keep {s f code told active} : Situation.Unknown ⟨s, told, active⟩ f.id →
    Advance ⟨s, told, active⟩
      ⟨(newGenerator { code, state := .suspended f }).after s, told, active⟩
  /-- A generator has no frame any more. -/
  | drop {s r g told active} : (∀ f, g.state ≠ .suspended f) →
    Advance ⟨s, told, active⟩ ⟨(setGenerator r g).after s, told, active⟩

abbrev Path : Situation → Situation → Prop := Relation.ReflTransGen Advance

section Holding

open Likeness (getD_push getD_setIfInBounds wake_run)

variable {s t : Store} {r q : GeneratorRef} {f g : Frame}

theorem holds_setGenerator {h : Generator} (hq : ((setGenerator r h).after s).Holds q f) :
    q = r ∧ h.state = .suspended f ∨ q ≠ r ∧ s.Holds q f := by
  change ((s.generators.setIfInBounds r.index h).getD q.index default).state = _ at hq
  rw [getD_setIfInBounds] at hq
  split at hq
  · rename_i hr
    have heq : q = r := congrArg GeneratorRef.mk hr.1.symm
    exact .inl ⟨heq, hq⟩
  · rename_i hr
    by_cases heq : q = r
    · subst heq
      -- The reference is to no generator, so it holds nothing.
      have hout : s.generators.size ≤ q.index := by
        apply Nat.le_of_not_lt
        intro hlt
        exact hr ⟨rfl, hlt⟩
      rw [Array.getD_eq_getD_getElem?, Array.getElem?_eq_none hout] at hq
      cases hq
    · exact .inr ⟨heq, hq⟩

theorem holds_newGenerator {h : Generator} (hq : ((newGenerator h).after s).Holds q f) :
    q.index = s.generators.size ∧ h.state = .suspended f ∨ s.Holds q f := by
  change ((s.generators.push h).getD q.index default).state = _ at hq
  rw [getD_push] at hq
  split at hq
  · exact .inl ⟨by assumption, hq⟩
  · exact .inr hq

theorem wake_eq_ok (h : wake r s = .ok f t) : ∃ g, s.Holds r g ∧ f.id = g.id ∧
    t = (setGenerator r { s.generator r with state := .running, started := true }).after s := by
  rw [wake_run] at h
  cases hstate : (s.generator r).state with
  | suspended g =>
    rw [hstate] at h
    cases h
    refine ⟨g, hstate, ?_, rfl⟩
    split <;> rfl
  | running =>
    rw [hstate] at h
    cases h
  | finished =>
    rw [hstate] at h
    cases h

/-- A generator that is woken holds nothing, and the others hold what they held. -/
theorem holds_of_wake (h : wake r s = .ok f t) (hq : t.Holds q g) : q ≠ r ∧ s.Holds q g := by
  obtain ⟨_, _, _, rfl⟩ := wake_eq_ok h
  rcases holds_setGenerator hq with ⟨_, hstate⟩ | hother
  · cases hstate
  · exact hother

end Holding

/-- The frames that are open and those that are held are apart, and their moments are in order. -/
structure Situation.Apart (σ : Situation) : Prop where
  told_lt : ∀ e ∈ σ.told, e.2 < σ.store.next
  held_lt : ∀ r f, σ.store.Holds r f → f.id < σ.store.next
  /-- No two generators hold the same frame. -/
  held_inj : ∀ r q f g, σ.store.Holds r f → σ.store.Holds q g → f.id = g.id → r = q
  /-- A frame that is held is new or suspended. -/
  held_last : ∀ r f, σ.store.Holds r f →
    lastTold σ.told f.id = none ∨ lastTold σ.told f.id = some .suspend
  active_last : ∀ id ∈ σ.active, lastTold σ.told id = some .enter
  nodup : σ.active.Nodup
  orderly : Orderly σ.told

section Steps

variable {σ τ : Situation} {s t : Store} {told : List Report} {active : List Nat} {id : Nat}
  {m : Moment} {r : GeneratorRef} {f : Frame}

theorem Situation.Apart.held_ne_active (h : σ.Apart) (hr : σ.store.Holds r f) (hid : id ∈ σ.active) :
    f.id ≠ id := by
  intro heq
  have hactive := h.active_last id hid
  rw [← heq] at hactive
  rcases h.held_last r f hr with hlast | hlast
  · rw [hlast] at hactive
    cases hactive
  · rw [hlast] at hactive
    cases hactive

/-- Where generators hold no more than they held, a change of the store keeps frames apart. -/
theorem Situation.Apart.holdLess (h : Apart ⟨s, told, active⟩) (hnext : s.next ≤ t.next)
    (hheld : ∀ r f, t.Holds r f → s.Holds r f) : Apart ⟨t, told, active⟩ := by
  constructor
  · intro e he
    exact Nat.lt_of_lt_of_le (h.told_lt e he) hnext
  · intro r f hr
    exact Nat.lt_of_lt_of_le (h.held_lt r f (hheld r f hr)) hnext
  · intro r q f g hr hq
    exact h.held_inj r q f g (hheld r f hr) (hheld q g hq)
  · intro r f hr
    exact h.held_last r f (hheld r f hr)
  · exact h.active_last
  · exact h.nodup
  · exact h.orderly

theorem Situation.Apart.enter (h : Apart ⟨s, told, active⟩) (hlt : id < s.next)
    (hlast : lastTold told id = none ∨ lastTold told id = some .suspend)
    (hheld : ∀ r f, s.Holds r f → f.id ≠ id) :
    Apart ⟨s, told ++ [(.enter, id)], id :: active⟩ := by
  -- The last moment of an open frame is that it was entered, so this frame is not open.
  have hfresh : id ∉ active := by
    intro hmem
    have hactive := h.active_last id hmem
    rcases hlast with hlast | hlast
    · rw [hlast] at hactive
      cases hactive
    · rw [hlast] at hactive
      cases hactive
  constructor
  · intro e he
    rcases List.mem_append.1 he with he | he
    · exact h.told_lt e he
    · rw [List.mem_singleton.1 he]
      exact hlt
  · exact h.held_lt
  · exact h.held_inj
  · intro r f hr
    have hne := hheld r f hr
    rw [lastTold_snoc_of_ne hne.symm]
    exact h.held_last r f hr
  · intro other hother
    rcases List.mem_cons.1 hother with rfl | hother
    · exact lastTold_snoc_self
    · have hne : id ≠ other := by
        rintro rfl
        exact hfresh hother
      rw [lastTold_snoc_of_ne hne]
      exact h.active_last other hother
  · exact List.nodup_cons.2 ⟨hfresh, h.nodup⟩
  · refine .snoc h.orderly ?_
    rcases hlast with hlast | hlast
    · rw [hlast]
      rfl
    · rw [hlast]
      rfl

theorem Situation.Apart.leave (h : Apart ⟨s, told, id :: active⟩) (hm : m ≠ .enter) :
    Apart ⟨s, told ++ [(m, id)], active⟩ := by
  have hmem : id ∈ id :: active := List.mem_cons_self
  have hlast : lastTold told id = some .enter := h.active_last id hmem
  obtain ⟨hfresh, hnodup⟩ := List.nodup_cons.1 h.nodup
  constructor
  · intro e he
    rcases List.mem_append.1 he with he | he
    · exact h.told_lt e he
    · rw [List.mem_singleton.1 he]
      exact h.told_lt (.enter, id) (mem_of_lastTold hlast)
  · exact h.held_lt
  · exact h.held_inj
  · intro r f hr
    have hne := h.held_ne_active hr hmem
    rw [lastTold_snoc_of_ne hne.symm]
    exact h.held_last r f hr
  · intro other hother
    have hne : id ≠ other := by
      rintro rfl
      exact hfresh hother
    rw [lastTold_snoc_of_ne hne]
    exact h.active_last other (List.mem_cons_of_mem id hother)
  · exact hnodup
  · refine .snoc h.orderly ?_
    rw [hlast]
    exact hm

theorem Situation.Apart.hold (h : Apart ⟨s, told, active⟩) (hnext : t.next = s.next)
    (hlt : f.id < s.next) (hlast : lastTold told f.id = none ∨ lastTold told f.id = some .suspend)
    (hnew : ∀ q g, s.Holds q g → g.id ≠ f.id)
    (hheld : ∀ q g, t.Holds q g → q = r ∧ g = f ∨ s.Holds q g) : Apart ⟨t, told, active⟩ := by
  constructor
  · intro e he
    rw [hnext]
    exact h.told_lt e he
  · intro q g hq
    rw [hnext]
    rcases hheld q g hq with ⟨_, rfl⟩ | hq
    · exact hlt
    · exact h.held_lt q g hq
  · intro q p g g' hq hp heq
    rcases hheld q g hq with ⟨rfl, rfl⟩ | hq
    · rcases hheld p g' hp with ⟨rfl, _⟩ | hp
      · rfl
      · exact absurd heq.symm (hnew p g' hp)
    · rcases hheld p g' hp with ⟨rfl, rfl⟩ | hp
      · exact absurd heq (hnew q g hq)
      · exact h.held_inj q p g g' hq hp heq
  · intro q g hq
    rcases hheld q g hq with ⟨_, rfl⟩ | hq
    · exact hlast
    · exact h.held_last q g hq
  · exact h.active_last
  · exact h.nodup
  · exact h.orderly

theorem Stopped.moment_ne_enter (q : Stopped) : q.moment ≠ .enter := by
  unfold Stopped.moment
  split <;> simp

theorem Advance.apart (h : Advance σ τ) (hσ : σ.Apart) : τ.Apart := by
  cases h with
  | @calm s t told active hcalm =>
    have hheld : ∀ r f, t.Holds r f → s.Holds r f := by
      intro r f hr
      unfold Store.Holds Store.generator at hr ⊢
      rwa [← hcalm.generators]
    exact hσ.holdLess hcalm.next hheld
  | @start s f told active hnew hroom =>
    have hentered := hσ.enter hnew.next (.inl (lastTold_eq_none hnew.told)) hnew.held
    exact hentered.holdLess (Nat.le_refl _) fun _ _ hr => hr
  | @goOn s t r f told active hwake hroom =>
    obtain ⟨g, hg, hid, ht⟩ := wake_eq_ok hwake
    have hnext : t.next = s.next := by rw [ht]; rfl
    have hwoken : Situation.Apart ⟨t, told, active⟩ :=
      hσ.holdLess (Nat.le_of_eq hnext.symm) fun q p hq => (holds_of_wake hwake hq).2
    have hlt : f.id < t.next := by
      rw [hid, hnext]
      exact hσ.held_lt r g hg
    have hlast := hσ.held_last r g hg
    rw [← hid] at hlast
    -- The generator held the frame before, so no other one does.
    have hheld : ∀ q p, t.Holds q p → p.id ≠ f.id := by
      intro q p hq heq
      obtain ⟨hne, hq⟩ := holds_of_wake hwake hq
      exact hne (hσ.held_inj q r p g hq hg (heq.trans hid))
    have hentered := hwoken.enter hlt hlast hheld
    exact hentered.holdLess (Nat.le_refl _) fun _ _ hr => hr
  | @stop s told active q =>
    have hleft := hσ.leave q.moment_ne_enter
    exact hleft.holdLess (Nat.le_refl _) fun _ _ hr => hr
  | @rest s told active q v r hq =>
    have hmem : q.frame.id ∈ q.frame.id :: active := List.mem_cons_self
    have hleft : Situation.Apart ⟨s, told ++ [(.suspend, q.frame.id)], active⟩ := hσ.leave (by simp)
    have hlt := hσ.told_lt _ (mem_of_lastTold (hσ.active_last _ hmem))
    refine hleft.hold (f := q.frame) (r := r) rfl hlt (.inr lastTold_snoc_self) ?_ ?_
    · intro p g hp
      exact hσ.held_ne_active hp hmem
    · intro p g hp
      rcases holds_setGenerator hp with ⟨hpr, hstate⟩ | ⟨_, hp⟩
      · cases hstate
        exact .inl ⟨hpr, rfl⟩
      · exact .inr hp
  | @keep s f code told active hnew =>
    refine hσ.hold (f := f) (r := ⟨s.generators.size⟩) rfl hnew.next
      (.inl (lastTold_eq_none hnew.told)) hnew.held ?_
    intro p g hp
    rcases holds_newGenerator hp with ⟨hindex, hstate⟩ | hp
    · cases hstate
      exact .inl ⟨congrArg GeneratorRef.mk hindex, rfl⟩
    · exact .inr hp
  | @drop s r g told active hg =>
    refine hσ.holdLess (Nat.le_refl _) fun q p hq => ?_
    rcases holds_setGenerator hq with ⟨_, hstate⟩ | ⟨_, hq⟩
    · exact absurd hstate (hg p)
    · exact hq

theorem Path.apart (h : Path σ τ) (hσ : σ.Apart) : τ.Apart := by
  induction h with
  | refl => exact hσ
  | tail _ hstep ih => exact hstep.apart ih

end Steps

end Lexiscope.Machine
