import Lexiscope.Proofs.Code.Finishing
import Lexiscope.Proofs.Code.Places
/-!
# What is generated stays

While a body is compiled its builder only grows: no instruction is taken back, no place in a pool
is given anew, and no label is bound twice. So what a builder has at some moment is found again in
the finished code.
-/

namespace Lexiscope.Code

open Lexical (Scope)

def Keeps {α : Type} (p q : Array α) : Prop := ∀ (i : Nat) (a : α), p[i]? = some a → q[i]? = some a

theorem Keeps.refl {α : Type} (p : Array α) : Keeps p p := fun _ _ h => h

theorem Keeps.trans {α : Type} {p q r : Array α} (h : Keeps p q) (h' : Keeps q r) : Keeps p r :=
  fun i a ha => h' i a (h i a ha)

theorem keeps_push {α : Type} (p : Array α) (a : α) : Keeps p (p.push a) := by
  intro i b hb
  obtain ⟨hlt, -⟩ := Array.getElem?_eq_some_iff.1 hb
  rw [Array.getElem?_push, if_neg (by omega)]
  exact hb

theorem Keeps.size_le {α : Type} {p q : Array α} (h : Keeps p q) : p.size ≤ q.size := by
  by_contra hlt
  obtain ⟨hq, -⟩ := Array.getElem?_eq_some_iff.1 (h q.size _ (Array.getElem?_eq_getElem (by omega)))
  exact Nat.lt_irrefl _ hq

theorem Keeps.findIdx? {α : Type} {p q : Array α} {f : α → Bool} {i : Nat} (h : Keeps p q)
    (hi : p.findIdx? f = some i) : q.findIdx? f = some i := by
  obtain ⟨hlt, hfound, hfirst⟩ := Array.findIdx?_eq_some_iff_getElem.1 hi
  have hget : ∀ (j : Nat) (hj : j < p.size), ∃ hj' : j < q.size, q[j] = p[j] := fun j hj =>
    Array.getElem?_eq_some_iff.1 (h j _ (Array.getElem?_eq_getElem hj))
  obtain ⟨hlt', heq⟩ := hget i hlt
  refine Array.findIdx?_eq_some_iff_getElem.2 ⟨hlt', heq ▸ hfound, fun j hji => ?_⟩
  obtain ⟨_, heq⟩ := hget j (by omega)
  rw [heq]
  exact hfirst j hji

theorem idxOf?_eq_findIdx? (p : Array Name) (name : Name) :
    p.idxOf? name = p.findIdx? (· == name) := by
  obtain ⟨names⟩ := p
  rw [List.idxOf?_toArray, List.findIdx?_toArray, List.idxOf?]

theorem getElem?_of_idxOf? {p : Array Name} {name : Name} {i : Nat} (h : p.idxOf? name = some i) :
    p[i]? = some name := by
  rw [idxOf?_eq_findIdx?, Array.findIdx?_eq_some_iff_getElem] at h
  obtain ⟨hlt, hfound, -⟩ := h
  exact Array.getElem?_eq_some_iff.2 ⟨hlt, beq_iff_eq.1 hfound⟩

theorem Keeps.idxOf? {p q : Array Name} {name : Name} {i : Nat} (h : Keeps p q)
    (hi : p.idxOf? name = some i) : q.idxOf? name = some i := by
  rw [idxOf?_eq_findIdx?] at hi ⊢
  exact h.findIdx? hi

theorem Keeps.codePlaces {p q : Array (Constant Object)} (h : Keeps p q) :
    codePlaces p <+: codePlaces q := by
  obtain ⟨k, hk⟩ := Nat.exists_eq_add_of_le h.size_le
  have hfilter : (List.range p.size).filter (holdsCode q) =
      (List.range p.size).filter (holdsCode p) := by
    refine List.filter_congr fun i hi => ?_
    have hget := Array.getElem?_eq_getElem (List.mem_range.1 hi)
    rw [holdsCode, holdsCode, h i _ hget, hget]
  unfold Code.codePlaces
  rw [hk, List.range_add, List.filter_append, hfilter]
  exact List.prefix_append _ _

namespace Builder

variable {κ : Type}

/-- Jumps stand where there are instructions, no two of them at one place. -/
structure Tidy (b : Builder κ) : Prop where
  jumps : ∀ j ∈ b.jumps, j.1 < b.instructions.size
  distinct : (b.jumps.map Prod.fst).Nodup

/-- All that was generated is there still, at the same places. -/
structure Retains (b b' : Builder κ) : Prop where
  instructions : Keeps b.instructions b'.instructions
  size : b.instructions.size ≤ b'.instructions.size
  constants : Keeps b.constants b'.constants
  names : Keeps b.names b'.names
  varnames : Keeps b.varnames b'.varnames
  cellvars : b'.cellvars = b.cellvars
  freevars : b'.freevars = b.freevars
  jumps : ∀ j ∈ b.jumps, j ∈ b'.jumps
  newJumps : ∀ j ∈ b'.jumps, j ∈ b.jumps ∨ b.instructions.size ≤ j.1
  tidy : b.Tidy → b'.Tidy

/-- More was generated, and a label that was bound is bound to the same place. -/
structure Grows (b b' : Builder κ) : Prop extends Retains b b' where
  labels : b.labels.size ≤ b'.labels.size
  bound : ∀ l p : Nat, b.labels[l]? = some (some p) → b'.labels[l]? = some (some p)

/-- More was generated, and no label was bound that had been there before. -/
structure Extends (b b' : Builder κ) : Prop extends Grows b b' where
  untouched : ∀ l < b.labels.size, b'.labels[l]? = b.labels[l]?

theorem Retains.refl (b : Builder κ) : b.Retains b where
  instructions := .refl _
  size := Nat.le_refl _
  constants := .refl _
  names := .refl _
  varnames := .refl _
  cellvars := rfl
  freevars := rfl
  jumps _ h := h
  newJumps _ h := .inl h
  tidy h := h

theorem Retains.trans {b b' b'' : Builder κ} (h : b.Retains b') (h' : b'.Retains b'') :
    b.Retains b'' where
  instructions := h.instructions.trans h'.instructions
  size := Nat.le_trans h.size h'.size
  constants := h.constants.trans h'.constants
  names := h.names.trans h'.names
  varnames := h.varnames.trans h'.varnames
  cellvars := h'.cellvars.trans h.cellvars
  freevars := h'.freevars.trans h.freevars
  jumps j hj := h'.jumps j (h.jumps j hj)
  newJumps j hj := by
    rcases h'.newJumps j hj with hj | hj
    · exact h.newJumps j hj
    · exact .inr (Nat.le_trans h.size hj)
  tidy hb := h'.tidy (h.tidy hb)

theorem Grows.refl (b : Builder κ) : b.Grows b := ⟨.refl b, Nat.le_refl _, fun _ _ h => h⟩

theorem Grows.trans {b b' b'' : Builder κ} (h : b.Grows b') (h' : b'.Grows b'') : b.Grows b'' :=
  ⟨h.toRetains.trans h'.toRetains, Nat.le_trans h.labels h'.labels,
    fun l p hl => h'.bound l p (h.bound l p hl)⟩

theorem Extends.refl (b : Builder κ) : b.Extends b := ⟨.refl b, fun _ _ => rfl⟩

theorem Extends.trans {b b' b'' : Builder κ} (h : b.Extends b') (h' : b'.Extends b'') :
    b.Extends b'' :=
  ⟨h.toGrows.trans h'.toGrows, fun l hl =>
    (h'.untouched l (Nat.lt_of_lt_of_le hl h.labels)).trans (h.untouched l hl)⟩

/-- A label is there and is not bound yet. -/
def Unbound (b : Builder κ) (l : Label) : Prop := b.labels[l.index]? = some none

theorem Unbound.lt {b : Builder κ} {l : Label} (h : b.Unbound l) : l.index < b.labels.size :=
  (Array.getElem?_eq_some_iff.1 h).1

theorem Extends.unbound {b b' : Builder κ} {l : Label} (h : b.Extends b') (hl : b.Unbound l) :
    b'.Unbound l :=
  (h.untouched l.index hl.lt).trans hl

theorem unbound_newLabel (b : Builder κ) : b.newLabel.2.Unbound b.newLabel.1 := by
  simp [Unbound, newLabel]

theorem Unbound.bindLabel {b : Builder κ} {l m : Label} (h : b.Unbound l) (hne : m.index ≠ l.index) :
    (b.bindLabel m).Unbound l := by
  change (b.labels.setIfInBounds m.index _)[l.index]? = _
  rw [Array.getElem?_setIfInBounds, if_neg hne]
  exact h

theorem retains_bindLabel (b : Builder κ) (l : Label) : b.Retains (b.bindLabel l) :=
  { Retains.refl b with tidy := fun h => ⟨h.jumps, h.distinct⟩ }

theorem grows_bindLabel {b : Builder κ} {l : Label} (hl : b.Unbound l) :
    b.Grows (b.bindLabel l) := by
  refine ⟨retains_bindLabel b l, by simp [bindLabel], fun m p hm => ?_⟩
  change (b.labels.setIfInBounds l.index _)[m]? = _
  rw [Array.getElem?_setIfInBounds, if_neg ?_]
  · exact hm
  · rintro rfl
    cases hl.symm.trans hm

theorem Extends.bindLabel {b b' : Builder κ} {l : Label} (h : b.Extends b')
    (hnew : b.labels.size ≤ l.index) (hl : b'.Unbound l) : b.Extends (b'.bindLabel l) := by
  refine ⟨h.toGrows.trans (grows_bindLabel hl), fun m hm => ?_⟩
  change (b'.labels.setIfInBounds l.index _)[m]? = _
  rw [Array.getElem?_setIfInBounds, if_neg (by omega)]
  exact h.untouched m hm

theorem extends_newLabel (b : Builder κ) : b.Extends b.newLabel.2 := by
  have hlabels : Keeps b.labels b.newLabel.2.labels := keeps_push _ _
  refine ⟨⟨{ Retains.refl b with tidy := fun h => ⟨h.jumps, h.distinct⟩ }, by simp [newLabel],
    fun m p => hlabels m _⟩, fun m hm => ?_⟩
  rw [hlabels m _ (Array.getElem?_eq_getElem hm), Array.getElem?_eq_getElem hm]

theorem extends_push (b : Builder κ) (i : Instr) (l : Option Label) : b.Extends (b.push i l) := by
  refine ⟨{ Grows.refl b with instructions := keeps_push _ _, size := ?_, jumps := ?_, newJumps := ?_, tidy := ?_ }, fun _ _ => rfl⟩
  · simp [push]
  · exact fun j hj => List.mem_append_right _ hj
  · intro j hj
    rcases List.mem_append.1 hj with hj | hj
    · obtain ⟨m, -, rfl⟩ := List.mem_map.1 hj
      exact .inr (Nat.le_refl _)
    · exact .inl hj
  · intro h
    refine ⟨fun j hj => ?_, ?_⟩
    · simp only [push, Array.size_push]
      rcases List.mem_append.1 hj with hj | hj
      · obtain ⟨m, -, rfl⟩ := List.mem_map.1 hj
        exact Nat.lt_succ_self _
      · exact Nat.lt_succ_of_lt (h.jumps j hj)
    · cases l with
      | none => exact h.distinct
      | some m =>
        refine List.nodup_cons.2 ⟨fun hm => ?_, h.distinct⟩
        obtain ⟨j, hj, hsize⟩ := List.mem_map.1 hm
        exact absurd (h.jumps j hj) (hsize ▸ Nat.lt_irrefl _)

theorem keeps_poolName (pool : Array Name) (name : Name) : Keeps pool (poolName pool name).2 := by
  unfold poolName
  split
  · exact .refl pool
  · exact keeps_push pool name

/-- The place of a name is where the name stands first. -/
theorem poolName_idxOf? (pool : Array Name) (name : Name) :
    (poolName pool name).2.idxOf? name = some (poolName pool name).1 := by
  unfold poolName
  split
  · assumption
  · rename_i hnone
    rw [idxOf?_eq_findIdx?] at hnone ⊢
    simp [Array.findIdx?_push, hnone]

theorem extends_name (b : Builder κ) (name : Name) : b.Extends (b.name name).2 :=
  ⟨{ Grows.refl b with names := keeps_poolName b.names name, tidy := fun h => ⟨h.jumps, h.distinct⟩ },
    fun _ _ => rfl⟩

theorem extends_varname (b : Builder κ) (name : Name) : b.Extends (b.varname name).2 :=
  ⟨{ Grows.refl b with varnames := keeps_poolName b.varnames name, tidy := fun h => ⟨h.jumps, h.distinct⟩ },
    fun _ _ => rfl⟩

theorem grows_varnames (names : List Name) (b : Builder κ) :
    b.Grows (names.foldl (fun b n => (b.varname n).2) b) := by
  induction names generalizing b with
  | nil => exact .refl b
  | cons name names ih => exact (extends_varname b name).toGrows.trans (ih _)

theorem extends_constant [Identified κ] (b : Builder κ) (k : Constant κ) : b.Extends (b.constant k).2 := by
  unfold constant
  split
  · exact .refl b
  · exact ⟨{ Grows.refl b with constants := keeps_push _ _, tidy := fun h => ⟨h.jumps, h.distinct⟩ },
      fun _ _ => rfl⟩

/-- The place of a constant is the first one that it may share. -/
theorem constant_findIdx? [Identified κ] (b : Builder κ) {k : Constant κ} (hk : k.sharesSlot k = true) :
    (b.constant k).2.constants.findIdx? (·.sharesSlot k) = some (b.constant k).1 := by
  unfold constant
  split
  · assumption
  · rename_i hnone
    simp [Array.findIdx?_push, hnone, hk]

/-- What a builder has is found again in a code object, where labels stand at places. -/
structure Ends (b : Builder) (c : Object) (place : Label → Nat) : Prop where
  instruction : ∀ (pc : Nat) (i : Instr), b.instructions[pc]? = some i → (∀ l, (pc, l) ∉ b.jumps) →
    c.instructions[pc]? = some i
  jump : ∀ (pc : Nat) (l : Label) (i : Instr), (pc, l) ∈ b.jumps → b.instructions[pc]? = some i →
    c.instructions[pc]? = some (i.withTarget (place l))
  label : ∀ (l : Label) (p : Nat), b.labels[l.index]? = some (some p) → place l = p
  constants : Keeps b.constants c.constants
  names : Keeps b.names c.names
  varnames : Keeps b.varnames c.varnames
  cellvars : c.cellvars = b.cellvars
  freevars : c.freevars = b.freevars

variable {b b' : Builder} {c : Object} {place : Label → Nat}

theorem Grows.ends (h : b.Grows b') (hends : b'.Ends c place) : b.Ends c place where
  instruction pc i hi hjumps := by
    refine hends.instruction pc i (h.instructions pc i hi) fun l hl => ?_
    obtain ⟨hlt, -⟩ := Array.getElem?_eq_some_iff.1 hi
    rcases h.newJumps _ hl with hl | hl
    · exact hjumps l hl
    · omega
  jump pc l i hl hi := hends.jump pc l i (h.jumps _ hl) (h.instructions pc i hi)
  label l p hl := hends.label l p (h.bound _ p hl)
  constants := h.constants.trans hends.constants
  names := h.names.trans hends.names
  varnames := h.varnames.trans hends.varnames
  cellvars := hends.cellvars.trans h.cellvars
  freevars := hends.freevars.trans h.freevars

theorem Ends.ofBindLabel {l : Label} (h : (b.bindLabel l).Ends c place) (hl : b.Unbound l) :
    b.Ends c place ∧ place l = b.instructions.size := by
  refine ⟨(grows_bindLabel hl).ends h, h.label l _ ?_⟩
  simp [Builder.bindLabel, hl.lt]

theorem Ends.ofEmit {i : Instr} (h : (b.emit i).Ends c place) (hb : b.Tidy) :
    b.Ends c place ∧ c.instructions[b.instructions.size]? = some i := by
  refine ⟨(extends_push b i none).ends h, h.instruction _ i (by simp [emit]) fun l hl => ?_⟩
  exact absurd (hb.jumps _ hl) (Nat.lt_irrefl _)

theorem Ends.ofEmitJump {jump : Nat → Instr} {l : Label} (h : (b.emitJump jump l).Ends c place) :
    b.Ends c place ∧ c.instructions[b.instructions.size]? = some ((jump 0).withTarget (place l)) := by
  refine ⟨(extends_push b (jump 0) (some l)).ends h, h.jump _ l _ List.mem_cons_self ?_⟩
  simp [emitJump, emit]

/-- The code of a builder whose jumps have got their targets. -/
theorem ends_of_patched {code : Array Instr} (htidy : b.Tidy) (h : b.patched? = some code)
    (hcode : c.instructions = code) (hconstants : c.constants = b.constants)
    (hnames : c.names = b.names) (hvarnames : c.varnames = b.varnames)
    (hcellvars : c.cellvars = b.cellvars) (hfreevars : c.freevars = b.freevars) :
    b.Ends c fun l => (b.labels[l.index]?).join.getD 0 := by
  obtain ⟨-, hjump, hother⟩ := patched_of_foldrM htidy.distinct h
  rw [← hcode] at hjump hother
  refine ⟨fun pc i hi hjumps => ?_, fun pc l i hl hi => ?_, fun l p hl => ?_, hconstants ▸ .refl _,
    hnames ▸ .refl _, hvarnames ▸ .refl _, hcellvars, hfreevars⟩
  · exact (hother pc hjumps).trans hi
  · obtain ⟨t, ht, hat⟩ := hjump pc l hl
    rw [hat, hi, ht]
    rfl
  · rw [hl]
    rfl

end Builder

theorem ends_of_finish {draft : Draft} {span : Text.Span} {object c : Object}
    (htidy : draft.builder.Tidy) (h : finish draft span object = .ok c) :
    ∃ place, draft.builder.Ends c place := by
  unfold finish at h
  dsimp only at h
  split at h
  · rename_i code hcode
    cases h
    have hextends : draft.builder.Extends ((draft.builder.emitConst .none).emit .returnValue) :=
      ((draft.builder.extends_constant .none).trans (Builder.extends_push _ _ none)).trans
        (Builder.extends_push _ _ none)
    exact ⟨_, hextends.ends (Builder.ends_of_patched (hextends.tidy htidy) hcode rfl rfl rfl rfl rfl
      rfl)⟩
  · cases h

theorem grows_startFunction (s : Scope) :
    (Draft.start s).builder.Grows (Draft.startFunction s).builder :=
  Builder.grows_varnames _ _

/-- The part of a body between two drafts stands in the code of the body. -/
structure InUnit (s : Scope) (d d' : Draft) (c : Object) : Prop where
  start : (Draft.start s).builder.Grows d.builder
  finish : ∃ draft span object, d'.builder.Grows draft.builder ∧ finish draft span object = .ok c

theorem InUnit.ends {s : Scope} {d d' : Draft} {c : Object} (h : InUnit s d d' c)
    (hgrows : d.builder.Grows d'.builder) : d.builder.Tidy ∧ ∃ place, d'.builder.Ends c place := by
  obtain ⟨draft, span, object, hgrows', hfinish⟩ := h.finish
  have htidy := h.start.tidy ⟨by simp [Draft.start], by simp [Draft.start]⟩
  obtain ⟨place, hends⟩ := ends_of_finish (hgrows'.tidy (hgrows.tidy htidy)) hfinish
  exact ⟨htidy, place, hgrows'.ends hends⟩

end Lexiscope.Code
