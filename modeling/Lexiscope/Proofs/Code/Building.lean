import Lexiscope.Proofs.Code.Growth
/-!
# Building in any order

A builder may be asked for places, be given instructions and be told of labels in any order. Its
pools have no entry twice, a place that it gave once is good to the end, and in the end every jump
aims at where its label was bound.
-/

namespace Lexiscope.Code

theorem Instr.target?_withTarget {i : Instr} (h : i.target?.isSome = true) (t : Nat) :
    (i.withTarget t).target? = some t := by
  cases i <;> first | rfl | cases h

namespace Builder

/-- One thing that is asked of a builder. -/
inductive Step (κ : Type) where
  | constant (k : Constant κ)
  | name (name : Name)
  | varname (name : Name)
  | deref (name : Name)
  | emit (i : Instr)
  | newLabel
  | bindLabel (l : Label)
  | emitJump (jump : Nat → Instr) (l : Label)

variable {κ : Type}

namespace Step

def apply [Identified κ] (b : Builder κ) : Step κ → Builder κ
  | constant k => (b.constant k).2
  | name n => (b.name n).2
  | varname n => (b.varname n).2
  | deref _ => b
  | emit i => b.emit i
  | newLabel => b.newLabel.2
  | bindLabel l => b.bindLabel l
  | emitJump jump l => b.emitJump jump l

def label? : Step κ → Option Label
  | bindLabel l | emitJump _ l => some l
  | _ => none

def makesLabel : Step κ → Bool
  | newLabel => true
  | _ => false

def binds (l : Label) : Step κ → Bool
  | bindLabel m => m == l
  | _ => false

def emits : Step κ → Bool
  | emit _ | emitJump .. => true
  | _ => false

end Step

def after [Identified κ] (b : Builder κ) (steps : List (Step κ)) : Builder κ :=
  steps.foldl Step.apply b

/-- The builder of a body with cells before the first step. -/
def start (cells free : List Name) : Builder κ := { cellvars := cells, freevars := free }

/-- When so many labels are there, each step uses one that is there by then. -/
def usesMade (made : Nat) : List (Step κ) → Bool
  | [] => true
  | s :: ss => s.label?.all (·.index < made) && usesMade (made + s.makesLabel.toNat) ss

/-- Labels are made before they are used, and one that is jumped to is bound exactly once. -/
structure Admissible (steps : List (Step κ)) : Prop where
  made : usesMade 0 steps = true
  bound : ∀ jump l, .emitJump jump l ∈ steps → steps.countP (Step.binds l) = 1

structure Distinct [Identified κ] (b : Builder κ) : Prop where
  constants : b.constants.toList.Pairwise fun k k' => k.sharesSlot k' = false
  names : b.names.toList.Nodup
  varnames : b.varnames.toList.Nodup

theorem countP_cons_toNat (p : Step κ → Bool) (s : Step κ) (steps : List (Step κ)) :
    (s :: steps).countP p = (p s).toNat + steps.countP p := by
  cases h : p s <;> simp [h, Nat.add_comm]

theorem made_of_usesMade {made : Nat} {before rest : List (Step κ)} {s : Step κ}
    (h : usesMade made (before ++ s :: rest) = true) {l : Label} (hl : s.label? = some l) :
    l.index < made + before.countP Step.makesLabel := by
  induction before generalizing made with
  | nil =>
    obtain ⟨hs, -⟩ := Bool.and_eq_true_iff.1 h
    rw [hl] at hs
    exact of_decide_eq_true hs
  | cons t before ih =>
    obtain ⟨-, hrest⟩ := Bool.and_eq_true_iff.1 h
    rw [countP_cons_toNat, ← Nat.add_assoc]
    exact ih hrest

/-- A label that is bound once is bound by one step, and by none before or after. -/
theorem binding_of_countP {steps : List (Step κ)} {l : Label}
    (h : steps.countP (Step.binds l) = 1) : ∃ before rest, steps = before ++ .bindLabel l :: rest ∧
      ∀ s ∈ rest, s.binds l = false := by
  obtain ⟨s, hmem, hs⟩ := List.countP_pos_iff.1 (Nat.lt_of_lt_of_eq Nat.zero_lt_one h.symm)
  obtain ⟨before, rest, rfl⟩ := List.append_of_mem hmem
  cases s with
  | bindLabel m =>
    obtain rfl : m = l := beq_iff_eq.1 hs
    rw [List.countP_append, countP_cons_toNat, hs, Bool.toNat_true] at h
    refine ⟨before, rest, rfl, fun s hmem => ?_⟩
    have hnone : rest.countP (Step.binds m) = 0 := by omega
    exact Bool.eq_false_iff.2 (List.countP_eq_zero.1 hnone s hmem)
  | _ => cases hs

theorem tidy_start (cells free : List Name) : (start cells free : Builder κ).Tidy :=
  ⟨nofun, List.nodup_nil⟩

section Steps

variable [Identified κ] {b : Builder κ} {before rest steps : List (Step κ)} {s : Step κ} {l : Label}

theorem after_append (b : Builder κ) (before rest : List (Step κ)) :
    b.after (before ++ rest) = (b.after before).after rest :=
  List.foldl_append

theorem retains_apply (b : Builder κ) (s : Step κ) : b.Retains (s.apply b) := by
  cases s with
  | constant k => exact (extends_constant b k).toRetains
  | name n => exact (extends_name b n).toRetains
  | varname n => exact (extends_varname b n).toRetains
  | deref n => exact .refl b
  | emit i => exact (extends_push b i none).toRetains
  | newLabel => exact (extends_newLabel b).toRetains
  | bindLabel l => exact retains_bindLabel b l
  | emitJump jump l => exact (extends_push b (jump 0) (some l)).toRetains

theorem retains_after (b : Builder κ) (steps : List (Step κ)) : b.Retains (b.after steps) := by
  induction steps generalizing b with
  | nil => exact .refl b
  | cons s ss ih => exact (retains_apply b s).trans (ih _)

theorem nodup_poolName {pool : Array Name} (h : pool.toList.Nodup) (name : Name) :
    (poolName pool name).2.toList.Nodup := by
  unfold poolName
  split
  · exact h
  · rename_i hnone
    rw [idxOf?_eq_findIdx?, Array.findIdx?_eq_none_iff] at hnone
    rw [Array.toList_push]
    refine List.nodup_append.2 ⟨h, List.nodup_singleton _, fun a ha c hc => ?_⟩
    obtain rfl := List.mem_singleton.1 hc
    exact beq_eq_false_iff_ne.1 (hnone a (Array.mem_toList_iff.1 ha))

theorem Distinct.constant (h : b.Distinct) (k : Constant κ) : (b.constant k).2.Distinct := by
  unfold Builder.constant
  split
  · exact h
  · rename_i hnone
    rw [Array.findIdx?_eq_none_iff] at hnone
    refine { h with constants := ?_ }
    rw [Array.toList_push]
    refine List.pairwise_append.2 ⟨h.constants, List.pairwise_singleton _ _, fun a ha c hc => ?_⟩
    obtain rfl := List.mem_singleton.1 hc
    exact hnone a (Array.mem_toList_iff.1 ha)

theorem Distinct.apply (h : b.Distinct) (s : Step κ) : (s.apply b).Distinct := by
  cases s with
  | constant k => exact h.constant k
  | name n => exact { h with names := nodup_poolName h.names n }
  | varname n => exact { h with varnames := nodup_poolName h.varnames n }
  | deref | emit | newLabel | bindLabel | emitJump => exact ⟨h.constants, h.names, h.varnames⟩

theorem Distinct.after (h : b.Distinct) (steps : List (Step κ)) : (b.after steps).Distinct := by
  induction steps generalizing b with
  | nil => exact h
  | cons s ss ih => exact ih (h.apply s)

@[simp] theorem instructions_constant (b : Builder κ) (k : Constant κ) :
    (b.constant k).2.instructions = b.instructions := by
  unfold Builder.constant
  split <;> rfl

@[simp] theorem labels_constant (b : Builder κ) (k : Constant κ) :
    (b.constant k).2.labels = b.labels := by
  unfold Builder.constant
  split <;> rfl

@[simp] theorem jumps_constant (b : Builder κ) (k : Constant κ) :
    (b.constant k).2.jumps = b.jumps := by
  unfold Builder.constant
  split <;> rfl

theorem size_labels_apply (b : Builder κ) (s : Step κ) :
    (s.apply b).labels.size = b.labels.size + s.makesLabel.toNat := by
  cases s <;>
    simp [Step.apply, Step.makesLabel, name, varname, emit, newLabel, Builder.bindLabel, emitJump]

theorem size_instructions_apply (b : Builder κ) (s : Step κ) :
    (s.apply b).instructions.size = b.instructions.size + s.emits.toNat := by
  cases s <;>
    simp [Step.apply, Step.emits, name, varname, emit, newLabel, Builder.bindLabel, emitJump]

theorem size_labels_after (b : Builder κ) (steps : List (Step κ)) :
    (b.after steps).labels.size = b.labels.size + steps.countP Step.makesLabel := by
  induction steps generalizing b with
  | nil => rfl
  | cons s ss ih =>
    rw [countP_cons_toNat, ← Nat.add_assoc, ← size_labels_apply]
    exact ih _

theorem size_instructions_after (b : Builder κ) (steps : List (Step κ)) :
    (b.after steps).instructions.size = b.instructions.size + steps.countP Step.emits := by
  induction steps generalizing b with
  | nil => rfl
  | cons s ss ih =>
    rw [countP_cons_toNat, ← Nat.add_assoc, ← size_instructions_apply]
    exact ih _

theorem label_apply (hl : l.index < b.labels.size) (h : s.binds l = false) :
    (s.apply b).labels[l.index]? = b.labels[l.index]? := by
  cases s with
  | constant k => simp [Step.apply]
  | newLabel => exact (extends_newLabel b).untouched l.index hl
  | bindLabel m =>
    refine Array.getElem?_setIfInBounds_ne fun heq => ?_
    obtain rfl : m = l := congrArg Label.mk heq
    exact absurd h (by simp [Step.binds])
  | name | varname | deref | emit | emitJump => rfl

theorem label_after (hl : l.index < b.labels.size) (h : ∀ s ∈ steps, s.binds l = false) :
    (b.after steps).labels[l.index]? = b.labels[l.index]? := by
  induction steps generalizing b with
  | nil => rfl
  | cons s ss ih =>
    obtain ⟨hs, hss⟩ := List.forall_mem_cons.1 h
    have hsize := size_labels_apply b s
    exact (ih (b := s.apply b) (by omega) hss).trans (label_apply hl hs)

theorem jumped {j : Nat × Label} (h : j ∈ (b.after steps).jumps) :
    j ∈ b.jumps ∨ ∃ jump, Step.emitJump jump j.2 ∈ steps := by
  induction steps generalizing b with
  | nil => exact .inl h
  | cons s ss ih =>
    rcases ih h with hj | ⟨jump, hmem⟩
    · cases s with
      | emitJump jump l =>
        rcases List.mem_cons.1 hj with rfl | hj
        · exact .inr ⟨jump, List.mem_cons_self⟩
        · exact .inl hj
      | constant k => exact .inl (jumps_constant b k ▸ hj)
      | name | varname | deref | emit | newLabel | bindLabel => exact .inl hj
    · exact .inr ⟨jump, List.mem_cons_of_mem _ hmem⟩

end Steps

/-- What code and pools are like in the end, after steps from a builder on. -/
structure Faithful [Identified κ] (b : Builder κ) (steps : List (Step κ)) (code : Array Instr) :
    Prop where
  /-- The place of a constant has that constant or one that it may share the place with, and the
  latter if code objects are the same as themselves. -/
  constant : ∀ before k rest, steps = before ++ .constant k :: rest →
    ∃ e, (b.after steps).constants[((b.after before).constant k).1]? = some e ∧
      (e = k ∨ e.sharesSlot k = true) ∧
      ((∀ c : κ, Identified.same c c = true) → e.sharesSlot k = true)
  name : ∀ before n rest, steps = before ++ .name n :: rest →
    (b.after steps).names[((b.after before).name n).1]? = some n
  varname : ∀ before n rest, steps = before ++ .varname n :: rest →
    (b.after steps).varnames[((b.after before).varname n).1]? = some n
  deref : ∀ before n rest i, steps = before ++ .deref n :: rest →
    (b.after before).deref? n = some i → (b.cellvars ++ b.freevars)[i]? = some n
  constants : (b.after steps).constants.toList.Pairwise fun k k' =>
    k.sharesSlot k' = false ∧ k'.sharesSlot k = false
  names : (b.after steps).names.toList.Nodup
  varnames : (b.after steps).varnames.toList.Nodup
  kept : ∀ before rest, steps = before ++ rest →
    Keeps (b.after before).constants (b.after steps).constants ∧
    Keeps (b.after before).names (b.after steps).names ∧
    Keeps (b.after before).varnames (b.after steps).varnames
  /-- A jump stands where it was emitted, and aims at where its label was bound. -/
  jump : ∀ before jump l rest, steps = before ++ .emitJump jump l :: rest →
    ∃ before' rest', steps = before' ++ .bindLabel l :: rest' ∧
      code[(b.after before).instructions.size]? =
        some ((jump 0).withTarget (b.after before').instructions.size) ∧
      ((jump 0).target?.isSome = true →
        ((jump 0).withTarget (b.after before').instructions.size).target? =
          some (b.after before').instructions.size)
  /-- Any other instruction stands where it was emitted, as it was emitted. -/
  instruction : ∀ before i rest, steps = before ++ .emit i :: rest →
    code[(b.after before).instructions.size]? = some i
  size : code.size = b.instructions.size + steps.countP Step.emits

section Courses

variable [Identified κ] {b : Builder κ} {before rest steps : List (Step κ)} {l : Label}

theorem distinct_start (cells free : List Name) : (start cells free : Builder κ).Distinct :=
  ⟨List.Pairwise.nil, List.nodup_nil, List.nodup_nil⟩

theorem sharesSlot_self (h : ∀ c : κ, Identified.same c c = true) (k : Constant κ) :
    k.sharesSlot k = true := by
  cases k <;> simp [Constant.sharesSlot, h]

theorem sharesSlot_comm (h : ∀ c d : κ, Identified.same c d = Identified.same d c)
    (k k' : Constant κ) : k.sharesSlot k' = k'.sharesSlot k := by
  cases k <;> cases k' <;> simp [Constant.sharesSlot, h, Bool.beq_comm]

theorem retains_from (b : Builder κ) (before : List (Step κ)) (s : Step κ) (rest : List (Step κ)) :
    (s.apply (b.after before)).Retains (b.after (before ++ s :: rest)) := by
  rw [after_append]
  exact retains_after _ rest

/-- The place of a constant has an entry that the constant is, or that it may share the place
with. -/
theorem getElem?_constant (b : Builder κ) (k : Constant κ) :
    ∃ e, (b.constant k).2.constants[(b.constant k).1]? = some e ∧ (e = k ∨ e.sharesSlot k = true) := by
  unfold Builder.constant
  split
  · rename_i i hi
    obtain ⟨hlt, hshares, -⟩ := Array.findIdx?_eq_some_iff_getElem.1 hi
    exact ⟨_, Array.getElem?_eq_getElem hlt, .inr hshares⟩
  · exact ⟨k, Array.getElem?_push_size, .inl rfl⟩

theorem bound_after (hmade : usesMade b.labels.size steps = true)
    (h : steps.countP (Step.binds l) = 1) : ∃ before rest, steps = before ++ .bindLabel l :: rest ∧
      (b.after steps).labels[l.index]? = some (some (b.after before).instructions.size) := by
  obtain ⟨before, rest, rfl, hrest⟩ := binding_of_countP h
  have hlt := made_of_usesMade hmade (l := l) rfl
  rw [← size_labels_after] at hlt
  refine ⟨before, rest, rfl, ?_⟩
  rw [after_append]
  refine (label_after (b := (b.after before).bindLabel l) ?_ hrest).trans ?_
  · simpa [Builder.bindLabel] using hlt
  · exact Array.getElem?_setIfInBounds_self_of_lt hlt

/-- Where instructions are emitted there are no jumps but those of the instructions themselves. -/
theorem not_jumped {i : Instr} {pc : Nat} (htidy : (b.after before).Tidy)
    (hpc : (b.after before).instructions.size = pc) (m : Label) :
    (pc, m) ∉ (b.after (before ++ .emit i :: rest)).jumps := by
  intro hm
  rcases (retains_from b before (.emit i) rest).newJumps _ hm with hm | hm
  · exact Nat.lt_irrefl _ (hpc ▸ htidy.jumps _ hm)
  · simp only [Step.apply, emit, Array.size_push] at hm
    omega

theorem patched_after (cells free : List Name) (h : Admissible steps) :
    ∃ code, ((start cells free).after steps).patched? = some code := by
  refine patched_of_bound fun j hj => ?_
  obtain ⟨jump, hmem⟩ := (jumped hj).resolve_left List.not_mem_nil
  obtain ⟨_, _, -, hlabel⟩ := bound_after (b := start cells free) h.made (h.bound jump j.2 hmem)
  exact ⟨_, hlabel⟩

structure Numbered where
  number : Nat

instance : Identified Numbered := ⟨fun c d => c.number == d.number⟩

/-- A loop with zeros of both signs, a one and a truth value, and a code object that is asked for
again before and after another one. The outer label is made first and bound last. -/
def loopSteps : List (Step Numbered) :=
  [.newLabel, .varname "x", .newLabel, .constant (.float Double.zero), .constant (.code ⟨7⟩),
    .bindLabel ⟨1⟩, .name "print", .emitJump .jumpIfFalse ⟨0⟩, .constant (.float Double.zero.neg),
    .deref "f", .constant (.code ⟨7⟩), .emit (.jump 9), .constant (.code ⟨8⟩), .constant (.int 1),
    .constant (.bool true), .name "x", .constant (.code ⟨7⟩), .emitJump .jump ⟨1⟩, .name "print",
    .bindLabel ⟨0⟩, .emit .returnValue]

end Courses

end Builder

end Lexiscope.Code
