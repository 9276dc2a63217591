import Lexiscope.Proofs.Machine.Depths
import Lexiscope.Proofs.Machine.Making
/-!
# Frames and the functions that they make

A body makes functions of the code in its pool, and they have its namespace of globals. So the
frames of a function, and those of the functions and classes that are made in them at any depth,
all have one namespace, whenever and from wherever they are entered. What is bound stays bound.
-/

namespace Lexiscope.Machine

open Code (Instr Kinds Object)
open Likeness

/-- A frame of the function was made, for a call or as the body of a class. -/
def Entered (v : FunctionValue) (s : Store) (f : Frame) (t : Store) : Prop :=
  (∃ args keywords, enterFunction v args keywords s = .ok f t) ∨
    ∃ space, enterClassBody v space s = .ok f t

def Makes (f : Frame) (s : Store) (v : FunctionValue) (t : Store) : Prop :=
  ∃ bits g rest, f.code.object.instructions[f.pc]? = some (.makeFunction bits) ∧
    step f s = .ok (.next g) t ∧ g.stack = .function v :: rest

/-- When a body goes on after a yield, what was bound is still bound. -/
def Event.Keeps : Event → Prop
  | .turn .. => True
  | .yield _ left back => left.Keeps back

/-- A body of the function starts after the store, with what was bound there. -/
def Starts (v : FunctionValue) (s : Store) (f : Frame) (t : Store) : Prop :=
  ∃ s' t', s.Keeps s' ∧ Entered v s' f t' ∧ t'.Keeps t

/-- The frames of a function, and those of functions and classes whose bodies are made into
functions in such frames, with the stores in which they start. -/
inductive FrameOf (v : FunctionValue) (s : Store) : Frame → Store → Prop where
  | own {f t} : Starts v s f t → FrameOf v s f t
  | made {f t es g t' w u h u'} : FrameOf v s f t → Course f t es g t' → (∀ e ∈ es, e.Keeps) →
    Makes g t' w u → Starts w u h u' → FrameOf v s h u'

/-- A frame of the function that has not run. -/
structure Frame.IsNew (f : Frame) (v : FunctionValue) : Prop where
  code : f.code = v.code
  globals : f.globals = v.globals
  stack : f.stack = []
  pc : f.pc = 0
  /-- The cells of the body's own names are followed by those that came with the function. -/
  cells : ∃ own, own.length = v.code.object.cellvars.length ∧ f.cells = own ++ v.closure

section Entering

variable {f : Frame} {v : FunctionValue} {s t : Store}

theorem isNew_of_make {fast : Array (Option Value)} {space : Option SpaceRef}
    (h : Frame.make v.code v.globals fast v.closure space s = .ok f t) : f.IsNew v := by
  rw [make_eq] at h
  cases h
  exact ⟨rfl, rfl, rfl, rfl, _, by simp [Store.nextCells], rfl⟩

theorem Entered.isNew (h : Entered v s f t) : f.IsNew v := by
  obtain ⟨args, keywords, h⟩ | ⟨space, h⟩ := h
  · obtain ⟨fast, t₁, -, h⟩ := bind_eq_ok h
    obtain ⟨g, t₂, hmake, h⟩ := bind_eq_ok h
    obtain ⟨fast', t₃, -, h⟩ := bind_eq_ok h
    cases h
    obtain ⟨hcode, hglobals, hstack, hpc, hcells⟩ := isNew_of_make hmake
    exact ⟨hcode, hglobals, hstack, hpc, hcells⟩
  · exact isNew_of_make h

theorem Entered.keeps (h : Entered v s f t) : s.Keeps t := by
  obtain ⟨args, keywords, h⟩ | ⟨space, h⟩ := h
  · exact ((same_steady.enterFunction v args keywords trivial (fun _ _ => trivial)
      fun _ _ => trivial).before_same h).keeps
  · exact ((same_steady.enterClassBody v space trivial).before_same h).keeps

theorem Starts.isNew (h : Starts v s f t) : f.IsNew v := by
  obtain ⟨s', t', -, hentered, -⟩ := h
  exact hentered.isNew

theorem Starts.keeps (h : Starts v s f t) : s.Keeps t := by
  obtain ⟨s', t', hs, hentered, ht⟩ := h
  exact (hs.trans hentered.keeps).trans ht

end Entering

section Stores

variable {f g : Frame} {s t u : Store}

theorem kept_of_turn {n : Nat} {x : Turn} (h : turn n f s = .ok x u) (hx : ¬ x.IsSpent) :
    s.Keeps u := by
  have hsteady := same_steady
  have htries := tries_turn hsteady.toLawful (hsteady.runsAt (Nat.le_refl n))
    (follows_ownStep hsteady (f := f) trivial)
  exact (htries.before_same h hx).keeps

theorem kept_of_step {a : Action} (h : step f s = .ok a u) : s.Keeps u :=
  ((follows_ownStep same_steady (f := f) trivial).before_same h).keeps

theorem Course.sameBody {es : List Event} (h : Course f s es g t) : f.SameBody g := by
  induction h with
  | here => exact .refl _
  | turn hstep hact _ ih =>
    have hbody := (successors_of_step hstep).1
    exact (hbody.trans (leadsTo_of_act hact).same.1).trans ih
  | yield hstep _ ih =>
    have hbody := (successors_of_step hstep).1
    exact hbody.trans ⟨ih.id, ih.code, ih.globals, ih.cells, ih.classSpace⟩

theorem Course.keeps {es : List Event} (h : Course f s es g t) (hes : ∀ e ∈ es, e.Keeps) :
    s.Keeps t := by
  induction h with
  | here => exact .refl _
  | turn hstep hact _ ih =>
    have hrest := ih fun e he => hes e (List.mem_cons_of_mem _ he)
    have hturn := kept_of_turn ((turn_ok hstep _).trans hact) id
    exact hturn.trans hrest
  | yield hstep _ ih =>
    have hrest := ih fun e he => hes e (List.mem_cons_of_mem _ he)
    have hback := hes _ List.mem_cons_self
    exact ((kept_of_step hstep).trans hback).trans hrest

/-- A function is made of the code on top of the stack, and has the globals of the frame. -/
theorem Makes.made {v : FunctionValue} (h : Makes f s v t) :
    s.Keeps t ∧ v.globals = f.globals ∧ ∃ rest, f.stack = .code v.code :: rest := by
  obtain ⟨bits, g, rest, hi, hstep, hg⟩ := h
  obtain ⟨i, hi', hsize, hdoes⟩ := performs_of_step hstep
  obtain rfl : i = .makeFunction bits := Option.some.inj (hi'.symm.trans hi)
  obtain ⟨id, code, closure, keywordDefaults, defaults, rest', htaken, -, -, -, ha⟩ := hdoes
  cases ha
  cases hg
  refine ⟨kept_of_step hstep, rfl, ?_⟩
  have htop := congrArg List.head? htaken
  rw [List.head?_take, if_neg (by simp [Instr.takes])] at htop
  obtain ⟨rest, hrest⟩ := List.head?_eq_some_iff.1 htop
  exact ⟨rest, hrest⟩

/-- A function is made of code in a pool, if the instruction may stand where it stands. -/
theorem Makes.pooled {v : FunctionValue} {p : Code.Pools} {next target : Kinds → Prop} {κs : Kinds}
    (h : Makes f s v t) (hkinds : HaveKinds f.stack κs) {i : Instr}
    (hi : f.code.object.instructions[f.pc]? = some i) (hsuits : i.Suits p next target κs) :
    .code v.code.object ∈ p.constants := by
  obtain ⟨-, -, rest, hstack⟩ := h.made
  obtain ⟨bits, -, -, hi', -⟩ := h
  obtain rfl := Option.some.inj (hi.symm.trans hi')
  obtain ⟨taken, left, rfl, -, ⟨c, hc, rfl, -⟩, -⟩ := hsuits
  rw [hstack] at hkinds
  obtain ⟨⟨d, hd, rfl⟩, -⟩ := List.forall₂_cons.1 hkinds
  cases hd
  exact hc

end Stores

end Lexiscope.Machine
