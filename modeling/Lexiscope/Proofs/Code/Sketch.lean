import Lexiscope.Code.Generate
import Lexiscope.Proofs.Code.Layout
/-!
# The layout of code under generation

While code is generated a sketch of its layout is kept: the stack at every place so far, and the
stack with which each label is to be reached. The sketch only grows, so that what was right for an
instruction when it was emitted is right in the end.
-/

namespace Lexiscope.Code

open Lexical (Scope)

/-- The stack at the places of the code, and at the labels. -/
structure Sketch where
  place : Nat → Kinds
  label : Nat → Kinds

def Builder.pools (b : Builder) : Pools where
  constants := b.constants
  names := b.names.size
  slots := b.varnames.size
  cells := (b.cellvars ++ b.freevars).length

/-- A label is reached with a stack. -/
def Aims (b : Builder) (k : Sketch) (l : Label) (σ : Kinds) : Prop :=
  l.index < b.labels.size ∧ k.label l.index = σ

/-- What has been generated fits the sketch. -/
structure Drawn (mayYield : Prop) (b : Builder) (k : Sketch) : Prop where
  start : k.place 0 = []
  instruction : ∀ (pc : Nat) (i : Instr), b.instructions[pc]? = some i →
    i.Suits b.pools (fun σ => k.place (pc + 1) = σ)
      (fun σ => ∃ l, (pc, l) ∈ b.jumps ∧ Aims b k l σ) (k.place pc)
  jumps : ∀ j ∈ b.jumps, j.1 < b.instructions.size
  distinct : (b.jumps.map Prod.fst).Nodup
  label : ∀ (l p : Nat), b.labels[l]? = some (some p) →
    p ≤ b.instructions.size ∧ k.place p = k.label l
  yields : .yieldValue ∈ b.instructions → mayYield
  sound : ∀ c, .code c ∈ b.constants → c.Sound

structure Evolves (b : Builder) (k : Sketch) (b' : Builder) (k' : Sketch) : Prop where
  pools : b.pools.Within b'.pools
  cellvars : b'.cellvars = b.cellvars
  freevars : b'.freevars = b.freevars
  size : b.instructions.size ≤ b'.instructions.size
  labels : b.labels.size ≤ b'.labels.size
  place : ∀ p ≤ b.instructions.size, k'.place p = k.place p
  label : ∀ l < b.labels.size, k'.label l = k.label l

theorem Pools.Within.refl (p : Pools) : p.Within p :=
  ⟨fun _ _ h => h, Nat.le_refl _, Nat.le_refl _, Nat.le_refl _⟩

theorem Pools.Within.trans {p q r : Pools} (h : p.Within q) (h' : q.Within r) : p.Within r :=
  ⟨fun i k hk => h'.constants i k (h.constants i k hk), Nat.le_trans h.names h'.names,
    Nat.le_trans h.slots h'.slots, Nat.le_trans h.cells h'.cells⟩

namespace Evolves

variable {b b' b'' : Builder} {k k' k'' : Sketch}

theorem refl (b : Builder) (k : Sketch) : Evolves b k b k :=
  ⟨.refl _, rfl, rfl, Nat.le_refl _, Nat.le_refl _, fun _ _ => rfl, fun _ _ => rfl⟩

theorem trans (h : Evolves b k b' k') (h' : Evolves b' k' b'' k'') : Evolves b k b'' k'' where
  pools := h.pools.trans h'.pools
  cellvars := h'.cellvars.trans h.cellvars
  freevars := h'.freevars.trans h.freevars
  size := Nat.le_trans h.size h'.size
  labels := Nat.le_trans h.labels h'.labels
  place p hp := (h'.place p (Nat.le_trans hp h.size)).trans (h.place p hp)
  label l hl := (h'.label l (Nat.lt_of_lt_of_le hl h.labels)).trans (h.label l hl)

theorem aims (h : Evolves b k b' k') {l : Label} {σ : Kinds} (hl : Aims b k l σ) :
    Aims b' k' l σ :=
  ⟨Nat.lt_of_lt_of_le hl.1 h.labels, (h.label _ hl.1).trans hl.2⟩

end Evolves

/-- What is known while code is generated, and stays so. -/
structure Fact where
  holds : Builder → Sketch → Prop
  stays : ∀ {b k b' k'}, Evolves b k b' k' → holds b k → holds b' k'

namespace Fact

def none : Fact := ⟨fun _ _ => True, fun _ h => h⟩

def and (f g : Fact) : Fact :=
  ⟨fun b k => f.holds b k ∧ g.holds b k, fun h hfg => ⟨f.stays h hfg.1, g.stays h hfg.2⟩⟩

/-- Something is known that has nothing to do with the code. -/
def always (P : Prop) : Fact := ⟨fun _ _ => P, fun _ h => h⟩

def aims (l : Label) (σ : Kinds) : Fact := ⟨fun b k => Aims b k l σ, fun h => h.aims⟩

def name (i : Nat) : Fact :=
  ⟨fun b _ => i < b.pools.names, fun h hi => Nat.lt_of_lt_of_le hi h.pools.names⟩

def slot (i : Nat) : Fact :=
  ⟨fun b _ => i < b.pools.slots, fun h hi => Nat.lt_of_lt_of_le hi h.pools.slots⟩

def cell (i : Nat) : Fact :=
  ⟨fun b _ => i < b.pools.cells, fun h hi => Nat.lt_of_lt_of_le hi h.pools.cells⟩

def constant (κ : Kind) (i : Nat) : Fact :=
  ⟨fun b _ => ∃ c, b.constants[i]? = some c ∧ κ.Describes c,
    fun h hc => hc.imp fun _ hc => ⟨h.pools.constants _ _ hc.1, hc.2⟩⟩

def pooled (κ : Kind) : Fact :=
  ⟨fun b _ => ∃ i c, b.constants[i]? = some c ∧ κ.Describes c,
    fun h ⟨i, c, hc, hκ⟩ => ⟨i, c, h.pools.constants i c hc, hκ⟩⟩

/-- The first fact gives the second. -/
def Gives (f g : Fact) : Prop := ∀ b k, f.holds b k → g.holds b k

end Fact

/-- What lies on the stack, and the scopes of inner bodies that are still to come. -/
structure Point where
  stack : Kinds
  pending : List Scope

def Point.push (p : Point) (κ : Kind) : Point := { p with stack := κ :: p.stack }

/-- The draft fits the sketch, and code is generated at the point. -/
structure Draft.At (mayYield : Prop) (d : Draft) (k : Sketch) (p : Point) : Prop where
  drawn : Drawn mayYield d.builder k
  stack : k.place d.builder.instructions.size = p.stack
  pending : d.pending = p.pending

/-- Code generated at the first point leads to the second one, where more is known. -/
def Generates {α : Type} (mayYield : Prop) (known : Fact) (g : Generate α) (p : Point)
    (q : α → Point) (learned : α → Fact) : Prop :=
  ∀ ⦃d a d' k⦄, g d = .ok (a, d') → d.At mayYield k p → known.holds d.builder k →
    ∃ k', d'.At mayYield k' (q a) ∧ Evolves d.builder k d'.builder k' ∧
      (learned a).holds d'.builder k'

/-- Code generated at the first point leads to the second one. -/
abbrev Emits (mayYield : Prop) (known : Fact) (g : Generate Unit) (p q : Point) : Prop :=
  Generates mayYield known g p (fun _ => q) fun _ => .none

namespace Generates

variable {α β : Type} {mayYield : Prop} {known known' : Fact} {p : Point} {q : α → Point}
  {learned : α → Fact}

theorem generate_bind_eq_ok {g : Generate α} {f : α → Generate β} {d d' : Draft} {b : β}
    (h : (g >>= f) d = .ok (b, d')) : ∃ a e, g d = .ok (a, e) ∧ f a e = .ok (b, d') := by
  change (g d >>= fun r => f r.1 r.2) = _ at h
  cases hg : g d with
  | error e =>
    rw [hg] at h
    cases h
  | ok r =>
    rw [hg] at h
    exact ⟨r.1, r.2, rfl, h⟩

theorem weaken (h : Generates mayYield known g p q learned) (hknown : known'.Gives known) :
    Generates mayYield known' g p q learned :=
  fun _ _ _ _ hg hat hk => h hg hat (hknown _ _ hk)

theorem bind {g : Generate α} {f : α → Generate β} {r : β → Point} {learned' : β → Fact}
    (hg : Generates mayYield known g p q learned)
    (hf : ∀ a, Generates mayYield (known.and (learned a)) (f a) (q a) r learned') :
    Generates mayYield known (g >>= f) p r learned' := by
  intro d b d' k h hat hknown
  obtain ⟨a, e, hg', hf'⟩ := generate_bind_eq_ok h
  obtain ⟨k₁, hat₁, hevolves₁, hlearned⟩ := hg hg' hat hknown
  obtain ⟨k₂, hat₂, hevolves₂, hlearned'⟩ :=
    hf a hf' hat₁ ⟨known.stays hevolves₁ hknown, hlearned⟩
  exact ⟨k₂, hat₂, hevolves₁.trans hevolves₂, hlearned'⟩

theorem andThen {g : Generate Unit} {f : Unit → Generate β} {q : Point} {r : β → Point}
    {learned' : β → Fact} (hg : Emits mayYield known g p q)
    (hf : Generates mayYield known (f ()) q r learned') :
    Generates mayYield known (g >>= f) p r learned' :=
  hg.bind fun _ => hf.weaken fun _ _ h => h.1

theorem forget {g : Generate α} {learned' : α → Fact} (h : Generates mayYield known g p q learned)
    (hlearned : ∀ a, (learned a).Gives (learned' a)) : Generates mayYield known g p q learned' := by
  intro d a d' k hg hat hknown
  obtain ⟨k', hat', hevolves, hl⟩ := h hg hat hknown
  exact ⟨k', hat', hevolves, hlearned a _ _ hl⟩

theorem keep {g : Generate Unit} {q : Point} {f f' : Fact} (hf : known.Gives f) (hf' : f.Gives f')
    (h : Emits mayYield known g p q) :
    Generates mayYield known g p (fun _ => q) fun _ => f' := by
  intro d a d' k hg hat hknown
  obtain ⟨k', hat', hevolves, -⟩ := h hg hat hknown
  exact ⟨k', hat', hevolves, hf' _ _ (f.stays hevolves (hf _ _ hknown))⟩

theorem pure {a : α} (hp : p = q a) (hlearned : known.Gives (learned a)) :
    Generates mayYield known (Pure.pure a) p q learned := by
  intro d b d' k h hat hknown
  cases h
  exact ⟨k, hp ▸ hat, .refl _ _, hlearned _ _ hknown⟩

theorem nothing : Emits mayYield known (Pure.pure ()) p p := pure rfl fun _ _ _ => trivial

theorem assume {g : Generate α} {P : Prop} (hP : known.Gives (.always P))
    (h : P → Generates mayYield known g p q learned) : Generates mayYield known g p q learned :=
  fun _ _ _ _ hg hat hk => h (hP _ _ hk) hg hat hk

theorem lift (x : Except CompileError α) :
    Generates mayYield known (liftM x : Generate α) p (fun _ => p) fun a => .always (x = .ok a) := by
  intro d a d' k h hat _
  cases x with
  | error e => cases h
  | ok b =>
    cases h
    exact ⟨k, hat, .refl _ _, rfl⟩

theorem fail (fault : CompileFault) (span : Text.Span) :
    Generates mayYield known (Generate.fail fault span : Generate α) p q learned := by
  intro d b d' k h
  cases h

end Generates

end Lexiscope.Code
