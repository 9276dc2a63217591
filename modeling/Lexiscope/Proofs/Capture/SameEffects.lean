import Lexiscope.Proofs.Capture.Simulation
/-!
# The same effects

What two stores have in common when a body has run in the one and the instrumented body in the
other. Observers and the numbers that are still to be given are no concern of a program.
-/

namespace Lexiscope.Capture

open Machine Machine.Likeness

/-- All that a program can get hold of is the same in two stores. The first one may have one
dictionary more, and one generator may be left out. -/
structure SameEffects (own : Option GeneratorRef) (s t : Store) : Prop where
  rest : s = { t with
    dicts := s.dicts, generators := s.generators, next := s.next, observers := s.observers }
  dicts : s.dicts = t.dicts ∨ ∃ names, s.dicts = t.dicts.push names
  size : s.generators.size = t.generators.size
  generator : ∀ r, own ≠ some r →
    (s.generator r).code.object.qualname = (t.generator r).code.object.qualname ∧
      (s.generator r).state = (t.generator r).state ∧
      (s.generator r).started = (t.generator r).started

def withGenerator (s : Store) (r : GeneratorRef) (g : Generator) : Store :=
  { s with generators := s.generators.setIfInBounds r.index g }

def withState (s : Store) (r : GeneratorRef) (state : GeneratorState) : Store :=
  withGenerator s r { s.generator r with state }

theorem generator_withGenerator (s : Store) (r q : GeneratorRef) (g : Generator) :
    (withGenerator s r g).generator q =
      if r.index = q.index ∧ q.index < s.generators.size then g else s.generator q :=
  getD_setIfInBounds ..

namespace SameEffects

variable {own : Option GeneratorRef} {s t u : Store}

theorem of_alike {code : LoadedCode → LoadedCode → Prop}
    {observers : List Observer → List Observer → Prop}
    (hcode : ∀ c d, code c d → c.object.qualname = d.object.qualname)
    (h : (loose code observers).Alike s t) : SameEffects none s t where
  rest := by rw [h.rest]
  dicts := .inl (by rw [h.rest])
  size := h.size.symm
  generator r _ :=
    have hr := h.generator r
    ⟨hcode _ _ hr.code, hr.state.symm, hr.started.symm⟩

theorem withObservers (h : SameEffects own s t) (o p : List Observer) :
    SameEffects own { s with observers := o } { t with observers := p } where
  rest := by rw [h.rest]
  dicts := h.dicts
  size := h.size
  generator := h.generator

theorem of_snapshots {code : LoadedCode → LoadedCode → Prop}
    {observers : List Observer → List Observer → Prop}
    (hcode : ∀ c d, code c d → c.object.qualname = d.object.qualname)
    (h : (loose code observers).Alike s t) {names : NameMap} (hs : Snapshots names s u) :
    SameEffects none u t := by
  obtain ⟨entries, next, rfl, -, -⟩ := hs
  have hst := of_alike hcode h
  have hdicts : s.dicts = t.dicts := by rw [h.rest]
  exact ⟨by rw [h.rest], .inr ⟨⟨entries⟩, by rw [hdicts]⟩, hst.size, hst.generator⟩

theorem withState (h : SameEffects own s t) (r : GeneratorRef) (state : GeneratorState) :
    SameEffects own (Capture.withState s r state) (Capture.withState t r state) where
  rest := by
    have := h.rest
    unfold Capture.withState withGenerator
    rw [this]
  dicts := h.dicts
  size := by simp only [Capture.withState, withGenerator, Array.size_setIfInBounds, h.size]
  generator q hq := by
    obtain ⟨hcode, hstate, hstarted⟩ := h.generator q hq
    simp only [Capture.withState, generator_withGenerator, h.size]
    split
    · rename_i hi
      obtain rfl : r = q := by
        cases r
        cases q
        exact congrArg _ hi.1
      exact ⟨hcode, rfl, hstarted⟩
    · exact ⟨hcode, hstate, hstarted⟩

end SameEffects

end Lexiscope.Capture
