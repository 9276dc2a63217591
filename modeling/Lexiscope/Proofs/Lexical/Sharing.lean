import Lexiscope.Proofs.Lexical.Resolution
/-!
# What bodies share

A body keeps in cells those of its own names that a body in it asks for, and asks for the others
itself. So what a body asks for is bound by a function around it.
-/

namespace Lexiscope.Lexical

/-- The body is a function with the name among its local names. -/
def Facts.Owns (f : Facts) (n : Name) : Prop := f.kind = .functionBody ∧ n ∈ f.localNames

instance (f : Facts) (n : Name) : Decidable (f.Owns n) :=
  inferInstanceAs (Decidable (f.kind = .functionBody ∧ n ∈ f.localNames))

/-- The body takes the name from around it by its own statements. -/
def Facts.Takes (f : Facts) (enclosing : List (List Name)) (n : Name) : Prop :=
  f.kind ≠ .moduleBody ∧ (n ∈ f.nonlocals ∨
    n ∈ f.used ∧ n ∉ f.bound ∧ n ∉ f.globals ∧ visibleIn enclosing n = true)

theorem Facts.mem_localNames {f : Facts} {n : Name} :
    n ∈ f.localNames ↔ n ∈ f.bound ∧ n ∉ f.globals ∧ n ∉ f.nonlocals := by
  simp [Facts.localNames]

theorem visibleIn_inside {f : Facts} {enclosing : List (List Name)} {n : Name} :
    visibleIn (f.inside enclosing) n = true ↔ f.Owns n ∨ visibleIn enclosing n = true := by
  unfold Facts.inside Facts.Owns
  split
  · rename_i hkind
    simp [visibleIn, hkind]
  · rename_i hkind
    simp [hkind]

theorem mem_takeFree {f : Facts} {enclosing : List (List Name)} {free : List Name} {n : Name}
    (h : f.takeFree enclosing = .ok free) : n ∈ free ↔ f.Takes enclosing n := by
  rcases takeFree_ok h with ⟨hkind, rfl⟩ | ⟨hkind, rfl, -⟩
  · simp [Facts.Takes, hkind]
  · simp [Facts.Takes, Facts.freeNames, mem_foldl_addName, hkind, and_assoc]

theorem visible_of_takes {f : Facts} {enclosing : List (List Name)} {free : List Name} {n : Name}
    (h : f.takeFree enclosing = .ok free) (hn : f.Takes enclosing n) :
    visibleIn enclosing n = true := by
  obtain ⟨hkind, hn⟩ := hn
  rcases takeFree_ok h with ⟨hmodule, -⟩ | ⟨-, -, hnonlocals⟩
  · exact absurd hmodule hkind
  · rcases hn with hn | hn
    · exact hnonlocals n hn
    · exact hn.2.2.2

theorem nodup_takeFree {f : Facts} {enclosing : List (List Name)} {free : List Name}
    (h : f.takeFree enclosing = .ok free) : free.Nodup := by
  rcases takeFree_ok h with ⟨-, rfl⟩ | ⟨-, rfl, -⟩
  · exact List.nodup_nil
  · exact nodup_foldl_addName _ List.nodup_nil

namespace Scope.Resolves

variable {s : Scope} {enclosing : List (List Name)} {b : Block} {n : Name}

theorem shares (h : s.Resolves enclosing b) : ∃ free, s.facts.takeFree enclosing = .ok free ∧
    s.cells = (s.facts.share free s.children).1 ∧ s.free = (s.facts.share free s.children).2 := by
  obtain ⟨free, htaken, hshared⟩ := h.shared
  rw [← h.facts] at htaken hshared
  exact ⟨free, htaken, congrArg Prod.fst hshared, congrArg Prod.snd hshared⟩

/-- A function keeps those of its names in cells that a body in it asks for. -/
theorem mem_cells (h : s.Resolves enclosing b) :
    n ∈ s.cells ↔ s.facts.Owns n ∧ ∃ c ∈ s.children, n ∈ c.free := by
  obtain ⟨free, -, hcells, -⟩ := h.shares
  rw [hcells]
  simp [Facts.share, mem_foldl_addName, Facts.Owns, and_comm]

/-- A body asks for the names that it takes itself, and for those that the bodies in it ask for
and that it does not own. -/
theorem mem_free (h : s.Resolves enclosing b) :
    n ∈ s.free ↔ s.facts.Takes enclosing n ∨
      (∃ c ∈ s.children, n ∈ c.free) ∧ ¬ s.facts.Owns n := by
  obtain ⟨free, htaken, -, hfree⟩ := h.shares
  rw [hfree, ← mem_takeFree htaken]
  simp [Facts.share, mem_foldl_addName, Facts.Owns, Decidable.imp_iff_not_or]

theorem nodup_cells (h : s.Resolves enclosing b) : s.cells.Nodup := by
  obtain ⟨free, -, hcells, -⟩ := h.shares
  rw [hcells]
  exact nodup_foldl_addName _ List.nodup_nil

theorem nodup_free (h : s.Resolves enclosing b) : s.free.Nodup := by
  obtain ⟨free, htaken, -, hfree⟩ := h.shares
  rw [hfree]
  exact nodup_foldl_addName _ (nodup_takeFree htaken)

theorem not_owns_of_free (h : s.Resolves enclosing b) (hn : n ∈ s.free) : ¬ s.facts.Owns n := by
  rcases h.mem_free.1 hn with ⟨-, htaken⟩ | ⟨-, howns⟩
  · rintro ⟨-, hlocal⟩
    rw [Facts.mem_localNames] at hlocal
    rcases htaken with htaken | htaken
    · exact hlocal.2.2 htaken
    · exact htaken.2.1 hlocal.1
  · exact howns

theorem not_mem_free_of_cell (h : s.Resolves enclosing b) (hn : n ∈ s.cells) : n ∉ s.free :=
  fun hfree => h.not_owns_of_free hfree (h.mem_cells.1 hn).1

end Scope.Resolves

mutual

/-- What a body asks for is bound by a function around it. -/
theorem visible_of_free {enclosing : List (List Name)} {n : Name} :
    {b : Block} → {s : Scope} → b.resolve enclosing = .ok s → n ∈ s.free →
      visibleIn enclosing n = true
  | ⟨facts, children⟩, s, h, hn => by
    have hs := resolve_ok h
    obtain ⟨free, htaken, -⟩ := hs.shared
    rcases hs.mem_free.1 hn with htakes | ⟨⟨c, hc, hfree⟩, howns⟩
    · rw [hs.facts] at htakes
      exact visible_of_takes htaken htakes
    · have hvisible := visible_of_free_mem hs.children hc hfree
      rw [hs.facts] at howns
      exact (visibleIn_inside.1 hvisible).resolve_left howns

theorem visible_of_free_mem {enclosing : List (List Name)} {n : Name} :
    {bs : List Block} → {ss : List Scope} → {c : Scope} → resolveAll enclosing bs = .ok ss →
      c ∈ ss → n ∈ c.free → visibleIn enclosing n = true
  | [], _, _, h, hc, _ => by
    unfold resolveAll at h
    cases h
    cases hc
  | b :: bs, _, _, h, hc, hn => by
    obtain ⟨s, rest, rfl, hs, hrest⟩ := resolveAll_cons_ok h
    rcases List.mem_cons.1 hc with rfl | hc
    · exact visible_of_free hs hn
    · exact visible_of_free_mem hrest hc hn

end

theorem free_of_analyze {body : List Grammar.Stmt} {s : Scope} (h : analyze body = .ok s) :
    s.free = [] := by
  obtain ⟨b, -, hs⟩ := bind_eq_ok h
  refine List.eq_nil_iff_forall_not_mem.2 fun n hn => ?_
  simpa [visibleIn] using visible_of_free hs hn

end Lexiscope.Lexical
