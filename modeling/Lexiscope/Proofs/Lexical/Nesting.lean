import Lexiscope.Proofs.Lexical.Sharing
/-!
# Scopes inside one another

A name that a body does not own lives in the nearest function around it that owns it. All bodies
between the two pass it on, and that function keeps it in a cell. Classes own nothing.
-/

namespace Lexiscope.Lexical

/-- Scopes inside one another, from the innermost to that of the module. -/
inductive Nested (root : Scope) : List Scope → Prop where
  | root : Nested root [root]
  | inner {s t : Scope} {outer : List Scope} : Nested root (t :: outer) → s ∈ t.children →
    Nested root (s :: t :: outer)

def localsAround : List Scope → List (List Name)
  | [] => []
  | s :: outer => s.facts.inside (localsAround outer)

theorem visibleIn_localsAround {outer : List Scope} {n : Name} :
    visibleIn (localsAround outer) n = true ↔ ∃ t ∈ outer, t.facts.Owns n := by
  induction outer with
  | nil => simp [localsAround, visibleIn]
  | cons t outer ih => simp [localsAround, visibleIn_inside, ih]

theorem resolve_of_mem {enclosing : List (List Name)} {s : Scope} :
    {bs : List Block} → {ss : List Scope} → resolveAll enclosing bs = .ok ss → s ∈ ss →
      ∃ b : Block, b.resolve enclosing = .ok s
  | [], _, h, hs => by
    unfold resolveAll at h
    cases h
    cases hs
  | b :: bs, _, h, hs => by
    obtain ⟨s', rest, rfl, hb, hrest⟩ := resolveAll_cons_ok h
    rcases List.mem_cons.1 hs with rfl | hs
    · exact ⟨b, hb⟩
    · exact resolve_of_mem hrest hs

theorem Nested.resolve {body : List Grammar.Stmt} {root s : Scope} {outer : List Scope}
    (hn : Nested root (s :: outer)) (h : analyze body = .ok root) :
    ∃ b : Block, b.resolve (localsAround outer) = .ok s := by
  generalize hscopes : s :: outer = scopes at hn
  induction hn generalizing s outer with
  | root =>
    cases hscopes
    obtain ⟨b, -, hb⟩ := bind_eq_ok h
    exact ⟨b, hb⟩
  | inner _ hs ih =>
    cases hscopes
    obtain ⟨b, hb⟩ := ih rfl
    have ht := resolve_ok hb
    have hchildren := ht.children
    rw [← ht.facts] at hchildren
    exact resolve_of_mem hchildren hs

theorem Nested.resolves {body : List Grammar.Stmt} {root s : Scope} {outer : List Scope}
    (hn : Nested root (s :: outer)) (h : analyze body = .ok root) :
    ∃ b, s.Resolves (localsAround outer) b := by
  obtain ⟨b, hb⟩ := hn.resolve h
  exact ⟨b, resolve_ok hb⟩

section Owners

variable {body : List Grammar.Stmt} {root s t : Scope} {outer : List Scope} {n : Name}

/-- The nearest owner of a name. -/
theorem exists_nearest (h : ∃ t ∈ outer, t.facts.Owns n) :
    ∃ between owner rest, outer = between ++ owner :: rest ∧ owner.facts.Owns n ∧
      ∀ t ∈ between, ¬ t.facts.Owns n := by
  induction outer with
  | nil => simp at h
  | cons t outer ih =>
    by_cases ht : t.facts.Owns n
    · exact ⟨[], t, outer, rfl, ht, by simp⟩
    · obtain ⟨between, owner, rest, rfl, howner, hbetween⟩ := ih (by simpa [ht] using h)
      refine ⟨t :: between, owner, rest, rfl, howner, ?_⟩
      simpa [ht] using hbetween

/-- What a body asks for is passed on by all bodies between it and the nearest owner, who keeps it in
a cell. -/
theorem passed_on (h : analyze body = .ok root) {between rest : List Scope} {owner : Scope}
    (howner : owner.facts.Owns n) (hbetween : ∀ t ∈ between, ¬ t.facts.Owns n)
    (hnested : Nested root (s :: between ++ owner :: rest)) (hfree : n ∈ s.free) :
    (∀ t ∈ between, n ∈ t.free) ∧ n ∈ owner.cells := by
  induction between generalizing s with
  | nil =>
    cases hnested with
    | inner hnested hs =>
      obtain ⟨b, howner'⟩ := hnested.resolves h
      exact ⟨by simp, howner'.mem_cells.2 ⟨howner, s, hs, hfree⟩⟩
  | cons t between ih =>
    cases hnested with
    | inner hnested hs =>
      obtain ⟨b, ht⟩ := hnested.resolves h
      have hpassed : n ∈ t.free := ht.mem_free.2 (.inr ⟨⟨s, hs, hfree⟩, hbetween t (by simp)⟩)
      obtain ⟨hrest, hcell⟩ := ih (fun u hu => hbetween u (by simp [hu])) hnested hpassed
      exact ⟨by simpa [hpassed] using hrest, hcell⟩

/-- What the statements of a body read, bind or declare. -/
def Facts.Names (f : Facts) (n : Name) : Prop :=
  n ∈ f.used ∨ n ∈ f.bound ∨ n ∈ f.globals ∨ n ∈ f.nonlocals

/-- The name is global in a body among others: in a module, by declaration, or because nobody
owns it. -/
def IsGlobal (s : Scope) (outer : List Scope) (n : Name) : Prop :=
  s.facts.kind = .moduleBody ∨ n ∈ s.facts.globals ∨
    n ∉ s.facts.bound ∧ n ∉ s.facts.nonlocals ∧ ∀ t ∈ outer, ¬ t.facts.Owns n

/-- The body binds the name and does not declare it. -/
def IsOwn (s : Scope) (n : Name) : Prop :=
  n ∈ s.facts.bound ∧ n ∉ s.facts.globals ∧ n ∉ s.facts.nonlocals

/-- What a body asks for is owned by a function around it. -/
theorem Nested.exists_owner (hnested : Nested root (s :: outer)) (h : analyze body = .ok root)
    (hfree : n ∈ s.free) : ∃ t ∈ outer, t.facts.Owns n := by
  obtain ⟨b, hb⟩ := hnested.resolve h
  exact visibleIn_localsAround.1 (visible_of_free hb hfree)

/-- No body has a name both in a cell and from around it. -/
theorem Nested.not_mem_cells (hnested : Nested root (s :: outer)) (h : analyze body = .ok root)
    (hfree : n ∈ s.free) : n ∉ s.cells := by
  obtain ⟨b, hs⟩ := hnested.resolves h
  exact fun hcell => hs.not_mem_free_of_cell hcell hfree

theorem symbol_global (h : analyze body = .ok root) (hnested : Nested root (s :: outer))
    (hn : IsGlobal s outer n) :
    s.symbol n = .globalExplicit ∨ s.symbol n = .globalImplicit := by
  by_cases hglobal : n ∈ s.facts.globals
  · exact .inl (by simp [Scope.symbol, hglobal])
  right
  rcases hn with hkind | hn | ⟨hbound, hnonlocal, howners⟩
  · simp [Scope.symbol, hglobal, hkind]
  · exact absurd hn hglobal
  · obtain ⟨b, hs⟩ := hnested.resolves h
    have hfree : n ∉ s.free := fun hfree => by
      obtain ⟨t, ht, howns⟩ := hnested.exists_owner h hfree
      exact howners t ht howns
    have hcell : n ∉ s.cells := fun hcell =>
      hbound (Facts.mem_localNames.1 (hs.mem_cells.1 hcell).1.2).1
    cases hkind : s.facts.kind <;> simp [Scope.symbol, *]

theorem symbol_classLocal (hkind : s.facts.kind = .classBody) (hn : IsOwn s n) :
    s.symbol n = .classLocal := by
  simp [Scope.symbol, hkind, hn.1, hn.2.1, hn.2.2]

theorem symbol_own (h : analyze body = .ok root) (hnested : Nested root (s :: outer))
    (hkind : s.facts.kind = .functionBody) (hn : IsOwn s n) :
    s.symbol n = if n ∈ s.cells then .cell else .fast := by
  obtain ⟨b, hs⟩ := hnested.resolves h
  have hfree : n ∉ s.free := fun hfree =>
    hs.not_owns_of_free hfree ⟨hkind, Facts.mem_localNames.2 hn⟩
  simp [Scope.symbol, hkind, hn.1, hn.2.1, hfree]

theorem symbol_outside (h : analyze body = .ok root) (hnested : Nested root (s :: outer))
    (hnames : s.facts.Names n) (hglobal : ¬ IsGlobal s outer n) (hown : ¬ IsOwn s n) :
    n ∈ s.free ∧ (s.symbol n = .free ∨ s.facts.kind = .classBody ∧ s.symbol n = .classFree) := by
  obtain ⟨b, hs⟩ := hnested.resolves h
  simp only [IsGlobal, not_or, not_and] at hglobal
  simp only [IsOwn, not_and] at hown
  obtain ⟨hkind, hglobals, howners⟩ := hglobal
  have htakes : s.facts.Takes (localsAround outer) n := by
    refine ⟨hkind, ?_⟩
    by_cases hnonlocal : n ∈ s.facts.nonlocals
    · exact .inl hnonlocal
    have hbound : n ∉ s.facts.bound := fun hbound => hown hbound hglobals hnonlocal
    have howner : ∃ t ∈ outer, t.facts.Owns n := Classical.byContradiction fun hnone =>
      howners hbound hnonlocal fun t ht howns => hnone ⟨t, ht, howns⟩
    have hused : n ∈ s.facts.used := by simpa [Facts.Names, hglobals, hnonlocal, hbound] using hnames
    exact .inr ⟨hused, hbound, hglobals, visibleIn_localsAround.2 howner⟩
  have hfree : n ∈ s.free := hs.mem_free.2 (.inl htakes)
  have hcell : n ∉ s.cells := fun hcell => hs.not_mem_free_of_cell hcell hfree
  refine ⟨hfree, ?_⟩
  cases hk : s.facts.kind with
  | moduleBody => exact absurd hk hkind
  | functionBody => simp [Scope.symbol, hk, hglobals, hcell, hfree]
  | classBody =>
    by_cases hnonlocal : n ∈ s.facts.nonlocals
    · simp [Scope.symbol, hk, hglobals, hnonlocal]
    · have hbound : n ∉ s.facts.bound := fun hbound => hown hbound hglobals hnonlocal
      simp [Scope.symbol, hk, hglobals, hnonlocal, hbound, hfree]

end Owners

end Lexiscope.Lexical
