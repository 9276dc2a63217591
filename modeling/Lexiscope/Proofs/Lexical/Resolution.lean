import Lexiscope.Lexical.Scope
import Lexiscope.Proofs.Lexical.Mentions
/-!
# Scopes of blocks

Resolving the names of a block keeps what is known about it and about the blocks inside it. What
the scope of a block holds beside that depends only on its facts, on the local names of the
functions around it, and on the scopes of the blocks inside it.
-/

namespace Lexiscope.Lexical

mutual

def Scope.block : Scope → Block
  | ⟨facts, _, _, children⟩ => ⟨facts, scopeBlocks children⟩

def scopeBlocks : List Scope → List Block
  | [] => []
  | s :: ss => s.block :: scopeBlocks ss

end

theorem block_eq (s : Scope) : s.block = ⟨s.facts, scopeBlocks s.children⟩ := by
  cases s
  rw [Scope.block]

structure Scope.Resolves (s : Scope) (enclosing : List (List Name)) (b : Block) : Prop where
  facts : s.facts = b.facts
  children : resolveAll (b.facts.inside enclosing) b.children = .ok s.children
  shared : ∃ free, b.facts.takeFree enclosing = .ok free ∧
    (s.cells, s.free) = b.facts.share free s.children

theorem resolve_ok {enclosing : List (List Name)} {b : Block} {s : Scope}
    (h : b.resolve enclosing = .ok s) : s.Resolves enclosing b := by
  obtain ⟨facts, children⟩ := b
  unfold Block.resolve at h
  obtain ⟨free, hfree, h⟩ := bind_eq_ok h
  obtain ⟨scopes, hscopes, h⟩ := bind_eq_ok h
  cases h
  exact ⟨rfl, hscopes, free, hfree, rfl⟩

/-- A module takes no names from around it, and another body those that its own statements use
and a function around it binds. -/
theorem takeFree_ok {f : Facts} {enclosing : List (List Name)} {free : List Name}
    (h : f.takeFree enclosing = .ok free) :
    f.kind = .moduleBody ∧ free = [] ∨
      f.kind ≠ .moduleBody ∧ free = f.freeNames (visibleIn enclosing) ∧
        ∀ n ∈ f.nonlocals, visibleIn enclosing n = true := by
  unfold Facts.takeFree at h
  split at h
  · rename_i hkind
    cases h
    exact .inl ⟨hkind, rfl⟩
  · rename_i hkind
    split at h
    · cases h
    · rename_i hfind
      cases h
      exact .inr ⟨hkind, rfl, by simpa using hfind⟩

theorem resolveAll_cons_ok {enclosing : List (List Name)} {b : Block} {bs : List Block}
    {ss : List Scope} (h : resolveAll enclosing (b :: bs) = .ok ss) :
    ∃ s rest, ss = s :: rest ∧ b.resolve enclosing = .ok s ∧ resolveAll enclosing bs = .ok rest := by
  unfold resolveAll at h
  obtain ⟨s, hs, h⟩ := bind_eq_ok h
  obtain ⟨rest, hrest, h⟩ := bind_eq_ok h
  cases h
  exact ⟨s, rest, rfl, hs, hrest⟩

mutual

theorem block_of_resolve {enclosing : List (List Name)} :
    {b : Block} → {s : Scope} → b.resolve enclosing = .ok s → s.block = b
  | ⟨facts, children⟩, ⟨_, _, _, _⟩, h => by
    have hresolves := resolve_ok h
    obtain rfl := hresolves.facts
    simp only [Scope.block, blocks_of_resolveAll hresolves.children]

theorem blocks_of_resolveAll {enclosing : List (List Name)} :
    {bs : List Block} → {ss : List Scope} → resolveAll enclosing bs = .ok ss → scopeBlocks ss = bs
  | [], _, h => by
    unfold resolveAll at h
    cases h
    rfl
  | b :: bs, _, h => by
    obtain ⟨s, rest, rfl, hs, hrest⟩ := resolveAll_cons_ok h
    simp only [scopeBlocks, block_of_resolve hs, blocks_of_resolveAll hrest]

end

theorem scopeBlocks_eq_append {ss : List Scope} {as bs : List Block}
    (h : scopeBlocks ss = as ++ bs) :
    ∃ ss₁ ss₂, ss = ss₁ ++ ss₂ ∧ scopeBlocks ss₁ = as ∧ scopeBlocks ss₂ = bs := by
  induction as generalizing ss with
  | nil => exact ⟨[], ss, rfl, rfl, h⟩
  | cons a as ih =>
    cases ss with
    | nil => cases h
    | cons s ss =>
      simp only [scopeBlocks, List.cons_append, List.cons.injEq] at h
      obtain ⟨ss₁, ss₂, rfl, h₁, h₂⟩ := ih h.2
      exact ⟨s :: ss₁, ss₂, rfl, by rw [scopeBlocks, h.1, h₁], h₂⟩

theorem analyze_ok {body : List Grammar.Stmt} {s : Scope} (h : analyze body = .ok s) :
    s.block = ⟨Facts.ofModule.after (bodyMentions body), bodyBlocks .ofModule body⟩ ∧
      s.block.YieldsProperly := by
  obtain ⟨b, hb, hs⟩ := bind_eq_ok h
  obtain ⟨rfl, hproper⟩ := yieldsProperly_of_read rfl (readAll_ok hb)
  rw [block_of_resolve hs]
  exact ⟨rfl, hproper⟩

end Lexiscope.Lexical
