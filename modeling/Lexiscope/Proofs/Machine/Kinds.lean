import Mathlib.Data.List.Forall2
import Lexiscope.Proofs.Machine.Effects
/-!
# Frames that fit a layout

The operands of a frame are what the layout of its code says of them. Then every instruction finds
the operands that it needs, and leaves operands that are right for the next one.
-/

namespace Lexiscope.Machine

open Code (Instr FunctionParts Kind Kinds Pools)

def HasKind (v : Value) : Kind → Prop
  | .any => True
  | .cell => ∃ r, v = .cell r
  | .cells n => ∃ id, ∃ cells : List CellRef, v = .tuple id (cells.map .cell) ∧ cells.length = n
  | .texts n => ∃ id items, v = .tuple id items ∧ items.length = n ∧
      ∀ item ∈ items, ∃ s, item = .str s
  | .tuple => ∃ id items, v = .tuple id items
  | .dict => ∃ r, v = .dict r
  | .code c => ∃ d : LoadedCode, v = .code d ∧ d.object = c

abbrev HaveKinds : List Value → Kinds → Prop := List.Forall₂ HasKind

/-- The frame has the slots and cells that its code has names for. -/
structure Frame.Roomy (f : Frame) : Prop where
  fast : f.fast.size = f.code.object.varnames.size
  cells : f.cells.length = f.code.object.derefNames.length

section Operands

variable {f : Frame} {taken : List Value}

theorem onTop_of_part {given : Bool} {κ : Kind} {p : Value → Prop} {rest : List Value} {σ : Kinds}
    (h : HaveKinds rest ((if given then [κ] else []) ++ σ)) (hp : ∀ v, HasKind v κ → p v) :
    ∃ after, OnTop given p rest after ∧ HaveKinds after σ := by
  cases given with
  | false => exact ⟨rest, rfl, h⟩
  | true =>
    obtain ⟨v, after, hv, hafter, rfl⟩ := List.forall₂_cons_right_iff.1 h
    exact ⟨after, ⟨v, rfl, hp v hv⟩, hafter⟩

theorem partsLie_of_kinds {parts : FunctionParts} {free : Nat} {rest : List Value}
    (h : HaveKinds rest (parts.kinds free)) : ∃ closure, PartsLie parts closure rest [] := by
  unfold FunctionParts.kinds at h
  rw [List.append_assoc] at h
  obtain ⟨closure, hclosed⟩ : ∃ closure : List CellRef, (parts.closure = false → closure = []) ∧
      ∃ s, OnTop parts.closure (fun v => ∃ id, v = .tuple id (closure.map .cell)) rest s ∧
        HaveKinds s ((if parts.keywordDefaults then [.dict] else []) ++
          if parts.defaults then [.tuple] else []) := by
    cases hclosure : parts.closure with
    | false => exact ⟨[], fun _ => rfl, rest, rfl, by simpa [hclosure] using h⟩
    | true =>
      rw [hclosure] at h
      obtain ⟨v, s, ⟨id, cells, rfl, -⟩, hs, rfl⟩ := List.forall₂_cons_right_iff.1 h
      exact ⟨cells, by simp, s, ⟨_, rfl, id, rfl⟩, hs⟩
  obtain ⟨hempty, s, hs, hkinds⟩ := hclosed
  obtain ⟨t, ht, hkinds⟩ := onTop_of_part (p := fun v => ∃ r, v = .dict r) hkinds fun _ hv => hv
  rw [← List.append_nil (if parts.defaults then [Kind.tuple] else [])] at hkinds
  obtain ⟨u, hu, hkinds⟩ :=
    onTop_of_part (p := fun v => ∃ id items, v = .tuple id items) hkinds fun _ hv => hv
  cases hkinds
  exact ⟨closure, s, t, hs, hempty, ht, hu⟩

theorem closure_length {parts : FunctionParts} {free : Nat} {rest : List Value}
    {closure : List CellRef} (h : HaveKinds rest (parts.kinds free))
    (hfree : parts.closure = false → free = 0) (hlie : PartsLie parts closure rest []) :
    closure.length = free := by
  obtain ⟨s, t, hs, hempty, -, -⟩ := hlie
  unfold FunctionParts.kinds at h
  cases hclosure : parts.closure with
  | false => rw [hempty hclosure, hfree hclosure, List.length_nil]
  | true =>
    rw [hclosure] at h hs
    obtain ⟨v, rest, ⟨id, cells, rfl, rfl⟩, -, rfl⟩ := List.forall₂_cons_right_iff.1 h
    obtain ⟨w, hw, id', rfl⟩ := hs
    simp only [List.cons.injEq, Value.tuple.injEq] at hw
    simpa using (congrArg List.length hw.1.2).symm

theorem suits_of_lays {i : Instr} {next target : Kinds → Prop} {τ σ : Kinds} (hf : f.Roomy)
    (hi : i.Lays f.code.object.pools next target τ σ) (htaken : HaveKinds taken τ) :
    f.Suits taken i := by
  obtain ⟨hfast, hcells⟩ := hf
  cases i <;> simp only [Instr.Lays, Code.Object.pools] at hi <;> simp only [Frame.Suits]
  case loadConst k =>
    obtain ⟨c, _, hc, -⟩ := hi
    exact (Array.getElem?_eq_some_iff.1 hc).1
  case callKw n =>
    obtain ⟨⟨m, args, rfl, hm⟩, -⟩ := hi
    obtain ⟨v, rest, ⟨id, items, rfl, rfl, htexts⟩, -, rfl⟩ :=
      List.forall₂_cons_right_iff.1 htaken
    exact ⟨id, items, rest, rfl, hm, htexts⟩
  case makeFunction bits =>
    obtain ⟨⟨c, -, rfl, -⟩, -⟩ := hi
    obtain ⟨v, rest, ⟨d, rfl, -⟩, hrest, rfl⟩ := List.forall₂_cons_right_iff.1 htaken
    obtain ⟨closure, hlie⟩ := partsLie_of_kinds hrest
    exact ⟨d, closure, rest, rfl, hlie⟩
  all_goals omega

end Operands

/-- The frame is at a place of its code, with the operands that are laid out there. -/
structure Frame.Fits (layout : Nat → Kinds) (f : Frame) : Prop where
  place : f.pc < f.code.object.instructions.size
  stack : HaveKinds f.stack (layout f.pc)

def Action.Keeps (layout : Nat → Kinds) : Action → Prop
  | .next f => f.Fits layout
  | .returned _ _ => True
  | .yielded _ f => (f.push .none).Fits layout
  | .invoke _ _ _ f => ∀ v, (f.push v).Fits layout
  | .unpack _ count f => ∀ items : List Value, items.length = count →
      Frame.Fits layout { f with stack := items ++ f.stack }
  | .advance _ target f => (∀ v, (f.push v).Fits layout) ∧
      ∃ v rest, f.stack = v :: rest ∧
        Frame.Fits layout { f with stack := rest, pc := target }

/-- What may be said of values by their kinds, as it holds of all that instructions push. -/
structure Reading (P : Value → Kind → Prop) : Prop where
  any : ∀ v, P v .any
  dict : ∀ r, P (.dict r) .dict
  loads : ∀ {k : Code.Constant Code.Object} {i : Nat} {c : LoadedCode} {κ : Kind} {v : Value},
    κ.Describes k → c.Loads i k v → P v κ
  tuple : ∀ {κ : Kind} {taken : List Value} {τ : Kinds}, List.Forall₂ P taken τ → κ.Holds τ →
    ∀ id, P (.tuple id taken.reverse) κ

/-- The frame is at a place of its code, and of its operands holds what is said of the kinds that are
laid out there. -/
structure Frame.Reads (P : Value → Kind → Prop) (layout : Nat → Kinds) (f : Frame) : Prop where
  place : f.pc < f.code.object.instructions.size
  stack : List.Forall₂ P f.stack (layout f.pc)

/-- The frame with which the machine goes on has the property. -/
def Action.Leaves (p : Frame → Prop) : Action → Prop
  | .next f => p f
  | .returned _ _ => True
  | .yielded _ f => p (f.push .none)
  | .invoke _ _ _ f => ∀ v, p (f.push v)
  | .unpack _ count f => ∀ items : List Value, items.length = count →
      p { f with stack := items ++ f.stack }
  | .advance _ target f => (∀ v, p (f.push v)) ∧
      ∃ v rest, f.stack = v :: rest ∧ p { f with stack := rest, pc := target }

theorem Action.Leaves.mono {p q : Frame → Prop} {a : Action} (h : a.Leaves p)
    (hpq : ∀ f, p f → q f) : a.Leaves q := by
  cases a with
  | next f | yielded v f => exact hpq _ h
  | returned v f => exact h
  | invoke callee args keywords f => exact fun v => hpq _ (h v)
  | unpack v count f => exact fun items hitems => hpq _ (h items hitems)
  | advance iterator target f =>
    obtain ⟨hgo, v, rest, hstack, hend⟩ := h
    exact ⟨fun v => hpq _ (hgo v), v, rest, hstack, hpq _ hend⟩

theorem Action.keeps_iff {layout : Nat → Kinds} {a : Action} :
    a.Keeps layout ↔ a.Leaves (Frame.Fits layout) := by
  cases a <;> rfl

section Keeping

variable {layout : Nat → Kinds} {f : Frame} {σ : Kinds} {P : Value → Kind → Prop}

theorem reads_push {κ : Kind} {v : Value} (hσ : List.Forall₂ P f.stack σ)
    (h : f.pc < f.code.object.instructions.size ∧ layout f.pc = κ :: σ) (hv : P v κ) :
    (f.push v).Reads P layout := by
  refine ⟨h.1, ?_⟩
  change List.Forall₂ P (v :: f.stack) (layout f.pc)
  rw [h.2]
  exact .cons hv hσ

theorem Reading.anys (hP : Reading P) {items : List Value} {n : Nat} (h : items.length = n) :
    List.Forall₂ P items (List.replicate n .any) := by
  induction items generalizing n with
  | nil =>
    subst h
    exact .nil
  | cons v items ih =>
    subst h
    exact .cons (hP.any v) (ih rfl)

theorem hasKind_of_loads {k : Code.Constant Code.Object} {i : Nat} {c : LoadedCode} {κ : Kind}
    {v : Value} (hκ : κ.Describes k) (hv : c.Loads i k v) : HasKind v κ := by
  cases κ <;> cases k <;> simp only [Kind.Describes] at hκ
  case texts.names n names =>
    obtain ⟨id, items, rfl, hlength, htexts⟩ := hv
    exact ⟨id, items, rfl, hlength.trans hκ, htexts⟩
  case code.code c d =>
    subst hκ
    exact ⟨_, hv, rfl⟩
  all_goals trivial

theorem cells_of_kinds {items : List Value} {n : Nat}
    (h : HaveKinds items (List.replicate n .cell)) :
    ∃ cells : List CellRef, items = cells.map .cell ∧ cells.length = n := by
  induction n generalizing items with
  | zero =>
    cases h
    exact ⟨[], rfl, rfl⟩
  | succ n ih =>
    obtain ⟨v, rest, ⟨r, rfl⟩, hrest, rfl⟩ := List.forall₂_cons_right_iff.1 h
    obtain ⟨cells, rfl, rfl⟩ := ih hrest
    exact ⟨r :: cells, rfl, rfl⟩

theorem hasKind_of_holds {κ : Kind} {taken : List Value} {τ : Kinds} (htaken : HaveKinds taken τ)
    (hκ : κ.Holds τ) (id : Identity) : HasKind (.tuple id taken.reverse) κ := by
  cases κ <;> simp only [Kind.Holds] at hκ
  case any => trivial
  case tuple => exact ⟨id, _, rfl⟩
  case cells n =>
    subst hκ
    obtain ⟨cells, rfl, hlength⟩ := cells_of_kinds htaken
    exact ⟨id, cells.reverse, by rw [List.map_reverse], by rw [List.length_reverse, hlength]⟩

theorem reading_hasKind : Reading HasKind where
  any _ := trivial
  dict r := ⟨r, rfl⟩
  loads := hasKind_of_loads
  tuple := hasKind_of_holds

theorem leaves_of_does {L : Likeness} {i : Instr} {a : Action} {taken : List Value} {τ : Kinds}
    {p : Pools} {pc : Nat} (hP : Reading P) (hpc : f.pc = pc + 1) (hσ : List.Forall₂ P f.stack σ)
    (htaken : List.Forall₂ P taken τ) (hp : p = f.code.object.pools)
    (hi : i.Lays p
      (fun ρ => pc + 1 < f.code.object.instructions.size ∧ layout (pc + 1) = ρ)
      (fun ρ => ∃ t, i.target? = some t ∧ t < f.code.object.instructions.size ∧ layout t = ρ) τ σ)
    (hdoes : L.Does f taken i a)
    (hcell : ∀ k r, i = .loadClosure k → a = .next (f.push (.cell r)) → P (.cell r) .cell) :
    a.Leaves (Frame.Reads P layout) := by
  rw [← hpc] at hi
  have hany : f.pc < f.code.object.instructions.size ∧ layout f.pc = .any :: σ →
      ∀ v, (f.push v).Reads P layout := fun h v => reads_push hσ h (hP.any v)
  have hsame : f.pc < f.code.object.instructions.size ∧ layout f.pc = σ → f.Reads P layout :=
    fun h => ⟨h.1, h.2 ▸ hσ⟩
  have hjump : ∀ t, (∃ u, some t = some u ∧ u < f.code.object.instructions.size ∧
      layout u = σ) → (f.jump t).Reads P layout := by
    rintro t ⟨_, ⟨⟩, hlt, ht⟩
    exact ⟨hlt, ht ▸ hσ⟩
  cases i <;> simp only [Instr.Lays, Likeness.Does, Instr.target?] at hi hdoes
  case loadConst k =>
    obtain ⟨c, κ, hc, hκ, hnext⟩ := hi
    obtain ⟨c', v, hc', hloads, rfl⟩ := hdoes
    subst hp
    obtain rfl : c = c' := Option.some.inj (hc.symm.trans hc')
    exact reads_push hσ hnext (hP.loads hκ hloads)
  case loadClosure k =>
    obtain ⟨r, rfl⟩ := hdoes
    exact reads_push hσ hi.2 (hcell k r rfl rfl)
  case storeFast k =>
    obtain ⟨v, -, rfl⟩ := hdoes
    exact ⟨hi.2.1, hi.2.2 ▸ hσ⟩
  case storeDeref | storeGlobal | storeName | storeAttr =>
    subst hdoes
    exact hsame hi.2
  case storeSubscript | pop =>
    subst hdoes
    exact hsame hi
  case buildTuple n =>
    obtain ⟨κ, hκ, hnext⟩ := hi
    obtain ⟨id, rfl⟩ := hdoes
    exact reads_push hσ hnext (hP.tuple htaken hκ id)
  case buildDict n =>
    obtain ⟨κ, hκ, hnext⟩ := hi
    obtain ⟨r, rfl⟩ := hdoes
    refine reads_push hσ hnext ?_
    rcases hκ with rfl | rfl
    · exact hP.any _
    · exact hP.dict r
  case unpackSequence n =>
    obtain ⟨v, -, rfl⟩ := hdoes
    intro items hitems
    refine ⟨hi.1, ?_⟩
    change List.Forall₂ P (items ++ f.stack) (layout f.pc)
    rw [hi.2]
    exact List.rel_append (hP.anys hitems) hσ
  case call n =>
    obtain ⟨callee, args, keywords, -, -, -, rfl⟩ := hdoes
    exact hany hi
  case callKw n =>
    obtain ⟨callee, args, keywords, -, -, -, rfl⟩ := hdoes
    exact hany hi.2
  case makeFunction bits =>
    obtain ⟨_, _, _, _, _, _, -, -, -, -, rfl⟩ := hdoes
    exact hany hi.2 _
  case jump t =>
    subst hdoes
    exact hjump t hi
  case jumpIfFalse t | jumpIfTrue t =>
    rcases hdoes with rfl | rfl
    · exact hsame hi.1
    · exact hjump t hi.2
  case jumpIfFalseOrPop t | jumpIfTrueOrPop t =>
    rcases hdoes with rfl | ⟨v, rfl, rfl⟩
    · exact hsame hi.1
    · obtain ⟨u, hu, hlt, hlayout⟩ := hi.2
      cases hu
      refine ⟨hlt, ?_⟩
      change List.Forall₂ P ([v] ++ f.stack) (layout t)
      rw [hlayout]
      exact List.rel_append htaken hσ
  case forIter t =>
    obtain ⟨v, rfl, rfl⟩ := hdoes
    obtain ⟨⟨hlt, hnext⟩, u, hu, hlt', hlayout⟩ := hi
    cases hu
    refine ⟨fun w => ⟨hlt, ?_⟩, v, f.stack, rfl, hlt', hlayout ▸ hσ⟩
    change List.Forall₂ P (w :: ([v] ++ f.stack)) (layout f.pc)
    rw [hnext]
    exact .cons (hP.any w) (List.rel_append htaken hσ)
  case dup =>
    obtain ⟨v, rfl, rfl⟩ := hdoes
    refine ⟨hi.1, ?_⟩
    change List.Forall₂ P ([v] ++ ([v] ++ f.stack)) (layout f.pc)
    rw [hi.2]
    exact List.rel_append htaken (List.rel_append htaken hσ)
  case dupTwo =>
    subst hdoes
    refine ⟨hi.1, ?_⟩
    change List.Forall₂ P (taken ++ taken ++ f.stack) (layout f.pc)
    rw [hi.2, List.append_assoc]
    exact List.rel_append htaken (List.rel_append htaken hσ)
  case rot2 =>
    obtain ⟨κ, κ', rfl, hlt, hlayout⟩ := hi
    obtain ⟨v, w, rfl, rfl⟩ := hdoes
    refine ⟨hlt, ?_⟩
    change List.Forall₂ P (w :: v :: f.stack) (layout f.pc)
    rw [hlayout]
    simp only [List.forall₂_cons] at htaken ⊢
    exact ⟨htaken.2.1, htaken.1, hσ⟩
  case rot3 =>
    obtain ⟨κ, κ', κ'', rfl, hlt, hlayout⟩ := hi
    obtain ⟨u, v, w, rfl, rfl⟩ := hdoes
    refine ⟨hlt, ?_⟩
    change List.Forall₂ P (v :: w :: u :: f.stack) (layout f.pc)
    rw [hlayout]
    simp only [List.forall₂_cons] at htaken ⊢
    exact ⟨htaken.2.1, htaken.2.2.1, htaken.1, hσ⟩
  case yieldValue =>
    obtain ⟨v, -, rfl⟩ := hdoes
    exact hany hi _
  case returnValue =>
    obtain ⟨v, -, rfl⟩ := hdoes
    trivial
  all_goals
    obtain ⟨v, -, rfl⟩ := hdoes
    first
    | exact hany hi v
    | exact hany hi.2 v

theorem keeps_of_does {L : Likeness} {i : Instr} {a : Action} {taken : List Value} {τ : Kinds}
    {p : Pools} {pc : Nat} (hpc : f.pc = pc + 1) (hσ : HaveKinds f.stack σ)
    (htaken : HaveKinds taken τ) (hp : p = f.code.object.pools)
    (hi : i.Lays p
      (fun ρ => pc + 1 < f.code.object.instructions.size ∧ layout (pc + 1) = ρ)
      (fun ρ => ∃ t, i.target? = some t ∧ t < f.code.object.instructions.size ∧ layout t = ρ) τ σ)
    (hdoes : L.Does f taken i a) : a.Keeps layout := by
  have hfits : ∀ g : Frame, g.Reads HasKind layout → g.Fits layout := fun g hg => ⟨hg.place, hg.stack⟩
  have hleaves := leaves_of_does reading_hasKind hpc hσ htaken hp hi hdoes fun _ r _ _ => ⟨r, rfl⟩
  exact Action.keeps_iff.2 (hleaves.mono hfits)

end Keeping

end Lexiscope.Machine
