import Mathlib.Tactic.ByContra
import Mathlib.Tactic.SplitIfs
import Lexiscope.Proofs.Grammar.Parsed
import Lexiscope.Proofs.Lexical.Nesting
/-!
# Faults of analysis

Some faults lie in the module, and the others are guards between the parts of the compiler. What
was read from a source has only the former when its bodies are read and its names are resolved.
-/

namespace Lexiscope

/-- The fault lies in the module. -/
def CompileFault.IsOfUser : CompileFault → Prop
  | .yieldOutside | .awaitOutside | .returnOutside | .breakOutside | .continueOutside
  | .nonlocalAtModule | .noNonlocalBinding _ | .parameterAndGlobal _ | .parameterAndNonlocal _
  | .nonlocalAndGlobal _ => True
  | .notAssignable | .notAugmentable | .noTarget | .noCell _ | .storeToCaptured _ | .unboundLabel
  | .scopeOutOfStep => False

namespace Lexical

open Grammar (Expr Stmt BodyAssignable)

/-- A computation fails only by a fault of the module. -/
def Blames {α : Type} (x : Except CompileError α) : Prop := ∀ e, x = .error e → e.fault.IsOfUser

namespace Blames

variable {α β : Type}

theorem ok (a : α) : Blames (.ok a : Except CompileError α) := fun _ h => nomatch h

theorem error {fault : CompileFault} {span : Text.Span} (h : fault.IsOfUser) :
    Blames (.error ⟨fault, span⟩ : Except CompileError α) := by
  rintro _ ⟨⟩
  exact h

theorem bind {x : Except CompileError α} {f : α → Except CompileError β} (hx : Blames x)
    (hf : ∀ a, x = .ok a → Blames (f a)) : Blames (x >>= f) := by
  cases x with
  | error e =>
    rintro _ ⟨⟩
    exact hx e rfl
  | ok a => exact hf a rfl

theorem map {x : Except CompileError α} {f : α → β} (hx : Blames x) :
    Blames (x >>= fun a => pure (f a)) := hx.bind fun a _ => ok (f a)

end Blames

section Expressions

mutual

theorem useExpr_blames (f : Facts) : (e : Expr) → Blames (useExpr f e)
  | .none _ | .ellipsis _ | .bool .. | .int .. | .float .. | .str .. | .name .. => by
    unfold useExpr
    exact .ok _
  | .list items _ | .tuple items _ => by
    unfold useExpr
    exact useExprs_blames f items
  | .dict items _ => by
    unfold useExpr
    exact useEntries_blames f items
  | .member value _ _ | .unary _ value _ => by
    unfold useExpr
    exact useExpr_blames f value
  | .subscript left right _ | .binary _ left right _ | .compare _ left right _
  | .boolean _ left right _ => by
    unfold useExpr
    exact (useExpr_blames f left).bind fun g _ => useExpr_blames g right
  | .call callee args keywords _ => by
    unfold useExpr
    refine (useExpr_blames f callee).bind fun g _ => ?_
    exact (useExprs_blames g args).bind fun g _ => useKeywords_blames g keywords
  | .conditional test body orelse _ => by
    unfold useExpr
    refine (useExpr_blames f test).bind fun g _ => ?_
    exact (useExpr_blames g body).bind fun g _ => useExpr_blames g orelse
  | .yield none _ => by
    simp only [useExpr]
    split
    · exact .ok _
    · exact .error trivial
  | .yield (some value) _ => by
    simp only [useExpr]
    split
    · exact useExpr_blames _ value
    · exact .error trivial
  | .await value _ => by
    unfold useExpr
    split
    · exact useExpr_blames f value
    · exact .error trivial

theorem useExprs_blames (f : Facts) : (es : List Expr) → Blames (useExprs f es)
  | [] => by
    unfold useExprs
    exact .ok _
  | e :: es => by
    unfold useExprs
    exact (useExpr_blames f e).bind fun g _ => useExprs_blames g es

theorem useEntries_blames (f : Facts) : (es : List (Expr × Expr)) → Blames (useEntries f es)
  | [] => by
    unfold useEntries
    exact .ok _
  | (key, value) :: es => by
    unfold useEntries
    refine (useExpr_blames f key).bind fun g _ => ?_
    exact (useExpr_blames g value).bind fun g _ => useEntries_blames g es

theorem useKeywords_blames (f : Facts) : (es : List (Name × Expr)) → Blames (useKeywords f es)
  | [] => by
    unfold useKeywords
    exact .ok _
  | (_, value) :: es => by
    unfold useKeywords
    exact (useExpr_blames f value).bind fun g _ => useKeywords_blames g es

end

mutual

theorem bindTarget_blames (f : Facts) :
    (e : Expr) → e.unassignable? true = none → Blames (bindTarget f e)
  | .name .., _ => by
    unfold bindTarget
    exact .ok _
  | .tuple items _, h | .list items _, h => by
    unfold bindTarget
    exact bindTargets_blames f items (Grammar.firstUnassignable?_eq_none.1 h)
  | .member value _ _, _ => by
    unfold bindTarget
    exact useExpr_blames f value
  | .subscript value index _, _ => by
    unfold bindTarget
    exact (useExpr_blames f value).bind fun g _ => useExpr_blames g index

theorem bindTargets_blames (f : Facts) :
    (es : List Expr) → (∀ e ∈ es, e.unassignable? true = none) → Blames (bindTargets f es)
  | [], _ => by
    unfold bindTargets
    exact .ok _
  | e :: es, h => by
    unfold bindTargets
    obtain ⟨he, hes⟩ := List.forall_mem_cons.1 h
    exact (bindTarget_blames f e he).bind fun g _ => bindTargets_blames g es hes

end

theorem declareGlobal_blames (span : Text.Span) (f : Facts) (names : List Name) :
    Blames (declareGlobal span f names) := by
  induction names generalizing f with
  | nil => exact .ok _
  | cons name names ih =>
    unfold declareGlobal
    split
    · exact .error trivial
    · split
      · exact .error trivial
      · exact ih _

theorem declareNonlocal_blames (span : Text.Span) (f : Facts) (names : List Name) :
    Blames (declareNonlocal span f names) := by
  induction names generalizing f with
  | nil => exact .ok _
  | cons name names ih =>
    unfold declareNonlocal
    split
    · exact .error trivial
    · split
      · exact .error trivial
      · exact ih _

end Expressions

section Bodies

mutual

theorem read_blames (b : Block) : (s : Stmt) → s.Assignable → Blames (b.read s)
  | .expr value _, _ | .raise value _, _ | .ret (some value) _, _ => by
    unfold Block.read
    exact (useExpr_blames _ value).map
  | .assign targets value _, h => by
    unfold Block.read
    refine (useExpr_blames _ value).bind fun f _ => ?_
    exact (bindTargets_blames f targets h.2).map
  | .augAssign target _ value _, h => by
    unfold Block.read
    refine (useExpr_blames _ value).bind fun f _ => ?_
    refine (useExpr_blames f target).bind fun g _ => ?_
    exact (bindTarget_blames g target (Grammar.unassignable?_of_augmented h)).map
  | .define _ params body _ _, h => by
    unfold Block.read
    refine (useExprs_blames _ _).bind fun f _ => ?_
    exact (readAll_blames _ body h).map
  | .classDef _ bases body _, h => by
    unfold Block.read
    refine (useExprs_blames _ bases).bind fun f _ => ?_
    exact (readAll_blames _ body h).map
  | .ret none _, _ | .brk _, _ | .cont _, _ | .pass _, _ => by
    unfold Block.read
    exact .ok _
  | .cond test body orelse _, h => by
    unfold Block.read
    refine (useExpr_blames _ test).bind fun f _ => ?_
    exact (readAll_blames _ body h.1).bind fun c _ => readAll_blames c orelse h.2
  | .loop test body _, h => by
    unfold Block.read
    exact (useExpr_blames _ test).bind fun f _ => readAll_blames _ body h
  | .each target iter body _, h => by
    unfold Block.read
    refine (useExpr_blames _ iter).bind fun f _ => ?_
    exact (bindTarget_blames f target h.1).bind fun g _ => readAll_blames _ body h.2
  | .global names span, _ => by
    unfold Block.read
    exact (declareGlobal_blames span _ names).map
  | .nonlocal names span, _ => by
    unfold Block.read
    split
    · exact .error trivial
    · exact (declareNonlocal_blames span _ names).map
  | .assert test message _, _ => by
    unfold Block.read
    refine (useExpr_blames _ test).bind fun f _ => ?_
    exact (useExprs_blames f _).map

theorem readAll_blames (b : Block) : (ss : List Stmt) → BodyAssignable ss → Blames (b.readAll ss)
  | [], _ => by
    unfold Block.readAll
    exact .ok _
  | s :: ss, h => by
    unfold Block.readAll
    exact (read_blames b s h.1).bind fun c _ => readAll_blames c ss h.2

end

theorem takeFree_blames (f : Facts) (enclosing : List (List Name)) :
    Blames (f.takeFree enclosing) := by
  unfold Facts.takeFree
  split
  · exact .ok _
  · split
    · exact .error trivial
    · exact .ok _

mutual

theorem resolve_blames (enclosing : List (List Name)) : (b : Block) → Blames (b.resolve enclosing)
  | ⟨facts, children⟩ => by
    unfold Block.resolve
    refine (takeFree_blames facts enclosing).bind fun free _ => ?_
    exact (resolveAll_blames _ children).map

theorem resolveAll_blames (enclosing : List (List Name)) :
    (bs : List Block) → Blames (resolveAll enclosing bs)
  | [] => by
    unfold resolveAll
    exact .ok _
  | b :: bs => by
    unfold resolveAll
    exact (resolve_blames enclosing b).bind fun s _ => (resolveAll_blames enclosing bs).map

end

theorem analyze_blames {body : List Stmt} (h : BodyAssignable body) : Blames (analyze body) :=
  (readAll_blames _ body h).bind fun b _ => resolve_blames [] b

end Bodies

section Homes

/-- Every name that the body reads or writes through a cell has one. -/
def Scope.Celled (s : Scope) : Prop :=
  ∀ n, s.symbol n = .cell ∨ s.symbol n = .free ∨ s.symbol n = .classFree → n ∈ s.cells ++ s.free

variable {body : List Stmt} {root s c : Scope} {outer : List Scope} {n : Name}

/-- A body has all names in cells, or from around it, that the bodies in it ask for. -/
theorem Nested.provides (hnested : Nested root (s :: outer)) (h : analyze body = .ok root)
    (hc : c ∈ s.children) (hn : n ∈ c.free) : n ∈ s.cells ++ s.free := by
  obtain ⟨b, hs⟩ := hnested.resolves h
  rw [List.mem_append]
  by_cases howns : s.facts.Owns n
  · exact .inl (hs.mem_cells.2 ⟨howns, c, hc, hn⟩)
  · exact .inr (hs.mem_free.2 (.inr ⟨⟨c, hc, hn⟩, howns⟩))

theorem Nested.celled (hnested : Nested root (s :: outer)) (h : analyze body = .ok root) :
    s.Celled := by
  intro n hn
  obtain ⟨b, hs⟩ := hnested.resolves h
  by_contra hnone
  rw [List.mem_append, not_or] at hnone
  obtain ⟨hcell, hfree⟩ := hnone
  have hnonlocal : s.facts.kind = .classBody → n ∉ s.facts.nonlocals := by
    intro hkind hmem
    exact hfree (hs.mem_free.2 (.inl ⟨by rw [hkind]; decide, .inl hmem⟩))
  unfold Scope.symbol at hn
  cases hkind : s.facts.kind <;> simp only [hkind, hcell, hfree, hnonlocal, if_false] at hn <;>
    split_ifs at hn <;> simp at hn

theorem symbol_ne_classFree (hn : n ∈ s.facts.bound) : s.symbol n ≠ .classFree := by
  unfold Scope.symbol
  cases s.facts.kind <;> simp only [hn, if_true] <;> split_ifs <;> simp

end Homes

end Lexical

end Lexiscope
