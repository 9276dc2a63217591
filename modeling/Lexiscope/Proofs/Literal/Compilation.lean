import Lexiscope.Proofs.Code.Growth
import Lexiscope.Proofs.Literal.Scanning
/-!
# The code of the literal of a datum

A module that binds a name to the literal of a datum can be compiled. Its code has no jumps.
-/

namespace Lexiscope.Code

open Machine (Datum)
open Text (Span)
open Grammar (Expr Stmt bareItems bareEntries literalOf literalsOf entryLiterals bare_eq_none bare_eq_bool
  bare_eq_int bare_eq_str bare_eq_list bare_eq_tuple bare_eq_dict bare_eq_unary)
open Lexical (Scope Facts useExpr useExprs useEntries)
open Generate

/-- The code can be generated after any other, and adds no jump. -/
def Straight (g : Generate Unit) : Prop :=
  ∀ d, ∃ d', g d = .ok ((), d') ∧ d'.builder.jumps = d.builder.jumps

section Rules

variable {g h : Generate Unit}

theorem Straight.andThen (hg : Straight g) (hh : Straight h) : Straight (g >>= fun _ => h) := by
  intro d
  obtain ⟨e, hrun, hjumps⟩ := hg d
  obtain ⟨d', hrun', hjumps'⟩ := hh e
  refine ⟨d', ?_, hjumps'.trans hjumps⟩
  change (g d >>= fun r => h r.2) = _
  rw [hrun]
  exact hrun'

theorem straight_nothing : Straight (pure ()) := fun d => ⟨d, rfl, rfl⟩

theorem straight_emit (i : Instr) : Straight (emit i) := fun _ => ⟨_, rfl, rfl⟩

theorem jumps_emitConst (b : Builder) (k : Constant Object) : (b.emitConst k).jumps = b.jumps := by
  change (b.constant k).2.jumps = _
  unfold Builder.constant
  split <;> rfl

theorem straight_emitConst (k : Constant Object) : Straight (emitConst k) :=
  fun d => ⟨_, rfl, jumps_emitConst d.builder k⟩

theorem finish_straight {draft : Draft} (hjumps : draft.builder.jumps = []) (span : Span)
    (object : Object) : ∃ c labels, finish draft span object = .ok c ∧
      ((draft.builder.emitConst .none).emit .returnValue).Ends c labels := by
  have hnone : ((draft.builder.emitConst .none).emit .returnValue).jumps = [] :=
    (jumps_emitConst draft.builder .none).trans hjumps
  unfold finish
  generalize (draft.builder.emitConst .none).emit .returnValue = b at hnone
  have hpatched : b.patched? = some b.instructions := by
    rw [Builder.patched?, hnone]
    rfl
  have htidy : b.Tidy := ⟨by rw [hnone]; exact fun j hj => absurd hj List.not_mem_nil,
    by rw [hnone]; exact List.nodup_nil⟩
  dsimp only
  rw [hpatched]
  exact ⟨_, _, rfl, Builder.ends_of_patched htidy hpatched rfl rfl rfl rfl rfl rfl⟩

end Rules

section Literals

variable (s : Scope)

theorem straight_int {m : Int64} {e : Expr} (he : e.bare = .int m .origin) : Straight (expression s e) := by
  obtain ⟨span, rfl⟩ := bare_eq_int he
  rw [expression]
  exact straight_emitConst _

mutual

theorem straight_literal : (d : Datum) → ∀ {e : Expr}, e.bare = literalOf d → Straight (expression s e)
  | .none, e, he => by
    obtain ⟨span, rfl⟩ := bare_eq_none he
    rw [expression]
    exact straight_emitConst _
  | .bool b, e, he => by
    obtain ⟨span, rfl⟩ := bare_eq_bool he
    rw [expression]
    exact straight_emitConst _
  | .int i, e, he => by
    rw [literalOf] at he
    split at he
    · obtain ⟨operand, span, rfl, hoperand⟩ := bare_eq_unary he
      rw [expression]
      exact (straight_int s hoperand).andThen (straight_emit _)
    · exact straight_int s he
  | .str text, e, he => by
    obtain ⟨span, rfl⟩ := bare_eq_str he
    rw [expression]
    exact straight_emitConst _
  | .list ds, e, he => by
    obtain ⟨es, span, rfl, hes⟩ := bare_eq_list he
    rw [expression]
    exact (straight_literals ds hes).andThen (straight_emit _)
  | .tuple ds, e, he => by
    obtain ⟨es, span, rfl, hes⟩ := bare_eq_tuple he
    rw [expression]
    exact (straight_literals ds hes).andThen (straight_emit _)
  | .dict ds, e, he => by
    obtain ⟨es, span, rfl, hes⟩ := bare_eq_dict he
    rw [expression]
    exact (straight_entries ds hes).andThen (straight_emit _)

theorem straight_literals : (ds : List Datum) → ∀ {es : List Expr}, bareItems es = literalsOf ds →
    Straight (expressions s es)
  | [], es, he => by
    cases es with
    | nil =>
      rw [expressions]
      exact straight_nothing
    | cons e es => cases he
  | d :: ds, es, he => by
    cases es with
    | nil => cases he
    | cons e es =>
      injection he with he hes
      rw [expressions]
      exact (straight_literal d he).andThen (straight_literals ds hes)

theorem straight_entries : (ds : List (Datum × Datum)) → ∀ {es : List (Expr × Expr)},
    bareEntries es = entryLiterals ds → Straight (entries s es)
  | [], es, he => by
    cases es with
    | nil =>
      rw [entries]
      exact straight_nothing
    | cons e es => cases he
  | (key, value) :: ds, es, he => by
    cases es with
    | nil => cases he
    | cons e es =>
      injection he with he hes
      injection he with hkey hvalue
      rw [entries]
      exact (straight_literal key hkey).andThen
        ((straight_literal value hvalue).andThen (straight_entries ds hes))

end

end Literals

section Names

theorem useExpr_int {f : Facts} {m : Int64} {e : Expr} (he : e.bare = .int m .origin) :
    useExpr f e = .ok f := by
  obtain ⟨span, rfl⟩ := bare_eq_int he
  rfl

mutual

theorem useExpr_literal (f : Facts) : (d : Datum) → ∀ {e : Expr}, e.bare = literalOf d →
    useExpr f e = .ok f
  | .none, e, he => by
    obtain ⟨span, rfl⟩ := bare_eq_none he
    rfl
  | .bool b, e, he => by
    obtain ⟨span, rfl⟩ := bare_eq_bool he
    rfl
  | .int i, e, he => by
    rw [literalOf] at he
    split at he
    · obtain ⟨operand, span, rfl, hoperand⟩ := bare_eq_unary he
      rw [useExpr]
      exact useExpr_int hoperand
    · exact useExpr_int he
  | .str text, e, he => by
    obtain ⟨span, rfl⟩ := bare_eq_str he
    rfl
  | .list ds, e, he => by
    obtain ⟨es, span, rfl, hes⟩ := bare_eq_list he
    rw [useExpr]
    exact useExprs_literals f ds hes
  | .tuple ds, e, he => by
    obtain ⟨es, span, rfl, hes⟩ := bare_eq_tuple he
    rw [useExpr]
    exact useExprs_literals f ds hes
  | .dict ds, e, he => by
    obtain ⟨es, span, rfl, hes⟩ := bare_eq_dict he
    rw [useExpr]
    exact useEntries_literals f ds hes

theorem useExprs_literals (f : Facts) : (ds : List Datum) → ∀ {es : List Expr},
    bareItems es = literalsOf ds → useExprs f es = .ok f
  | [], es, he => by
    cases es with
    | nil => rfl
    | cons e es => cases he
  | d :: ds, es, he => by
    cases es with
    | nil => cases he
    | cons e es =>
      injection he with he hes
      rw [useExprs, useExpr_literal f d he]
      exact useExprs_literals f ds hes

theorem useEntries_literals (f : Facts) : (ds : List (Datum × Datum)) → ∀ {es : List (Expr × Expr)},
    bareEntries es = entryLiterals ds → useEntries f es = .ok f
  | [], es, he => by
    cases es with
    | nil => rfl
    | cons e es => cases he
  | (key, value) :: ds, es, he => by
    cases es with
    | nil => cases he
    | cons e es =>
      injection he with he hes
      injection he with hkey hvalue
      rw [useEntries, useExpr_literal f key hkey]
      change (useExpr f e.2 >>= fun f => useEntries f es) = _
      rw [useExpr_literal f value hvalue]
      exact useEntries_literals f ds hes

end

end Names

section Modules

variable {d : Datum} {e : Expr} {name : Name} {place span : Span}

def bindingScope (name : Name) : Scope :=
  ⟨{ Facts.ofModule with bound := [name] }, [], [], []⟩

theorem straight_storeName (name : Name) : Straight (storeName (bindingScope name) name .origin) :=
  fun _ => ⟨_, rfl, rfl⟩

theorem analyze_binding (he : e.bare = literalOf d) :
    Lexical.analyze [.assign [.name name place] e span] = .ok (bindingScope name) := by
  have huse := useExpr_literal .ofModule d he
  have hread : Lexical.Block.ofModule [.assign [.name name place] e span] =
      .ok ⟨(bindingScope name).facts, []⟩ := by
    rw [Lexical.Block.ofModule, Lexical.Block.readAll, Lexical.Block.read, huse]
    rfl
  rw [Lexical.analyze, hread]
  rfl

def bindingCode (name : Name) (e : Expr) : Generate Unit := do
  expression (bindingScope name) e
  storeName (bindingScope name) name .origin
  emitConst .none
  emit .returnValue

/-- A module that binds a name to a literal has code, which is that of the binding. -/
theorem compile_binding (he : e.bare = literalOf d) (place span : Span) (qualname : Name) : ∃ draft c labels,
    compile [.assign [.name name place] e span] qualname = .ok c ∧
    bindingCode name e (.start (bindingScope name)) = .ok ((), draft) ∧ draft.builder.Ends c labels := by
  obtain ⟨d₁, hvalue, hjumps₁⟩ := straight_literal (bindingScope name) d he (.start (bindingScope name))
  obtain ⟨d₂, hstore, hjumps₂⟩ := straight_storeName name d₁
  have hblock : block (bindingScope name) [] [.assign [.name name place] e span]
      (.start (bindingScope name)) = .ok ((), d₂) := by
    have hchain : storeChain (bindingScope name) span [.name name place] =
        storeName (bindingScope name) name .origin := by
      rw [storeChain, store]
      rfl
    rw [block, statement, hchain]
    change ((expression (bindingScope name) e (.start (bindingScope name)) >>=
      fun r => storeName (bindingScope name) name .origin r.2) >>= fun r => block (bindingScope name) [] [] r.2) = _
    rw [hvalue]
    change (storeName (bindingScope name) name .origin d₁ >>= fun r => block (bindingScope name) [] [] r.2) = _
    rw [hstore]
    rfl
  have hcode : bindingCode name e (.start (bindingScope name)) =
      .ok ((), { d₂ with builder := (d₂.builder.emitConst .none).emit .returnValue }) := by
    change (expression (bindingScope name) e (.start (bindingScope name)) >>= fun r =>
      storeName (bindingScope name) name .origin r.2 >>= fun r => emitConst .none r.2 >>= fun r => emit .returnValue r.2) = _
    rw [hvalue]
    change (storeName (bindingScope name) name .origin d₁ >>= fun r => emitConst .none r.2 >>= fun r =>
      emit .returnValue r.2) = _
    rw [hstore]
    rfl
  have hjumps : d₂.builder.jumps = [] := hjumps₂.trans hjumps₁
  obtain ⟨c, labels, hfinish, hends⟩ := finish_straight hjumps (bindingScope name).facts.span
    { name := (bindingScope name).facts.name, qualname }
  refine ⟨_, c, labels, ?_, hcode, hends⟩
  rw [compile, analyze_binding he]
  change (block (bindingScope name) [] [.assign [.name name place] e span]
    (.start (bindingScope name)) >>= fun r => finish r.2 _ _) = .ok c
  rw [hblock]
  exact hfinish

end Modules

end Lexiscope.Code
