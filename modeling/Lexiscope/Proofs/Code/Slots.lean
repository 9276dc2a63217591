import Lexiscope.Proofs.Code.Growth
import Lexiscope.Proofs.Code.InStep
/-!
# Stores in slots

A function gives its parameters and its other local names slots before the first instruction. Its
code stores in a slot only for a name that lives in slots, and such a name has one of those slots
already. So generation gives no more slots away, and never stores in the slot of a parameter that
lives in a cell.
-/

namespace Lexiscope.Code

open Generate
open Generates (generate_bind_eq_ok)
open Grammar (Expr Stmt Param)
open Lexical (Scope Nested)

/-- The slots are those that were given away at first, and code stores only in those of names that
live in slots. -/
structure Builder.Slotted (s : Scope) (slots : Array Name) (b : Builder) : Prop where
  varnames : b.varnames = slots
  stores : ∀ slot, .storeFast slot ∈ b.instructions →
    ∃ n, slots[slot]? = some n ∧ s.symbol n = .fast

/-- Generation stores only in the slots of names that live in slots. -/
def KeepsSlots {α : Type} (s : Scope) (slots : Array Name) (g : Generate α) : Prop :=
  ∀ ⦃d a e⦄, g d = .ok (a, e) → d.builder.Slotted s slots → e.builder.Slotted s slots

section Steps

variable {α β : Type} {s : Scope} {slots : Array Name}

theorem Builder.Slotted.same {b b' : Builder} (h : b.Slotted s slots)
    (hinstructions : b'.instructions = b.instructions) (hvarnames : b'.varnames = b.varnames) :
    b'.Slotted s slots :=
  ⟨hvarnames.trans h.varnames, hinstructions ▸ h.stores⟩

theorem Builder.Slotted.push {b b' : Builder} {i : Instr} (h : b.Slotted s slots)
    (hinstructions : b'.instructions = b.instructions.push i) (hvarnames : b'.varnames = b.varnames)
    (hi : ∀ slot, i = .storeFast slot → ∃ n, slots[slot]? = some n ∧ s.symbol n = .fast) :
    b'.Slotted s slots := by
  refine ⟨hvarnames.trans h.varnames, fun slot hslot => ?_⟩
  rw [hinstructions, Array.mem_push] at hslot
  exact hslot.elim (h.stores slot) fun heq => hi slot heq.symm

namespace KeepsSlots

theorem bind {g : Generate α} {f : α → Generate β} (hg : KeepsSlots s slots g)
    (hf : ∀ a, KeepsSlots s slots (f a)) : KeepsSlots s slots (g >>= f) := by
  intro d b e h hd
  obtain ⟨a, d₁, hga, hfa⟩ := generate_bind_eq_ok h
  exact hf a hfa (hg hga hd)

theorem andThen {g : Generate α} {f : Generate β} (hg : KeepsSlots s slots g)
    (hf : KeepsSlots s slots f) : KeepsSlots s slots (g >>= fun _ => f) :=
  hg.bind fun _ => hf

theorem pure (a : α) : KeepsSlots s slots (Pure.pure a) := by
  intro d b e h hd
  cases h
  exact hd

theorem fail (fault : CompileFault) (span : Text.Span) :
    KeepsSlots s slots (Generate.fail fault span : Generate α) :=
  fun _ _ _ h _ => nomatch h

theorem lift (x : Except CompileError α) : KeepsSlots s slots (liftM x : Generate α) := by
  intro d a e h hd
  cases x with
  | error fault => cases h
  | ok b =>
    cases h
    exact hd

end KeepsSlots

theorem keepsSlots_emit {i : Instr} (hi : ∀ slot, i ≠ .storeFast slot) :
    KeepsSlots s slots (emit i) := by
  intro d a e h hd
  cases h
  exact hd.push (i := i) rfl rfl fun slot heq => absurd heq (hi slot)

theorem keepsSlots_emitJump {jump : Nat → Instr} (l : Label)
    (hi : ∀ slot, jump 0 ≠ .storeFast slot) : KeepsSlots s slots (emitJump jump l) := by
  intro d a e h hd
  cases h
  exact hd.push (i := jump 0) rfl rfl fun slot heq => absurd heq (hi slot)

theorem keepsSlots_newLabel : KeepsSlots s slots newLabel := by
  intro d a e h hd
  cases h
  exact hd.same rfl rfl

theorem keepsSlots_bindLabel (l : Label) : KeepsSlots s slots (bindLabel l) := by
  intro d a e h hd
  cases h
  exact hd.same rfl rfl

theorem keepsSlots_name (name : Name) : KeepsSlots s slots (place (·.name name)) := by
  intro d a e h hd
  cases h
  exact hd.same rfl rfl

theorem constant_varnames (b : Builder) (c : Constant Object) :
    (b.constant c).2.varnames = b.varnames := by
  unfold Builder.constant
  split <;> rfl

theorem keepsSlots_emitConst (c : Constant Object) : KeepsSlots s slots (emitConst c) := by
  intro d a e h hd
  cases h
  obtain ⟨hpooled, -, -⟩ := constant_spec d.builder c
  have hsame : (d.builder.constant c).2.Slotted s slots :=
    hd.same hpooled.instructions (constant_varnames d.builder c)
  exact hsame.push (i := .loadConst (d.builder.constant c).1) rfl rfl (by simp)

theorem keepsSlots_named {instr : Nat → Instr} (name : Name)
    (hi : ∀ i slot, instr i ≠ .storeFast slot) : KeepsSlots s slots (emitNamed instr name) :=
  (keepsSlots_name name).bind fun i => keepsSlots_emit (hi i)

theorem keepsSlots_deref (name : Name) (span : Text.Span) :
    KeepsSlots s slots (deref name span) := by
  intro d a e h hd
  unfold deref at h
  split at h
  · cases h
    exact hd
  · cases h

theorem keepsSlots_nextScope (span : Text.Span) : KeepsSlots s slots (nextScope span) := by
  intro d a e h hd
  unfold nextScope at h
  split at h
  · cases h
    exact hd
  · cases h

end Steps

/-- Every name that lives in slots has one of these. -/
def Seated (s : Scope) (slots : Array Name) : Prop := ∀ n, s.symbol n = .fast → n ∈ slots

section Names

variable {s : Scope} {slots : Array Name}

theorem varname_of_mem {b : Builder} {name : Name} (h : name ∈ b.varnames) :
    ∃ i, b.varname name = (i, b) ∧ b.varnames[i]? = some name := by
  obtain ⟨i, hi⟩ : ∃ i, b.varnames.idxOf? name = some i := by
    rw [← b.varnames.toArray_toList, List.idxOf?_toArray]
    exact Option.isSome_iff_exists.1 (List.isSome_idxOf?.2 (Array.mem_toList_iff.2 h))
  refine ⟨i, ?_, getElem?_of_idxOf? hi⟩
  unfold Builder.varname poolName
  rw [hi]

/-- An instruction is emitted for the slot of a name that lives in slots. -/
theorem keepsSlots_varname (hseated : Seated s slots) {name : Name} (hname : s.symbol name = .fast)
    (instr : Nat → Instr) (hi : ∀ i slot, instr i = .storeFast slot → i = slot) :
    KeepsSlots s slots (do emit (instr (← place (·.varname name)))) := by
  intro d a e h hd
  have hmem : name ∈ d.builder.varnames := hd.varnames ▸ hseated name hname
  obtain ⟨i, hvarname, hslot⟩ := varname_of_mem hmem
  obtain ⟨j, d₁, hplace, hemit⟩ := generate_bind_eq_ok h
  have hplaced : place (·.varname name) d = .ok (i, d) := by
    simp only [place, hvarname]
  cases hplaced.symm.trans hplace
  cases hemit
  refine hd.push (i := instr i) rfl rfl fun slot heq => ⟨name, ?_, hname⟩
  rw [← hi i slot heq, ← hd.varnames]
  exact hslot

theorem keepsSlots_loadName (hseated : Seated s slots) (name : Name) (span : Text.Span) :
    KeepsSlots s slots (loadName s name span) := by
  unfold loadName
  split
  · rename_i hsymbol
    exact keepsSlots_varname hseated hsymbol .loadFast (by simp)
  · exact (keepsSlots_deref name span).bind fun i => keepsSlots_emit (by simp)
  · exact (keepsSlots_deref name span).bind fun i => keepsSlots_emit (by simp)
  · exact (keepsSlots_deref name span).bind fun i => keepsSlots_emit (by simp)
  · exact keepsSlots_named name (by simp)
  · split <;> exact keepsSlots_named name (by simp)
  · exact keepsSlots_named name (by simp)

theorem keepsSlots_storeName (hseated : Seated s slots) (name : Name) (span : Text.Span) :
    KeepsSlots s slots (storeName s name span) := by
  unfold storeName
  split
  · rename_i hsymbol
    exact keepsSlots_varname hseated hsymbol .storeFast fun i slot => Instr.storeFast.inj
  · exact (keepsSlots_deref name span).bind fun i => keepsSlots_emit (by simp)
  · exact (keepsSlots_deref name span).bind fun i => keepsSlots_emit (by simp)
  · exact keepsSlots_named name (by simp)
  · exact keepsSlots_named name (by simp)
  · exact keepsSlots_named name (by simp)
  · exact .fail _ _

end Names

section Expressions

variable {s : Scope} {slots : Array Name}

mutual

theorem keepsSlots_expression (hseated : Seated s slots) :
    (e : Expr) → KeepsSlots s slots (expression s e)
  | .none _ | .ellipsis _ | .bool .. | .int .. | .float .. | .str .. => by
    unfold expression
    exact keepsSlots_emitConst _
  | .name name span => by
    unfold expression
    exact keepsSlots_loadName hseated name span
  | .list items _ | .tuple items _ => by
    unfold expression
    exact (keepsSlots_expressions hseated items).andThen (keepsSlots_emit (by simp))
  | .dict items _ => by
    unfold expression
    exact (keepsSlots_entries hseated items).andThen (keepsSlots_emit (by simp))
  | .member value attr _ => by
    unfold expression
    exact (keepsSlots_expression hseated value).andThen (keepsSlots_named attr (by simp))
  | .subscript left right _ | .binary _ left right _ | .compare _ left right _ => by
    unfold expression
    refine (keepsSlots_expression hseated left).andThen ?_
    exact (keepsSlots_expression hseated right).andThen (keepsSlots_emit (by simp))
  | .call callee args keywords _ => by
    unfold expression
    refine (keepsSlots_expression hseated callee).andThen ?_
    refine (keepsSlots_expressions hseated args).andThen ?_
    refine (keepsSlots_keywordValues hseated keywords).andThen ?_
    split
    · exact keepsSlots_emit (by simp)
    · exact (keepsSlots_emitConst _).andThen (keepsSlots_emit (by simp))
  | .unary op operand _ => by
    unfold expression
    exact (keepsSlots_expression hseated operand).andThen (keepsSlots_emit (by simp))
  | .boolean op left right _ => by
    unfold expression
    refine keepsSlots_newLabel.bind fun stop => (keepsSlots_expression hseated left).andThen ?_
    refine (keepsSlots_emitJump stop ?_).andThen ?_
    · cases op <;> simp
    · exact (keepsSlots_expression hseated right).andThen (keepsSlots_bindLabel stop)
  | .conditional test body orelse _ => by
    unfold expression
    refine keepsSlots_newLabel.bind fun otherwise => keepsSlots_newLabel.bind fun stop => ?_
    refine (keepsSlots_expression hseated test).andThen ?_
    refine (keepsSlots_emitJump otherwise (by simp)).andThen ?_
    refine (keepsSlots_expression hseated body).andThen ?_
    refine (keepsSlots_emitJump stop (by simp)).andThen ?_
    refine (keepsSlots_bindLabel otherwise).andThen ?_
    exact (keepsSlots_expression hseated orelse).andThen (keepsSlots_bindLabel stop)
  | .yield value _ => by
    unfold expression
    cases value with
    | none => exact (keepsSlots_emitConst _).andThen (keepsSlots_emit (by simp))
    | some value => exact (keepsSlots_expression hseated value).andThen (keepsSlots_emit (by simp))
  | .await value _ => by
    unfold expression
    exact (keepsSlots_expression hseated value).andThen (keepsSlots_emit (by simp))

theorem keepsSlots_expressions (hseated : Seated s slots) :
    (es : List Expr) → KeepsSlots s slots (expressions s es)
  | [] => by
    unfold expressions
    exact .pure _
  | e :: es => by
    unfold expressions
    exact (keepsSlots_expression hseated e).andThen (keepsSlots_expressions hseated es)

theorem keepsSlots_entries (hseated : Seated s slots) :
    (es : List (Expr × Expr)) → KeepsSlots s slots (entries s es)
  | [] => by
    unfold entries
    exact .pure _
  | (key, value) :: es => by
    unfold entries
    refine (keepsSlots_expression hseated key).andThen ?_
    exact (keepsSlots_expression hseated value).andThen (keepsSlots_entries hseated es)

theorem keepsSlots_keywordValues (hseated : Seated s slots) :
    (es : List (Name × Expr)) → KeepsSlots s slots (keywordValues s es)
  | [] => by
    unfold keywordValues
    exact .pure _
  | (_, value) :: es => by
    unfold keywordValues
    exact (keepsSlots_expression hseated value).andThen (keepsSlots_keywordValues hseated es)

end

mutual

theorem keepsSlots_store (hseated : Seated s slots) : (e : Expr) → KeepsSlots s slots (store s e)
  | .name name span => by
    unfold store
    exact keepsSlots_storeName hseated name span
  | .member value attr _ => by
    unfold store
    exact (keepsSlots_expression hseated value).andThen (keepsSlots_named attr (by simp))
  | .subscript value index _ => by
    unfold store
    refine (keepsSlots_expression hseated value).andThen ?_
    exact (keepsSlots_expression hseated index).andThen (keepsSlots_emit (by simp))
  | .tuple items _ | .list items _ => by
    unfold store
    exact (keepsSlots_emit (by simp)).andThen (keepsSlots_storeAll hseated items)
  | .none _ | .ellipsis _ | .bool .. | .int .. | .float .. | .str .. | .dict .. | .unary ..
  | .await .. | .binary .. | .compare .. | .boolean .. | .call .. | .conditional .. | .yield .. => by
    unfold store
    exact .fail _ _

theorem keepsSlots_storeAll (hseated : Seated s slots) :
    (es : List Expr) → KeepsSlots s slots (storeAll s es)
  | [] => by
    unfold storeAll
    exact .pure _
  | e :: es => by
    unfold storeAll
    exact (keepsSlots_store hseated e).andThen (keepsSlots_storeAll hseated es)

end

theorem keepsSlots_storeChain (hseated : Seated s slots) (span : Text.Span) (es : List Expr) :
    KeepsSlots s slots (storeChain s span es) := by
  induction es with
  | nil => exact .fail _ _
  | cons e es ih =>
    cases es with
    | nil => exact keepsSlots_store hseated e
    | cons e' es =>
      unfold storeChain
      exact (keepsSlots_emit (by simp)).andThen ((keepsSlots_store hseated e).andThen ih)

theorem keepsSlots_augmented (hseated : Seated s slots) (op : Grammar.BinaryOp)
    (value target : Expr) : KeepsSlots s slots (augmented s op value target) := by
  have hcombine : ∀ {g : Generate Unit}, KeepsSlots s slots g →
      KeepsSlots s slots (expression s value >>= fun _ => emit (.binary op) >>= fun _ => g) :=
    fun hg => (keepsSlots_expression hseated value).andThen ((keepsSlots_emit (by simp)).andThen hg)
  cases target with
  | name name span =>
    have hstore := keepsSlots_storeName hseated name span
    exact (keepsSlots_loadName hseated name span).andThen (hcombine hstore)
  | member object attr _ =>
    refine (keepsSlots_expression hseated object).andThen ((keepsSlots_emit (by simp)).andThen ?_)
    refine (keepsSlots_name attr).bind fun slot => (keepsSlots_emit (by simp)).andThen ?_
    exact hcombine ((keepsSlots_emit (by simp)).andThen (keepsSlots_emit (by simp)))
  | subscript object index _ =>
    refine (keepsSlots_expression hseated object).andThen ?_
    refine (keepsSlots_expression hseated index).andThen ((keepsSlots_emit (by simp)).andThen ?_)
    refine (keepsSlots_emit (by simp)).andThen ?_
    exact hcombine ((keepsSlots_emit (by simp)).andThen (keepsSlots_emit (by simp)))
  | _ => exact .fail _ _

theorem keepsSlots_positionalDefaults (hseated : Seated s slots) (params : List Param) :
    KeepsSlots s slots (positionalDefaults s params) := by
  unfold positionalDefaults
  dsimp only
  split
  · exact .pure _
  · exact (keepsSlots_expressions hseated _).andThen ((keepsSlots_emit (by simp)).andThen (.pure _))

theorem keepsSlots_namedValues (hseated : Seated s slots) (values : List (Name × Expr)) :
    KeepsSlots s slots (namedValues s values) := by
  induction values with
  | nil => exact .pure _
  | cons value values ih =>
    unfold namedValues
    exact (keepsSlots_emitConst _).andThen ((keepsSlots_expression hseated value.2).andThen ih)

theorem keepsSlots_keywordDefaults (hseated : Seated s slots) (params : List Param) :
    KeepsSlots s slots (keywordDefaults s params) := by
  unfold keywordDefaults
  dsimp only
  split
  · exact .pure _
  · exact (keepsSlots_namedValues hseated _).andThen ((keepsSlots_emit (by simp)).andThen (.pure _))

theorem keepsSlots_loadCells (span : Text.Span) (names : List Name) :
    KeepsSlots s slots (loadCells span names) := by
  induction names with
  | nil => exact .pure _
  | cons name names ih =>
    unfold loadCells
    exact (keepsSlots_deref name span).bind fun i => (keepsSlots_emit (by simp)).andThen ih

theorem keepsSlots_makeFunction (code : Object) (defaults keywords : Bool) (span : Text.Span) :
    KeepsSlots s slots (makeFunction code defaults keywords span) := by
  unfold makeFunction closureOf
  refine KeepsSlots.bind ?_ fun closure =>
    (keepsSlots_emitConst _).andThen (keepsSlots_emit (by simp))
  split
  · exact .pure _
  · exact (keepsSlots_loadCells span _).andThen ((keepsSlots_emit (by simp)).andThen (.pure _))

end Expressions

section Statements

variable {s : Scope} {slots : Array Name}

mutual

theorem keepsSlots_statement (hseated : Seated s slots) : (stmt : Stmt) → ∀ loops : List Loop,
    KeepsSlots s slots (statement s loops stmt)
  | .expr value _, _ | .raise value _, _ => by
    unfold statement
    exact (keepsSlots_expression hseated value).andThen (keepsSlots_emit (by simp))
  | .assign targets value span, _ => by
    unfold statement
    exact (keepsSlots_expression hseated value).andThen (keepsSlots_storeChain hseated span targets)
  | .augAssign target op value _, _ => by
    unfold statement
    exact keepsSlots_augmented hseated op value target
  | .define name params body isAsync span, loops => by
    unfold statement
    refine (keepsSlots_positionalDefaults hseated _).bind fun defaults => ?_
    refine (keepsSlots_keywordDefaults hseated _).bind fun keywords => ?_
    refine (keepsSlots_nextScope span).bind fun inner => (KeepsSlots.lift _).bind fun result => ?_
    refine (KeepsSlots.lift _).bind fun code => ?_
    refine (keepsSlots_makeFunction code defaults keywords span).andThen ?_
    exact keepsSlots_storeName hseated name span
  | .classDef name bases body span, loops => by
    unfold statement
    refine (keepsSlots_emit (by simp)).andThen ((keepsSlots_nextScope span).bind fun inner => ?_)
    refine (KeepsSlots.lift _).bind fun result => (KeepsSlots.lift _).bind fun code => ?_
    refine (keepsSlots_makeFunction code false false span).andThen ?_
    refine (keepsSlots_emitConst _).andThen ((keepsSlots_expressions hseated bases).andThen ?_)
    exact (keepsSlots_emit (by simp)).andThen (keepsSlots_storeName hseated name span)
  | .ret value span, _ => by
    unfold statement
    dsimp only
    split
    · exact fun _ _ _ h _ => nomatch h
    · cases value with
      | none => exact (keepsSlots_emitConst _).andThen (keepsSlots_emit (by simp))
      | some value =>
        exact (keepsSlots_expression hseated value).andThen (keepsSlots_emit (by simp))
  | .cond test body orelse _, loops => by
    rw [statement_cond]
    unfold branching betweenBranches
    refine KeepsSlots.bind ?_ fun (otherwise, stop) => ?_
    · refine keepsSlots_newLabel.bind fun otherwise => keepsSlots_newLabel.bind fun stop => ?_
      refine (keepsSlots_expression hseated test).andThen ?_
      exact (keepsSlots_emitJump otherwise (by simp)).andThen (.pure _)
    refine (keepsSlots_block hseated body loops).andThen (KeepsSlots.andThen ?_ ?_)
    · dsimp only
      split
      · exact (keepsSlots_emitJump stop (by simp)).andThen (keepsSlots_bindLabel otherwise)
      · exact keepsSlots_bindLabel otherwise
    · exact (keepsSlots_block hseated orelse loops).andThen (keepsSlots_bindLabel stop)
  | .loop test body _, loops => by
    rw [statement_loop]
    unfold whileHead
    refine KeepsSlots.bind ?_ fun l => ?_
    · refine keepsSlots_newLabel.bind fun head => keepsSlots_newLabel.bind fun exit => ?_
      refine (keepsSlots_bindLabel head).andThen ((keepsSlots_expression hseated test).andThen ?_)
      exact (keepsSlots_emitJump exit (by simp)).andThen (.pure _)
    refine (keepsSlots_block hseated body _).andThen ?_
    exact (keepsSlots_emitJump l.head (by simp)).andThen (keepsSlots_bindLabel l.exit)
  | .each target iter body _, loops => by
    rw [statement_each]
    unfold forHead
    refine KeepsSlots.bind ?_ fun l => ?_
    · refine keepsSlots_newLabel.bind fun head => keepsSlots_newLabel.bind fun exit => ?_
      refine (keepsSlots_expression hseated iter).andThen ((keepsSlots_emit (by simp)).andThen ?_)
      refine (keepsSlots_bindLabel head).andThen ((keepsSlots_emitJump exit (by simp)).andThen ?_)
      exact (keepsSlots_store hseated target).andThen (.pure _)
    refine (keepsSlots_block hseated body _).andThen ?_
    exact (keepsSlots_emitJump l.head (by simp)).andThen (keepsSlots_bindLabel l.exit)
  | .brk span, loops => by
    unfold statement
    cases loops with
    | nil => exact .fail _ _
    | cons l loops =>
      dsimp only
      split
      · exact (keepsSlots_emit (by simp)).andThen (keepsSlots_emitJump l.exit (by simp))
      · exact keepsSlots_emitJump l.exit (by simp)
  | .cont span, loops => by
    unfold statement
    cases loops with
    | nil => exact .fail _ _
    | cons l loops => exact keepsSlots_emitJump l.head (by simp)
  | .pass _, _ | .global .., _ | .nonlocal .., _ => by
    unfold statement
    exact .pure _
  | .assert test message _, _ => by
    unfold statement
    refine keepsSlots_newLabel.bind fun holds => (keepsSlots_expression hseated test).andThen ?_
    refine (keepsSlots_emitJump holds (by simp)).andThen ?_
    cases message with
    | none =>
      refine (keepsSlots_emitConst _).andThen ((keepsSlots_emit (by simp)).andThen ?_)
      exact keepsSlots_bindLabel holds
    | some message =>
      refine (keepsSlots_expression hseated message).andThen ?_
      exact (keepsSlots_emit (by simp)).andThen (keepsSlots_bindLabel holds)

theorem keepsSlots_block (hseated : Seated s slots) : (stmts : List Stmt) → ∀ loops : List Loop,
    KeepsSlots s slots (block s loops stmts)
  | [], _ => by
    unfold block
    exact .pure _
  | stmt :: stmts, loops => by
    unfold block
    exact (keepsSlots_statement hseated stmt loops).andThen (keepsSlots_block hseated stmts loops)

end

end Statements

section Finishing

variable {s : Scope} {slots : Array Name}

theorem Instr.withTarget_eq_storeFast {i : Instr} {t slot : Nat}
    (h : i.withTarget t = .storeFast slot) : i = .storeFast slot := by
  cases i <;> first | exact h | cases h

theorem storeFast_mem_of_foldrM {labels : Array (Option Nat)} {jumps : List (Nat × Label)}
    {code code' : Array Instr} {slot : Nat}
    (h : jumps.foldrM (fun j (code : Array Instr) => do
      let target ← (labels[j.2.index]?).join
      return code.modify j.1 (·.withTarget target)) code = some code')
    (hslot : .storeFast slot ∈ code') : .storeFast slot ∈ code := by
  induction jumps generalizing code' with
  | nil =>
    cases h
    exact hslot
  | cons j jumps ih =>
    rw [List.foldrM_cons] at h
    obtain ⟨code₁, h₁, h⟩ := Option.bind_eq_some_iff.1 h
    obtain ⟨t, -, h⟩ := Option.bind_eq_some_iff.1 h
    cases h
    refine ih h₁ ?_
    obtain ⟨pc, hpc⟩ := Array.mem_iff_getElem?.1 hslot
    rw [Array.getElem?_modify] at hpc
    refine Array.mem_iff_getElem?.2 ⟨pc, ?_⟩
    split at hpc
    · obtain ⟨i, hi, hwith⟩ := Option.map_eq_some_iff.1 hpc
      rw [hi, Instr.withTarget_eq_storeFast hwith]
    · exact hpc

/-- The finished code of a body stores only in the slots of names that live in slots. -/
theorem Builder.Slotted.finish {draft : Draft} (h : draft.builder.Slotted s slots) {span : Text.Span}
    {object c : Object} (hfinish : Code.finish draft span object = .ok c) :
    c.varnames = slots ∧ ∀ slot, .storeFast slot ∈ c.instructions →
      ∃ n, slots[slot]? = some n ∧ s.symbol n = .fast := by
  have hconstant : (draft.builder.emitConst .none).Slotted s slots :=
    keepsSlots_emitConst .none (d := draft) rfl h
  have hlast : ((draft.builder.emitConst .none).emit .returnValue).Slotted s slots :=
    hconstant.push (i := .returnValue) rfl rfl (by simp)
  unfold Code.finish at hfinish
  dsimp only at hfinish
  split at hfinish
  · rename_i code hcode
    cases hfinish
    exact ⟨hlast.varnames, fun slot hslot => hlast.stores slot (storeFast_mem_of_foldrM hcode hslot)⟩
  · cases hfinish

end Finishing

section Functions

variable {module : List Stmt} {root s : Scope} {outer : List Scope} {n : Name}

/-- A name lives in the slots of a function if it is a local name that no inner body shares. -/
theorem symbol_eq_fast_iff (h : Lexical.analyze module = .ok root) (hn : Nested root (s :: outer))
    (hkind : s.facts.kind = .functionBody) :
    s.symbol n = .fast ↔ n ∈ s.facts.localNames ∧ n ∉ s.cells := by
  constructor
  · intro hsymbol
    unfold Scope.symbol at hsymbol
    rw [hkind] at hsymbol
    split at hsymbol
    · cases hsymbol
    rename_i hglobal
    simp only at hsymbol
    split at hsymbol
    · cases hsymbol
    rename_i hcell
    split at hsymbol
    · cases hsymbol
    rename_i hfree
    split at hsymbol
    · rename_i hbound
      obtain ⟨b, hs⟩ := hn.resolves h
      have hnonlocal : n ∉ s.facts.nonlocals := fun hnonlocal =>
        hfree (hs.mem_free.2 (.inl ⟨by simp [hkind], .inl hnonlocal⟩))
      exact ⟨Lexical.Facts.mem_localNames.2 ⟨hbound, hglobal, hnonlocal⟩, hcell⟩
    · cases hsymbol
  · rintro ⟨hlocal, hcell⟩
    have hsymbol := Lexical.symbol_own h hn hkind (Lexical.Facts.mem_localNames.1 hlocal)
    rwa [if_neg hcell] at hsymbol

theorem mem_plainLocals : n ∈ s.plainLocals ↔
    n ∈ s.facts.localNames ∧ n ∉ s.facts.params ∧ n ∉ s.cells := by
  simp [Scope.plainLocals]

theorem nodup_slotNames (hparams : s.facts.params.Nodup) (hbound : s.facts.bound.Nodup) :
    (s.facts.params ++ s.plainLocals).Nodup := by
  refine hparams.append ((hbound.filter _).filter _) fun n hparam hplain => ?_
  exact (mem_plainLocals.1 hplain).2.1 hparam

theorem toList_varnames_startFunction (h : (s.facts.params ++ s.plainLocals).Nodup) :
    (Draft.startFunction s).builder.varnames.toList = s.facts.params ++ s.plainLocals :=
  varnames_foldl (b := (Draft.start s).builder) h

/-- Every name that lives in the slots of a function has one from the start. -/
theorem seated_startFunction (h : Lexical.analyze module = .ok root)
    (hn : Nested root (s :: outer)) (hkind : s.facts.kind = .functionBody)
    (hnames : (s.facts.params ++ s.plainLocals).Nodup) :
    Seated s (Draft.startFunction s).builder.varnames := by
  intro n hsymbol
  obtain ⟨hlocal, hcell⟩ := (symbol_eq_fast_iff h hn hkind).1 hsymbol
  rw [← Array.mem_toList_iff, toList_varnames_startFunction hnames, List.mem_append]
  by_cases hparam : n ∈ s.facts.params
  · exact .inl hparam
  · exact .inr (mem_plainLocals.2 ⟨hlocal, hparam, hcell⟩)

theorem slotted_startFunction (s : Scope) :
    (Draft.startFunction s).builder.Slotted s (Draft.startFunction s).builder.varnames := by
  obtain ⟨hpooled, -⟩ := foldl_varname (s.facts.params ++ s.plainLocals) (Draft.start s).builder
  refine ⟨rfl, fun slot hslot => ?_⟩
  have hempty : (Draft.startFunction s).builder.instructions = #[] := hpooled.instructions
  rw [hempty] at hslot
  cases Array.not_mem_empty _ hslot

end Functions

end Lexiscope.Code
