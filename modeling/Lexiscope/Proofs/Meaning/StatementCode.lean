import Lexiscope.Proofs.Meaning.DefinitionCode
import Lexiscope.Proofs.Meaning.LoopCode
/-!
# The code of statements

The code of a statement does what the tree tells. It leaves the operands as they were, except that a
loop that is left by `break` takes its iterator with it.
-/

namespace Lexiscope.Meaning

open Machine Exec
open Code
open Generate
open Grammar (Expr Stmt)
open Lexical (Scope)

variable {n : Nat} {s : Scope}

section Simple

variable {mayTire : Prop} {σ : List Value}

theorem lowers_pop {α : Type} {v : Value} {a : α} {goal : α → Option Label × List Value}
    (ha : goal a = (none, σ)) :
    Lowers mayTire n (emit .pop) 0 (v :: σ) (fun _ => pure a) goal :=
  lowers_emit fun c place pc hat f s hf => matches_next hat hf hf rfl (by rw [ha]; rfl)

theorem computes_getIter {v : Value} :
    Computes mayTire n (emit .getIter) (v :: σ) (.doing (.iterate v) (makeIterator v))
      fun it => it :: σ :=
  computes_next (fun _ => rfl) fun _ _ => pushed_placed ..

theorem lowers_jump {α : Type} {l : Label} {a : α} {goal : α → Option Label × List Value}
    (ha : goal a = (some l, σ)) :
    Lowers mayTire n (emitJump .jump l) 0 σ (fun _ => pure a) goal := by
  intro d d' hrun
  obtain rfl := emitJump_ok hrun
  refine ⟨extends_emitJump _ _ _, rfl, fun c place htidy hends f s hf => ?_⟩
  exact matches_next hends.ofEmitJump.2 hf hf rfl (by rw [ha]; rfl)

theorem lowers_returnValue {α : Type} {v : Value} {goal : α → Option Label × List Value} :
    Lowers mayTire n (emit .returnValue) 0 (v :: σ) (fun _ => Tale.returns v) goal := by
  refine lowers_emit fun c place pc hat f s hf => ?_
  have hstep : step (f.placed pc (v :: σ)) s = .ok (.returned v (f.placed (pc + 1) σ)) s :=
    congrFun (step_placed hat hf) s
  have hdeeds := turnDeeds_placed (σ := v :: σ) (s := s) hat hf
  have hstops : Matches mayTire n c (fun a => arrival place (pc + 1) (goal a)) n (f.placed pc (v :: σ)) s
      (.ended (.error (.returned v)) f s ([] ++ turnDeeds (f.placed pc (v :: σ)) s)) :=
    .stopped .here (turn_ok hstep n)
  rwa [hdeeds] at hstops

theorem lowers_raise {α : Type} {v : Value} {goal : α → Option Label × List Value} :
    Lowers mayTire n (emit .raise) 0 (v :: σ) (fun _ => Tale.silently fun _ => raiseValue v) goal := by
  refine lowers_emit fun c place pc hat => realizes_silently hat rfl fun f _ => ?_
  change raiseValue v = _
  cases v <;> rfl

theorem computes_check (test : Expr) (message : Option Expr) :
    Computes mayTire n (do
        let holds ← newLabel
        expression s test
        emitJump .jumpIfTrue holds
        (do
          match message with
          | some message => expression s message
          | none => emitConst .none
          emit .raiseAssert)
        bindLabel holds) σ (check n s test message) fun _ => σ := by
  unfold check
  refine computes_skip (a := fun _ => ()) (computes_expression n s test)
    (fun c pc t v hat => realizes_jumpIf hat (.inr ⟨rfl, rfl⟩)) ?_
  unfold failAssertion
  have hraise : ∀ v : Value, Computes mayTire n (emit .raiseAssert) (v :: σ) (.silently fun _ => do
      raise .assertionError (assertionMessage (← get) v)) fun _ : Unit => σ := by
    intro v
    exact computes_silently (fun _ => rfl) fun f pc => rfl
  cases message with
  | some message => exact (computes_expression n s message).andThen hraise
  | none => exact computes_none.andThen hraise

end Simple

variable {σ : List Value}

/-- The innermost loop has its iterator on the stack, if it has one. -/
def IteratorOn (loops : List Loop) (σ : List Value) : Prop :=
  ∀ l ∈ loops.head?, l.hasIterator = true → σ ≠ []

theorem iteratorOn_nil (σ : List Value) : IteratorOn [] σ := fun l hl => by cases hl

theorem lowers_break {loops : List Loop} {span : Text.Span} (hσ : IteratorOn loops σ) :
    Lowers True n (statement s loops (.brk span)) 0 σ (fun _ => return .broke) (wayOut loops σ) := by
  unfold statement
  cases loops with
  | nil => exact lowers_fail
  | cons l loops =>
    dsimp only
    split
    · rename_i hiterator
      obtain ⟨v, τ, rfl⟩ := List.exists_cons_of_ne_nil (hσ l rfl hiterator)
      have hpop : Computes True n (emit .pop) (v :: τ) (pure ()) fun _ => τ := lowers_pop rfl
      exact hpop.thenOnly (lowers_jump (by rw [wayOut, if_pos hiterator]; rfl))
    · rename_i hiterator
      exact lowers_jump (by rw [wayOut, if_neg hiterator])

theorem lowers_continue {loops : List Loop} {span : Text.Span} :
    Lowers True n (statement s loops (.cont span)) 0 σ (fun _ => return .continued) (wayOut loops σ) := by
  unfold statement
  cases loops with
  | nil => exact lowers_fail
  | cons l loops => exact lowers_jump rfl

/-- Statements one after another, until one of them does not complete. -/
theorem lowers_sequence {loops : List Loop} {g h : Generate Unit} {k m : Nat}
    {x y : Nat → Tale Exit} (hg : Lowers True n g k σ x (wayOut loops σ))
    (hh : Lowers True n h m σ y (wayOut loops σ)) :
    Lowers True n (g >>= fun _ => h) (k + m) σ (fun i => do
      match ← x i with
      | .normal => y (i + k)
      | exit => return exit) (wayOut loops σ) := by
  refine Lowers.followedBy (y := fun exit i => match exit with
    | .normal => y i
    | exit => pure exit) .normal (by cases loops <;> rfl) hg (fun e τ he => ?_) fun e l τ i he => ?_
  · cases e with
    | normal =>
      obtain rfl : σ = τ := by
        cases loops <;> cases he <;> rfl
      exact hh
    | broke | continued => cases loops <;> cases he
  · cases e with
    | normal => cases loops <;> cases he
    | broke | continued => exact ⟨_, rfl, he⟩

mutual

theorem lowers_statement : (stmt : Stmt) → ∀ {loops : List Loop} {σ : List Value}, IteratorOn loops σ →
    Lowers True n (statement s loops stmt) (bodyCount stmt) σ (fun k => execute n s stmt k)
      (wayOut loops σ)
  | .expr value _, loops, σ, _ => by
    unfold statement execute bodyCount
    refine (computes_expression n s value).andThen fun v => ?_
    exact lowers_pop (by cases loops <;> rfl)
  | .assign targets value span, loops, σ, _ => by
    unfold statement execute bodyCount
    refine (computes_expression n s value).andThen fun v => ?_
    exact (computes_storeChain span targets).andReturn fun _ => rfl
  | .augAssign target op value _, loops, σ, _ => by
    unfold statement execute bodyCount
    exact (computes_augmented op value target).andReturn fun _ => rfl
  | .define name params body isAsync span, loops, σ, _ => by
    unfold execute bodyCount
    exact lowers_define.andReturn fun _ => rfl
  | .classDef name bases body span, loops, σ, _ => by
    unfold execute bodyCount
    exact lowers_classDef.andReturn fun _ => rfl
  | .ret value span, loops, σ, _ => by
    unfold statement execute bodyCount
    dsimp only
    split
    · exact fun d d' hrun => by cases hrun
    · cases value with
      | some value => exact (computes_expression n s value).andThen fun v => lowers_returnValue
      | none => exact computes_none.andThen fun v => lowers_returnValue
  | .cond test body orelse _, loops, σ, hσ => by
    unfold statement execute bodyCount
    refine lowers_branches (computes_expression n s test) (lowers_block body hσ)
      (lowers_block orelse hσ) fun hempty => ?_
    obtain rfl : orelse = [] := by simpa using hempty
    rfl
  | .loop test body _, loops, σ, hσ => by
    unfold statement execute bodyCount
    have hloop := lowers_loop (σ := σ) (j := .jumpIfFalse) (b := false)
      (z := fun _ v => do return if ← Tale.truth v then some () else none) (κ := fun _ _ => σ)
      (r := fun l => block s (l :: loops) body)
      (lowers_nothing (a := ()) rfl) (fun _ => computes_expression n s test)
      (fun c pc t _ v hat => advances_retest hat)
      (fun _ _ l hl => lowers_block body (by simp [IteratorOn, hl])) fun _ => rfl
    simp only [pure_bind, Tale.pure_bind] at hloop
    exact hloop.andReturn fun _ => by cases loops <;> rfl
  | .each target items body _, loops, σ, hσ => by
    unfold statement execute bodyCount
    -- The iterator lies on the stack for the whole loop, below what a round puts there.
    have hiterate : Computes True n (do
        expression s items
        emit .getIter) σ (iterate n s items) fun it => it :: σ :=
      (computes_expression n s items).andThen fun v => computes_getIter
    have hloop := lowers_loop (σ := σ) (j := .forIter) (b := true)
      (z := fun iterator _ => .doing (.next iterator) (nextItem n iterator))
      (κ := fun iterator item => item :: iterator :: σ) (r := fun l => do
        store s target
        block s (l :: loops) body)
      hiterate (fun _ => lowers_nothing (a := ()) rfl) (fun c pc t it _ hat => advances_nextItem hat)
      (fun it item l _ => (computes_store target).andThen fun _ =>
        lowers_block body (by simp [IteratorOn])) fun _ => rfl
    have heach : Lowers True n _ (bodyCounts body) σ _ (wayOut loops σ) :=
      hloop.andReturn (f := fun _ => Exit.normal) fun _ => by cases loops <;> rfl
    simpa only [pure_bind, bind_assoc, Tale.pure_bind, Tale.bind_assoc] using heach
  | .brk span, loops, σ, hσ => by
    unfold execute bodyCount
    exact lowers_break hσ
  | .cont span, loops, σ, hσ => by
    unfold execute bodyCount
    exact lowers_continue
  | .pass _, loops, σ, _ | .global .., loops, σ, _ | .nonlocal .., loops, σ, _ => by
    unfold statement execute bodyCount
    exact lowers_nothing rfl
  | .raise value _, loops, σ, _ => by
    unfold statement execute bodyCount
    exact (computes_expression n s value).andThen fun v => lowers_raise
  | .assert test message _, loops, σ, _ => by
    unfold statement execute bodyCount
    have hcheck : Computes True n _ σ (check n s test message) fun _ => σ := computes_check test message
    cases message with
    | some message =>
      simp only [bind_assoc] at hcheck
      exact hcheck.andReturn fun _ => by cases loops <;> rfl
    | none =>
      simp only [bind_assoc] at hcheck
      exact hcheck.andReturn fun _ => by cases loops <;> rfl

theorem lowers_block : (stmts : List Stmt) → ∀ {loops : List Loop} {σ : List Value}, IteratorOn loops σ →
    Lowers True n (block s loops stmts) (bodyCounts stmts) σ (fun k => executeAll n s stmts k)
      (wayOut loops σ)
  | [], loops, σ, _ => by
    unfold block executeAll bodyCounts
    exact lowers_nothing rfl
  | stmt :: stmts, loops, σ, hσ => by
    unfold block executeAll bodyCounts
    exact lowers_sequence (lowers_statement stmt hσ) (lowers_block stmts hσ)

end

/-- The code of statements preserves their meaning, wherever they stand in a body and however many
loops there are around them. The frame does what is told of the trees: it comes to the next
instruction with the operands that there were before, or to the exit or the head of the innermost
loop, without the iterator or with it, or it stops or yields. -/
theorem statements_preserved {s : Scope} {loops : List Loop} {stmts : List Stmt} {d d' draft : Draft}
    {span : Text.Span} {object c : Object} (hcompile : block s loops stmts d = .ok ((), d'))
    (hstart : (Draft.start s).builder.Grows d.builder) (hend : d'.builder.Grows draft.builder)
    (hfinish : finish draft span object = .ok c) (n : Nat) {f : Frame} (hcode : f.code.object = c)
    (hpc : f.pc = d.builder.instructions.size) (hstack : IteratorOn loops f.stack) (st : Store) :
    ∃ place : Label → Nat,
      (∀ l p, draft.builder.labels[l.index]? = some (some p) → place l = p) ∧
      let goal := fun exit => arrival place d'.builder.instructions.size (wayOut loops f.stack exit)
      let told := executeAll n s stmts d.builder.codeCount f st
      Matches True n c goal n f st told ∧ RunsAs n goal f st told := by
  obtain ⟨hextends, -, hrealizes⟩ := lowers_block (n := n) stmts hstack hcompile
  have htidy := hstart.tidy ⟨by simp [Draft.start], by simp [Draft.start]⟩
  obtain ⟨place, hends⟩ := ends_of_finish (hend.tidy (hextends.tidy htidy)) hfinish
  have hmatches := hrealizes c place htidy (hend.ends hends) f st hcode
  rw [show f.placed d.builder.instructions.size f.stack = f by rw [← hpc]; rfl] at hmatches
  exact ⟨place, hends.label, hmatches, hmatches.runsAs⟩

/-- The parts of the first function of a module: its scope, its statements, the drafts before and
after them, and its code. -/
structure FunctionUnit where
  scope : Scope
  body : List Stmt
  draft : Draft
  code : Object

def functionUnit (source : String) : Option FunctionUnit := do
  let stmts ← (Grammar.parse source).toOption
  let .define _ _ body _ _ ← stmts.head? | none
  let scope ← (← (Lexical.analyze stmts).toOption).children.head?
  let (_, draft) ← (block scope [] body (.startFunction scope)).toOption
  let code ← (finish draft .origin { name := "", qualname := "" }).toOption
  return { scope, body, draft, code }

def FunctionUnit.frame (u : FunctionUnit) : Frame :=
  { unitFrame u.code with fast := Array.replicate u.code.varnames.size none }

theorem eq_ok_of_toOption {ε α : Type} {x : Except ε α} {a : α} (h : x.toOption = some a) :
    x = .ok a := by
  cases x <;> cases h
  rfl

theorem compiled_functionUnit {source : String} {u : FunctionUnit} (h : functionUnit source = some u) :
    block u.scope [] u.body (.startFunction u.scope) = .ok ((), u.draft) ∧
      finish u.draft .origin { name := "", qualname := "" } = .ok u.code := by
  unfold functionUnit at h
  simp only [Option.bind_eq_bind, Option.bind_eq_some_iff] at h
  obtain ⟨stmts, -, first, -, h⟩ := h
  split at h
  · simp only [Option.bind_eq_some_iff] at h
    obtain ⟨root, -, scope, -, ⟨⟨⟩, draft⟩, hcompile, code, hfinish, h⟩ := h
    cases h
    exact ⟨eq_ok_of_toOption hcompile, eq_ok_of_toOption hfinish⟩
  · cases h

/-- Loops inside one another that are left and gone on with in every way. -/
def searching : String :=
  "def search() \x7b total = 0; for x in [1, 2, 3, 4] \x7b while True \x7b if x == 2 \x7b break \x7d; total += x; break \x7d; " ++
    "if x < 3 \x7b continue \x7d; return total \x7d \x7d"

def returnsFour (u : FunctionUnit) : Bool :=
  match executeAll 20 u.scope u.body 0 u.frame {} with
  | .ended (.error (.returned (.int v))) .. => v == 4
  | _ => false

theorem statements_preserved_searching : ∃ u k last t,
    functionUnit searching = some u ∧
    block u.scope [] u.body (.startFunction u.scope) = .ok ((), u.draft) ∧
    (Draft.start u.scope).builder.Grows (Draft.startFunction u.scope).builder ∧
    u.draft.builder.Grows u.draft.builder ∧
    finish u.draft .origin { name := "", qualname := "" } = .ok u.code ∧
    IteratorOn [] u.frame.stack ∧
    runFrame (20 + k) u.frame {} = .ok ⟨last, .ok (.returned (.int 4))⟩ t := by
  have hreturns : ((functionUnit searching).any fun u =>
      (Draft.startFunction u.scope).builder.codeCount == 0 &&
        (Draft.startFunction u.scope).builder.instructions.size == 0 && returnsFour u) = true := by
    decide +kernel
  obtain ⟨u, hunit, hvalue⟩ := (Option.any_eq_true _ _).1 hreturns
  simp only [Bool.and_eq_true, beq_iff_eq] at hvalue
  obtain ⟨⟨hcount, hsize⟩, hvalue⟩ := hvalue
  obtain ⟨hcompile, hfinish⟩ := compiled_functionUnit hunit
  have hstack := iteratorOn_nil u.frame.stack
  obtain ⟨place, -, -, hruns⟩ := statements_preserved hcompile (grows_startFunction _) (.refl _) hfinish 20
    (f := u.frame) rfl hsize.symm hstack {}
  rw [hcount] at hruns
  unfold returnsFour at hvalue
  split at hvalue
  · rename_i v g t ds htold
    rw [htold] at hruns
    obtain htired | ⟨k, pc, σ, hrun⟩ := hruns
    · cases htired
    · obtain rfl : v = 4 := beq_iff_eq.1 hvalue
      exact ⟨u, k, _, t, hunit, hcompile, grows_startFunction _, .refl _, hfinish, hstack, hrun⟩
  · cases hvalue

end Lexiscope.Meaning
