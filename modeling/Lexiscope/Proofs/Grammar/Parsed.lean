import Lexiscope.Grammar.Statement
import Lexiscope.Lexical.Block
import Lexiscope.Proofs.Grammar.Taking
/-!
# Parsed statements

What the parser sees to whenever it makes a statement holds of all statements that it makes,
however deep they are nested. It lets no definition through that has two parameters of one name,
and no assignment to what cannot be assigned to.
-/

namespace Lexiscope.Grammar

open Lexical (slotOrder)

mutual

/-- No definition in a statement has two parameters of one name. -/
def Stmt.Distinct : Stmt → Prop
  | .define _ params body _ _ => (slotOrder params).Nodup ∧ BodyDistinct body
  | .classDef _ _ body _ | .loop _ body _ | .each _ _ body _ => BodyDistinct body
  | .cond _ body orelse _ => BodyDistinct body ∧ BodyDistinct orelse
  | _ => True

def BodyDistinct : List Stmt → Prop
  | [] => True
  | s :: ss => s.Distinct ∧ BodyDistinct ss

end

mutual

def Stmt.Assignable : Stmt → Prop
  | .assign targets _ _ => targets ≠ [] ∧ ∀ e ∈ targets, e.unassignable? true = none
  | .augAssign target _ _ _ => target.unassignable? false = none
  | .define _ _ body _ _ | .classDef _ _ body _ | .loop _ body _ => BodyAssignable body
  | .each target _ body _ => target.unassignable? true = none ∧ BodyAssignable body
  | .cond _ body orelse _ => BodyAssignable body ∧ BodyAssignable orelse
  | _ => True

def BodyAssignable : List Stmt → Prop
  | [] => True
  | s :: ss => s.Assignable ∧ BodyAssignable ss

end

/-- The positional parameters with defaults come after those without. -/
def Params.DefaultsLast (params : Params) : Prop :=
  params.positional.Pairwise fun p q => p.default.isSome = true → q.default.isSome = true

/-- No two parameters have one name, and defaults come last. -/
structure Params.Orderly (params : Params) : Prop where
  distinct : (slotOrder params).Nodup
  defaultsLast : params.DefaultsLast

mutual

/-- The parameters of all definitions in a statement are in order. -/
def Stmt.Orderly : Stmt → Prop
  | .define _ params body _ _ => params.Orderly ∧ BodyOrderly body
  | .classDef _ _ body _ | .loop _ body _ | .each _ _ body _ => BodyOrderly body
  | .cond _ body orelse _ => BodyOrderly body ∧ BodyOrderly orelse
  | _ => True

def BodyOrderly : List Stmt → Prop
  | [] => True
  | s :: ss => s.Orderly ∧ BodyOrderly ss

end

namespace Parser

/-- All that a parser returns has a property. -/
def Returns {α : Type} (g : Parser α) (P : α → Prop) : Prop :=
  ∀ c a c', g c = .ok (a, c') → P a

namespace Returns

variable {α β : Type} {P : α → Prop} {Q : β → Prop} {g : Parser α} {f : α → Parser β}

theorem bind (hg : g.Returns P) (hf : ∀ a, P a → (f a).Returns Q) : (g >>= f).Returns Q :=
  fun c => Gives.bind (hg c) fun a d ha => hf a ha d

theorem after (hf : ∀ a, (f a).Returns Q) : (g >>= f).Returns Q :=
  bind (P := fun _ => True) (fun _ _ _ _ => trivial) fun a _ => hf a

theorem pure {a : α} (h : P a) : (Pure.pure a : Parser α).Returns P :=
  fun _ => Gives.pure h

theorem fail (fault : SyntaxFault) (span : Text.Span) : (failAt fault span : Parser α).Returns P :=
  fun _ => Gives.fail fault span

end Returns

end Parser

open Lexiscope.Grammar.Parser

theorem requireTarget_returns (unpacks : Bool) (e : Expr) :
    (requireTarget unpacks e).Returns fun _ => e.unassignable? unpacks = none := by
  unfold requireTarget
  split
  · exact .fail _ _
  · rename_i h
    exact .pure h

theorem requireTargets_returns (unpacks : Bool) (es : List Expr) :
    (es.forM (requireTarget unpacks)).Returns fun _ =>
      ∀ e ∈ es, e.unassignable? unpacks = none := by
  induction es with
  | nil => exact .pure (by simp)
  | cons e es ih =>
    change (requireTarget unpacks e >>= fun _ => es.forM (requireTarget unpacks)).Returns _
    refine (requireTarget_returns unpacks e).bind fun _ he => ?_
    intro c a c' h
    exact List.forall_mem_cons.2 ⟨he, ih c a c' h⟩

theorem nodup_of_firstRepeated? {seen names : List Name}
    (h : firstRepeated? seen names = none) : names.Nodup ∧ ∀ n ∈ names, n ∉ seen := by
  induction names generalizing seen with
  | nil => exact ⟨List.nodup_nil, by simp⟩
  | cons name names ih =>
    unfold firstRepeated? at h
    split at h
    · cases h
    · rename_i hseen
      obtain ⟨hnodup, hnames⟩ := ih h
      refine ⟨List.nodup_cons.2 ⟨fun hmem => hnames name hmem List.mem_cons_self, hnodup⟩, ?_⟩
      refine List.forall_mem_cons.2 ⟨hseen, fun n hn hmem => ?_⟩
      exact hnames n hn (List.mem_cons_of_mem _ hmem)

theorem slotOrder_perm (params : Params) : (slotOrder params).Perm params.names := by
  unfold slotOrder Params.names
  simp only [List.append_assoc]
  refine List.Perm.append_left _ ?_
  simp only [← List.append_assoc]
  exact List.Perm.append_right _ List.perm_append_comm

theorem defaultsLast_append {found : Params} (hfound : found.DefaultsLast) {param : Param}
    (hparam : ¬ (param.default.isNone && found.positional.any (·.default.isSome)) = true) :
    Params.DefaultsLast { found with positional := found.positional ++ [param] } := by
  refine List.pairwise_append.2 ⟨hfound, List.pairwise_singleton _ _, fun p hp q hq hdefault => ?_⟩
  obtain rfl := List.mem_singleton.1 hq
  rw [Bool.and_eq_true, not_and] at hparam
  refine Option.isSome_iff_ne_none.2 fun hnone => ?_
  exact hparam (by rw [hnone]; rfl) (List.any_eq_true.2 ⟨p, hp, hdefault⟩)

/-- A positional parameter without a default is let through only before all defaults. -/
theorem parameters_defaultsLast (n : Nat) : ∀ {found : Params} {keywordOnly : Bool},
    found.DefaultsLast → (parameters n found keywordOnly).Returns Params.DefaultsLast := by
  induction n with
  | zero => exact fun _ => .after fun _ => .fail _ _
  | succ n ih =>
    -- After a parameter the list ends, or it goes on after a comma.
    have hnext : ∀ {found : Params} {keywordOnly : Bool}, found.DefaultsLast → (do
        if ← accept .comma then parameters n found keywordOnly else return found : Parser
          Params).Returns Params.DefaultsLast := by
      intro found keywordOnly hfound
      refine .after fun more => ?_
      split
      · exact ih hfound
      · exact .pure hfound
    intro found keywordOnly hfound
    unfold parameters
    refine .after fun closed => ?_
    split
    · exact .pure hfound
    refine .after fun _ => .after fun isDouble => ?_
    split
    · refine .after fun name => .after fun _ => .after fun closed => ?_
      split
      · exact .pure hfound
      · exact .after fun _ => .fail _ _
    refine .after fun isStar => ?_
    split
    · dsimp only
      split
      · exact .bind (.fail (P := fun _ => False) _ _) fun _ h => h.elim
      · refine .after fun kind => ?_
        split
        · exact .after fun _ => hnext hfound
        · exact hnext hfound
    · refine .after fun name => .after fun hasDefault => ?_
      have hparam : ∀ param : Param, (do
          let found ←
            if keywordOnly then pure { found with keywordOnly := found.keywordOnly ++ [param] }
            else do
              if param.default.isNone && found.positional.any (·.default.isSome) then
                failAt .defaultBeforeRequired param.span
              pure { found with positional := found.positional ++ [param] }
          if ← accept .comma then parameters n found keywordOnly else return found :
          Parser Params).Returns Params.DefaultsLast := by
        intro param
        split
        · exact hnext hfound
        · split
          · exact .bind (.fail (P := fun _ => False) _ _) fun _ h => h.elim
          · exact hnext (defaultsLast_append hfound ‹_›)
      cases hasDefault with
      | true => exact .after fun default => .after fun span => hparam ⟨name, default, span⟩
      | false => exact .after fun default => .after fun span => hparam ⟨name, default, span⟩

theorem distinctParameters_orderly (n : Nat) :
    (distinctParameters n).Returns Params.Orderly := by
  unfold distinctParameters
  have hempty : Params.DefaultsLast {} := List.Pairwise.nil
  refine (parameters_defaultsLast n hempty).bind fun params hlast => ?_
  split
  · exact .after fun _ => .fail _ _
  · rename_i hnames
    exact .pure ⟨(slotOrder_perm params).nodup_iff.2 (nodup_of_firstRepeated? hnames).1, hlast⟩

def Stmt.IsPlain : Stmt → Prop
  | .expr .. | .ret .. | .pass _ | .brk _ | .cont _ | .global .. | .nonlocal .. | .raise ..
  | .assert .. => True
  | _ => False

/-- A property that follows from what the parser sees to when it makes a statement. -/
structure Kept (P : Stmt → Prop) : Prop where
  plain : ∀ {s : Stmt}, s.IsPlain → P s
  assign : ∀ {targets value span}, targets ≠ [] →
    (∀ e ∈ targets, e.unassignable? true = none) → P (.assign targets value span)
  augAssign : ∀ {target op value span}, target.unassignable? false = none →
    P (.augAssign target op value span)
  define : ∀ {name params body isAsync span}, params.Orderly → (∀ s ∈ body, P s) →
    P (.define name params body isAsync span)
  classDef : ∀ {name bases body span}, (∀ s ∈ body, P s) → P (.classDef name bases body span)
  cond : ∀ {test body orelse span}, (∀ s ∈ body, P s) → (∀ s ∈ orelse, P s) →
    P (.cond test body orelse span)
  loop : ∀ {test body span}, (∀ s ∈ body, P s) → P (.loop test body span)
  each : ∀ {target iter body span}, target.unassignable? true = none → (∀ s ∈ body, P s) →
    P (.each target iter body span)

namespace Kept

variable {P : Stmt → Prop}

theorem expressionStatement (hP : Kept P) (n : Nat) (start : Text.Span) :
    (expressionStatement n start).Returns P := by
  unfold Grammar.expressionStatement
  refine .after fun first => .after fun op => ?_
  split
  · refine .after fun _ => (requireTarget_returns false first).bind fun _ htarget => ?_
    exact .after fun _ => .after fun _ => .pure (hP.augAssign htarget)
  · refine .after fun values => (requireTargets_returns true _).bind fun _ htargets => ?_
    split
    · rename_i target targets value htarget _
      rw [htarget] at htargets
      refine .after fun _ => .pure (hP.assign ?_ ?_)
      · rw [htarget]
        exact List.cons_ne_nil _ _
      · rw [htarget]
        exact htargets
    · exact .after fun _ => .pure (hP.plain trivial)

theorem simpleStatement (hP : Kept P) (n : Nat) (start : Text.Span) :
    (simpleStatement n start).Returns P := by
  unfold Grammar.simpleStatement
  refine .after fun kind => ?_
  split
  · refine .after fun _ => .after fun next => ?_
    split
    · exact .after fun _ => .pure (hP.plain trivial)
    · exact .after fun _ => .after fun _ => .pure (hP.plain trivial)
  · exact .after fun _ => .after fun _ => .pure (hP.plain trivial)
  · exact .after fun _ => .after fun _ => .pure (hP.plain trivial)
  · exact .after fun _ => .after fun _ => .pure (hP.plain trivial)
  · exact .after fun _ => .after fun _ => .after fun _ => .pure (hP.plain trivial)
  · exact .after fun _ => .after fun _ => .after fun _ => .pure (hP.plain trivial)
  · exact .after fun _ => .after fun _ => .after fun _ => .pure (hP.plain trivial)
  · refine .after fun _ => .after fun _ => .after fun hasMessage => ?_
    dsimp only
    split
    · exact .after fun _ => .after fun _ => .pure (hP.plain trivial)
    · exact .after fun _ => .after fun _ => .pure (hP.plain trivial)
  · exact hP.expressionStatement n start

theorem statement (hP : Kept P) (n : Nat) :
    (statement n).Returns P ∧
    (∀ isAsync start, (definition n isAsync start).Returns P) ∧
    (∀ start, (alternatives n start).Returns P) ∧
    (block n).Returns (fun body => ∀ s ∈ body, P s) ∧
    (blockRest n).Returns fun body => ∀ s ∈ body, P s := by
  induction n with
  | zero =>
    unfold Grammar.statement definition alternatives block blockRest
    exact ⟨.after fun _ => .fail _ _, fun _ _ => .after fun _ => .fail _ _,
      fun _ => .after fun _ => .fail _ _, .after fun _ => .fail _ _, .after fun _ => .fail _ _⟩
  | succ n ih =>
    obtain ⟨hstatement, hdefinition, halternatives, hblock, hrest⟩ := ih
    refine ⟨?_, fun isAsync start => ?_, fun start => ?_, ?_, ?_⟩
    · unfold Grammar.statement
      refine .after fun _ => .after fun kind => ?_
      split
      · exact hdefinition _ _
      · refine .after fun _ => .after fun isDef => ?_
        split
        · exact hdefinition _ _
        · exact .after fun _ => .fail _ _
      · refine .after fun _ => .after fun _ => .after fun hasBases => ?_
        dsimp only
        split
        · refine .after fun _ => .after fun _ => .after fun bases => ?_
          exact hblock.bind fun body hbody => .after fun _ => .pure (hP.classDef hbody)
        · refine .after fun bases => ?_
          exact hblock.bind fun body hbody => .after fun _ => .pure (hP.classDef hbody)
      · exact .after fun _ => halternatives _
      · refine .after fun _ => .after fun _ => ?_
        exact hblock.bind fun body hbody => .after fun _ => .pure (hP.loop hbody)
      · refine .after fun _ => .after fun target => ?_
        refine (requireTarget_returns true target).bind fun _ htarget => ?_
        refine .after fun _ => .after fun _ => ?_
        exact hblock.bind fun body hbody => .after fun _ => .pure (hP.each htarget hbody)
      · exact (hP.simpleStatement n _).bind fun s hs => .after fun _ => .pure hs
    · unfold definition
      refine .after fun _ => .after fun _ => .after fun _ => ?_
      refine (distinctParameters_orderly n).bind fun params hparams => .after fun _ => ?_
      exact hblock.bind fun body hbody => .after fun _ => .pure (hP.define hparams hbody)
    · unfold alternatives
      refine .after fun _ => hblock.bind fun body hbody => .after fun kind => ?_
      dsimp only
      split
      · refine .after fun _ => .after fun _ => (halternatives _).bind fun s hs => ?_
        refine .bind (P := fun orelse => ∀ s ∈ orelse, P s) (.pure (by simpa using hs)) ?_
        exact fun orelse horelse => .after fun _ => .pure (hP.cond hbody horelse)
      · refine .after fun _ => .after fun _ => hblock.bind fun orelse horelse => ?_
        exact .after fun _ => .pure (hP.cond hbody horelse)
      · refine .bind (P := fun orelse => ∀ s ∈ orelse, P s) (.pure (by simp)) ?_
        exact fun orelse horelse => .after fun _ => .pure (hP.cond hbody horelse)
    · unfold block
      exact .after fun _ => hrest
    · unfold blockRest
      refine .after fun _ => .after fun closed => ?_
      split
      · exact .pure (by simp)
      · refine .after fun ended => ?_
        split
        · exact .after fun _ => .fail _ _
        · refine hstatement.bind fun s hs => hrest.bind fun ss hss => .pure ?_
          exact List.forall_mem_cons.2 ⟨hs, hss⟩

theorem statements (hP : Kept P) (n : Nat) :
    (statements n).Returns fun body => ∀ s ∈ body, P s := by
  induction n with
  | zero => exact .after fun _ => .fail _ _
  | succ n ih =>
    unfold Grammar.statements
    refine .after fun _ => .after fun ended => ?_
    split
    · exact .pure (by simp)
    · refine .after fun closed => ?_
      split
      · exact .after fun _ => .fail _ _
      · refine (hP.statement n).1.bind fun s hs => ih.bind fun ss hss => .pure ?_
        exact List.forall_mem_cons.2 ⟨hs, hss⟩

theorem parse (hP : Kept P) {source : String} {body : List Stmt} (h : parse source = .ok body) :
    ∀ s ∈ body, P s := by
  unfold Grammar.parse at h
  split at h
  · rename_i tokens _
    unfold ofTokens at h
    generalize hrun : Grammar.statements (nestingBound tokens.length) ⟨.origin, tokens⟩ = r at h
    cases r with
    | error e => cases h
    | ok r =>
      cases h
      exact hP.statements _ _ r.1 r.2 hrun
  · cases h

end Kept

theorem bodyDistinct_of_forall {body : List Stmt} (h : ∀ s ∈ body, s.Distinct) :
    BodyDistinct body := by
  induction body with
  | nil => exact trivial
  | cons s ss ih =>
    obtain ⟨hs, hss⟩ := List.forall_mem_cons.1 h
    exact ⟨hs, ih hss⟩

theorem kept_distinct : Kept Stmt.Distinct where
  plain {s} h := by cases s <;> first | exact trivial | cases h
  assign _ _ := trivial
  augAssign _ := trivial
  define hparams hbody := ⟨hparams.distinct, bodyDistinct_of_forall hbody⟩
  classDef hbody := bodyDistinct_of_forall hbody
  cond hbody horelse := ⟨bodyDistinct_of_forall hbody, bodyDistinct_of_forall horelse⟩
  loop hbody := bodyDistinct_of_forall hbody
  each _ hbody := bodyDistinct_of_forall hbody

theorem parse_distinct {source : String} {body : List Stmt} (h : parse source = .ok body) :
    BodyDistinct body :=
  bodyDistinct_of_forall (kept_distinct.parse h)

theorem bodyOrderly_of_forall {body : List Stmt} (h : ∀ s ∈ body, s.Orderly) :
    BodyOrderly body := by
  induction body with
  | nil => exact trivial
  | cons s ss ih =>
    obtain ⟨hs, hss⟩ := List.forall_mem_cons.1 h
    exact ⟨hs, ih hss⟩

theorem kept_orderly : Kept Stmt.Orderly where
  plain {s} h := by cases s <;> first | exact trivial | cases h
  assign _ _ := trivial
  augAssign _ := trivial
  define hparams hbody := ⟨hparams, bodyOrderly_of_forall hbody⟩
  classDef hbody := bodyOrderly_of_forall hbody
  cond hbody horelse := ⟨bodyOrderly_of_forall hbody, bodyOrderly_of_forall horelse⟩
  loop hbody := bodyOrderly_of_forall hbody
  each _ hbody := bodyOrderly_of_forall hbody

theorem parse_orderly {source : String} {body : List Stmt} (h : parse source = .ok body) :
    BodyOrderly body :=
  bodyOrderly_of_forall (kept_orderly.parse h)

theorem bodyAssignable_of_forall {body : List Stmt} (h : ∀ s ∈ body, s.Assignable) :
    BodyAssignable body := by
  induction body with
  | nil => exact trivial
  | cons s ss ih =>
    obtain ⟨hs, hss⟩ := List.forall_mem_cons.1 h
    exact ⟨hs, ih hss⟩

theorem kept_assignable : Kept Stmt.Assignable where
  plain {s} h := by cases s <;> first | exact trivial | cases h
  assign hsome htargets := ⟨hsome, htargets⟩
  augAssign htarget := htarget
  define _ hbody := bodyAssignable_of_forall hbody
  classDef hbody := bodyAssignable_of_forall hbody
  cond hbody horelse := ⟨bodyAssignable_of_forall hbody, bodyAssignable_of_forall horelse⟩
  loop hbody := bodyAssignable_of_forall hbody
  each htarget hbody := ⟨htarget, bodyAssignable_of_forall hbody⟩

theorem parse_assignable {source : String} {body : List Stmt} (h : parse source = .ok body) :
    BodyAssignable body :=
  bodyAssignable_of_forall (kept_assignable.parse h)

theorem firstUnassignable?_eq_none {es : List Expr} :
    firstUnassignable? es = none ↔ ∀ e ∈ es, e.unassignable? true = none := by
  induction es with
  | nil => simp [firstUnassignable?]
  | cons e es ih => simp [firstUnassignable?, ih]

theorem unassignable?_of_augmented {e : Expr} (h : e.unassignable? false = none) :
    e.unassignable? true = none := by
  cases e <;> first | rfl | cases h

end Lexiscope.Grammar
