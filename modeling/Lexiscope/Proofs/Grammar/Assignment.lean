import Lexiscope.Proofs.Grammar.Precedence
/-!
# Assignments

A name, the sign of assignment and the tokens of an expression are read as an assignment of that
expression to the name.
-/

namespace Lexiscope.Grammar

open Text (Span)
open Lexiscope.Grammar.Parser

section Runs

variable {first value : Expr} {n : Nat} {prev prev' start : Span} {rest ts us : List Token}
  {assign newline : Token}

theorem assignedValues_run (hassign : assign.kind = .mark .assign)
    (hnewline : newline.kind = .mark .newline)
    (hvalue : expressionListOrYield (n + 1) ⟨assign.span, ts⟩ = .ok (value, ⟨prev', newline :: us⟩)) :
    assignedValues (n + 2) ⟨prev, assign :: ts⟩ = .ok ([value], ⟨prev', newline :: us⟩) := by
  have hother : (nextKind (newline :: us)).isMark .assign = false := by
    rw [nextKind, hnewline]
    rfl
  have hnone : assignedValues (n + 1) ⟨prev', newline :: us⟩ = .ok ([], ⟨prev', newline :: us⟩) := by
    rw [assignedValues, parser_bind_ok (accept_other hother)]
    rfl
  rw [assignedValues, parser_bind_ok (accept_run hassign)]
  refine (parser_bind_ok hvalue).trans ?_
  rw [parser_bind_ok hnone]
  rfl

/-- An expression that can be assigned to, the sign of assignment and another expression. -/
theorem assignment_run (hassign : assign.kind = .mark .assign)
    (hnewline : newline.kind = .mark .newline) (hfirst : first.unassignable? true = none)
    (hrun : expressionListOrYield (n + 2) ⟨prev, rest⟩ = .ok (first, ⟨prev', assign :: ts⟩))
    {prev'' : Span}
    (hvalue : expressionListOrYield (n + 1) ⟨assign.span, ts⟩ = .ok (value, ⟨prev'', newline :: us⟩)) :
    expressionStatement (n + 2) start ⟨prev, rest⟩ =
      .ok (.assign [first] value (start.merge prev''), ⟨prev'', newline :: us⟩) := by
  rw [expressionStatement, parser_bind_ok hrun, parser_bind_ok kind_run, nextKind, hassign]
  refine (parser_bind_ok (assignedValues_run hassign hnewline hvalue)).trans ?_
  have htargets : [first].forM (requireTarget true) ⟨prev'', newline :: us⟩ =
      .ok ((), ⟨prev'', newline :: us⟩) := by
    have htarget : requireTarget true first ⟨prev'', newline :: us⟩ =
        .ok ((), ⟨prev'', newline :: us⟩) := by
      rw [requireTarget, hfirst]
      rfl
    change (requireTarget true first >>= fun _ => pure ()) _ = _
    rw [parser_bind_ok htarget]
    rfl
  refine (parser_bind_ok htargets).trans ?_
  rfl

end Runs

/-- A line with a name, the sign of assignment and an expression is read as an assignment. -/
theorem assignment_read {e : Expr} (h : e.Distinct) {name : Name} {tokens : List Token}
    (htokens : kinds tokens = .ident name :: .mark .assign :: e.write .conditional)
    {newline eof : Token} (hnewline : newline.kind = .mark .newline) (heof : eof.kind = .mark .eof) :
    ∃ e' place span, e'.bare = e.bare ∧
      ofTokens (tokens ++ [newline, eof]) = .ok [.assign [.name name place] e' span] := by
  obtain ⟨target, ts, rfl, htarget, hts⟩ := kinds_eq_cons htokens
  obtain ⟨assign, us, rfl, hassign, hus⟩ := kinds_eq_cons hts
  have hlength : (e.write .conditional).length = us.length := by rw [← hus, length_kinds]
  have hname : Reads [.ident name] (.name name .origin) .bare :=
    reads_bare (readable (.name name .origin) trivial .conditional (by decide))
  obtain ⟨first, prev, hfirst, hrun⟩ := hname (8 * us.length + 36 + 2) (by simp)
    (show kinds [target] = _ by rw [← htarget]; rfl)
    (ends_cons (us ++ [newline, eof]) hassign (by decide)) .origin
  obtain ⟨e', prev', he, hvalue⟩ := reads_bare (readable e h .conditional (by decide)) (8 * us.length + 36 + 1) (by omega) hus
    (ends_cons [eof] hnewline (by decide)) assign.span
  obtain ⟨place, rfl⟩ := bare_eq_name hfirst
  have hnext : (nextKind (target :: assign :: us ++ [newline, eof])).startsBare = true := by
    rw [List.cons_append, nextKind, htarget]
    rfl
  have hbound : nestingBound (target :: assign :: us ++ [newline, eof]).length =
      8 * us.length + 36 + 1 + 3 := by
    simp only [nestingBound, List.length_append, List.length_cons, List.length_nil]
    omega
  have hstatements := statements_single hnext hnewline heof
    (assignment_run hassign hnewline rfl hrun hvalue)
  rw [← hbound] at hstatements
  exact ⟨e', place, _, he, congrArg (Except.map Prod.fst) hstatements⟩

end Lexiscope.Grammar
