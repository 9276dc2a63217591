import Lexiscope.Proofs.Machine.Sessions
/-!
# The rules of the machine

Whatever a host asks for, compiled code does not break the rules of the machine. Every place in the
code has a depth of the stack, with which it is always reached.
-/

namespace Lexiscope.Machine

open Likeness

/-- The depth of the stack at every place of compiled code, in all its frames. -/
theorem depth_of_compiled {c : Code.Object} (hc : c.Compiled) :
    ∃ depth : Nat → Nat, ∀ {f g : Frame} {s t : Store} {es : List Event}, f.code.object = c →
      f.stack = [] → f.pc = 0 → Course f s es g t → g.stack.length = depth g.pc := by
  cases hc.sound with
  | mk layout hlaid =>
    refine ⟨fun pc => (layout pc).length, fun {f g s t es} hcode hstack hpc hcourse => ?_⟩
    subst hcode
    have hfits : f.Fits layout := by
      refine ⟨?_, ?_⟩
      · rw [hpc]
        exact hlaid.nonempty
      · rw [hpc, hlaid.start, hstack]
        exact .nil
    exact (hcourse.fits hlaid hfits).2.stack.length_eq

/-- A demand of a host is answered, or the machine halts without having found a broken rule. -/
theorem halt_of_session {s t : Store} {held : List Value} {d : Demand} {fuel : Nat} {e : Halt}
    (hs : Session s held) (hd : d.Fair s held) (h : d.answer fuel s = .error e t) :
    e.isInternal = false := by
  obtain ⟨halike, hheld⟩ := hs.sound
  rcases (agree_answer fuel halike.values hheld hd).error_self halike h with rfl | ⟨he, -⟩
  · rfl
  · exact he

/-- Compiled code never breaks the rules of the machine: no demand of a host, in whatever session,
is answered with a broken rule, neither in the module, function or generator that it asks for nor in
anything that runs because of it. Every place in the code is always reached with the same depth of
the stack, whatever the store holds and however often the body was suspended. -/
theorem rules_kept :
    (∀ {s t : Store} {held : List Value} {d : Demand} {fuel : Nat} {e : Halt},
      Session s held → d.Fair s held → d.answer fuel s = .error e t → e.isInternal = false) ∧
    ∀ {c : Code.Object}, c.Compiled → ∃ depth : Nat → Nat,
      ∀ {f g : Frame} {s t : Store} {es : List Event}, f.code.object = c → f.stack = [] →
        f.pc = 0 → Course f s es g t → g.stack.length = depth g.pc :=
  ⟨halt_of_session, depth_of_compiled⟩

def failingInside : String :=
  "for i in [1, 2] { while True { x = [i, (i + 1, [i] + i)] } }"

def moduleCode (source : String) : Option Code.Object :=
  match Grammar.parse source with
  | .ok body => (Code.compile body "sample").toOption
  | .error _ => none

theorem compiled_moduleCode {source : String} {c : Code.Object} (h : moduleCode source = some c) :
    c.Compiled := by
  unfold moduleCode at h
  split at h
  · rename_i body hparse
    cases hcompile : Code.compile body "sample" with
    | error e =>
      rw [hcompile] at h
      cases h
    | ok d =>
      rw [hcompile] at h
      cases h
      exact .unit hparse hcompile
  · cases h

def unitFrame (c : Code.Object) : Frame :=
  { id := 0, code := ⟨.unit 0, .unit 0, c⟩, globals := ⟨0⟩, fast := #[], cells := [] }

def failsInside (source : String) : Bool :=
  (match (Demand.load source "sample").answer 100 {} with
    | .error e _ => e != .outOfFuel
    | .ok _ _ => false) &&
  (moduleCode source).any fun c =>
    match step (unitFrame c) {} with
    | .ok (.next g) _ => g.pc == 1
    | _ => false

theorem rules_kept_failingInside : ∃ e t c es g u,
    Session {} [] ∧ (Demand.load failingInside "sample").Fair {} [] ∧
    (Demand.load failingInside "sample").answer 100 {} = .error e t ∧ e ≠ .outOfFuel ∧
    moduleCode failingInside = some c ∧ Course (unitFrame c) {} es g u ∧ g.pc = 1 ∧
    e.isInternal = false ∧ ∃ depth : Nat → Nat, g.stack.length = depth g.pc := by
  have hfails : failsInside failingInside = true := by decide +kernel
  unfold failsInside at hfails
  rw [Bool.and_eq_true] at hfails
  obtain ⟨hhalts, hsteps⟩ := hfails
  obtain ⟨c, hc, hstep⟩ := (Option.any_eq_true _ _).1 hsteps
  split at hhalts
  · rename_i e t hanswer
    split at hstep
    · rename_i g u hnext
      have hcourse : Course (unitFrame c) {} [.turn .nothing u u] g u :=
        .turn (n := 0) hnext rfl .here
      have hsession : Session {} [] := .start
      have hfair : (Demand.load failingInside "sample").Fair {} [] := trivial
      obtain ⟨depth, hdepth⟩ := rules_kept.2 (compiled_moduleCode hc)
      refine ⟨e, t, c, _, g, u, hsession, hfair, hanswer, by simpa using hhalts, hc, hcourse,
        by simpa using hstep, rules_kept.1 hsession hfair hanswer, depth, ?_⟩
      exact hdepth rfl rfl rfl hcourse
    · cases hstep
  · cases hhalts

end Lexiscope.Machine
