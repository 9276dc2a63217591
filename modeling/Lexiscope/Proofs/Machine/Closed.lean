import Lexiscope.Proofs.Machine.Course
/-!
# Code that keeps inside itself

In closed code every instruction that does not leave the body is followed by another one, so that
no run fetches an instruction past the last one.
-/

namespace Lexiscope.Code

def Instr.successors (pc : Nat) : Instr → List Nat
  | .jump t => [t]
  | .jumpIfFalse t | .jumpIfTrue t | .jumpIfFalseOrPop t | .jumpIfTrueOrPop t | .forIter t =>
    [pc + 1, t]
  | .jumpForward n => [pc + 1 + n]
  | .returnValue | .await | .raise | .raiseAssert => []
  | _ => [pc + 1]

/-- The code has an instruction, and every instruction is followed inside the code. -/
structure Object.Closed (c : Object) : Prop where
  nonempty : 0 < c.instructions.size
  inside : ∀ (pc : Nat) (i : Instr), c.instructions[pc]? = some i →
    ∀ q ∈ i.successors pc, q < c.instructions.size

theorem Instr.Suits.successors {p : Pools} {next target : Kinds → Prop} {before : Kinds} {i : Instr}
    {n pc : Nat} (h : i.Suits p next target before) (hnext : ∀ σ, next σ → pc + 1 < n)
    (htarget : ∀ σ, target σ → ∃ t, i.target? = some t ∧ t < n) :
    ∀ q ∈ i.successors pc, q < n := by
  obtain ⟨taken, rest, -, -, h⟩ := h
  cases i <;> simp only [Instr.Lays] at h
  all_goals grind [Instr.successors, Instr.target?]

theorem Object.LaidOut.closed {c : Object} {layout : Nat → Kinds} (h : c.LaidOut layout) :
    c.Closed := by
  refine ⟨h.nonempty, fun pc i hi => ?_⟩
  refine (h.instruction pc i hi).successors (fun σ hσ => hσ.1) fun σ hσ => ?_
  obtain ⟨t, ht, hlt, -⟩ := hσ
  exact ⟨t, ht, hlt⟩

end Lexiscope.Code

namespace Lexiscope.Machine

open Code (Instr)
open Likeness

def Action.places : Action → List Nat
  | .next f | .yielded _ f | .invoke _ _ _ f | .unpack _ _ f => [f.pc]
  | .returned _ _ => []
  | .advance _ target f => [f.pc, target]

theorem places_of_does {L : Likeness} {f : Frame} {taken : List Value} {i : Instr} {a : Action}
    {pc : Nat} (h : L.Does f taken i a) (hpc : f.pc = pc + 1) :
    ∀ q ∈ a.places, q ∈ i.successors pc := by
  cases i <;> simp only [Likeness.Does] at h
  all_goals grind [Action.places, Frame.push, Frame.jump, Instr.successors]

def Frame.InRange (f : Frame) : Prop := f.pc < f.code.object.instructions.size

/-- A step leaves a frame of the same body, which goes on where the instruction may be followed. -/
theorem successors_of_step {f : Frame} {s u : Store} {a : Action} (h : step f s = .ok a u) :
    f.SameBody a.frame ∧ ∃ i, f.code.object.instructions[f.pc]? = some i ∧
      ∀ q ∈ a.places, q ∈ i.successors f.pc := by
  obtain ⟨i, hi, hperforms⟩ := performs_of_step h
  exact ⟨sameBody_of_performs hperforms, i, hi, fun q hq => places_of_does hperforms.2 rfl q hq⟩

theorem places_of_step {f : Frame} {s u : Store} {a : Action} (hc : f.code.object.Closed)
    (h : step f s = .ok a u) :
    f.SameBody a.frame ∧ ∀ q ∈ a.places, q < f.code.object.instructions.size := by
  obtain ⟨hbody, i, hi, hplaces⟩ := successors_of_step h
  exact ⟨hbody, fun q hq => hc.inside f.pc i hi q (hplaces q hq)⟩

theorem unpackOnto_ok {f g : Frame} {count : Nat} {items : Array Value} {s t : Store}
    (h : unpackOnto f count items s = .ok g t) :
    g = { f with stack := items.toList ++ f.stack } ∧ items.size = count := by
  unfold unpackOnto at h
  dsimp only at h
  split at h
  · cases h
  rename_i hless
  split at h
  · cases h
  rename_i hmore
  cases h
  exact ⟨rfl, by omega⟩

theorem advanced_ok {f g : Frame} {target : Nat} {item : Option Value} {s t : Store}
    (h : advanced f target item s = .ok g t) :
    (∃ v, g = f.push v) ∨ ∃ v rest, f.stack = v :: rest ∧
      g = { f with stack := rest, pc := target } := by
  cases item with
  | some v =>
    cases h
    exact .inl ⟨v, rfl⟩
  | none =>
    cases hs : f.stack with
    | nil =>
      simp only [advanced, Frame.pop, hs] at h
      cases h
    | cons v rest =>
      simp only [advanced, Frame.pop, hs] at h
      cases h
      exact .inr ⟨v, rest, rfl, rfl⟩

/-- The frame with which a body goes on when what an instruction asked for is there. -/
def Action.LeadsTo : Action → Frame → Prop
  | .next f, g => g = f
  | .returned .., _ | .yielded .., _ => False
  | .invoke _ _ _ f, g => ∃ v, g = f.push v
  | .unpack _ count f, g => ∃ items : List Value, items.length = count ∧
      g = { f with stack := items ++ f.stack }
  | .advance _ target f, g => (∃ v, g = f.push v) ∨
      ∃ v rest, f.stack = v :: rest ∧ g = { f with stack := rest, pc := target }

theorem leadsTo_of_act {n : Nat} {a : Action} {g : Frame} {u v : Store}
    (h : act n a u = .ok (.goes g) v) : a.LeadsTo g := by
  cases a with
  | next f =>
    cases h
    rfl
  | returned x f | yielded x f => cases h
  | invoke callee args keywords f =>
    simp only [act] at h
    rw [attempt_bind] at h
    cases hcall : callValue n callee args keywords u <;> rw [hcall] at h <;> cases h
    exact ⟨_, rfl⟩
  | unpack x count f =>
    simp only [act] at h
    rw [attempt_bind] at h
    cases hcall : (collect n x >>= unpackOnto f count) u <;> rw [hcall] at h <;> cases h
    obtain ⟨items, t, -, hitems⟩ := bind_eq_ok hcall
    obtain ⟨hg, hcount⟩ := unpackOnto_ok hitems
    exact ⟨items.toList, by simpa using hcount, hg⟩
  | advance iterator target f =>
    simp only [act] at h
    rw [attempt_bind] at h
    cases hcall : (nextItem n iterator >>= advanced f target) u <;> rw [hcall] at h <;> cases h
    obtain ⟨item, t, -, hitem⟩ := bind_eq_ok hcall
    exact advanced_ok hitem

theorem Action.LeadsTo.same {a : Action} {g : Frame} (h : a.LeadsTo g) :
    a.frame.SameBody g ∧ g.fast = a.frame.fast ∧ g.pc ∈ a.places := by
  cases a with
  | next f =>
    obtain rfl := h
    exact ⟨.refl g, rfl, List.mem_singleton_self _⟩
  | returned x f | yielded x f => exact h.elim
  | invoke callee args keywords f =>
    obtain ⟨v, rfl⟩ := h
    exact ⟨⟨rfl, rfl, rfl, rfl, rfl⟩, rfl, List.mem_singleton_self _⟩
  | unpack x count f =>
    obtain ⟨items, -, rfl⟩ := h
    exact ⟨⟨rfl, rfl, rfl, rfl, rfl⟩, rfl, List.mem_singleton_self _⟩
  | advance iterator target f =>
    rcases h with ⟨v, rfl⟩ | ⟨v, rest, -, rfl⟩
    · exact ⟨⟨rfl, rfl, rfl, rfl, rfl⟩, rfl, List.mem_cons_self⟩
    · exact ⟨⟨rfl, rfl, rfl, rfl, rfl⟩, rfl, List.mem_cons_of_mem _ (List.mem_singleton_self _)⟩

theorem Action.LeadsTo.withCode {a : Action} {g : Frame} {c : LoadedCode} (h : a.LeadsTo g) :
    (a.withCode c).LeadsTo (g.withCode c) := by
  cases a with
  | next f =>
    obtain rfl := h
    rfl
  | returned x f | yielded x f => exact h.elim
  | invoke callee args keywords f =>
    obtain ⟨v, rfl⟩ := h
    exact ⟨v, rfl⟩
  | unpack x count f =>
    obtain ⟨items, hcount, rfl⟩ := h
    exact ⟨items, hcount, rfl⟩
  | advance iterator target f =>
    rcases h with ⟨v, rfl⟩ | ⟨v, rest, hstack, rfl⟩
    · exact .inl ⟨v, rfl⟩
    · exact .inr ⟨v, rest, hstack, rfl⟩

theorem inRange_of_goes {n : Nat} {f g : Frame} {s u : Store} (hc : f.code.object.Closed)
    (h : turn n f s = .ok (.goes g) u) : f.SameBody g ∧ g.InRange := by
  obtain ⟨a, t, hstep, hact⟩ := step_of_goes h
  obtain ⟨hbody, hplaces⟩ := places_of_step hc hstep
  obtain ⟨hbody', -, hpc⟩ := (leadsTo_of_act hact).same
  have hinside := hplaces g.pc hpc
  have hsame := hbody.trans hbody'
  exact ⟨hsame, show g.pc < g.code.object.instructions.size from hsame.code ▸ hinside⟩

/-- A run in closed code leaves a frame of the same body, which may go on after a yield. -/
theorem sameBody_of_runFrame {n : Nat} {f : Frame} {s u : Store} {r : Stopped} {k : Completion}
    (hc : f.code.object.Closed) (h : runFrame n f s = .ok r u) (hr : r.result = .ok k) :
    f.SameBody r.frame ∧ ((∃ v, k = .yielded v) → r.frame.InRange) := by
  induction n generalizing f s with
  | zero =>
    cases h
    cases hr
  | succ n ih =>
    obtain ⟨x, t, hturn⟩ := turn_total n f s
    cases x with
    | goes g =>
      rw [runFrame_goes hturn] at h
      obtain ⟨hbody, -⟩ := inRange_of_goes hc hturn
      obtain ⟨hbody', hyield⟩ := ih (hbody.code ▸ hc) h
      exact ⟨hbody.trans hbody', hyield⟩
    | stops r' =>
      rw [runFrame_stops hturn] at h
      cases h
      obtain ⟨g, result⟩ := r
      obtain rfl : result = .ok k := hr
      obtain ⟨hbody, hplaces⟩ := places_of_step hc (step_of_completed hturn)
      cases k with
      | returned v => exact ⟨hbody, fun ⟨_, hv⟩ => by cases hv⟩
      | yielded v =>
        have hsame : f.SameBody g := hbody
        have hinside := hplaces g.pc (List.mem_singleton_self _)
        refine ⟨hsame, fun _ => ?_⟩
        change g.pc < g.code.object.instructions.size
        rw [hsame.code]
        exact hinside

end Lexiscope.Machine
