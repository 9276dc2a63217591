import Lexiscope.Proofs.Machine.Effects
import Lexiscope.Proofs.Machine.Entering
/-!
# More fuel

A run that was not stopped for want of fuel is the same with more fuel. The likeness behind this
asks nothing of values and frames, and so does the one for runs under different observers.
-/

namespace Lexiscope.Machine

open Code (Instr)

/-- A frame of the same execution of a body, at whatever place. -/
structure Frame.SameBody (f g : Frame) : Prop where
  id : g.id = f.id
  code : g.code = f.code
  globals : g.globals = f.globals
  cells : g.cells = f.cells
  classSpace : g.classSpace = f.classSpace

theorem Frame.SameBody.refl (f : Frame) : f.SameBody f := ⟨rfl, rfl, rfl, rfl, rfl⟩

theorem Frame.SameBody.trans {f g h : Frame} (hg : f.SameBody g) (hh : g.SameBody h) :
    f.SameBody h :=
  ⟨hh.id.trans hg.id, hh.code.trans hg.code, hh.globals.trans hg.globals,
    hh.cells.trans hg.cells, hh.classSpace.trans hg.classSpace⟩

theorem Likeness.sameBody_of_does {L : Likeness} {f : Frame} {taken : List Value} {i : Instr}
    {a : Action} (h : L.Does f taken i a) : f.SameBody a.frame := by
  constructor
  all_goals
    cases i <;> simp only [Likeness.Does] at h
    all_goals grind [Action.frame, Frame.push, Frame.jump]

theorem Likeness.fastSize_of_does {L : Likeness} {f : Frame} {taken : List Value} {i : Instr}
    {a : Action} (h : L.Does f taken i a) : a.frame.fast.size = f.fast.size := by
  cases i <;> simp only [Likeness.Does] at h
  all_goals grind [Action.frame, Frame.push, Frame.jump]

theorem Likeness.eq_return_of_does {L : Likeness} {f g : Frame} {taken : List Value}
    {i : Instr} {v : Value} (h : L.Does f taken i (.returned v g)) : i = .returnValue := by
  cases i <;> simp only [Likeness.Does] at h
  all_goals grind

/-- The likeness that asks nothing of values, frames and halts. -/
def Likeness.loose (code : LoadedCode → LoadedCode → Prop)
    (observers : List Observer → List Observer → Prop) : Likeness where
  value _ := True
  halt _ := True
  frame _ := True
  yields _ := True
  code := code
  observers := observers

namespace Likeness

variable {code : LoadedCode → LoadedCode → Prop}
  {observers : List Observer → List Observer → Prop}

theorem loose_lawful (hrefl : ∀ c, code c c)
    (htitle : ∀ c d, code c d → c.object.qualname = d.object.qualname) :
    (loose code observers).Lawful where
  plain _ _ := trivial
  tuple _ _ := ⟨fun _ _ _ => trivial, fun _ => trivial⟩
  method _ _ _ := ⟨fun _ => ⟨trivial, trivial⟩, fun _ => trivial⟩
  halt _ _ := trivial
  code_refl := hrefl
  title := htitle

theorem loose_values (s : Store) : s.All (loose code observers).value :=
  ⟨fun _ _ _ _ => trivial, fun _ _ _ _ => trivial, fun _ _ _ _ => trivial,
    fun _ _ _ _ => trivial, fun i _ => by
      cases i.source <;> simp [Source.All, loose]⟩

theorem Alike.flip {s t : Store} (h : (loose code observers).Alike s t) :
    (loose (fun c d => code d c) (fun o p => observers p o)).Alike t s where
  rest := by rw [h.rest]
  values := loose_values t
  size := h.size.symm
  generator r :=
    have hr := h.generator r
    ⟨hr.code, hr.state.symm, hr.started.symm, fun _ _ => trivial⟩
  observers := h.observers

theorem Alike.withObservers {observers' : List Observer → List Observer → Prop} {s t : Store}
    (h : (loose code observers).Alike s t) {o p : List Observer} (ho : observers' o p) :
    (loose code observers').Alike { s with observers := o } { t with observers := p } where
  rest := by rw [h.rest]
  values := loose_values _
  size := h.size
  generator r :=
    have hr := h.generator r
    ⟨hr.code, hr.state, hr.started, fun _ _ => trivial⟩
  observers := ho

theorem loose_holds (f : Frame) : (loose code observers).Holds f :=
  ⟨fun _ _ => trivial, fun _ _ _ _ => trivial⟩

theorem loose_acts {c : LoadedCode} {a : Action} (h : a.frame.code = c) :
    (loose code observers).Acts c a := by
  cases a with
  | next f => exact ⟨trivial, h⟩
  | returned v f => exact ⟨trivial, h⟩
  | yielded v f => exact ⟨⟨trivial, trivial, trivial⟩, h⟩
  | invoke callee args keywords f =>
    exact ⟨trivial, fun _ _ => trivial, fun _ _ => trivial, h, fun _ _ => trivial⟩
  | unpack v count f => exact ⟨trivial, h, fun _ _ _ => trivial⟩
  | advance iterator target f =>
    refine ⟨trivial, h, fun _ _ => trivial, ?_⟩
    cases hs : f.stack with
    | nil => exact .inr ⟨rfl, fun _ => trivial⟩
    | cons v rest => exact .inl ⟨v, rest, rfl, trivial⟩

theorem loose_step (hL : (loose code observers).Lawful) {f : Frame} {c : LoadedCode}
    (hc : f.code.SamePools c) {i : Instr}
    (hf : f.code.object.instructions[f.pc]? = some i)
    (hi : c.object.instructions[f.pc]? = some i)
    (hconst : ∀ k, i = .loadConst k →
      c.object.constants[k]? = f.code.object.constants[k]?) :
    (loose code observers).Follows
      (fun a b => b = a.withCode c ∧ (loose code observers).Acts f.code a)
      (step f) (step (f.withCode c)) := by
  refine (follows_step hL hc (loose_holds f) hf hi hconst (.inl fun _ => trivial)).mono ?_
  rintro a b ⟨rfl, -, hdoes⟩
  have hframe := sameBody_of_does hdoes
  exact ⟨rfl, loose_acts hframe.code⟩

theorem loose_steady (hL : (loose code observers).Lawful)
    (hobservers : ∀ moment f s t, (loose code observers).Alike s t →
      observers (tellAll s moment f s.observers) (tellAll t moment f t.observers)) :
    (loose code observers).Steady where
  toLawful := hL
  step f _ := by
    cases hi : f.code.object.instructions[f.pc]? with
    | none =>
      simp only [step, hi]
      exact follows_throw trivial
    | some i =>
      refine (loose_step hL (.refl f.code) hi hi fun _ _ => rfl).mono ?_
      rintro a _ ⟨rfl, ha⟩
      refine ⟨?_, ha⟩
      have hself := a.withCode_self
      rw [ha.frame_code] at hself
      exact hself.symm
  enterFunction f args keywords _ _ _ := by
    refine (agree_enterFunction hL (.inl fun _ => trivial) (fun _ _ => trivial)
      (fun _ _ => trivial) (fun _ _ => trivial) fun _ _ => trivial).mono ?_
    exact fun g hg => ⟨trivial, hg.code⟩
  enterClassBody f space _ :=
    (agree_enterClassBody f space).mono fun g hg => ⟨trivial, hg.code⟩
  yields _ _ := .inr (.inr fun _ => trivial)
  observers := hobservers

/-- The likeness of stores that are equal. -/
def same : Likeness := loose (· = ·) (· = ·)

theorem eq_of_sameGenerator {g h : Generator} (hg : same.SameGenerator g h) : h = g := by
  have hcode : g.code = h.code := hg.code
  have hstate := hg.state
  have hstarted := hg.started
  cases g
  cases h
  simp_all

theorem eq_of_alike {s t : Store} (h : same.Alike s t) : s = t := by
  have hgenerators : t.generators = s.generators := by
    refine Array.ext h.size fun i hi hi' => ?_
    have hg := eq_of_sameGenerator (h.generator ⟨i⟩)
    rwa [Store.generator, Store.generator, ← Array.getElem_eq_getD, ← Array.getElem_eq_getD] at hg
  have hobservers : s.observers = t.observers := h.observers
  rw [h.rest, hgenerators, ← hobservers]

theorem alike_refl (s : Store) : same.Alike s s :=
  ⟨rfl, loose_values s, rfl, fun _ => ⟨rfl, rfl, rfl, fun _ _ => trivial⟩, rfl⟩

theorem same_steady : same.Steady := by
  refine loose_steady (loose_lawful (fun _ => rfl) fun c d h => h ▸ rfl) ?_
  intro moment f s t h
  rw [eq_of_alike h]

section Same

variable {α β : Type} {r : α → β → Prop} {x : Exec α} {y : Exec β} {s u : Store}

/-- In one store a computation ends as one that it follows, unless for want of fuel. -/
theorem Follows.ok_same {a : α} (h : same.Follows r x y) (hx : x s = .ok a u) :
    ∃ b, y s = .ok b u ∧ r a b := by
  have hxy := h (alike_refl s)
  rw [hx] at hxy
  generalize y s = b at hxy
  cases hxy with
  | ok hab _ ha => exact ⟨_, by rw [eq_of_alike ha], hab⟩

theorem Follows.error_same {e : Halt} (h : same.Follows r x y) (hx : x s = .error e u)
    (he : e ≠ .outOfFuel) : y s = .error e u := by
  have hxy := h (alike_refl s)
  rw [hx] at hxy
  generalize y s = b at hxy
  cases hxy with
  | error _ _ ha => rw [eq_of_alike ha]
  | outOfFuel => exact absurd rfl he

theorem Tries.ok_same {spent : α → Prop} {a : α} (h : same.Tries spent r x y)
    (hx : x s = .ok a u) (ha : ¬ spent a) : ∃ b, y s = .ok b u ∧ r a b := by
  have hxy := h (alike_refl s)
  rw [hx] at hxy
  generalize y s = b at hxy
  cases hxy with
  | ok hab _ ha => exact ⟨_, by rw [eq_of_alike ha], hab⟩
  | spent hspent => exact absurd hspent ha

theorem Follows.before_same {a : α} (h : same.Follows r x y) (hx : x s = .ok a u) :
    s.Before u := by
  have hxy := h (alike_refl s)
  rw [hx] at hxy
  generalize y s = b at hxy
  cases hxy with
  | ok _ hb _ => exact hb

theorem Tries.before_same {spent : α → Prop} {a : α} (h : same.Tries spent r x y)
    (hx : x s = .ok a u) (ha : ¬ spent a) : s.Before u := by
  have hxy := h (alike_refl s)
  rw [hx] at hxy
  generalize y s = b at hxy
  cases hxy with
  | ok _ hb _ => exact hb
  | spent hspent => exact absurd hspent ha

end Same

theorem performs_of_step {f : Frame} {s u : Store} {a : Action} (h : step f s = .ok a u) :
    ∃ i, f.code.object.instructions[f.pc]? = some i ∧
      same.Performs { f with pc := f.pc + 1 } i a := by
  cases hi : f.code.object.instructions[f.pc]? with
  | none =>
    simp only [step, hi] at h
    cases h
  | some i =>
    have hfollows := follows_step same_steady.toLawful (.refl f.code) (loose_holds f) hi hi
      (fun _ _ => rfl) (.inl fun _ => trivial)
    obtain ⟨b, -, -, hperforms⟩ := hfollows.ok_same h
    exact ⟨i, rfl, hperforms⟩

theorem sameBody_of_performs {L : Likeness} {f : Frame} {i : Instr} {a : Action}
    (h : L.Performs { f with pc := f.pc + 1 } i a) : f.SameBody a.frame := by
  have hbody := sameBody_of_does h.2
  exact ⟨hbody.id, hbody.code, hbody.globals, hbody.cells, hbody.classSpace⟩

end Likeness

end Lexiscope.Machine
