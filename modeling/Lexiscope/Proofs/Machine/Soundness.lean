import Lexiscope.Proofs.Code.Compiled
import Lexiscope.Proofs.Machine.Depths
import Lexiscope.Proofs.Machine.Entering
/-!
# Sound values and frames

Code in a sound value was compiled, and a closure has a cell for each free name. A sound frame finds
what its next instruction needs, and what the instruction makes is sound again. So the machine never
breaks its own rules in compiled code.
-/

namespace Lexiscope.Machine

open Code (Instr Kinds Object)
open Likeness

/-- All code in the value was compiled, and functions have the cells that their code asks for. -/
inductive Value.Sound : Value → Prop where
  | plain {v : Value} : v.isPlain = true → v.Sound
  | tuple {id : Identity} {items : List Value} : (∀ v ∈ items, v.Sound) →
    Value.Sound (.tuple id items)
  | method {id : Identity} {receiver callee : Value} : receiver.Sound → callee.Sound →
    Value.Sound (.method id receiver callee)
  | code {c : LoadedCode} : c.object.Compiled → Value.Sound (.code c)
  | function {f : FunctionValue} : f.code.object.Compiled →
    f.closure.length = f.code.object.freevars.length → (∀ v ∈ f.defaults, v.Sound) →
    (∀ e ∈ f.keywordDefaults.entries, e.2.Sound) → Value.Sound (.function f)

/-- The frame runs compiled code, at a place where its operands are those that are laid out there. -/
structure Frame.Sound (f : Frame) : Prop where
  code : f.code.object.Compiled
  roomy : f.Roomy
  fits : ∃ layout, f.code.object.LaidOut layout ∧ f.Fits layout
  stack : ∀ v ∈ f.stack, v.Sound
  fast : ∀ slot ∈ f.fast, ∀ v ∈ slot, v.Sound

/-- The likeness of stores that hold only sound values and frames. The machine breaks none of its
rules. -/
def Likeness.sound : Likeness where
  value := Value.Sound
  halt h := h.isInternal = false
  frame := Frame.Sound
  yields c := c.object.flags.isGenerator = true ∨ c.object.flags.isAsyncGenerator = true
  code := (· = ·)
  observers _ _ := True

theorem Value.sound_tuple {id : Identity} {items : List Value} :
    Value.Sound (.tuple id items) ↔ ∀ v ∈ items, v.Sound := by
  refine ⟨fun h => ?_, .tuple⟩
  cases h with
  | plain h => cases h
  | tuple h => exact h

theorem Value.sound_method {id : Identity} {receiver callee : Value} :
    Value.Sound (.method id receiver callee) ↔ receiver.Sound ∧ callee.Sound := by
  refine ⟨fun h => ?_, fun h => .method h.1 h.2⟩
  cases h with
  | plain h => cases h
  | method hr hc => exact ⟨hr, hc⟩

theorem Value.sound_code {c : LoadedCode} : Value.Sound (.code c) ↔ c.object.Compiled := by
  refine ⟨fun h => ?_, .code⟩
  cases h with
  | plain h => cases h
  | code h => exact h

theorem Likeness.sound_lawful : Likeness.sound.Lawful where
  plain _ h := .plain h
  tuple _ _ := Value.sound_tuple
  method _ _ _ := Value.sound_method
  halt _ h := h
  code_refl _ := rfl
  title _ _ h := h ▸ rfl

section Instructions

variable {f g : Frame} {layout : Nat → Kinds} {taken : List Value} {i : Instr} {a : Action}

theorem Frame.Sound.holds (h : f.Sound) : Likeness.sound.Holds f := ⟨h.stack, h.fast⟩

theorem eq_yield_of_does {L : Likeness} {v : Value} (h : L.Does f taken i (.yielded v g)) :
    i = .yieldValue := by
  cases i <;> simp only [Likeness.Does] at h
  all_goals grind

/-- What an action gives away beside its frame is sound. -/
def Action.Gives : Action → Prop
  | .next _ => True
  | .returned v _ | .yielded v _ | .unpack v _ _ | .advance v _ _ => v.Sound
  | .invoke callee args keywords _ =>
    callee.Sound ∧ (∀ v ∈ args, v.Sound) ∧ ∀ k ∈ keywords, k.2.Sound

theorem sound_of_loads {c : LoadedCode} {slot : Nat} {k : Code.Constant Object} {v : Value}
    (hc : c.object.Compiled) (hk : c.object.constants[slot]? = some k) (h : c.Loads slot k v) :
    v.Sound := by
  cases k with
  | code object =>
    obtain rfl : v = .code (c.inner slot object) := h
    exact .code (hc.inner (Array.mem_of_getElem? hk))
  | names names =>
    obtain ⟨id, items, rfl, -, htexts⟩ := h
    refine .tuple fun item hitem => ?_
    obtain ⟨s, rfl⟩ := htexts item hitem
    exact .plain rfl
  | _ => exact .plain h

theorem Likeness.Holds.push {L : Likeness} {v : Value} (h : L.Holds f) (hv : L.value v) :
    L.Holds (f.push v) :=
  ⟨List.forall_mem_cons.2 ⟨hv, h.stack⟩, h.fast⟩

theorem Likeness.Holds.append {L : Likeness} {vs : List Value} (h : L.Holds f)
    (hvs : ∀ v ∈ vs, L.value v) : L.Holds { f with stack := vs ++ f.stack } :=
  ⟨List.forall_mem_append.2 ⟨hvs, h.stack⟩, h.fast⟩

theorem sound_of_makeFunction {p : Code.Pools} {next target : Kinds → Prop} {bits : Nat}
    {τ σ : Kinds} {id : Identity} {code : LoadedCode} {globals : SpaceRef} {closure : List CellRef}
    {keywordDefaults : NameMap} {defaults rest : List Value}
    (hi : (Instr.makeFunction bits).Lays p next target τ σ)
    (hkinds : HaveKinds (.code code :: rest) τ) (hcode : code.object.Compiled)
    (hlie : PartsLie (.ofBits bits) closure rest []) (hdefaults : ∀ v ∈ defaults, v.Sound)
    (hkeyword : keywordDefaults.All Value.Sound) :
    Value.Sound (.function ⟨id, code, globals, defaults, keywordDefaults, closure⟩) := by
  obtain ⟨⟨c, -, rfl, hfree⟩, -⟩ := hi
  obtain ⟨⟨d, hd, rfl⟩, hrest⟩ := List.forall₂_cons.1 hkinds
  cases hd
  refine .function hcode (closure_length hrest (fun h => ?_) hlie) hdefaults hkeyword
  rw [hfree h, List.length_nil]

theorem sound_of_does {p : Code.Pools} {next target : Kinds → Prop} {τ σ : Kinds}
    (hc : f.code.object.Compiled) (hf : Likeness.sound.Holds f) (htaken : ∀ v ∈ taken, v.Sound)
    (hi : i.Lays p next target τ σ) (hkinds : HaveKinds taken τ)
    (h : Likeness.sound.Does f taken i a) :
    Likeness.sound.Holds a.frame ∧ a.Gives := by
  cases i <;> simp only [Likeness.Does] at h
  case loadConst k =>
    obtain ⟨c, v, hk, hloads, rfl⟩ := h
    exact ⟨hf.push (sound_of_loads hc hk hloads), trivial⟩
  case loadClosure k =>
    obtain ⟨r, rfl⟩ := h
    exact ⟨hf.push (.plain rfl), trivial⟩
  case storeFast k =>
    obtain ⟨v, rfl, rfl⟩ := h
    refine ⟨⟨hf.stack, ?_⟩, trivial⟩
    refine setIfInBounds_all (p := fun s : Option Value => ∀ v ∈ s, v.Sound) hf.fast k ?_
    intro w hw
    cases hw
    exact htaken v List.mem_cons_self
  case storeDeref | storeGlobal | storeName | storeAttr | storeSubscript | pop =>
    subst h
    exact ⟨hf, trivial⟩
  case buildTuple n =>
    obtain ⟨id, rfl⟩ := h
    refine ⟨hf.push (.tuple fun v hv => ?_), trivial⟩
    exact htaken v (List.mem_reverse.1 hv)
  case buildDict n =>
    obtain ⟨r, rfl⟩ := h
    exact ⟨hf.push (.plain rfl), trivial⟩
  case unpackSequence n =>
    obtain ⟨v, rfl, rfl⟩ := h
    exact ⟨hf, htaken v List.mem_cons_self⟩
  case call | callKw =>
    obtain ⟨callee, args, keywords, hcallee, hargs, hkeywords, rfl⟩ := h
    exact ⟨hf, hcallee, hargs, hkeywords⟩
  case makeFunction bits =>
    obtain ⟨id, code, closure, keywordDefaults, defaults, rest, rfl, hlie, hd, hk, rfl⟩ := h
    have hcode := Value.sound_code.1 (htaken _ List.mem_cons_self)
    exact ⟨hf.push (sound_of_makeFunction hi hkinds hcode hlie hd hk), trivial⟩
  case jump t | jumpForward t =>
    subst h
    exact ⟨⟨hf.stack, hf.fast⟩, trivial⟩
  case jumpIfFalse t | jumpIfTrue t =>
    rcases h with rfl | rfl
    · exact ⟨hf, trivial⟩
    · exact ⟨⟨hf.stack, hf.fast⟩, trivial⟩
  case jumpIfFalseOrPop t | jumpIfTrueOrPop t =>
    rcases h with rfl | ⟨v, rfl, rfl⟩
    · exact ⟨hf, trivial⟩
    · have hpush := hf.push (htaken v List.mem_cons_self)
      exact ⟨⟨hpush.stack, hpush.fast⟩, trivial⟩
  case forIter t =>
    obtain ⟨v, rfl, rfl⟩ := h
    have hv := htaken v List.mem_cons_self
    exact ⟨hf.push hv, hv⟩
  case dup =>
    obtain ⟨v, rfl, rfl⟩ := h
    have hv := htaken v List.mem_cons_self
    exact ⟨(hf.push hv).push hv, trivial⟩
  case dupTwo =>
    subst h
    exact ⟨hf.append (List.forall_mem_append.2 ⟨htaken, htaken⟩), trivial⟩
  case rot2 =>
    obtain ⟨v, w, rfl, rfl⟩ := h
    exact ⟨(hf.push (htaken v (by simp))).push (htaken w (by simp)), trivial⟩
  case rot3 =>
    obtain ⟨u, v, w, rfl, rfl⟩ := h
    have hrest := (hf.push (htaken u (by simp))).push (htaken w (by simp))
    exact ⟨hrest.push (htaken v (by simp)), trivial⟩
  case yieldValue | returnValue =>
    obtain ⟨v, rfl, rfl⟩ := h
    exact ⟨hf, htaken v List.mem_cons_self⟩
  all_goals
    obtain ⟨v, hv, rfl⟩ := h
    exact ⟨hf.push hv, trivial⟩

end Instructions

section Frames

variable {f g : Frame} {layout : Nat → Kinds}

theorem Frame.Sound.next (hf : f.Sound) (hlaid : f.code.object.LaidOut layout)
    (hbody : f.SameBody g) (hsize : g.fast.size = f.fast.size) (hholds : Likeness.sound.Holds g)
    (hfits : g.Fits layout) : g.Sound where
  code := hbody.code ▸ hf.code
  roomy := hf.roomy.sameBody hbody hsize
  fits := ⟨layout, hbody.code ▸ hlaid, hfits⟩
  stack := hholds.stack
  fast := hholds.fast

theorem sound_step (hf : f.Sound) :
    Likeness.sound.Agree (Likeness.sound.Acts f.code) (step f) (step f) := by
  obtain ⟨layout, hlaid, hfits⟩ := hf.fits
  obtain ⟨i, hi⟩ : ∃ i, f.code.object.instructions[f.pc]? = some i :=
    ⟨_, Array.getElem?_eq_getElem hfits.place⟩
  obtain ⟨τ, σ, htakes, hkinds, hrest, hlays⟩ := hfits.split (hlaid.instruction f.pc i hi)
  have htaken : ∀ v ∈ f.stack.take i.takes, v.Sound := fun v hv =>
    hf.stack v (List.mem_of_mem_take hv)
  have hsuits : f.Suits (f.stack.take i.takes) i := suits_of_lays hf.roomy hlays hkinds
  refine (follows_step sound_lawful (.refl f.code) hf.holds hi hi (fun _ _ => rfl)
    (.inr ⟨htakes, hsuits⟩)).mono ?_
  rintro a _ ⟨rfl, hperforms⟩
  have hbody : f.SameBody a.frame := by
    have hsame := sameBody_of_does hperforms.2
    exact ⟨hsame.id, hsame.code, hsame.globals, hsame.cells, hsame.classSpace⟩
  have hself := a.withCode_self
  rw [hbody.code] at hself
  refine ⟨hself.symm, ?_⟩
  have hkeeps := keeps_of_performs hlaid hfits hi hperforms
  have hdropped : Likeness.sound.Holds (({ f with pc := f.pc + 1 } : Frame).drop i.takes) :=
    ⟨fun v hv => hf.stack v (List.mem_of_mem_drop hv), hf.fast⟩
  have hsize := fastSize_of_does hperforms.2
  obtain ⟨hholds, hgives⟩ := sound_of_does (f := ({ f with pc := f.pc + 1 } : Frame).drop
    i.takes) hf.code hdropped htaken hlays hkinds hperforms.2
  have hnext : ∀ {g : Frame}, a.frame.SameBody g → g.fast.size = a.frame.fast.size →
      Likeness.sound.Holds g → g.Fits layout → g.Sound := fun hg hgsize hgholds hgfits =>
    hf.next hlaid (hbody.trans hg) (hgsize.trans hsize) hgholds hgfits
  have hpush : ∀ v : Value, v.Sound → (a.frame.push v).Fits layout → (a.frame.push v).Sound :=
    fun v hv hvfits => hnext ⟨rfl, rfl, rfl, rfl, rfl⟩ rfl (hholds.push hv) hvfits
  cases a with
  | next g => exact ⟨hnext (.refl g) rfl hholds hkeeps, hbody.code⟩
  | returned v g => exact ⟨hgives, hbody.code⟩
  | yielded v g =>
    refine ⟨⟨hgives, hpush .none (.plain rfl) hkeeps, ?_⟩, hbody.code⟩
    obtain rfl := eq_yield_of_does hperforms.2
    have hcode : g.code = f.code := hbody.code
    rw [hcode]
    cases hf.code.sound with
    | mk _ _ _ hyields => exact hyields (Array.mem_of_getElem? hi)
  | invoke callee args keywords g =>
    exact ⟨hgives.1, hgives.2.1, hgives.2.2, hbody.code, fun v hv => hpush v hv (hkeeps v)⟩
  | unpack v count g =>
    refine ⟨hgives, hbody.code, fun items hlength hitems => ?_⟩
    exact hnext ⟨rfl, rfl, rfl, rfl, rfl⟩ rfl (hholds.append hitems) (hkeeps items hlength)
  | advance iterator target g =>
    obtain ⟨hgo, v, rest, hstack, hend⟩ := hkeeps
    refine ⟨hgives, hbody.code, fun v hv => hpush v hv (hgo v), .inl ⟨v, rest, hstack, ?_⟩⟩
    refine hnext ⟨rfl, rfl, rfl, rfl, rfl⟩ rfl ⟨fun w hw => hholds.stack w ?_, hholds.fast⟩ hend
    change w ∈ g.stack
    rw [hstack]
    exact List.mem_cons_of_mem v hw

theorem sound_of_fresh {c : LoadedCode} {closure : List CellRef} (hc : c.object.Compiled)
    (hclosure : closure.length = c.object.freevars.length)
    (h : Likeness.sound.Fresh c closure f) : f.Sound := by
  obtain ⟨rfl, hstack, hpc, hcells, hslots, hfast⟩ := h
  cases hc.sound with
  | mk layout hlaid hparams =>
    refine ⟨hc, ⟨hslots hparams, ?_⟩, ⟨layout, hlaid, ?_, ?_⟩, ?_, hfast⟩
    · rw [hcells, hclosure, Object.derefNames, List.length_append]
    · rw [hpc]
      exact hlaid.nonempty
    · rw [hpc, hlaid.start, hstack]
      exact .nil
    · rw [hstack]
      simp

theorem params_of_sound {c : Object} (h : c.Sound) : c.paramCount ≤ c.varnames.size := by
  cases h with
  | mk _ _ hparams => exact hparams

theorem Value.Sound.ofFunction {f : FunctionValue} (h : Value.Sound (.function f)) :
    f.code.object.Compiled ∧ f.closure.length = f.code.object.freevars.length ∧
      (∀ v ∈ f.defaults, v.Sound) ∧ f.keywordDefaults.All Value.Sound := by
  cases h with
  | plain h => cases h
  | function hcode hclosure hdefaults hkeyword => exact ⟨hcode, hclosure, hdefaults, hkeyword⟩

/-- The machine keeps to its rules in compiled code. -/
theorem Likeness.sound_steady : Likeness.sound.Steady where
  toLawful := sound_lawful
  step _ hf := sound_step hf
  enterFunction f args keywords hf hargs hkeywords := by
    obtain ⟨hcode, hclosure, hdefaults, hkeyword⟩ := hf.ofFunction
    refine (agree_enterFunction sound_lawful (.inr (params_of_sound hcode.sound)) hdefaults hkeyword
      hargs hkeywords).mono fun g hg => ⟨sound_of_fresh hcode hclosure hg, hg.code⟩
  enterClassBody f space hf := by
    obtain ⟨hcode, hclosure, -, -⟩ := hf.ofFunction
    exact (agree_enterClassBody f space).mono fun g hg =>
      ⟨sound_of_fresh hcode hclosure hg, hg.code⟩
  yields _ h := h.imp_right .inl
  observers _ _ _ _ _ := trivial

end Frames

end Lexiscope.Machine
