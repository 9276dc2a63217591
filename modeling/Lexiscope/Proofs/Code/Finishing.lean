import Mathlib.Data.List.Nodup
import Lexiscope.Proofs.Code.Emission
/-!
# Finished code has a layout

When a body is finished the jumps get their targets. The sketch of its layout is then the layout of
its code.
-/

namespace Lexiscope.Code

open Lexical (Scope)

structure Patched (labels : Array (Option Nat)) (jumps : List (Nat × Label))
    (code code' : Array Instr) : Prop where
  size : code'.size = code.size
  jump : ∀ pc l, (pc, l) ∈ jumps → ∃ t, labels[l.index]? = some (some t) ∧
    code'[pc]? = code[pc]?.map (·.withTarget t)
  other : ∀ pc, (∀ l, (pc, l) ∉ jumps) → code'[pc]? = code[pc]?

theorem patched_of_foldrM {labels : Array (Option Nat)} {jumps : List (Nat × Label)}
    {code code' : Array Instr} (hdistinct : (jumps.map Prod.fst).Nodup)
    (h : jumps.foldrM (fun j (code : Array Instr) => do
      let target ← (labels[j.2.index]?).join
      return code.modify j.1 (·.withTarget target)) code = some code') :
    Patched labels jumps code code' := by
  induction jumps generalizing code' with
  | nil =>
    cases h
    exact ⟨rfl, by simp, fun _ _ => rfl⟩
  | cons j jumps ih =>
    obtain ⟨pc, l⟩ := j
    rw [List.foldrM_cons] at h
    obtain ⟨code₁, h₁, h⟩ := Option.bind_eq_some_iff.1 h
    obtain ⟨t, ht, h⟩ := Option.bind_eq_some_iff.1 h
    cases h
    rw [List.map_cons, List.nodup_cons] at hdistinct
    obtain ⟨hpc, hdistinct⟩ := hdistinct
    obtain ⟨hsize, hjump, hother⟩ := ih hdistinct h₁
    have hfirst : ∀ m, (pc, m) ∉ jumps := fun m hm => hpc (List.mem_map.2 ⟨_, hm, rfl⟩)
    refine ⟨by simpa using hsize, fun q m hm => ?_, fun q hq => ?_⟩
    · rcases List.mem_cons.1 hm with hm | hm
      · cases hm
        refine ⟨t, Option.join_eq_some_iff.1 ht, ?_⟩
        rw [Array.getElem?_modify, if_pos rfl, hother pc hfirst]
      · obtain ⟨u, hu, hcode⟩ := hjump q m hm
        refine ⟨u, hu, ?_⟩
        rw [Array.getElem?_modify, if_neg (by rintro rfl; exact hfirst m hm), hcode]
    · rw [Array.getElem?_modify, if_neg ?_]
      · exact hother q fun m hm => hq m (List.mem_cons_of_mem _ hm)
      · rintro rfl
        exact hq l List.mem_cons_self

theorem patched_of_bound {κ : Type} {b : Builder κ} (h : ∀ j ∈ b.jumps, b.Binds j.2) :
    ∃ code, b.patched? = some code := by
  unfold Builder.patched?
  unfold Builder.Binds at h
  generalize b.jumps = jumps at h
  induction jumps with
  | nil => exact ⟨_, rfl⟩
  | cons j jumps ih =>
    obtain ⟨⟨p, hp⟩, hjumps⟩ := List.forall_mem_cons.1 h
    obtain ⟨code, hcode⟩ := ih hjumps
    rw [List.foldrM_cons, hcode, hp]
    exact ⟨_, rfl⟩

theorem Instr.Suits.withTarget {p : Pools} {next target target' : Kinds → Prop} {before : Kinds}
    {i : Instr} {t : Nat} (h : i.Suits p next target before)
    (htarget : ∀ σ, target σ → (i.withTarget t).target? = some t → target' σ) :
    (i.withTarget t).Suits p next target' before := by
  obtain ⟨taken, rest, hbefore, hlength, h⟩ := h
  refine ⟨taken, rest, hbefore, ?_, ?_⟩
  · cases i <;> exact hlength
  · cases i <;> simp only [Instr.withTarget, Instr.Lays] at h ⊢ htarget <;>
      first
      | exact h
      | exact htarget _ h rfl
      | exact ⟨h.1, htarget _ h.2 rfl⟩

theorem Instr.withTarget_eq_yieldValue {i : Instr} {t : Nat} (h : i.withTarget t = .yieldValue) :
    i = .yieldValue := by
  cases i <;> first | rfl | cases h

theorem Patched.yieldValue_mem {labels : Array (Option Nat)} {jumps : List (Nat × Label)}
    {code code' : Array Instr} (h : Patched labels jumps code code')
    (hmem : .yieldValue ∈ code') : .yieldValue ∈ code := by
  obtain ⟨pc, hpc⟩ := Array.mem_iff_getElem?.1 hmem
  refine Array.mem_iff_getElem?.2 ⟨pc, ?_⟩
  by_cases hjump : ∃ l, (pc, l) ∈ jumps
  · obtain ⟨l, hl⟩ := hjump
    obtain ⟨t, -, hcode⟩ := h.jump pc l hl
    obtain ⟨i, hi, hwith⟩ := Option.map_eq_some_iff.1 (hcode.symm.trans hpc)
    rw [hi, Instr.withTarget_eq_yieldValue hwith]
  · rw [← h.other pc fun l hl => hjump ⟨l, hl⟩]
    exact hpc

theorem laidOut_of_drawn {mayYield : Prop} {b : Builder} {k : Sketch} {c : Object}
    (hdrawn : Drawn mayYield b k)
    (hpatched : Patched b.labels b.jumps b.instructions c.instructions)
    (hpools : c.pools = b.pools) (hlast : b.instructions.back? = some .returnValue)
    (hlabels : ∀ (l p : Nat), b.labels[l]? = some (some p) → p < b.instructions.size) :
    c.LaidOut k.place := by
  have hsize := hpatched.size
  have hback : b.instructions[b.instructions.size - 1]? = some .returnValue := by
    rw [← Array.back?_eq_getElem?]
    exact hlast
  have hpos : 0 < b.instructions.size := by
    obtain ⟨hlt, -⟩ := Array.getElem?_eq_some_iff.1 hback
    omega
  refine ⟨hdrawn.start, by omega, fun pc i' hi' => ?_⟩
  rw [hpools, hsize]
  have hpc : pc < b.instructions.size := by
    obtain ⟨hlt, -⟩ := Array.getElem?_eq_some_iff.1 hi'
    omega
  have hi := Array.getElem?_eq_getElem hpc
  generalize b.instructions[pc] = i at hi
  -- What comes after the last instruction does not matter, since it returns.
  have hsuits : i.Suits b.pools (fun σ => pc + 1 < b.instructions.size ∧ k.place (pc + 1) = σ)
      (fun σ => ∃ l, (pc, l) ∈ b.jumps ∧ Aims b k l σ) (k.place pc) := by
    by_cases hnext : pc + 1 < b.instructions.size
    · exact (hdrawn.instruction pc i hi).mono (.refl _) (fun σ hσ => ⟨hnext, hσ⟩) fun _ h => h
    · obtain rfl : pc = b.instructions.size - 1 := by omega
      obtain rfl : Instr.returnValue = i := Option.some.inj (hback.symm.trans hi)
      obtain ⟨taken, rest, hbefore, hlength, -⟩ := hdrawn.instruction _ _ hi
      exact ⟨taken, rest, hbefore, hlength, trivial⟩
  by_cases hjump : ∃ l, (pc, l) ∈ b.jumps
  · obtain ⟨l, hl⟩ := hjump
    obtain ⟨t, ht, hcode⟩ := hpatched.jump pc l hl
    rw [hi, hi'] at hcode
    cases hcode
    refine hsuits.withTarget fun σ hσ htarget => ?_
    obtain ⟨m, hm, -, hlabel⟩ := hσ
    obtain rfl : l = m :=
      congrArg Prod.snd (List.inj_on_of_nodup_map hdrawn.distinct hl hm rfl)
    exact ⟨t, htarget, hlabels _ _ ht, (hdrawn.label _ _ ht).2.trans hlabel⟩
  · have hcode := hpatched.other pc fun l hl => hjump ⟨l, hl⟩
    rw [hi, hi'] at hcode
    cases hcode
    exact hsuits.mono (.refl _) (fun _ h => h) fun σ ⟨l, hl, _⟩ => absurd ⟨l, hl⟩ hjump

theorem finish_ok {draft : Draft} {span : Text.Span} {object c : Object}
    (h : finish draft span object = .ok c) :
    c.cellvars = draft.builder.cellvars ∧ c.freevars = draft.builder.freevars ∧
      c.flags = object.flags := by
  obtain ⟨hpooled, -, -⟩ := constant_spec draft.builder .none
  unfold finish at h
  dsimp only at h
  split at h
  · cases h
    exact ⟨hpooled.cellvars, hpooled.freevars, rfl⟩
  · cases h

theorem finish_sound {mayYield : Prop} {draft : Draft} {k : Sketch} {π : List Scope}
    {span : Text.Span} {object c : Object} (hat : draft.At mayYield k ⟨[], π⟩)
    (h : finish draft span object = .ok c)
    (hparams : object.paramCount ≤ draft.builder.varnames.size)
    (hyields : mayYield → object.flags.isGenerator = true ∨ object.flags.isAsyncGenerator = true) :
    c.Sound := by
  unfold finish at h
  dsimp only at h
  split at h
  · rename_i code hcode
    cases h
    -- The last two instructions are emitted like those of a body.
    have hconstant : Emits mayYield .none (.emitConst .none) ⟨[], π⟩ ⟨[.any], π⟩ :=
      emits_constant trivial (by simp)
    have hreturn : Emits mayYield .none (.emit .returnValue) ⟨[.any], π⟩ ⟨[], π⟩ :=
      emits_emit (fun _ _ _ => ⟨[.any], [], rfl, rfl, trivial⟩) (by simp)
    obtain ⟨k₁, hat₁, hevolves₁, -⟩ := hconstant rfl hat trivial
    obtain ⟨k₂, hat₂, hevolves₂, -⟩ := hreturn rfl hat₁ trivial
    have hdrawn := hat₂.drawn
    have hpatched := patched_of_foldrM hdrawn.distinct hcode
    obtain ⟨hpooled, -, -⟩ := constant_spec draft.builder .none
    refine .mk k₂.place (laidOut_of_drawn hdrawn hpatched rfl ?_ fun l p hl => ?_) ?_ ?_
      hdrawn.sound
    · exact Array.back?_push
    · replace hl : draft.builder.labels[l]? = some (some p) := hpooled.labels ▸ hl
      have hle := (hat.drawn.label l p hl).1
      have hsize := hevolves₁.size
      exact Nat.lt_of_le_of_lt (Nat.le_trans hle hsize) (by simp [Builder.emit])
    · exact Nat.le_trans hparams (hevolves₁.trans hevolves₂).pools.slots
    · exact fun hyield => hyields (hdrawn.yields (hpatched.yieldValue_mem hyield))
  · cases h

end Lexiscope.Code
