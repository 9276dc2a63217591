import Lexiscope.Proofs.Code.Sketch
/-!
# Emitting instructions

What each of the small steps of generation does to the sketch.
-/

namespace Lexiscope.Code

variable {mayYield : Prop} {b : Builder} {k : Sketch}

def Sketch.setPlace (k : Sketch) (p : Nat) (σ : Kinds) : Sketch :=
  { k with place := fun q => if q = p then σ else k.place q }

def Sketch.setLabel (k : Sketch) (l : Nat) (σ : Kinds) : Sketch :=
  { k with label := fun m => if m = l then σ else k.label m }

/-- The builder with one more instruction, which may jump to a label. -/
def Builder.push {κ : Type} (b : Builder κ) (i : Instr) (l : Option Label) : Builder κ :=
  { b with
    instructions := b.instructions.push i
    jumps := l.toList.map (b.instructions.size, ·) ++ b.jumps }

def Builder.Binds {κ : Type} (b : Builder κ) (l : Label) : Prop :=
  ∃ p, b.labels[l.index]? = some (some p)

theorem evolves_push (b : Builder) (k : Sketch) (i : Instr) (l : Option Label) (after : Kinds) :
    Evolves b k (b.push i l) (k.setPlace (b.instructions.size + 1) after) where
  pools := .refl _
  cellvars := rfl
  freevars := rfl
  size := by simp [Builder.push]
  labels := Nat.le_refl _
  place p hp := if_neg (by omega)
  label _ _ := rfl

theorem drawn_push (h : Drawn mayYield b k) {i : Instr} {l : Option Label} {after : Kinds}
    (hi : i.Suits b.pools (fun σ => σ = after) (fun σ => ∃ m ∈ l, Aims b k m σ)
      (k.place b.instructions.size))
    (hyield : i = .yieldValue → mayYield) :
    Drawn mayYield (b.push i l) (k.setPlace (b.instructions.size + 1) after) := by
  -- Of what is known about places, only that of the one after the instruction is new.
  have hplace : ∀ p ≤ b.instructions.size,
      (k.setPlace (b.instructions.size + 1) after).place p = k.place p :=
    fun p hp => if_neg (by omega)
  refine ⟨(hplace 0 (Nat.zero_le _)).trans h.start, fun pc j hj => ?_, ?_, ?_, ?_, ?_, h.sound⟩
  · rw [Builder.push, Array.getElem?_push] at hj
    split at hj
    · rename_i hpc
      cases hj
      rw [hplace pc (by omega), hpc]
      refine hi.mono (.refl _) (fun σ hσ => ?_) fun σ hσ => ?_
      · rw [hσ]
        exact if_pos rfl
      · obtain ⟨m, hm, haims⟩ := hσ
        exact ⟨m, List.mem_append_left _ (by simpa using hm), haims⟩
    · obtain ⟨hpc, -⟩ := Array.getElem?_eq_some_iff.1 hj
      rw [hplace pc (by omega)]
      refine (h.instruction pc j hj).mono (.refl _) (fun σ hσ => ?_) fun σ hσ => ?_
      · rw [hplace (pc + 1) (by omega)]
        exact hσ
      · obtain ⟨m, hm, haims⟩ := hσ
        exact ⟨m, List.mem_append_right _ hm, haims⟩
  · intro j hj
    simp only [Builder.push, Array.size_push]
    rcases List.mem_append.1 hj with hj | hj
    · obtain ⟨m, -, rfl⟩ := List.mem_map.1 hj
      exact Nat.lt_succ_self _
    · exact Nat.lt_succ_of_lt (h.jumps j hj)
  · cases l with
    | none => exact h.distinct
    | some m =>
      refine List.nodup_cons.2 ⟨fun hm => ?_, h.distinct⟩
      obtain ⟨j, hj, hsize⟩ := List.mem_map.1 hm
      exact absurd (h.jumps j hj) (hsize ▸ Nat.lt_irrefl _)
  · intro m p hp
    obtain ⟨hle, hlabel⟩ := h.label m p hp
    refine ⟨?_, (hplace p hle).trans hlabel⟩
    simp only [Builder.push, Array.size_push]
    omega
  · intro hmem
    rcases Array.mem_push.1 hmem with hmem | hmem
    · exact h.yields hmem
    · exact hyield hmem.symm

section Emitting

variable {known : Fact} {σ τ : Kinds} {π : List Lexical.Scope}

theorem generates_push {g : Generate Unit} {i : Instr} {l : Option Label}
    (hg : ∀ d, g d = .ok ((), { d with builder := d.builder.push i l }))
    (hi : ∀ b k, known.holds b k →
      i.Suits b.pools (fun ρ => ρ = τ) (fun ρ => ∃ m ∈ l, Aims b k m ρ) σ)
    (hyield : i = .yieldValue → mayYield) :
    Emits mayYield known g ⟨σ, π⟩ ⟨τ, π⟩ := by
  intro d a d' k h hat hknown
  rw [hg] at h
  cases h
  obtain ⟨hdrawn, hstack, hpending⟩ := hat
  refine ⟨k.setPlace (d.builder.instructions.size + 1) τ, ⟨?_, ?_, hpending⟩,
    evolves_push .., trivial⟩
  · refine drawn_push hdrawn ?_ hyield
    rw [hstack]
    exact hi _ _ hknown
  · simp [Sketch.setPlace, Builder.push]

theorem emits_emit {i : Instr}
    (hi : ∀ b k, known.holds b k → i.Suits b.pools (fun ρ => ρ = τ) (fun _ => False) σ)
    (hyield : i = .yieldValue → mayYield) :
    Emits mayYield known (Generate.emit i) ⟨σ, π⟩ ⟨τ, π⟩ :=
  generates_push (l := none) (fun _ => rfl)
    (fun b k hk => (hi b k hk).mono (.refl _) (fun _ h => h) fun _ h => h.elim) hyield

theorem emits_jump {jump : Nat → Instr} {l : Label} {ρ : Kinds}
    (hl : known.Gives (.aims l ρ))
    (hi : ∀ b : Builder, (jump 0).Suits b.pools (fun υ => υ = τ) (fun υ => υ = ρ) σ)
    (hyield : jump 0 ≠ .yieldValue) :
    Emits mayYield known (Generate.emitJump jump l) ⟨σ, π⟩ ⟨τ, π⟩ := by
  refine generates_push (l := some l) (fun _ => rfl) (fun b k hk => ?_) fun h => absurd h hyield
  refine (hi b).mono (.refl _) (fun _ h => h) fun υ hυ => ⟨l, rfl, ?_⟩
  exact hυ ▸ hl b k hk

/-- A jump that is always done. What comes after it is reached otherwise. -/
theorem emits_jumpTo {l : Label} (τ : Kinds) (hl : known.Gives (.aims l σ)) :
    Emits mayYield known (Generate.emitJump .jump l) ⟨σ, π⟩ ⟨τ, π⟩ :=
  emits_jump hl (fun _ => ⟨[], σ, rfl, rfl, rfl⟩) (by simp)

theorem emits_branch {l : Label} {jump : Nat → Instr} {κ : Kind}
    (hjump : jump = .jumpIfFalse ∨ jump = .jumpIfTrue) (hl : known.Gives (.aims l σ)) :
    Emits mayYield known (Generate.emitJump jump l) ⟨κ :: σ, π⟩ ⟨σ, π⟩ := by
  rcases hjump with rfl | rfl
  · exact emits_jump hl (fun _ => ⟨[κ], σ, rfl, rfl, rfl, rfl⟩) (by simp)
  · exact emits_jump hl (fun _ => ⟨[κ], σ, rfl, rfl, rfl, rfl⟩) (by simp)

theorem emits_branchOrPop {l : Label} {jump : Nat → Instr} {κ : Kind}
    (hjump : jump = .jumpIfFalseOrPop ∨ jump = .jumpIfTrueOrPop)
    (hl : known.Gives (.aims l (κ :: σ))) :
    Emits mayYield known (Generate.emitJump jump l) ⟨κ :: σ, π⟩ ⟨σ, π⟩ := by
  rcases hjump with rfl | rfl
  · exact emits_jump hl (fun _ => ⟨[κ], σ, rfl, rfl, rfl, rfl⟩) (by simp)
  · exact emits_jump hl (fun _ => ⟨[κ], σ, rfl, rfl, rfl, rfl⟩) (by simp)

end Emitting

section Pools

structure Builder.Pooled (b b' : Builder) : Prop where
  pools : b.pools.Within b'.pools
  instructions : b'.instructions = b.instructions
  labels : b'.labels = b.labels
  jumps : b'.jumps = b.jumps
  cellvars : b'.cellvars = b.cellvars
  freevars : b'.freevars = b.freevars

theorem Builder.Pooled.refl (b : Builder) : b.Pooled b := ⟨.refl _, rfl, rfl, rfl, rfl, rfl⟩

theorem Builder.Pooled.trans {b' b'' : Builder} (h : b.Pooled b') (h' : b'.Pooled b'') :
    b.Pooled b'' :=
  ⟨h.pools.trans h'.pools, h'.instructions.trans h.instructions, h'.labels.trans h.labels,
    h'.jumps.trans h.jumps, h'.cellvars.trans h.cellvars, h'.freevars.trans h.freevars⟩

theorem Builder.Pooled.evolves {b' : Builder} (h : b.Pooled b') (k : Sketch) :
    Evolves b k b' k where
  pools := h.pools
  cellvars := h.cellvars
  freevars := h.freevars
  size := Nat.le_of_eq (congrArg Array.size h.instructions.symm)
  labels := Nat.le_of_eq (congrArg Array.size h.labels.symm)
  place _ _ := rfl
  label _ _ := rfl

theorem Builder.Pooled.drawn {b' : Builder} (h : b.Pooled b') (hdrawn : Drawn mayYield b k)
    (hsound : ∀ c, .code c ∈ b'.constants → c.Sound) : Drawn mayYield b' k := by
  obtain ⟨start, instruction, jumps, distinct, label, yields, -⟩ := hdrawn
  rw [← h.instructions] at jumps instruction label yields
  rw [← h.jumps] at jumps distinct instruction
  rw [← h.labels] at label
  refine ⟨start, fun pc i hi => ?_, jumps, distinct, label, yields, hsound⟩
  refine (instruction pc i hi).mono h.pools (fun _ h => h) ?_
  rintro σ ⟨l, hl, haims⟩
  exact ⟨l, hl, (h.evolves k).aims haims⟩

theorem poolName_spec (pool : Array Name) (name : Name) :
    (poolName pool name).1 < (poolName pool name).2.size ∧
      pool.size ≤ (poolName pool name).2.size := by
  unfold poolName
  split
  · rename_i i hi
    obtain ⟨j, -, rfl⟩ := Option.map_eq_some_iff.1 hi
    exact ⟨j.2, Nat.le_refl _⟩
  · simp

theorem pooled_name (b : Builder) (name : Name) : b.Pooled (b.name name).2 :=
  ⟨⟨fun _ _ h => h, (poolName_spec b.names name).2, Nat.le_refl _, Nat.le_refl _⟩, rfl, rfl, rfl,
    rfl, rfl⟩

theorem pooled_varname (b : Builder) (name : Name) : b.Pooled (b.varname name).2 :=
  ⟨⟨fun _ _ h => h, Nat.le_refl _, (poolName_spec b.varnames name).2, Nat.le_refl _⟩, rfl, rfl, rfl,
    rfl, rfl⟩

theorem sharesSlot_describes {κ : Kind} {c d : Constant Object} (h : c.sharesSlot d = true)
    (hκ : κ.Describes d) : κ.Describes c := by
  cases κ <;> cases d <;> simp only [Kind.Describes] at hκ ⊢ <;>
    cases c <;> simp_all [Constant.sharesSlot]

theorem constant_spec (b : Builder) (c : Constant Object) :
    b.Pooled (b.constant c).2 ∧
      (∀ κ : Kind, κ.Describes c → ∃ d, (b.constant c).2.constants[(b.constant c).1]? = some d ∧
        κ.Describes d) ∧
      ∀ d, .code d ∈ (b.constant c).2.constants → .code d ∈ b.constants ∨ c = .code d := by
  unfold Builder.constant
  split
  · rename_i i hi
    obtain ⟨hlt, hshares, -⟩ := Array.findIdx?_eq_some_iff_getElem.1 hi
    refine ⟨.refl b, fun κ hκ => ?_, fun d hd => .inl hd⟩
    exact ⟨_, Array.getElem?_eq_getElem hlt, sharesSlot_describes hshares hκ⟩
  · refine ⟨⟨⟨fun i d hd => ?_, Nat.le_refl _, Nat.le_refl _, Nat.le_refl _⟩, rfl, rfl, rfl, rfl,
      rfl⟩, fun κ hκ => ⟨c, by simp, hκ⟩, fun d hd => ?_⟩
    · change b.constants[i]? = some d at hd
      change (b.constants.push c)[i]? = some d
      obtain ⟨hlt, -⟩ := Array.getElem?_eq_some_iff.1 hd
      rw [Array.getElem?_push, if_neg (by omega)]
      exact hd
    · exact (Array.mem_push.1 hd).imp_right Eq.symm

end Pools

section Steps

open Generate

variable {known : Fact} {p : Point} {σ : Kinds} {π : List Lexical.Scope}

theorem generates_place {f : Builder → Nat × Builder} {learned : Nat → Fact}
    (hf : ∀ b : Builder, b.Pooled (f b).2) (hconstants : ∀ b : Builder, (f b).2.constants = b.constants)
    (hlearned : ∀ b k, (learned (f b).1).holds (f b).2 k) :
    Generates mayYield known (place f) p (fun _ => p) learned := by
  intro d i d' k h hat hknown
  cases h
  obtain ⟨hdrawn, hstack, hpending⟩ := hat
  have hpooled := hf d.builder
  refine ⟨k, ⟨hpooled.drawn hdrawn fun c hc => ?_, ?_, hpending⟩, hpooled.evolves k, hlearned _ _⟩
  · rw [hconstants] at hc
    exact hdrawn.sound c hc
  · rw [hpooled.instructions]
    exact hstack

theorem generates_name (name : Name) :
    Generates mayYield known (place (·.name name)) p (fun _ => p) Fact.name :=
  generates_place (pooled_name · name) (fun _ => rfl) fun b _ => (poolName_spec b.names name).1

theorem generates_varname (name : Name) :
    Generates mayYield known (place (·.varname name)) p (fun _ => p) Fact.slot :=
  generates_place (pooled_varname · name) (fun _ => rfl) fun b _ =>
    (poolName_spec b.varnames name).1

theorem generates_deref (name : Name) (span : Text.Span) :
    Generates mayYield known (deref name span) p (fun _ => p) Fact.cell := by
  intro d i d' k h hat hknown
  unfold deref at h
  split at h
  · rename_i j hj
    cases h
    refine ⟨k, hat, .refl _ _, ?_⟩
    obtain ⟨hlt, -⟩ := List.findIdx?_eq_some_iff_getElem.1 hj
    exact hlt
  · cases h

theorem generates_newLabel (τ : Kinds) :
    Generates mayYield known newLabel p (fun _ => p) fun l => .aims l τ := by
  intro d l d' k h hat hknown
  cases h
  obtain ⟨⟨start, instruction, jumps, distinct, label, yields, sound⟩, hstack, hpending⟩ := hat
  have hevolves : Evolves d.builder k (d.builder.newLabel).2
      (k.setLabel d.builder.labels.size τ) :=
    ⟨.refl _, rfl, rfl, Nat.le_refl _, by simp [Builder.newLabel], fun _ _ => rfl,
      fun l hl => if_neg (by omega)⟩
  refine ⟨k.setLabel d.builder.labels.size τ, ⟨⟨start, fun pc i hi => ?_, jumps, distinct,
    fun l p hp => ?_, yields, sound⟩, hstack, hpending⟩, hevolves, ?_⟩
  · refine (instruction pc i hi).mono (.refl _) (fun _ h => h) ?_
    rintro σ ⟨m, hm, haims⟩
    exact ⟨m, hm, hevolves.aims haims⟩
  · change (d.builder.labels.push none)[l]? = _ at hp
    rw [Array.getElem?_push] at hp
    split at hp
    · cases hp
    · obtain ⟨hlt, -⟩ := Array.getElem?_eq_some_iff.1 hp
      obtain ⟨hle, hplace⟩ := label l p hp
      exact ⟨hle, hplace.trans (hevolves.label l hlt).symm⟩
  · exact ⟨by simp, if_pos rfl⟩

theorem emits_bindLabel {l : Label} (hl : known.Gives (.aims l p.stack)) :
    Emits mayYield known (bindLabel l) p p := by
  intro d a d' k h hat hknown
  cases h
  obtain ⟨⟨start, instruction, jumps, distinct, label, yields, sound⟩, hstack, hpending⟩ := hat
  obtain ⟨hsize, hlabel⟩ := hl _ _ hknown
  have hevolves : Evolves d.builder k (d.builder.bindLabel l) k :=
    ⟨.refl _, rfl, rfl, Nat.le_refl _, by simp [Builder.bindLabel], fun _ _ => rfl, fun _ _ => rfl⟩
  refine ⟨k, ⟨⟨start, fun pc i hi => ?_, jumps, distinct, fun m q hq => ?_, yields, sound⟩, hstack,
    hpending⟩, hevolves, trivial⟩
  · refine (instruction pc i hi).mono (.refl _) (fun _ h => h) ?_
    rintro σ ⟨m, hm, haims⟩
    exact ⟨m, hm, hevolves.aims haims⟩
  · change (d.builder.labels.setIfInBounds l.index _)[m]? = _ at hq
    rw [Array.getElem?_setIfInBounds] at hq
    split at hq
    · rename_i hm
      cases hq
      subst hm
      exact ⟨Nat.le_refl _, hstack.trans hlabel.symm⟩
    · exact label m q hq

theorem generates_emitConst {c : Constant Object} {κ : Kind} (hκ : κ.Describes c)
    (hsound : ∀ d, c = .code d → d.Sound) :
    Generates mayYield known (emitConst c) ⟨σ, π⟩ (fun _ => ⟨κ :: σ, π⟩) fun _ => .pooled κ := by
  have hplace : Generates mayYield known (place (·.constant c)) ⟨σ, π⟩ (fun _ => ⟨σ, π⟩)
      (Fact.constant κ) := by
    intro d i d' k h hat hknown
    obtain ⟨hdrawn, hstack, hpending⟩ := hat
    obtain ⟨hpooled, hplace, hcode⟩ := constant_spec d.builder c
    obtain ⟨rfl, rfl⟩ : (d.builder.constant c).1 = i ∧
        { d with builder := (d.builder.constant c).2 } = d' := Prod.mk.inj (Except.ok.inj h)
    refine ⟨k, ⟨hpooled.drawn hdrawn fun e he => ?_, ?_, hpending⟩, hpooled.evolves k,
      hplace κ hκ⟩
    · exact (hcode e he).elim (hdrawn.sound e) (hsound e)
    · rw [hpooled.instructions]
      exact hstack
  refine hplace.bind (f := fun i => emit (.loadConst i)) fun i => ?_
  refine Generates.keep (f := Fact.constant κ i) (fun _ _ hk => hk.2) (fun _ _ hk => ⟨i, hk⟩) ?_
  refine emits_emit (fun b k hk => ?_) (by simp)
  obtain ⟨d, hd, hκ⟩ := hk.2
  exact ⟨[], σ, rfl, rfl, d, κ, hd, hκ, rfl⟩

theorem emits_constant {c : Constant Object} {κ : Kind} (hκ : κ.Describes c)
    (hsound : ∀ d, c = .code d → d.Sound) :
    Emits mayYield known (emitConst c) ⟨σ, π⟩ ⟨κ :: σ, π⟩ :=
  (generates_emitConst hκ hsound).forget fun _ _ _ _ => trivial

theorem generates_nextScope (span : Text.Span) {s : Lexical.Scope} :
    Generates mayYield known (nextScope span) ⟨σ, s :: π⟩ (fun _ => ⟨σ, π⟩)
      fun t => .always (t = s) := by
  intro d t d' k h hat hknown
  obtain ⟨hdrawn, hstack, hpending⟩ := hat
  unfold nextScope at h
  rw [show d.pending = s :: π from hpending] at h
  cases h
  exact ⟨k, ⟨hdrawn, hstack, rfl⟩, .refl _ _, rfl⟩

end Steps

end Lexiscope.Code
