import Lexiscope.Machine.Run
import Lexiscope.Proofs.Machine.Primitives
/-!
# Starting a body in stores that are alike

The arguments of a call are bound, and the frame of the body is made.
-/

namespace Lexiscope.Machine

/-- Every value in a slot is good. -/
def GoodSlots (p : Value → Prop) (slots : Slots) : Prop := ∀ slot ∈ slots, ∀ v ∈ slot, p v

section Slots

variable {p : Value → Prop}

theorem GoodSlots.cons {slot : Option Value} {slots : Slots} (h : ∀ v ∈ slot, p v)
    (hs : GoodSlots p slots) : GoodSlots p (slot :: slots) :=
  List.forall_mem_cons.2 ⟨h, hs⟩

theorem GoodSlots.append {slots slots' : Slots} (h : GoodSlots p slots)
    (h' : GoodSlots p slots') : GoodSlots p (slots ++ slots') :=
  List.forall_mem_append.2 ⟨h, h'⟩

theorem GoodSlots.empty (n : Nat) : GoodSlots p (List.replicate n none) := by
  intro slot hslot
  rw [List.eq_of_mem_replicate hslot]
  simp

theorem length_fillPositional : (n : Nat) → (args : List Value) →
    (fillPositional n args).length = n
  | 0, _ => rfl
  | n + 1, [] => by rw [fillPositional, List.length_cons, length_fillPositional n []]
  | n + 1, v :: vs => by rw [fillPositional, List.length_cons, length_fillPositional n vs]

theorem good_fillPositional : (n : Nat) → {args : List Value} → (∀ v ∈ args, p v) →
    GoodSlots p (fillPositional n args)
  | 0, _, _ => by simp [fillPositional, GoodSlots]
  | n + 1, [], h => .cons (by simp) (good_fillPositional n h)
  | n + 1, v :: vs, h =>
    .cons (by simpa using h v List.mem_cons_self)
      (good_fillPositional n fun w hw => h w (List.mem_cons_of_mem v hw))

theorem fillKeywords_ok {names : List Name} {takesRest : Bool} {slots slots' : Slots}
    {extra extra' : NameMap} {keywords : Keywords}
    (h : fillKeywords names takesRest slots extra keywords = .ok (slots', extra'))
    (hs : GoodSlots p slots) (he : extra.All p) (hk : ∀ k ∈ keywords, p k.2) :
    slots'.length = slots.length ∧ GoodSlots p slots' ∧ extra'.All p := by
  induction keywords generalizing slots extra with
  | nil =>
    cases h
    exact ⟨rfl, hs, he⟩
  | cons k ks ih =>
    obtain ⟨name, value⟩ := k
    obtain ⟨hvalue, hks⟩ := List.forall_mem_cons.1 hk
    unfold fillKeywords at h
    split at h
    · rename_i i _
      split at h
      · cases h
      · have hset : GoodSlots p (slots.set i (some value)) := by
          intro slot hslot
          rcases List.mem_or_eq_of_mem_set hslot with hslot | rfl
          · exact hs slot hslot
          · simpa using hvalue
        have := ih h hset he hks
        rwa [List.length_set] at this
    · split at h
      · cases h
      · split at h
        · cases h
        · exact ih h hs (he.insert name hvalue) hks

theorem length_fillDefaults (slots : Slots) (defaults : List (Option Value)) :
    (fillDefaults slots defaults).length = slots.length := by
  induction slots generalizing defaults with
  | nil => rfl
  | cons slot slots ih =>
    cases defaults with
    | nil => rfl
    | cons d ds => rw [fillDefaults, List.length_cons, List.length_cons, ih]

theorem good_fillDefaults {slots : Slots} {defaults : List (Option Value)}
    (hs : GoodSlots p slots) (hd : GoodSlots p defaults) :
    GoodSlots p (fillDefaults slots defaults) := by
  induction slots generalizing defaults with
  | nil => exact hs
  | cons slot slots ih =>
    cases defaults with
    | nil => exact hs
    | cons d ds =>
      obtain ⟨hslot, hslots⟩ := List.forall_mem_cons.1 hs
      obtain ⟨hdefault, hdefaults⟩ := List.forall_mem_cons.1 hd
      refine .cons (fun v hv => ?_) (ih hslots hdefaults)
      rcases Option.or_eq_some_iff.1 hv with hv | ⟨-, hv⟩
      · exact hslot v hv
      · exact hdefault v hv

theorem good_alignDefaults (count : Nat) {defaults : List Value} (h : ∀ v ∈ defaults, p v) :
    GoodSlots p (alignDefaults count defaults) := by
  refine (GoodSlots.empty _).append fun slot hslot => ?_
  obtain ⟨v, hv, rfl⟩ := List.mem_map.1 hslot
  simpa using h v (List.mem_of_mem_take hv)

end Slots

namespace Likeness

open Exec

variable {L : Likeness} (hL : L.Lawful)

theorem agree_requireSlots {code : Code.Object} {count : Nat}
    (h : (∀ h, L.halt h) ∨ count ≤ code.varnames.size) :
    L.Agree (fun _ => count ≤ code.varnames.size) (requireSlots code count)
      (requireSlots code count) := by
  unfold requireSlots
  by_cases hcount : code.varnames.size < count
  · simp only [if_pos hcount]
    rcases h with h | h
    · exact follows_throw (h _)
    · omega
  · simp only [if_neg hcount]
    exact agree_pure (by omega)

include hL

theorem agree_requireFilled (function : Name) (what : String) (names : List Name)
    (slots : Slots) :
    L.Agree (fun _ => True) (requireFilled function what names slots)
      (requireFilled function what names slots) := by
  unfold requireFilled
  split
  · exact agree_pure trivial
  · exact agree_typeError hL _

theorem agree_refuseSurplus (code : Code.Object) (given : Nat) :
    L.Agree (fun _ => True) (refuseSurplus code given) (refuseSurplus code given) :=
  agree_ite (agree_typeError hL _) (agree_pure trivial)

omit hL in
theorem agree_surplus {code : Code.Object} {isTaken : Bool} {slots : Nat} {value : Exec Value}
    (h : (∀ h, L.halt h) ∨ (isTaken = true → slots ≤ code.varnames.size))
    (hv : L.Agree L.value value value) :
    L.Agree (fun v => v.toList.length = isTaken.toNat ∧ ∀ w ∈ v, L.value w)
      (surplus code isTaken slots value) (surplus code isTaken slots value) := by
  unfold surplus
  cases isTaken with
  | false => exact agree_pure (by simp)
  | true =>
    refine (agree_requireSlots (h.imp_right fun h => h rfl)).bind fun _ _ => ?_
    exact hv.bind fun v hv => agree_pure (by simpa using hv)

theorem agree_takeKeywords {code : Code.Object} {names : List Name} {slots : Slots}
    {keywords : Keywords}
    (h : (∀ h, L.halt h) ∨ code.argCount + code.keywordOnlyCount ≤ code.varnames.size)
    (hs : GoodSlots L.value slots) (hk : ∀ k ∈ keywords, L.value k.2) :
    L.Agree (fun r => r.1.length = slots.length ∧ GoodSlots L.value r.1 ∧ r.2.All L.value)
      (takeKeywords code names slots keywords) (takeKeywords code names slots keywords) := by
  unfold takeKeywords
  refine (agree_requireSlots (h.imp_right fun h => ?_)).bind fun _ _ => ?_
  · split <;> omega
  · cases htaken : fillKeywords names code.flags.takesRestKeywords slots .empty keywords with
    | error fault => exact agree_typeError hL _
    | ok taken => exact agree_pure (fillKeywords_ok htaken hs OrderedMap.all_empty hk)

/-- The slots of a call are those of the code, and what lies in them is good. -/
theorem agree_bindArguments {f : FunctionValue} {args : List Value} {keywords : Keywords}
    (h : (∀ h, L.halt h) ∨ f.code.object.paramCount ≤ f.code.object.varnames.size)
    (hd : ∀ v ∈ f.defaults, L.value v) (hk : f.keywordDefaults.All L.value)
    (ha : ∀ v ∈ args, L.value v) (hw : ∀ k ∈ keywords, L.value k.2) :
    L.Agree (fun fast => (f.code.object.paramCount ≤ f.code.object.varnames.size →
        fast.size = f.code.object.varnames.size) ∧ ∀ slot ∈ fast, ∀ v ∈ slot, L.value v)
      (bindArguments f args keywords) (bindArguments f args keywords) := by
  have hslots : ∀ {n : Nat}, n ≤ f.code.object.paramCount →
      (∀ h, L.halt h) ∨ n ≤ f.code.object.varnames.size :=
    fun hn => h.imp_right (Nat.le_trans hn)
  have hcount : f.code.object.paramCount = f.code.object.argCount +
      f.code.object.keywordOnlyCount + f.code.object.flags.takesRest.toNat +
      f.code.object.flags.takesRestKeywords.toNat := rfl
  unfold bindArguments
  refine (agree_requireSlots (hslots (by omega))).bind fun _ _ => ?_
  refine (agree_refuseSurplus hL _ _).bind fun _ _ => ?_
  refine (agree_surplus ?_ (agree_newTuple hL ?_)).bind fun rest hrest => ?_
  · refine h.imp_right fun h htaken => ?_
    rw [hcount, htaken] at h
    simp at h
    omega
  · exact fun v hv => ha v (List.mem_of_mem_drop hv)
  refine (agree_takeKeywords hL (hslots (by omega))
    (good_fillPositional _ fun v hv => ha v (List.mem_of_mem_take hv)) hw).bind
    fun taken htaken => ?_
  obtain ⟨slots, extra⟩ := taken
  obtain ⟨hlength, hgood, hextra⟩ := htaken
  rw [length_fillPositional] at hlength
  refine (agree_surplus (h.imp_right fun h _ => h) ?_).bind fun restKeywords hrestKeywords => ?_
  · exact (agree_dictOfNames hextra).bind fun m hm => agree_newDict hL hm
  refine (agree_requireSlots (hslots (by omega))).bind fun _ _ => ?_
  refine (agree_requireFilled hL _ _ _ _).bind fun _ _ => ?_
  refine (agree_requireSlots (hslots (by omega))).bind fun _ _ => ?_
  refine (agree_requireFilled hL _ _ _ _).bind fun _ _ => agree_pure ⟨fun hfit => ?_, ?_⟩
  · simp only [List.size_toArray, List.length_append, List.length_map, List.length_replicate,
      length_fillDefaults, List.length_take, List.length_drop, hrest.1, hrestKeywords.1, hlength]
    omega
  · have hpositional : GoodSlots L.value (fillDefaults (slots.take f.code.object.argCount)
        (alignDefaults f.code.object.argCount f.defaults)) :=
      good_fillDefaults (fun slot hslot => hgood slot (List.mem_of_mem_take hslot))
        (good_alignDefaults _ hd)
    have hkeywordOnly : ∀ names : List Name, GoodSlots L.value
        (fillDefaults ((slots.take (f.code.object.argCount +
          f.code.object.keywordOnlyCount)).drop f.code.object.argCount)
          (names.map f.keywordDefaults.get?)) := by
      refine fun names => good_fillDefaults (fun slot hslot => ?_) fun slot hslot => ?_
      · exact hgood slot (List.mem_of_mem_take (List.mem_of_mem_drop hslot))
      · obtain ⟨name, -, rfl⟩ := List.mem_map.1 hslot
        exact fun v hv => hk.get? hv
    have hrests : GoodSlots L.value ((rest.toList ++ restKeywords.toList).map some) := by
      intro slot hslot v hv
      obtain ⟨w, hw, rfl⟩ := List.mem_map.1 hslot
      cases hv
      rcases List.mem_append.1 hw with hw | hw
      · exact hrest.2 v (Option.mem_toList.1 hw)
      · exact hrestKeywords.2 v (Option.mem_toList.1 hw)
    intro slot hslot
    exact ((hpositional.append (hkeywordOnly _)).append hrests).append (.empty _) slot
      (List.mem_toArray.1 hslot)

/-- The frame of a body that has not run. -/
structure Fresh (L : Likeness) (c : LoadedCode) (closure : List CellRef) (g : Frame) : Prop where
  code : g.code = c
  stack : g.stack = []
  pc : g.pc = 0
  cells : g.cells.length = c.object.cellvars.length + closure.length
  slots : c.object.paramCount ≤ c.object.varnames.size → g.fast.size = c.object.varnames.size
  fast : ∀ slot ∈ g.fast, ∀ v ∈ slot, L.value v

omit hL in
theorem agree_makeFrame {c : LoadedCode} {globals : SpaceRef} {fast : Array (Option Value)}
    {closure : List CellRef} {classSpace : Option SpaceRef}
    (hsize : c.object.paramCount ≤ c.object.varnames.size → fast.size = c.object.varnames.size)
    (hfast : ∀ slot ∈ fast, ∀ v ∈ slot, L.value v) :
    L.Agree (L.Fresh c closure) (Frame.make c globals fast closure classSpace)
      (Frame.make c globals fast closure classSpace) := by
  unfold Frame.make
  refine (agree_mapM fun _ _ => agree_newCell (by simp)).bind fun own hown => ?_
  refine agree_fresh.bind fun id _ => agree_pure ⟨rfl, rfl, rfl, ?_, hsize, hfast⟩
  rw [List.length_append, hown.1]

omit hL in
theorem agree_moveToCells (cells : List CellRef) {fast : Array (Option Value)}
    (hfast : ∀ slot ∈ fast, ∀ v ∈ slot, L.value v) (moved : List (Nat × Nat)) :
    L.Agree (fun moved => moved.size = fast.size ∧ ∀ slot ∈ moved, ∀ v ∈ slot, L.value v)
      (moveToCells cells fast moved) (moveToCells cells fast moved) := by
  induction moved generalizing fast with
  | nil => exact agree_pure ⟨rfl, hfast⟩
  | cons m moved ih =>
    obtain ⟨cell, slot⟩ := m
    have hrest : ∀ s ∈ fast.setIfInBounds slot none, ∀ v ∈ s, L.value v :=
      setIfInBounds_all (p := fun s : Option Value => ∀ v ∈ s, L.value v) hfast slot (by simp)
    have hmoved := ih hrest
    rw [Array.size_setIfInBounds] at hmoved
    unfold moveToCells
    dsimp only
    split
    · rename_i r value _ hvalue
      obtain ⟨o, ho, hv⟩ := Option.bind_eq_some_iff.1 hvalue
      exact (agree_setCell r (hfast _ (Array.mem_of_getElem? ho) value hv)).bind fun _ _ => hmoved
    · exact hmoved

theorem agree_enterFunction {f : FunctionValue} {args : List Value} {keywords : Keywords}
    (h : (∀ h, L.halt h) ∨ f.code.object.paramCount ≤ f.code.object.varnames.size)
    (hd : ∀ v ∈ f.defaults, L.value v) (hk : f.keywordDefaults.All L.value)
    (ha : ∀ v ∈ args, L.value v) (hw : ∀ k ∈ keywords, L.value k.2) :
    L.Agree (L.Fresh f.code f.closure) (enterFunction f args keywords)
      (enterFunction f args keywords) := by
  unfold enterFunction
  refine (agree_bindArguments hL h hd hk ha hw).bind fun fast hfast => ?_
  refine (agree_makeFrame hfast.1 hfast.2).bind fun g hg => ?_
  refine (agree_moveToCells g.cells hfast.2 _).bind fun moved hmoved => agree_pure ?_
  exact ⟨hg.code, hg.stack, hg.pc, hg.cells, fun hfit => hmoved.1.trans (hfast.1 hfit), hmoved.2⟩

omit hL in
theorem agree_enterClassBody (f : FunctionValue) (space : SpaceRef) :
    L.Agree (L.Fresh f.code f.closure) (enterClassBody f space) (enterClassBody f space) := by
  refine agree_makeFrame (fun _ => ?_) fun slot hslot => ?_
  · simp [emptySlots]
  · simp only [emptySlots, Array.mem_replicate] at hslot
    simp [hslot.2]

end Likeness

end Lexiscope.Machine
