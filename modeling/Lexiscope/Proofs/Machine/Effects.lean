import Lexiscope.Proofs.Code.Layout
import Lexiscope.Proofs.Machine.Running
/-!
# What one instruction does

Every instruction takes a number of operands from the stack that depends only on itself, and
leaves the rest of the stack as it was. What it does beside that does not depend on which code
object it stands in, as long as the pools are the same.
-/

namespace Lexiscope.Machine

open Code (Instr FunctionParts)
open Exec

def LoadedCode.Loads (c : LoadedCode) (i : Nat) : Code.Constant Code.Object → Value → Prop
  | .code object, v => v = .code (c.inner i object)
  | .names names, v => ∃ id items, v = .tuple id items ∧ items.length = names.length ∧
      ∀ item ∈ items, ∃ s, item = .str s
  | _, v => v.isPlain = true

/-- A part of a function lies on top of the stack if it is there. -/
def OnTop (present : Bool) (part : Value → Prop) (before after : List Value) : Prop :=
  if present then ∃ v, before = v :: after ∧ part v else before = after

/-- The parts of a function lie below its code in this order: the closure, the defaults of
keyword-only parameters, the defaults of the others. -/
def PartsLie (parts : FunctionParts) (closure : List CellRef) (before after : List Value) :
    Prop :=
  ∃ s t, OnTop parts.closure (fun v => ∃ id, v = .tuple id (closure.map .cell)) before s ∧
    (parts.closure = false → closure = []) ∧
    OnTop parts.keywordDefaults (fun v => ∃ r, v = .dict r) s t ∧
    OnTop parts.defaults (fun v => ∃ id items, v = .tuple id items) t after

theorem OnTop.mono {present : Bool} {p q : Value → Prop} {before after : List Value}
    (h : OnTop present p before after) (hpq : ∀ v, p v → q v) :
    OnTop present q before after := by
  cases present with
  | false => exact h
  | true =>
    obtain ⟨v, hv, hp⟩ := h
    exact ⟨v, hv, hpq v hp⟩

theorem OnTop.unique {present : Bool} {p q : Value → Prop} {before after after' : List Value}
    (h : OnTop present p before after) (h' : OnTop present q before after') :
    after' = after := by
  cases present with
  | false => exact h'.symm.trans h
  | true =>
    obtain ⟨v, hv, -⟩ := h
    obtain ⟨w, hw, -⟩ := h'
    rw [hv] at hw
    exact (List.cons.inj hw).2.symm

theorem OnTop.elim {present : Bool} {p : Value → Prop} {before after : List Value}
    {goal : Prop} (h : OnTop present p before after) (habsent : present = false → goal)
    (hpresent : ∀ v, p v → goal) : goal := by
  cases present with
  | false => exact habsent rfl
  | true =>
    obtain ⟨v, -, hv⟩ := h
    exact hpresent v hv

theorem OnTop.taken {present : Bool} {p : Value → Prop} {before after : List Value}
    (h : OnTop present p before after) :
    ∃ taken, before = taken ++ after ∧ taken.length = present.toNat ∧
      ∀ rest, OnTop present p (taken ++ rest) rest := by
  cases present with
  | false => exact ⟨[], h, rfl, fun _ => rfl⟩
  | true =>
    obtain ⟨v, rfl, hp⟩ := h
    exact ⟨[v], rfl, rfl, fun rest => ⟨v, rfl, hp⟩⟩

theorem PartsLie.taken {parts : FunctionParts} {closure : List CellRef}
    {before after : List Value} (h : PartsLie parts closure before after) :
    ∃ taken, before = taken ++ after ∧ taken.length = parts.count ∧
      ∀ rest, PartsLie parts closure (taken ++ rest) rest := by
  obtain ⟨s, t, hclosure, hempty, hkeyword, hdefaults⟩ := h
  obtain ⟨cells, rfl, hcells, hc⟩ := hclosure.taken
  obtain ⟨keyword, rfl, hlength, hk⟩ := hkeyword.taken
  obtain ⟨positional, rfl, hlength', hd⟩ := hdefaults.taken
  refine ⟨cells ++ (keyword ++ positional), by simp, ?_, fun rest => ?_⟩
  · simp only [List.length_append, hcells, hlength, hlength', FunctionParts.count]
    omega
  · refine ⟨keyword ++ (positional ++ rest), positional ++ rest, ?_, hempty, hk _, hd _⟩
    simpa only [List.append_assoc] using hc (keyword ++ (positional ++ rest))

/-- The operands of an instruction are of the right sort, and its index lies in its pool. -/
def Frame.Suits (f : Frame) (taken : List Value) : Instr → Prop
  | .loadConst i => i < f.code.object.constants.size
  | .loadFast i => i < f.fast.size ∧ i < f.code.object.varnames.size
  | .storeFast i => i < f.fast.size
  | .loadDeref i | .loadClassDeref i =>
    i < f.cells.length ∧ i < f.code.object.derefNames.length
  | .storeDeref i | .loadClosure i => i < f.cells.length
  | .loadGlobal i | .storeGlobal i | .loadName i | .storeName i | .loadAttr i | .storeAttr i =>
    i < f.code.object.names.size
  | .callKw n => ∃ id items rest, taken = .tuple id items :: rest ∧ items.length ≤ n ∧
      ∀ item ∈ items, ∃ s, item = .str s
  | .makeFunction bits => ∃ code closure rest, taken = .code code :: rest ∧
      PartsLie (.ofBits bits) closure rest []
  | _ => True

/-- What an instruction does to a frame whose operands have been taken. -/
def Likeness.Does (L : Likeness) (f : Frame) (taken : List Value) : Instr → Action → Prop
  | .loadConst i, a => ∃ k v, f.code.object.constants[i]? = some k ∧ f.code.Loads i k v ∧
      a = .next (f.push v)
  | .loadClosure _, a => ∃ r, a = .next (f.push (.cell r))
  | .storeFast i, a => ∃ v, taken = [v] ∧
      a = .next { f with fast := f.fast.setIfInBounds i (some v) }
  | .storeDeref _, a | .storeGlobal _, a | .storeName _, a | .storeAttr _, a
  | .storeSubscript, a | .pop, a => a = .next f
  | .buildTuple _, a => ∃ id, a = .next (f.push (.tuple id taken.reverse))
  | .buildDict _, a => ∃ r, a = .next (f.push (.dict r))
  | .unpackSequence n, a => ∃ v, taken = [v] ∧ a = .unpack v n f
  | .call _, a | .callKw _, a => ∃ callee args keywords, L.value callee ∧
      (∀ v ∈ args, L.value v) ∧ (∀ k ∈ keywords, L.value k.2) ∧
      a = .invoke callee args keywords f
  | .makeFunction bits, a => ∃ id code closure keywordDefaults defaults rest,
      taken = .code code :: rest ∧ PartsLie (.ofBits bits) closure rest [] ∧
      (∀ v ∈ defaults, L.value v) ∧ keywordDefaults.All L.value ∧
      a = .next (f.push (.function
        ⟨id, code, f.globals, defaults, keywordDefaults, closure⟩))
  | .jump t, a => a = .next (f.jump t)
  | .jumpForward n, a => a = .next (f.jump (f.pc + n))
  | .jumpIfFalse t, a | .jumpIfTrue t, a => a = .next f ∨ a = .next (f.jump t)
  | .jumpIfFalseOrPop t, a | .jumpIfTrueOrPop t, a =>
    a = .next f ∨ ∃ v, taken = [v] ∧ a = .next ((f.push v).jump t)
  | .forIter t, a => ∃ v, taken = [v] ∧ a = .advance v t (f.push v)
  | .dup, a => ∃ v, taken = [v] ∧ a = .next ((f.push v).push v)
  | .dupTwo, a => a = .next { f with stack := taken ++ taken ++ f.stack }
  | .rot2, a => ∃ v w, taken = [v, w] ∧ a = .next ((f.push v).push w)
  | .rot3, a => ∃ u v w, taken = [u, v, w] ∧ a = .next (((f.push u).push w).push v)
  | .yieldValue, a => ∃ v, taken = [v] ∧ a = .yielded v f
  | .returnValue, a => ∃ v, taken = [v] ∧ a = .returned v f
  | .await, _ | .raise, _ | .raiseAssert, _ => False
  | _, a => ∃ v, L.value v ∧ a = .next (f.push v)

def Frame.drop (f : Frame) (n : Nat) : Frame := { f with stack := f.stack.drop n }

/-- What an instruction does to a frame, whose operands lie on the stack. -/
def Likeness.Performs (L : Likeness) (f : Frame) (i : Instr) (a : Action) : Prop :=
  i.takes ≤ f.stack.length ∧ L.Does (f.drop i.takes) (f.stack.take i.takes) i a

/-- Two code objects have the same pools, apart from the constants. -/
structure LoadedCode.SamePools (c d : LoadedCode) : Prop where
  pool : d.pool = c.pool
  qualname : d.object.qualname = c.object.qualname
  names : d.object.names = c.object.names
  varnames : d.object.varnames = c.object.varnames
  cellvars : d.object.cellvars = c.object.cellvars
  freevars : d.object.freevars = c.object.freevars

theorem LoadedCode.SamePools.refl (c : LoadedCode) : c.SamePools c :=
  ⟨rfl, rfl, rfl, rfl, rfl, rfl⟩

theorem LoadedCode.SamePools.symm {c d : LoadedCode} (h : c.SamePools d) : d.SamePools c :=
  ⟨h.pool.symm, h.qualname.symm, h.names.symm, h.varnames.symm, h.cellvars.symm,
    h.freevars.symm⟩

/-- What lies in a frame is good. -/
structure Likeness.Holds (L : Likeness) (f : Frame) : Prop where
  stack : ∀ v ∈ f.stack, L.value v
  fast : ∀ slot ∈ f.fast, ∀ v ∈ slot, L.value v

namespace Likeness

variable {L : Likeness} {f : Frame} {c : LoadedCode} {γ δ : Type} {q : γ → δ → Prop}

section Stack

theorem follows_pop {k : Value × Frame → Exec γ} {k' : Value × Frame → Exec δ}
    (h : (∀ h, L.halt h) ∨ 1 ≤ f.stack.length)
    (hgo : ∀ v rest, f.stack = v :: rest →
      L.Follows q (k (v, { f with stack := rest }))
        (k' (v, { f with stack := rest, code := c }))) :
    L.Follows q (f.pop >>= k) ((f.withCode c).pop >>= k') := by
  cases hs : f.stack with
  | nil =>
    simp only [Frame.pop, Frame.withCode, hs]
    rcases h with h | h
    · exact Agree.bind (p := fun _ => False) (follows_throw (h _)) fun _ h => h.elim
    · simp [hs] at h
  | cons v rest =>
    simp only [Frame.pop, Frame.withCode, hs]
    exact hgo v rest hs

theorem follows_popMany {n : Nat} {k : List Value × Frame → Exec γ}
    {k' : List Value × Frame → Exec δ} (h : (∀ h, L.halt h) ∨ n ≤ f.stack.length)
    (hgo : n ≤ f.stack.length →
      L.Follows q (k ((f.stack.take n).reverse, f.drop n))
        (k' ((f.stack.take n).reverse, (f.drop n).withCode c))) :
    L.Follows q (f.popMany n >>= k) ((f.withCode c).popMany n >>= k') := by
  by_cases hless : f.stack.length < n
  · have hf : f.popMany n = Frame.underflow := if_pos hless
    have hc : (f.withCode c).popMany n = Frame.underflow := if_pos hless
    rw [hf, hc]
    rcases h with h | h
    · exact Agree.bind (p := fun _ => False) (follows_throw (h _)) fun _ h => h.elim
    · omega
  · have hf : f.popMany n = pure ((f.stack.take n).reverse, f.drop n) := if_neg hless
    have hc : (f.withCode c).popMany n =
        pure ((f.stack.take n).reverse, (f.drop n).withCode c) := if_neg hless
    rw [hf, hc]
    exact hgo (by omega)

theorem follows_top {k : Value → Exec γ} {k' : Value → Exec δ}
    (h : (∀ h, L.halt h) ∨ 1 ≤ f.stack.length)
    (hgo : ∀ v rest, f.stack = v :: rest → L.Follows q (k v) (k' v)) :
    L.Follows q (f.top >>= k) ((f.withCode c).top >>= k') := by
  cases hs : f.stack with
  | nil =>
    simp only [Frame.top, Frame.withCode, hs]
    rcases h with h | h
    · exact Agree.bind (p := fun _ => False) (follows_throw (h _)) fun _ h => h.elim
    · simp [hs] at h
  | cons v rest =>
    simp only [Frame.top, Frame.withCode, hs]
    exact hgo v rest hs

/-- The second action is the first with other code, and the first is as it should be. -/
abbrev Same (c : LoadedCode) (P : Action → Prop) (a b : Action) : Prop :=
  b = a.withCode c ∧ P a

variable {P : Action → Prop} {p : Value → Prop}

theorem follows_next (h : P (.next f)) :
    L.Follows (Same c P) (pure (.next f)) (pure (.next (f.withCode c))) :=
  follows_pure ⟨rfl, h⟩

theorem follows_pushed {x y : Exec Value} (hx : L.Agree p x y)
    (h : ∀ v, p v → P (.next (f.push v))) :
    L.Follows (Same c P) (f.pushed x) ((f.withCode c).pushed y) :=
  hx.bind fun v hv => follows_next (f := f.push v) (h v hv)

theorem follows_replace1 {operation : Value → Exec Value}
    (h : (∀ h, L.halt h) ∨ 1 ≤ f.stack.length)
    (ho : ∀ v rest, f.stack = v :: rest → L.Agree p (operation v) (operation v))
    (hP : ∀ v rest w, f.stack = v :: rest → p w → P (.next ({ f with stack := rest }.push w))) :
    L.Follows (Same c P) (f.replace1 operation) ((f.withCode c).replace1 operation) :=
  follows_pop h fun v rest hs =>
    follows_pushed (f := { f with stack := rest }) (ho v rest hs) fun w hw => hP v rest w hs hw

theorem follows_replace2 {operation : Value → Value → Exec Value}
    (h : (∀ h, L.halt h) ∨ 2 ≤ f.stack.length)
    (ho : ∀ v w rest, f.stack = w :: v :: rest → L.Agree p (operation v w) (operation v w))
    (hP : ∀ v w rest x, f.stack = w :: v :: rest → p x →
      P (.next ({ f with stack := rest }.push x))) :
    L.Follows (Same c P) (f.replace2 operation) ((f.withCode c).replace2 operation) := by
  refine follows_pop (h.imp_right (by omega)) fun w stack hs => ?_
  refine follows_pop (f := { f with stack }) (c := c) ?_ fun v rest hs' => ?_
  · exact h.imp_right fun h => by simpa [hs] using h
  · obtain rfl : stack = v :: rest := hs'
    exact follows_pushed (f := { f with stack := rest }) (ho v w rest hs) fun x hx =>
      hP v w rest x hs hx

end Stack

section Reads

variable (hL : L.Lawful) (hc : f.code.SamePools c)

include hc

theorem agree_name {i : Nat} (h : (∀ h, L.halt h) ∨ i < f.code.object.names.size) :
    L.Agree (fun _ => True) (f.name i) ((f.withCode c).name i) := by
  simp only [Frame.name, Frame.withCode, hc.names]
  cases hi : f.code.object.names[i]? with
  | some name => exact agree_pure trivial
  | none =>
    rcases h with h | h
    · exact follows_throw (h _)
    · simp at hi
      omega

omit hc in
theorem agree_cell {i : Nat} (h : (∀ h, L.halt h) ∨ i < f.cells.length) :
    L.Agree (fun _ => True) (f.cell i) ((f.withCode c).cell i) := by
  simp only [Frame.cell, Frame.withCode]
  cases hi : f.cells[i]? with
  | some r => exact agree_pure trivial
  | none =>
    rcases h with h | h
    · exact follows_throw (h _)
    · rw [List.getElem?_eq_none_iff] at hi
      omega

theorem agree_derefName {i : Nat}
    (h : (∀ h, L.halt h) ∨ i < f.code.object.derefNames.length) :
    L.Agree (fun _ => True) (f.derefName i) ((f.withCode c).derefName i) := by
  simp only [Frame.derefName, Frame.withCode, Code.Object.derefName?, Code.Object.derefNames,
    hc.cellvars, hc.freevars] at h ⊢
  cases hi : (f.code.object.cellvars ++ f.code.object.freevars)[i]? with
  | some name => exact agree_pure trivial
  | none =>
    rcases h with h | h
    · exact follows_throw (h _)
    · rw [List.getElem?_eq_none_iff] at hi
      omega

theorem agree_constant {i : Nat}
    (hconst : c.object.constants[i]? = f.code.object.constants[i]?)
    (h : (∀ h, L.halt h) ∨ i < f.code.object.constants.size) :
    L.Agree (fun v => ∃ k, f.code.object.constants[i]? = some k ∧ f.code.Loads i k v)
      (f.constant i) ((f.withCode c).constant i) := by
  simp only [Frame.constant, Frame.withCode, LoadedCode.inner, hc.pool, hconst]
  cases hi : f.code.object.constants[i]? with
  | none =>
    rcases h with h | h
    · exact follows_throw (h _)
    · simp at hi
      omega
  | some k =>
    cases k with
    | code object => exact agree_pure ⟨_, rfl, rfl⟩
    | names names =>
      have htexts : L.Agree (fun items => items.length = names.length ∧
          ∀ item ∈ items, ∃ s, item = .str s) (names.mapM newStr) (names.mapM newStr) :=
        agree_mapM fun text _ => agree_freshIdentity.bind fun _ _ => agree_pure ⟨_, rfl⟩
      refine htexts.bind fun items hitems => agree_freshIdentity.bind fun id _ => ?_
      exact agree_pure ⟨_, rfl, id, items, rfl, hitems⟩
    | _ => exact agree_pure ⟨_, rfl, rfl⟩

include hL

theorem agree_loadFast (hf : L.Holds f) {i : Nat}
    (h : (∀ h, L.halt h) ∨ i < f.fast.size ∧ i < f.code.object.varnames.size) :
    L.Agree L.value (f.loadFast i) ((f.withCode c).loadFast i) := by
  simp only [Frame.loadFast, Frame.withCode, hc.varnames]
  cases hi : f.fast[i]? with
  | none =>
    rcases h with h | h
    · exact follows_throw (h _)
    · simp at hi
      omega
  | some slot =>
    cases slot with
    | some v => exact agree_pure (hf.fast _ (Array.mem_of_getElem? hi) v rfl)
    | none =>
      cases hname : f.code.object.varnames[i]? with
      | some name => exact follows_throw (hL.halt _ rfl)
      | none =>
        rcases h with h | h
        · exact follows_throw (h _)
        · simp at hname
          omega

theorem agree_loadDeref {i : Nat}
    (h : (∀ h, L.halt h) ∨ i < f.cells.length ∧ i < f.code.object.derefNames.length) :
    L.Agree L.value (f.loadDeref i) ((f.withCode c).loadDeref i) := by
  unfold Frame.loadDeref
  refine follows_get fun s t hst => ?_
  refine (agree_cell (h.imp_right And.left)).bind fun r _ => ?_
  rw [hst.cell]
  cases hcell : s.cell r with
  | some v => exact agree_pure (hst.values.cell r v hcell)
  | none =>
    refine (agree_derefName hc (h.imp_right And.right)).bind fun name _ => ?_
    simp only [Code.Object.isFreeSlot, Code.Object.derefNames, Frame.withCode, hc.cellvars,
      hc.freevars]
    exact agree_ite (agree_raise hL _ _) (follows_throw (hL.halt _ rfl))

omit hc in
theorem all_builtinNames : builtinNames.All L.value := by
  refine OrderedMap.all_ofList fun e he => ?_
  simp only [List.mem_append, List.mem_map] at he
  rcases he with ⟨b, -, rfl⟩ | ⟨k, -, rfl⟩
  · exact hL.plain _ rfl
  · exact hL.plain _ rfl

omit hc in
theorem good_global {s t : Store} (h : L.Alike s t) {globals : SpaceRef} {name : Name}
    {v : Value} (hv : s.global globals name = some v) : L.value v := by
  rcases Option.or_eq_some_iff.1 hv with hv | ⟨-, hv⟩
  · exact h.values.lookup hv
  · exact (all_builtinNames hL).get? hv

omit hc in
theorem agree_undefinedName {α : Type} {p : α → Prop} (name : Name) :
    L.Agree p (undefinedName name) (undefinedName name) :=
  agree_raise hL _ _

theorem agree_loadGlobal {i : Nat} (h : (∀ h, L.halt h) ∨ i < f.code.object.names.size) :
    L.Agree L.value (f.loadGlobal i) ((f.withCode c).loadGlobal i) := by
  unfold Frame.loadGlobal
  refine (agree_name hc h).bind fun name _ => follows_get fun s t hst => ?_
  simp only [Store.global, hst.lookup, Frame.withCode]
  split
  · rename_i v hv
    exact agree_pure (good_global hL hst hv)
  · exact agree_undefinedName hL name

omit hc hL in
theorem classValue_alike {s t : Store} (hst : L.Alike s t) (name : Name) :
    (f.withCode c).classValue? t name = f.classValue? s name := by
  simp only [Frame.classValue?, Frame.withCode, hst.lookup]

omit hc hL in
theorem good_classValue {s t : Store} (hst : L.Alike s t) {name : Name} {v : Value}
    (hv : f.classValue? s name = some v) : L.value v := by
  obtain ⟨space, -, hlookup⟩ := Option.bind_eq_some_iff.1 hv
  exact hst.values.lookup hlookup

theorem agree_loadName {i : Nat} (h : (∀ h, L.halt h) ∨ i < f.code.object.names.size) :
    L.Agree L.value (f.loadName i) ((f.withCode c).loadName i) := by
  unfold Frame.loadName
  refine (agree_name hc h).bind fun name _ => follows_get fun s t hst => ?_
  simp only [classValue_alike hst, Store.global, hst.lookup]
  simp only [Frame.withCode]
  split
  · rename_i v hv
    rcases Option.or_eq_some_iff.1 hv with hv | ⟨-, hv⟩
    · exact agree_pure (good_classValue hst hv)
    · exact agree_pure (good_global hL hst hv)
  · exact agree_undefinedName hL name

theorem agree_loadClassDeref {i : Nat}
    (h : (∀ h, L.halt h) ∨ i < f.cells.length ∧ i < f.code.object.derefNames.length) :
    L.Agree L.value (f.loadClassDeref i) ((f.withCode c).loadClassDeref i) := by
  unfold Frame.loadClassDeref
  refine follows_get fun s t hst => ?_
  refine (agree_derefName hc (h.imp_right And.right)).bind fun name _ => ?_
  rw [classValue_alike hst]
  cases hentry : f.classValue? s name with
  | some v => exact agree_pure (good_classValue hst hentry)
  | none => exact agree_loadDeref hL hc h

end Reads

section Calls

variable (hL : L.Lawful) {P : Action → Prop}

theorem locals_alike (hc : f.code.SamePools c) {s t : Store} (h : L.Alike s t) :
    (f.withCode c).locals t = f.locals s := by
  have hcell : t.cell = s.cell := funext h.cell
  simp only [Frame.locals, Frame.withCode, Code.Object.derefNames, hc.varnames, hc.cellvars,
    hc.freevars, h.space, hcell]

theorem good_locals (hf : L.Holds f) {s t : Store} (h : L.Alike s t) :
    (f.locals s).All L.value := by
  unfold Frame.locals
  split
  · exact h.values.space _
  · refine OrderedMap.all_ofList fun e he => ?_
    rcases List.mem_append.1 he with he | he
    · obtain ⟨p, hp, hv⟩ := List.mem_filterMap.1 he
      obtain ⟨v, hslot, rfl⟩ := Option.map_eq_some_iff.1 hv
      exact hf.fast p.2 (by simpa using (List.of_mem_zip hp).2) v hslot
    · obtain ⟨p, -, hv⟩ := List.mem_filterMap.1 he
      obtain ⟨v, hcell, rfl⟩ := Option.map_eq_some_iff.1 hv
      exact h.values.cell p.2 v hcell

theorem agree_keywordNames {v : Value} {n : Nat}
    (h : (∀ h, L.halt h) ∨ ∃ id items, v = .tuple id items ∧ items.length ≤ n ∧
      ∀ item ∈ items, ∃ s, item = .str s) :
    L.Agree (fun names => (∀ h, L.halt h) ∨ names.length ≤ n) (keywordNames v)
      (keywordNames v) := by
  unfold keywordNames
  rcases h with h | ⟨id, items, rfl, hlength, htexts⟩
  · cases v.tuple? with
    | none => exact follows_throw (h _)
    | some items =>
      refine Agree.mono (agree_mapM (p := fun _ => True) fun item _ => ?_) fun _ _ => .inl h
      cases item.text? with
      | some name => exact agree_pure trivial
      | none => exact follows_throw (h _)
  · refine Agree.mono (agree_mapM (p := fun _ => True) fun item hi => ?_)
      fun names hnames => .inr (hnames.1 ▸ hlength)
    obtain ⟨s, rfl⟩ := htexts item hi
    exact agree_pure trivial

theorem follows_keywordCall (hf : L.Holds f) {n : Nat}
    (h : (∀ h, L.halt h) ∨ n + 2 ≤ f.stack.length ∧ f.Suits (f.stack.take (n + 2)) (.callKw n))
    (hP : ∀ callee args keywords, n + 2 ≤ f.stack.length → L.value callee →
      (∀ v ∈ args, L.value v) → (∀ k ∈ keywords, L.value k.2) →
      P (.invoke callee args keywords (f.drop (n + 2)))) :
    L.Follows (Same c P) (keywordCall f n) (keywordCall (f.withCode c) n) := by
  unfold keywordCall
  refine follows_pop (h.imp_right fun h => by omega) fun top stack hs => ?_
  have htop : (∀ h, L.halt h) ∨ ∃ id items, top = .tuple id items ∧ items.length ≤ n ∧
      ∀ item ∈ items, ∃ s, item = .str s := by
    refine h.imp_right fun h => ?_
    obtain ⟨-, id, items, rest, htaken, hitems⟩ := h
    rw [hs, List.take_succ_cons, List.cons.injEq] at htaken
    exact ⟨id, items, htaken.1, hitems⟩
  refine (agree_keywordNames htop).bind fun names hnames => ?_
  have hlong : (∀ h, L.halt h) ∨ n + 1 ≤ stack.length := by
    refine h.imp_right fun h => ?_
    have := h.1
    simp only [hs, List.length_cons] at this
    omega
  refine follows_popMany (f := { f with stack }) (c := c) (hlong.imp_right Nat.le_of_succ_le)
    fun hn => ?_
  have hlength : (List.take n stack).reverse.length = n := by
    rw [List.length_reverse, List.length_take, Nat.min_eq_left hn]
  dsimp only
  split
  · rename_i hless
    rcases hnames with hnames | hnames
    · exact Agree.bind (p := fun _ => False) (follows_throw (hnames _)) fun _ h => h.elim
    · omega
  refine follows_pop (f := ({ f with stack } : Frame).drop n) ?_ fun callee rest hrest => ?_
  · refine hlong.imp_right fun h => ?_
    simp only [Frame.drop, List.length_drop]
    omega
  have hstack : f.stack = top :: (stack.take n ++ callee :: rest) := by
    rw [hs, ← hrest]
    simp only [Frame.drop, List.take_append_drop]
  -- The operands were taken in three goes. Together they are the top of the stack.
  have hdrop : f.drop (n + 2) = { f with stack := rest } := by
    simp only [Frame.drop, hs, List.drop_succ_cons]
    have : List.drop (n + 1) stack = (List.drop n stack).drop 1 := by
      rw [List.drop_drop]
    rw [this]
    simp only [Frame.drop] at hrest
    rw [hrest]
    rfl
  have hgood : ∀ v ∈ (List.take n stack).reverse, L.value v := by
    intro v hv
    refine hf.stack v ?_
    rw [hs]
    exact List.mem_cons_of_mem top (List.mem_of_mem_take (List.mem_reverse.1 hv))
  refine follows_pure ⟨rfl, ?_⟩
  have hinvoke := hP callee
    ((List.take n stack).reverse.take ((List.take n stack).reverse.length - names.length))
    (names.zip ((List.take n stack).reverse.drop
      ((List.take n stack).reverse.length - names.length))) ?_ ?_ ?_ ?_
  · rw [hdrop] at hinvoke
    exact hinvoke
  · rw [hstack]
    have : (List.take n stack).length = n := by simpa using hlength
    simp only [List.length_cons, List.length_append, this]
    omega
  · refine hf.stack callee ?_
    rw [hstack]
    simp
  · exact fun v hv => hgood v (List.mem_of_mem_take hv)
  · intro k hk
    exact hgood k.2 (List.mem_of_mem_drop (List.of_mem_zip hk).2)

theorem follows_takePart {α : Type} {present : Bool} {absent : α} {read : Value → Exec α}
    {p : Value → Prop} {m : Value → α → Prop} {k : α × Frame → Exec γ}
    {k' : α × Frame → Exec δ} (h : (∀ h, L.halt h) ∨ ∃ after, OnTop present p f.stack after)
    (hread : ∀ v rest, f.stack = v :: rest → (∀ h, L.halt h) ∨ p v →
      L.Agree (m v) (read v) (read v))
    (hgo : ∀ a rest, OnTop present (m · a) f.stack rest → (present = false → a = absent) →
      L.Follows q (k (a, { f with stack := rest })) (k' (a, { f with stack := rest, code := c }))) :
    L.Follows q (takePart present absent read f >>= k)
      (takePart present absent read (f.withCode c) >>= k') := by
  unfold takePart
  cases present with
  | false => exact hgo absent f.stack rfl fun _ => rfl
  | true =>
    simp only [if_true, bind_assoc]
    refine follows_pop ?_ fun v rest hs => ?_
    · refine h.imp_right ?_
      rintro ⟨_, v, hs, -⟩
      simp [hs]
    · refine (hread v rest hs (h.imp_right ?_)).bind fun a ha => ?_
      · rintro ⟨_, w, hs', hw⟩
        rw [hs] at hs'
        cases hs'
        exact hw
      · exact hgo a rest ⟨v, hs, ha⟩ (by simp)

theorem agree_closureCells {v : Value}
    (h : (∀ h, L.halt h) ∨ ∃ id, ∃ cells : List CellRef, v = .tuple id (cells.map .cell)) :
    L.Agree (fun cells => ∃ id, v = .tuple id (cells.map .cell)) (closureCells v)
      (closureCells v) := by
  unfold closureCells
  cases v with
  | tuple id items =>
    refine Agree.mono (agree_mapM_preimage (m := Value.cell) fun item hitem => ?_)
      fun cells hcells => ⟨id, by rw [hcells]⟩
    have hcell : (∀ h, L.halt h) ∨ ∃ r, item = .cell r := by
      refine h.imp_right ?_
      rintro ⟨_, cells, heq⟩
      cases heq
      obtain ⟨r, -, rfl⟩ := List.mem_map.1 hitem
      exact ⟨r, rfl⟩
    cases item with
    | cell r => exact agree_pure rfl
    | _ =>
      rcases hcell with h | ⟨r, hr⟩
      · exact follows_throw (h _)
      · cases hr
  | _ =>
    rcases h with h | ⟨id, cells, heq⟩
    · exact follows_throw (h _)
    · cases heq

theorem agree_keywordDefaultsOf {v : Value} (h : (∀ h, L.halt h) ∨ ∃ r, v = .dict r) :
    L.Agree (fun m => (∃ r, v = .dict r) ∧ m.All L.value) (keywordDefaultsOf v)
      (keywordDefaultsOf v) := by
  unfold keywordDefaultsOf
  cases v with
  | dict r =>
    refine follows_get fun s t hst => ?_
    rw [hst.dict]
    refine agree_pure ⟨⟨r, rfl⟩, OrderedMap.all_ofList fun e he => ?_⟩
    obtain ⟨entry, hentry, heq⟩ := List.mem_filterMap.1 he
    have hvalue := hst.values.dict r entry hentry
    split at heq
    · cases heq
      exact hvalue
    · cases heq
  | _ =>
    rcases h with h | ⟨r, hr⟩
    · exact follows_throw (h _)
    · cases hr

include hL in
theorem agree_defaultsOf {v : Value} (hv : L.value v)
    (h : (∀ h, L.halt h) ∨ ∃ id items, v = .tuple id items) :
    L.Agree (fun items => (∃ id, v = .tuple id items) ∧ ∀ w ∈ items, L.value w) (defaultsOf v)
      (defaultsOf v) := by
  unfold defaultsOf
  cases v with
  | tuple id items => exact agree_pure ⟨⟨id, rfl⟩, (hL.tuple _ _).1 hv⟩
  | _ =>
    rcases h with h | ⟨id, items, hi⟩
    · exact follows_throw (h _)
    · cases hi

theorem follows_makeFunction (hL : L.Lawful) (hf : L.Holds f) {bits : Nat}
    (h : (∀ h, L.halt h) ∨
      f.Suits (f.stack.take (Instr.makeFunction bits).takes) (.makeFunction bits))
    (hP : ∀ id code closure keywordDefaults defaults before rest,
      f.stack = .code code :: before → PartsLie (.ofBits bits) closure before rest →
      (∀ v ∈ defaults, L.value v) → keywordDefaults.All L.value →
      P (.next ({ f with stack := rest }.push (.function
        ⟨id, code, f.globals, defaults, keywordDefaults, closure⟩)))) :
    L.Follows (Same c P) (makeFunction (.ofBits bits) f)
      (makeFunction (.ofBits bits) (f.withCode c)) := by
  unfold makeFunction
  have hsuits : (∀ h, L.halt h) ∨ ∃ code closure before rest,
      f.stack = .code code :: before ∧ PartsLie (.ofBits bits) closure before rest := by
    refine h.imp_right ?_
    rintro ⟨code, closure, before, htaken, hlie⟩
    obtain ⟨taken, hbefore, -, hlie⟩ := hlie.taken
    refine ⟨code, closure, taken ++ f.stack.drop (Instr.makeFunction bits).takes, _, ?_,
      hlie (f.stack.drop (Instr.makeFunction bits).takes)⟩
    rw [List.append_nil] at hbefore
    rw [← List.cons_append, ← hbefore, ← htaken, List.take_append_drop]
  refine follows_pop ?_ fun top stack hs => ?_
  · refine hsuits.imp_right ?_
    rintro ⟨code, closure, before, rest, hstack, -⟩
    simp [hstack]
  dsimp only
  cases top with
  | code code =>
    dsimp only
    have hlie : (∀ h, L.halt h) ∨ ∃ closure rest, PartsLie (.ofBits bits) closure stack rest := by
      refine hsuits.imp_right ?_
      rintro ⟨_, closure, before, rest, hstack, hlie⟩
      rw [hs] at hstack
      cases hstack
      exact ⟨closure, rest, hlie⟩
    refine follows_takePart (f := { f with stack }) (c := c)
      (p := fun v => ∃ id, ∃ cells : List CellRef, v = .tuple id (cells.map .cell))
      (hlie.imp_right ?_) (fun v rest _ hv => agree_closureCells hv)
      fun closure s hclosure hempty => ?_
    · rintro ⟨closure, rest, s, -, hclosure, -⟩
      exact ⟨s, hclosure.mono fun v ⟨id, hv⟩ => ⟨id, closure, hv⟩⟩
    -- What lies below the closure depends on where the closure was found, not on what it is.
    have hlater : (∀ h, L.halt h) ∨ ∃ t rest,
        OnTop (FunctionParts.ofBits bits).keywordDefaults (fun v => ∃ r, v = .dict r) s t ∧
        OnTop (FunctionParts.ofBits bits).defaults (fun v => ∃ id items, v = .tuple id items) t
          rest := by
      refine hlie.imp_right ?_
      rintro ⟨_, rest, s', t, hclosure', -, hkeyword, hdefaults⟩
      obtain rfl := hclosure.unique hclosure'
      exact ⟨t, rest, hkeyword, hdefaults⟩
    refine follows_takePart (f := { f with stack := s }) (c := c)
      (hlater.imp_right fun ⟨t, _, hkeyword, _⟩ => ⟨t, hkeyword⟩)
      (fun v rest _ hv => agree_keywordDefaultsOf hv) fun keywordDefaults t hkeyword hnokeyword => ?_
    -- All parts come from the stack of the frame, where every value is good.
    have hgood : ∀ v ∈ t, L.value v := by
      obtain ⟨taken, hstack, -⟩ := hclosure.taken
      obtain ⟨taken', hstack', -⟩ := hkeyword.taken
      intro v hv
      refine hf.stack v ?_
      rw [hs]
      refine List.mem_cons_of_mem _ ?_
      rw [show stack = taken ++ s from hstack, show s = taken' ++ t from hstack']
      simp [hv]
    refine follows_takePart (f := { f with stack := t }) (c := c)
      (p := fun v => ∃ id items, v = .tuple id items)
      (m := fun v items => (∃ id, v = .tuple id items) ∧ ∀ w ∈ items, L.value w)
      (hlater.imp_right ?_) (fun v rest hst hv => ?_) fun defaults rest hdefaults hnodefaults => ?_
    · rintro ⟨t', rest, hkeyword', hdefaults⟩
      obtain rfl := hkeyword.unique hkeyword'
      exact ⟨rest, hdefaults⟩
    · refine agree_defaultsOf hL (hgood v ?_) hv
      rw [show t = v :: rest from hst]
      exact List.mem_cons_self
    refine agree_freshIdentity.bind fun id _ => follows_pure ⟨rfl, ?_⟩
    refine hP id code closure keywordDefaults defaults stack rest hs
      ⟨s, t, hclosure, hempty, hkeyword.mono fun v hv => hv.1,
        hdefaults.mono fun v ⟨⟨id, hv⟩, _⟩ => ⟨id, defaults, hv⟩⟩ ?_ ?_
    · refine hdefaults.elim (fun hpresent => ?_) fun v hv => hv.2
      rw [hnodefaults hpresent]
      simp
    · refine hkeyword.elim (fun hpresent => ?_) fun v hv => hv.2
      rw [hnokeyword hpresent]
      exact OrderedMap.all_empty
  | _ =>
    rcases hsuits with h | ⟨code, _, _, _, hstack, -⟩
    · exact follows_throw (h _)
    · rw [hs] at hstack
      cases hstack

end Calls

theorem performs_of_taken {i : Instr} {a : Action} (taken : List Value) {rest : List Value}
    (hs : f.stack = taken ++ rest) (hlength : taken.length = i.takes)
    (hdoes : L.Does { f with stack := rest } taken i a) : L.Performs f i a := by
  refine ⟨by rw [hs, List.length_append]; omega, ?_⟩
  rw [Frame.drop, hs, ← hlength, List.drop_left, List.take_left]
  exact hdoes

theorem agree_newDictRef {m : OrderedMap Key Value} (h : m.All L.value) :
    L.Agree (fun v => ∃ r, v = .dict r) (newDict m) (newDict m) :=
  agree_modifyGet (fun _ _ _ => rfl) (fun _ => .of_eq rfl rfl) fun _ hu =>
    ⟨⟨_, rfl⟩, hu.lists, push_all hu.dicts h, hu.cells, hu.spaces, hu.iterators⟩

theorem agree_entriesOfFlat (hL : L.Lawful) {m : OrderedMap Key Value} (hm : m.All L.value) :
    {flat : List Value} → (∀ v ∈ flat, L.value v) →
      L.Agree (fun m => m.All L.value) (entriesOfFlat m flat) (entriesOfFlat m flat)
  | [], _ | [_], _ => agree_pure hm
  | k :: v :: rest, h => by
    unfold entriesOfFlat
    refine (agree_key hL k).bind fun key _ => ?_
    exact agree_entriesOfFlat hL (hm.insert key (h v (by simp))) fun w hw => h w (by simp [hw])

theorem follows_raise {α β : Type} (hL : L.Lawful) {r : α → β → Prop} (kind : ExceptionKind)
    (message : String) : L.Follows r (raise kind message) (raise kind message) :=
  follows_throw (hL.halt _ rfl)

theorem follows_raiseValue {α β : Type} (hL : L.Lawful) {r : α → β → Prop} (v : Value) :
    L.Follows r (raiseValue v) (raiseValue v) := by
  cases v <;> exact follows_raise hL _ _

theorem follows_jumpWhen {P : Action → Prop} {truth : Bool} {target : Nat}
    (h : (∀ h, L.halt h) ∨ 1 ≤ f.stack.length)
    (hP : ∀ v rest, f.stack = v :: rest →
      P (.next { f with stack := rest }) ∧ P (.next ({ f with stack := rest }.jump target))) :
    L.Follows (Same c P) (f.jumpWhen truth target) ((f.withCode c).jumpWhen truth target) := by
  refine follows_pop h fun v rest hs => follows_get fun s t hst => ?_
  simp only [hst.isTruthy]
  split
  · exact follows_pure ⟨rfl, (hP v rest hs).2⟩
  · exact follows_pure ⟨rfl, (hP v rest hs).1⟩

theorem follows_jumpWhenOrPop {P : Action → Prop} {truth : Bool} {target : Nat}
    (h : (∀ h, L.halt h) ∨ 1 ≤ f.stack.length)
    (hP : ∀ v rest, f.stack = v :: rest →
      P (.next { f with stack := rest }) ∧ P (.next (f.jump target))) :
    L.Follows (Same c P) (f.jumpWhenOrPop truth target)
      ((f.withCode c).jumpWhenOrPop truth target) := by
  refine follows_top h fun v rest hs => follows_get fun s t hst => ?_
  simp only [hst.isTruthy]
  split
  · exact follows_pure ⟨rfl, (hP v rest hs).2⟩
  · refine follows_pop h fun w rest' hs' => ?_
    exact follows_pure ⟨rfl, (hP w rest' hs').1⟩

/-- An instruction does the same with the same pools, and does what it should: it halts for a
reason of its own or because an operand is missing. -/
theorem follows_perform (hL : L.Lawful) (hc : f.code.SamePools c) (hf : L.Holds f) {i : Instr}
    (hconst : ∀ k, i = .loadConst k →
      c.object.constants[k]? = f.code.object.constants[k]?)
    (hi : (∀ h, L.halt h) ∨ i.takes ≤ f.stack.length ∧ f.Suits (f.stack.take i.takes) i) :
    L.Follows (Same c (L.Performs f i)) (perform f i) (perform (f.withCode c) i) := by
  have hlength : (∀ h, L.halt h) ∨ i.takes ≤ f.stack.length := hi.imp_right And.left
  have hsuits : (∀ h, L.halt h) ∨ f.Suits (f.stack.take i.takes) i := hi.imp_right And.right
  have hgood : ∀ (taken : List Value) {v : Value} {rest : List Value},
      f.stack = taken ++ v :: rest → L.value v := fun _ _ _ hs => hf.stack _ (by rw [hs]; simp)
  have htaken : ∀ (n : Nat), ∀ v ∈ (f.stack.take n).reverse, L.value v := fun n v hv =>
    hf.stack v (List.mem_of_mem_take (List.mem_reverse.1 hv))
  have hone : ∀ {n : Nat} {f : Frame} {v : Value} {rest : List Value}, f.stack = v :: rest →
      (∀ h, L.halt h) ∨ n + 1 ≤ f.stack.length → (∀ h, L.halt h) ∨ n ≤ rest.length :=
    fun hs h => h.imp_right fun h => by simpa [hs] using h
  unfold perform
  cases i with
  | loadConst k =>
    refine follows_pushed (agree_constant hc (hconst k rfl) hsuits) fun v hv => ?_
    obtain ⟨constant, hconstant, hloads⟩ := hv
    exact performs_of_taken [] rfl rfl ⟨constant, v, hconstant, hloads, rfl⟩
  | loadFast slot =>
    exact follows_pushed (agree_loadFast hL hc hf hsuits) fun v hv =>
      performs_of_taken [] rfl rfl ⟨v, hv, rfl⟩
  | loadDeref k =>
    exact follows_pushed (agree_loadDeref hL hc hsuits) fun v hv =>
      performs_of_taken [] rfl rfl ⟨v, hv, rfl⟩
  | loadClassDeref k =>
    exact follows_pushed (agree_loadClassDeref hL hc hsuits) fun v hv =>
      performs_of_taken [] rfl rfl ⟨v, hv, rfl⟩
  | loadGlobal k =>
    exact follows_pushed (agree_loadGlobal hL hc hsuits) fun v hv =>
      performs_of_taken [] rfl rfl ⟨v, hv, rfl⟩
  | loadName k =>
    exact follows_pushed (agree_loadName hL hc hsuits) fun v hv =>
      performs_of_taken [] rfl rfl ⟨v, hv, rfl⟩
  | loadClosure k =>
    refine follows_pushed (p := fun v => ∃ r, v = .cell r) ?_ ?_
    · exact (agree_cell hsuits).bind fun r _ => agree_pure ⟨r, rfl⟩
    · rintro _ ⟨r, rfl⟩
      exact performs_of_taken [] rfl rfl ⟨r, rfl⟩
  | loadBuildClass =>
    refine follows_pushed (p := L.value) ?_ fun v hv => performs_of_taken [] rfl rfl ⟨v, hv, rfl⟩
    exact agree_freshIdentity.bind fun _ _ => agree_pure (hL.plain _ rfl)
  | snapshotLocals =>
    refine follows_pushed (p := L.value) ?_ fun v hv => performs_of_taken [] rfl rfl ⟨v, hv, rfl⟩
    refine follows_get fun s t h => ?_
    rw [locals_alike hc h]
    exact (agree_dictOfNames (good_locals hf h)).bind fun m hm => agree_newDict hL hm
  | storeFast slot =>
    refine follows_pop hlength fun v rest hs => ?_
    by_cases hslot : slot < f.fast.size
    · simp only [Frame.storeFast, if_pos hslot]
      exact follows_pure ⟨rfl, performs_of_taken [v] hs rfl ⟨v, rfl, rfl⟩⟩
    · simp only [Frame.storeFast, if_neg hslot]
      rcases hsuits with h | h
      · exact Agree.bind (p := fun _ => False) (follows_throw (h _)) fun _ h => h.elim
      · exact absurd h hslot
  | storeDeref k =>
    refine follows_pop hlength fun v rest hs => ?_
    refine (agree_cell (f := { f with stack := rest }) hsuits).bind fun r _ => ?_
    refine (agree_setCell r (hgood [] hs)).bind fun _ _ => ?_
    exact follows_pure ⟨rfl, performs_of_taken [v] hs rfl rfl⟩
  | storeGlobal k =>
    refine (agree_name hc hsuits).bind fun name _ => ?_
    refine follows_pop hlength fun v rest hs => ?_
    refine (agree_setName _ name (hgood [] hs)).bind fun _ _ => ?_
    exact follows_pure ⟨rfl, performs_of_taken [v] hs rfl rfl⟩
  | storeName k =>
    refine (agree_name hc hsuits).bind fun name _ => ?_
    refine follows_pop hlength fun v rest hs => ?_
    refine (agree_setName _ name (hgood [] hs)).bind fun _ _ => ?_
    exact follows_pure ⟨rfl, performs_of_taken [v] hs rfl rfl⟩
  | loadAttr k =>
    refine (agree_name hc hsuits).bind fun name _ => ?_
    refine follows_replace1 hlength (p := L.value) (fun v rest hs => ?_) fun v rest w hs hw => ?_
    · exact agree_getAttribute hL (hgood [] hs) name
    · exact performs_of_taken [v] hs rfl ⟨w, hw, rfl⟩
  | storeAttr k =>
    refine (agree_name hc hsuits).bind fun name _ => ?_
    refine follows_pop (hlength.imp_right Nat.le_of_succ_le) fun object stack hs => ?_
    refine follows_pop (f := { f with stack }) (c := c) (hone hs hlength) fun v rest hs' => ?_
    obtain rfl : stack = v :: rest := hs'
    refine (agree_setAttribute hL object name (hgood [object] hs)).bind fun _ _ => ?_
    exact follows_pure ⟨rfl, performs_of_taken [object, v] hs rfl rfl⟩
  | loadSubscript =>
    refine follows_replace2 hlength (p := L.value) (fun v w rest hs => ?_)
      fun v w rest x hs hx => performs_of_taken [w, v] hs rfl ⟨x, hx, rfl⟩
    exact agree_getItem hL (hgood [w] hs) w
  | storeSubscript =>
    refine follows_pop (hlength.imp_right (Nat.le_trans (by decide))) fun index stack hs => ?_
    refine follows_pop (f := { f with stack }) (c := c)
      ((hone hs hlength).imp_right Nat.le_of_succ_le) fun container stack' hs' => ?_
    obtain rfl : stack = container :: stack' := hs'
    refine follows_pop (f := { f with stack := stack' }) (c := c)
      (hone (f := { f with stack := container :: stack' }) rfl (hone hs hlength))
      fun v rest hs' => ?_
    obtain rfl : stack' = v :: rest := hs'
    refine (agree_setItem hL container index (hgood [index, container] hs)).bind fun _ _ => ?_
    exact follows_pure ⟨rfl, performs_of_taken [index, container, v] hs rfl rfl⟩
  | unary op =>
    exact follows_replace1 hlength (fun v _ _ => agree_unary hL op v)
      fun v rest w hs hw => performs_of_taken [v] hs rfl ⟨w, hw, rfl⟩
  | binary op =>
    exact follows_replace2 hlength
      (fun v w _ hs => agree_binary hL op (hgood [w] hs) (hgood [] hs))
      fun v w rest x hs hx => performs_of_taken [w, v] hs rfl ⟨x, hx, rfl⟩
  | compare op =>
    refine follows_replace2 hlength (p := L.value) (fun v w _ _ => ?_)
      fun v w rest x hs hx => performs_of_taken [w, v] hs rfl ⟨x, hx, rfl⟩
    exact (agree_compareValues hL op v w).bind fun _ _ => agree_pure (hL.plain _ rfl)
  | buildList n =>
    refine follows_popMany hlength fun hn => ?_
    refine follows_pushed (agree_newList hL fun v hv => ?_) fun v hv => ?_
    · exact htaken n v (by simpa using hv)
    · exact ⟨hn, v, hv, rfl⟩
  | buildTuple n =>
    refine follows_popMany hlength fun hn => ?_
    refine follows_pushed (p := fun v => ∃ id, v = .tuple id (f.stack.take n).reverse) ?_ ?_
    · exact agree_freshIdentity.bind fun id _ => agree_pure ⟨id, rfl⟩
    · rintro _ ⟨id, rfl⟩
      exact ⟨hn, id, rfl⟩
  | buildDict n =>
    refine follows_popMany hlength fun hn => ?_
    refine follows_pushed (p := fun v => ∃ r, v = .dict r) ?_ ?_
    · refine (agree_entriesOfFlat hL OrderedMap.all_empty fun v hv => ?_).bind fun m hm => ?_
      · exact htaken (2 * n) v hv
      · exact agree_newDictRef hm
    · rintro _ ⟨r, rfl⟩
      exact ⟨hn, r, rfl⟩
  | unpackSequence n =>
    refine follows_pop hlength fun v rest hs => ?_
    exact follows_pure ⟨rfl, performs_of_taken [v] hs rfl ⟨v, rfl, rfl⟩⟩
  | call n =>
    refine follows_popMany (hlength.imp_right Nat.le_of_succ_le) fun hn => ?_
    refine follows_pop (f := f.drop n) ?_ fun callee rest hs => ?_
    · refine hlength.imp_right fun h => ?_
      have : n + 1 ≤ f.stack.length := h
      simp only [Frame.drop, List.length_drop]
      omega
    have hstack : f.stack = f.stack.take n ++ callee :: rest := by
      rw [← hs]
      exact (List.take_append_drop n f.stack).symm
    have hstack' : f.stack = f.stack.take n ++ [callee] ++ rest := by
      rw [List.append_assoc]
      exact hstack
    refine follows_pure ⟨rfl, performs_of_taken (f.stack.take n ++ [callee]) hstack' ?_ ?_⟩
    · simp [Instr.takes, Nat.min_eq_left hn]
    · exact ⟨callee, _, [], hgood _ hstack, htaken n, by simp, rfl⟩
  | callKw n =>
    refine follows_keywordCall hf hi fun callee args keywords hn hcallee hargs hkeywords => ?_
    exact ⟨hn, callee, args, keywords, hcallee, hargs, hkeywords, rfl⟩
  | makeFunction bits =>
    refine follows_makeFunction hL hf hsuits ?_
    intro id code closure keywordDefaults defaults before rest hs hlie hdefaults hkeyword
    obtain ⟨taken, rfl, hlength, hlie⟩ := hlie.taken
    refine performs_of_taken (.code code :: taken) hs ?_ ?_
    · rw [List.length_cons, hlength]
      rfl
    · refine ⟨id, code, closure, keywordDefaults, defaults, taken, rfl, ?_, hdefaults, hkeyword,
        rfl⟩
      simpa only [List.append_nil] using hlie []
  | jump t => exact follows_next (f := f.jump t) (performs_of_taken [] rfl rfl rfl)
  | jumpForward n => exact follows_next (f := f.jump _) (performs_of_taken [] rfl rfl rfl)
  | jumpIfFalse t | jumpIfTrue t =>
    refine follows_jumpWhen hlength fun v rest hs => ⟨?_, ?_⟩
    · exact performs_of_taken [v] hs rfl (.inl rfl)
    · exact performs_of_taken [v] hs rfl (.inr rfl)
  | jumpIfFalseOrPop t | jumpIfTrueOrPop t =>
    refine follows_jumpWhenOrPop hlength fun v rest hs => ⟨?_, ?_⟩
    · exact performs_of_taken [v] hs rfl (.inl rfl)
    · refine performs_of_taken [v] hs rfl (.inr ⟨v, rfl, ?_⟩)
      simp only [Frame.jump, Frame.push, hs]
  | getIter =>
    exact follows_replace1 hlength (fun v _ hs => agree_makeIterator hL (hgood [] hs))
      fun v rest w hs hw => performs_of_taken [v] hs rfl ⟨w, hw, rfl⟩
  | forIter t =>
    refine follows_top hlength fun v rest hs => ?_
    refine follows_pure ⟨rfl, performs_of_taken [v] hs rfl ⟨v, rfl, ?_⟩⟩
    simp only [Frame.push, ← hs]
  | pop =>
    refine follows_pop hlength fun v rest hs => ?_
    exact follows_pure ⟨rfl, performs_of_taken [v] hs rfl rfl⟩
  | dup =>
    cases hs : f.stack with
    | nil =>
      rcases hlength with h | h
      · simp only [Frame.pushed, Frame.top, Frame.withCode, hs]
        exact Agree.bind (p := fun _ => False) (follows_throw (h _)) fun _ h => h.elim
      · rw [hs] at h
        cases h
    | cons v rest =>
      refine follows_pushed (p := (· = v)) ?_ ?_
      · simp only [Frame.top, Frame.withCode, hs]
        exact agree_pure rfl
      · intro w hw
        refine performs_of_taken [v] hs rfl ⟨v, rfl, ?_⟩
        simp only [Frame.push, hs, hw]
  | dupTwo =>
    refine follows_popMany hlength fun hn => ?_
    refine follows_pure ⟨rfl, hn, ?_⟩
    simp only [Likeness.Does, Frame.drop, Instr.takes, List.append_assoc,
      List.take_append_drop]
  | rot2 =>
    refine follows_pop (hlength.imp_right Nat.le_of_succ_le) fun v stack hs => ?_
    refine follows_pop (f := { f with stack }) (c := c) (hone hs hlength) fun w rest hs' => ?_
    obtain rfl : stack = w :: rest := hs'
    exact follows_pure ⟨rfl, performs_of_taken [v, w] hs rfl ⟨v, w, rfl, rfl⟩⟩
  | rot3 =>
    refine follows_pop (hlength.imp_right (Nat.le_trans (by decide))) fun u stack hs => ?_
    refine follows_pop (f := { f with stack }) (c := c)
      ((hone hs hlength).imp_right Nat.le_of_succ_le) fun v stack' hs' => ?_
    obtain rfl : stack = v :: stack' := hs'
    refine follows_pop (f := { f with stack := stack' }) (c := c)
      (hone (f := { f with stack := v :: stack' }) rfl (hone hs hlength))
      fun w rest hs' => ?_
    obtain rfl : stack' = w :: rest := hs'
    exact follows_pure ⟨rfl, performs_of_taken [u, v, w] hs rfl ⟨u, v, w, rfl, rfl⟩⟩
  | yieldValue =>
    refine follows_pop hlength fun v rest hs => ?_
    exact follows_pure ⟨rfl, performs_of_taken [v] hs rfl ⟨v, rfl, rfl⟩⟩
  | await => exact follows_raise hL _ _
  | raise =>
    refine follows_pop hlength fun v rest hs => ?_
    exact follows_raiseValue hL v
  | raiseAssert =>
    refine follows_get fun s t hst => ?_
    refine follows_pop hlength fun v rest hs => ?_
    have hmessage : assertionMessage t v = assertionMessage s v := by
      cases v <;> simp only [assertionMessage, hst.display hL]
    rw [hmessage]
    exact follows_raise hL _ _
  | returnValue =>
    refine follows_pop hlength fun v rest hs => ?_
    exact follows_pure ⟨rfl, performs_of_taken [v] hs rfl ⟨v, rfl, rfl⟩⟩

/-- The next instruction is done alike where both codes have the same one. -/
theorem follows_step (hL : L.Lawful) (hc : f.code.SamePools c) (hf : L.Holds f) {i : Instr}
    (hf' : f.code.object.instructions[f.pc]? = some i)
    (hc' : c.object.instructions[f.pc]? = some i)
    (hconst : ∀ k, i = .loadConst k →
      c.object.constants[k]? = f.code.object.constants[k]?)
    (hi : (∀ h, L.halt h) ∨ i.takes ≤ f.stack.length ∧ f.Suits (f.stack.take i.takes) i) :
    L.Follows (Same c (L.Performs { f with pc := f.pc + 1 } i)) (step f)
      (step (f.withCode c)) := by
  have hstep : step f = perform { f with pc := f.pc + 1 } i := by
    unfold step
    rw [hf']
  have hstep' : step (f.withCode c) =
      perform (({ f with pc := f.pc + 1 } : Frame).withCode c) i := by
    unfold step
    rw [show (f.withCode c).code.object.instructions[(f.withCode c).pc]? = some i from hc']
    rfl
  rw [hstep, hstep']
  exact follows_perform (f := { f with pc := f.pc + 1 }) hL hc ⟨hf.stack, hf.fast⟩ hconst hi

end Likeness

end Lexiscope.Machine
