import Lexiscope.Proofs.Capture.Agreement
import Lexiscope.Proofs.Capture.Reads
import Lexiscope.Proofs.Machine.Creation
import Lexiscope.Machine.Program
/-!
# Wrappers that are ready

A wrapper without missing names is called in a namespace and with cells that have all that its body,
and every body made in it, may look for there.
-/

namespace Lexiscope.Capture

open Code (Instr Kind Kinds Object)
open Machine Machine.Likeness

/-- A wrapper of the function: one that was made for it, or for another wrapper of it. -/
inductive Wraps (f : FunctionValue) : Wrapped → Prop where
  | function {mappings options w s t} : Wrapped.ofFunction f mappings options s = .ok w t → Wraps f w
  | wrapper {v mappings options w s t} : Wraps f v → v.rewrap mappings options s = .ok w t → Wraps f w

section Environments

variable {lookup : Name → Option Value} {names : List Name} {n : Name} {r : Requirements}
  {s : Sources}

theorem isSome_get?_found (hn : n ∈ names) (h : (lookup n).isSome) :
    ((found lookup names).get? n).isSome := by
  obtain ⟨v, hv⟩ := Option.isSome_iff_exists.1 h
  have hmem : (n, v) ∈ names.filterMap fun name => (lookup name).map fun v => (name, v) :=
    List.mem_filterMap.2 ⟨n, hn, by rw [hv]; rfl⟩
  exact OrderedMap.isSome_get?_ofList hmem

theorem mem_unfound (hn : n ∈ names) (h : lookup n = none) : n ∈ unfound lookup names :=
  List.mem_filter.2 ⟨hn, by rw [h]; rfl⟩

theorem eq_nil_of_distinctNames (h : distinctNames names = []) : names = [] := by
  refine List.eq_nil_iff_forall_not_mem.2 fun n hn => ?_
  have hmem := mem_distinctNames.2 hn
  rw [h] at hmem
  exact List.not_mem_nil hmem

/-- In an environment without missing names every closure name has a value, and so has every global
name that is not built-in. -/
theorem resolve_complete (h : (Environment.resolve r s).missing = []) :
    (∀ n ∈ r.closures, ((Environment.resolve r s).cells.get? n).isSome) ∧
      ∀ n ∈ r.globals, (((Environment.resolve r s).globals.get? n).or
        (builtinNames.get? n)).isSome := by
  have hmissing := eq_nil_of_distinctNames h
  obtain ⟨hclosures, hglobals⟩ := List.append_eq_nil_iff.1 hmissing
  refine ⟨fun n hn => isSome_get?_found hn ?_, fun n hn => ?_⟩
  · rw [Option.isSome_iff_ne_none]
    intro hnone
    have hmem : n ∈ ([] : List Name) := hclosures ▸ mem_unfound hn hnone
    exact List.not_mem_nil hmem
  · cases hvalue : s.global? n with
    | some v =>
      rw [Option.isSome_or, Bool.or_eq_true]
      exact .inl (isSome_get?_found hn (by rw [hvalue]; rfl))
    | none =>
      rw [Option.isSome_or, Bool.or_eq_true, ← OrderedMap.contains_eq_isSome_get?,
        ← OrderedMap.contains_eq_isSome_get?]
      refine .inr (Bool.of_not_eq_false fun hbuiltin => ?_)
      have hmem : n ∈ ([] : List Name) :=
        hglobals ▸ List.mem_filter.2 ⟨mem_unfound hn hvalue, by rw [hbuiltin]; rfl⟩
      exact List.not_mem_nil hmem

end Environments

def Carries (c d : LoadedCode) : Prop := d = c ∨ ∃ marker, Instruments c d marker

/-- The instruction is of those that an instrumented body has in place of a return, or after all
others. -/
def IsCapturing : Instr → Prop
  | .jumpForward _ | .snapshotLocals | .loadConst _ | .buildTuple _ | .returnValue => True
  | _ => False

section Wrappers

variable {f : FunctionValue} {w : Wrapped}

/-- What holds of all wrappers of a function. -/
structure Prepared (f : FunctionValue) (w : Wrapped) : Prop where
  function : w.function = f
  requirements : w.requirements = .ofCode f.code.object
  environment : ∃ sources, w.environment = .resolve w.requirements sources
  plan : ∀ d marker, w.plan = .transform d marker → Instruments f.code d marker

theorem instruments_of_make {c : LoadedCode} {mechanism : Mechanism} {reach : Nat} {plan : Plan}
    {s t : Store} (hloads : LoadsInPool c.object) (h : Plan.make c mechanism reach s = .ok plan t) :
    ∀ d marker, plan = .transform d marker → Instruments c d marker := by
  rintro d marker rfl
  cases mechanism with
  | trace =>
    obtain ⟨hplan, -, -⟩ := plan_trace h
    cases hplan
  | transform =>
    obtain ⟨d', marker', hplan, hinstruments, -, -⟩ := plan_transform hloads h
    cases hplan
    exact hinstruments

theorem Wraps.prepared (hloads : LoadsInPool f.code.object) (h : Wraps f w) : Prepared f w := by
  induction h with
  | function hw =>
    obtain ⟨plan, u, hplan, rfl⟩ := ofFunction_ok hw
    exact ⟨rfl, rfl, ⟨_, rfl⟩, instruments_of_make hloads hplan⟩
  | @wrapper v mappings options w s t _ hw ih =>
    unfold Wrapped.rewrap at hw
    split at hw
    · cases hw
      exact ⟨ih.function, ih.requirements, ⟨_, rfl⟩, ih.plan⟩
    · obtain ⟨plan, u, hplan, hw⟩ := engine_bind_eq_ok hw
      cases hw
      rw [ih.function] at hplan
      exact ⟨ih.function, ih.requirements, ⟨_, rfl⟩, instruments_of_make hloads hplan⟩

theorem Prepared.carries (h : Prepared f w) : Carries f.code w.start.1 := by
  unfold Wrapped.start
  cases hplan : w.plan with
  | transform d marker => exact .inr ⟨marker, h.plan d marker hplan⟩
  | trace => exact .inl (by rw [h.function])

end Wrappers

section Bodies

variable {c d : LoadedCode} {f g : Frame} {layout : Nat → Kinds} {P : Value → Kind → Prop}
  {s t : Store}

/-- An instruction of an instrumented body is one of the body itself at the same place, or it leads
to the tail. -/
theorem Carries.instruction (h : Carries c d) {pc : Nat} {i : Instr}
    (hi : d.object.instructions[pc]? = some i) :
    (c.object.instructions[pc]? = some i ∧
      ∀ k, i = .loadConst k → c.object.constants[k]? = d.object.constants[k]?) ∨
    IsCapturing i ∧ ∀ q ∈ i.successors pc, c.object.instructions.size ≤ q := by
  obtain rfl | ⟨marker, h⟩ := h
  · exact .inl ⟨hi, fun _ _ => rfl⟩
  by_cases hpc : pc < c.object.instructions.size
  · have hbody := Array.getElem?_eq_getElem hpc
    by_cases hreturn : c.object.instructions[pc] = .returnValue
    · rw [hreturn] at hbody
      have hjump := h.instruction hbody
      rw [redirect, if_pos rfl] at hjump
      obtain rfl := Option.some.inj (hi.symm.trans hjump)
      refine .inr ⟨trivial, fun q hq => ?_⟩
      obtain rfl := List.mem_singleton.1 hq
      omega
    · obtain rfl := Option.some.inj (hi.symm.trans (h.kept hbody hreturn))
      refine .inl ⟨hbody, fun k hk => ?_⟩
      rw [hk] at hbody
      exact (h.constant hbody).symm
  · obtain ⟨k, rfl⟩ := Nat.exists_eq_add_of_le (Nat.le_of_not_lt hpc)
    rw [h.tail] at hi
    have htail := Array.mem_of_getElem? hi
    simp only [captureTail, List.mem_toArray, List.mem_cons, List.not_mem_nil, or_false] at htail
    rcases htail with rfl | rfl | rfl | rfl
    all_goals exact .inr ⟨trivial, by grind [Instr.successors]⟩

theorem Carries.readsGlobal (h : Carries c d) {i : Nat} (hi : ReadsGlobal d.object i) :
    ReadsGlobal c.object i := by
  have hback : ∀ j, j ∈ d.object.instructions → ¬ IsCapturing j → j ∈ c.object.instructions := by
    intro j hj hbody
    obtain ⟨pc, hpc⟩ := Array.mem_iff_getElem?.1 hj
    rcases h.instruction hpc with ⟨hpc', -⟩ | ⟨hcapturing, -⟩
    · exact Array.mem_of_getElem? hpc'
    · exact absurd hcapturing hbody
  have hforth : .storeName i ∈ c.object.instructions → .storeName i ∈ d.object.instructions := by
    intro hstore
    obtain rfl | ⟨marker, h⟩ := h
    · exact hstore
    · obtain ⟨pc, hpc⟩ := Array.mem_iff_getElem?.1 hstore
      exact Array.mem_of_getElem? (h.kept hpc (by simp))
  rcases hi with hi | ⟨hi, hstored⟩
  · exact .inl (hback _ hi id)
  · exact .inr ⟨hback _ hi id, fun hstore => hstored (hforth hstore)⟩

theorem Carries.names (h : Carries c d) : d.object.names = c.object.names := by
  obtain rfl | ⟨marker, h⟩ := h
  · rfl
  · exact h.samePools.names

/-- An instruction of the body itself is done alike where its code is put in place of the
instrumented one. -/
theorem Carries.step_withCode (h : Carries c f.code) {i : Instr}
    (hi : f.code.object.instructions[f.pc]? = some i) (hi' : c.object.instructions[f.pc]? = some i)
    (hconst : ∀ k, i = .loadConst k → c.object.constants[k]? = f.code.object.constants[k]?)
    {a : Action} (hstep : step f s = .ok a t) : step (f.withCode c) s = .ok (a.withCode c) t := by
  have hpools : f.code.SamePools c := by
    obtain hc | ⟨marker, h⟩ := h
    · rw [hc]
      exact .refl c
    · exact h.samePools.symm
  obtain ⟨b, hb, rfl, -⟩ := (loose_step same_steady.toLawful hpools hi hi' hconst).ok_same hstep
  exact hb

/-- While a frame is inside the body, of its operands holds what is said of the kinds that the code of
the body lays out. -/
def ReadsBody (P : Value → Kind → Prop) (c : LoadedCode) (layout : Nat → Kinds) (f : Frame) : Prop :=
  f.pc < c.object.instructions.size → List.Forall₂ P f.stack (layout f.pc)

/-- A frame that leaves the body does not come back. -/
theorem Carries.readsBody_step (hP : Reading P) (hcells : ∀ r ∈ f.cells, P (.cell r) .cell)
    (h : Carries c f.code) (hlaid : c.object.LaidOut layout) (hf : ReadsBody P c layout f)
    {a : Action} (hstep : step f s = .ok a t) : (∀ g, a.LeadsTo g → ReadsBody P c layout g) ∧
      ∀ x g, a = .yielded x g → ReadsBody P c layout (g.push .none) := by
  obtain ⟨-, i, hi, hplaces⟩ := successors_of_step hstep
  rcases h.instruction hi with ⟨hi', hconst⟩ | ⟨-, hleaves⟩
  · have hreads : (f.withCode c).Reads P layout :=
      have hpc := (Array.getElem?_eq_some_iff.1 hi').1
      ⟨hpc, hf hpc⟩
    have hstep' := h.step_withCode hi hi' hconst hstep
    have hafter := leaves_of_step (f := f.withCode c) hP hcells hlaid hreads hstep'
    refine ⟨fun g hg _ => (hafter.leadsTo hg.withCode).stack, ?_⟩
    rintro x g rfl -
    exact hafter.stack
  · have hout : ∀ {q}, q ∈ a.places → ¬ q < c.object.instructions.size :=
      fun hq => Nat.not_lt_of_le (hleaves _ (hplaces _ hq))
    refine ⟨fun g hg hpc => absurd hpc (hout hg.same.2.2), ?_⟩
    rintro x g rfl hpc
    exact absurd hpc (hout List.mem_cons_self)

theorem Carries.readsBody_course {es : List Event} (hP : Reading P)
    (hcells : ∀ r ∈ f.cells, P (.cell r) .cell) (hcourse : Course f s es g t)
    (h : Carries c f.code) (hlaid : c.object.LaidOut layout) (hf : ReadsBody P c layout f) :
    ReadsBody P c layout g := by
  induction hcourse with
  | here => exact hf
  | turn hstep hact _ ih =>
    have hleads := leadsTo_of_act hact
    have hsame := (successors_of_step hstep).1.trans hleads.same.1
    have hnext := (h.readsBody_step hP hcells hlaid hf hstep).1 _ hleads
    rw [← hsame.code] at h
    rw [← hsame.cells] at hcells
    exact ih hcells h hnext
  | yield hstep _ ih =>
    have hsame := (successors_of_step hstep).1
    have hnext := (h.readsBody_step hP hcells hlaid hf hstep).2 _ _ rfl
    rw [← hsame.code] at h
    rw [← hsame.cells] at hcells
    exact ih hcells h hnext

theorem Carries.makes {es : List Event} {v : FunctionValue} {u : Store} (h : Carries c f.code)
    (hc : c.object.Compiled) (hstack : f.stack = []) (hpc : f.pc = 0)
    (hcourse : Course f s es g t) (hmakes : Makes g t v u) :
    .code v.code.object ∈ c.object.constants := by
  cases hc.sound with
  | mk layout hlaid =>
    have hf : ReadsBody HasKind c layout f := by
      intro _
      rw [hstack, hpc, hlaid.start]
      exact .nil
    have hg := h.readsBody_course reading_hasKind (fun r _ => ⟨r, rfl⟩) hcourse hlaid hf
    have hcode := hcourse.sameBody.code
    rw [← hcode] at h
    obtain ⟨bits, _, _, hi, -⟩ := id hmakes
    rcases h.instruction hi with ⟨hi', -⟩ | ⟨hcapturing, -⟩
    · have hkinds := hg (Array.getElem?_eq_some_iff.1 hi').1
      exact hmakes.pooled hkinds hi (hlaid.instruction _ _ hi')
    · exact hcapturing.elim

end Bodies

section Frames

variable {v : FunctionValue} {f g : Frame} {s t u : Store}

/-- What is known of the frames of a function with a body: the code that they run lies in the tree
of the body, and they have the globals of the function. -/
structure Belongs (c : LoadedCode) (v : FunctionValue) (f : Frame) (e : LoadedCode) : Prop where
  carries : Carries e f.code
  compiled : e.object.Compiled
  inside : Inside c.object e.object
  globals : f.globals = v.globals
  stack : f.stack = []
  pc : f.pc = 0

theorem Belongs.own {c : LoadedCode} (hc : Carries c v.code) (hcompiled : c.object.Compiled)
    (h : f.IsNew v) : Belongs c v f c :=
  ⟨h.code ▸ hc, hcompiled, .self, h.globals, h.stack, h.pc⟩

/-- All frames of a function belong to its body, and start with what was bound. -/
theorem belongs_of_frameOf {c : LoadedCode} (hc : Carries c v.code) (hcompiled : c.object.Compiled)
    (h : FrameOf v s f t) : s.Keeps t ∧ ∃ e, Belongs c v f e := by
  induction h with
  | own hstarts => exact ⟨hstarts.keeps, c, .own hc hcompiled hstarts.isNew⟩
  | @made f t es g t' w u h u' _ hcourse hes hmakes hstarts ih =>
    obtain ⟨hkeeps, e, he⟩ := ih
    have hbody := hcourse.sameBody
    have hkeeps' := hcourse.keeps hes
    obtain ⟨hkeeps'', hglobals, -⟩ := hmakes.made
    have hpooled := he.carries.makes he.compiled he.stack he.pc hcourse hmakes
    have hnew := hstarts.isNew
    refine ⟨((hkeeps.trans hkeeps').trans hkeeps'').trans hstarts.keeps, w.code, .inl hnew.code,
      .inner he.compiled hpooled, .inner he.inside hpooled, ?_, hnew.stack, hnew.pc⟩
    rw [hnew.globals, hglobals, hbody.globals, he.globals]

end Frames

section Lookups

variable {f : Frame} {s : Store} {i : Nat}

/-- The next instruction of the frame reads a global name; in the body of a class this may be a name
that the body never stores. -/
def AsksGlobal (f : Frame) (i : Nat) : Prop :=
  f.code.object.instructions[f.pc]? = some (.loadGlobal i) ∨
    f.code.object.instructions[f.pc]? = some (.loadName i) ∧
      .storeName i ∉ f.code.object.instructions

theorem AsksGlobal.reads (h : AsksGlobal f i) : ReadsGlobal f.code.object i :=
  h.imp Array.mem_of_getElem? fun h => ⟨Array.mem_of_getElem? h.1, h.2⟩

theorem loadGlobal_ok {n : Name} {v : Value} (hname : f.code.object.names[i]? = some n)
    (hv : s.global f.globals n = some v) : f.loadGlobal i s = .ok v s := by
  have hfound : f.name i s = .ok n s := by
    rw [Frame.name, hname]
    rfl
  refine ((bind_ok hfound).trans (bind_ok (rfl : (get : Exec Store) s = .ok s s))).trans ?_
  rw [hv]
  rfl

theorem loadName_ok {n : Name} {v : Value} (hname : f.code.object.names[i]? = some n)
    (hv : s.global f.globals n = some v) : ∃ w, f.loadName i s = .ok w s := by
  have hfound : f.name i s = .ok n s := by
    rw [Frame.name, hname]
    rfl
  refine ⟨(f.classValue? s n).getD v, (bind_ok hfound).trans ?_⟩
  refine (bind_ok (rfl : (get : Exec Store) s = .ok s s)).trans ?_
  rw [hv]
  cases f.classValue? s n <;> rfl

theorem name_outside (hname : f.code.object.names[i]? = none) :
    ∃ e : Halt, e.isInternal = true ∧ f.name i s = .error e s := by
  rw [Frame.name, hname]
  exact ⟨_, rfl, rfl⟩

/-- If the name that is asked for has a value, no exception says that it has none. -/
theorem AsksGlobal.finds (h : AsksGlobal f i)
    (hbound : ∀ n, f.code.object.names[i]? = some n → (s.global f.globals n).isSome) (n : Name)
    (t : Store) : step f s ≠ undefinedName n t := by
  obtain ⟨load, hstep, hload⟩ : ∃ load : Exec Value,
      step f = Frame.pushed { f with pc := f.pc + 1 } load ∧
        (load = Frame.loadGlobal { f with pc := f.pc + 1 } i ∨
          load = Frame.loadName { f with pc := f.pc + 1 } i) := by
    rcases h with h | ⟨h, -⟩
    · exact ⟨_, by rw [step, h]; rfl, .inl rfl⟩
    · exact ⟨_, by rw [step, h]; rfl, .inr rfl⟩
  rw [hstep]
  cases hname : f.code.object.names[i]? with
  | none =>
    obtain ⟨e, hinternal, hfails⟩ := name_outside (f := { f with pc := f.pc + 1 }) (s := s) hname
    have hload : load s = .error e s := by
      rcases hload with rfl | rfl
      · exact bind_error hfails
      · exact bind_error hfails
    rw [Frame.pushed, bind_error hload]
    intro heq
    cases heq
    cases hinternal
  | some m =>
    obtain ⟨v, hv⟩ := Option.isSome_iff_exists.1 (hbound m hname)
    have hload : ∃ w, load s = .ok w s := by
      rcases hload with rfl | rfl
      · exact ⟨v, loadGlobal_ok hname hv⟩
      · exact loadName_ok hname hv
    obtain ⟨w, hw⟩ := hload
    rw [Frame.pushed, bind_ok hw]
    rintro ⟨⟩

theorem loadDeref_ok {r : CellRef} (hr : f.cells[i]? = some r) (h : (s.cell r).isSome) :
    ∃ v, f.loadDeref i s = .ok v s := by
  obtain ⟨v, hv⟩ := Option.isSome_iff_exists.1 h
  have hcell : f.cell i s = .ok r s := by
    rw [Frame.cell, hr]
    rfl
  refine ⟨v, (bind_ok hcell).trans ?_⟩
  rw [hv]
  rfl

end Lookups

section Calls

variable {f v : FunctionValue} {w : Wrapped} {s t : Store}

def Wrapped.prepares (w : Wrapped) (s : Store) : Store :=
  { Store.withCells { s with spaces := s.spaces.push w.environment.globals }
      (w.function.code.object.freevars.map w.environment.cells.get?) with next := s.next + 1 }

def Wrapped.launches (w : Wrapped) (d : LoadedCode) (s : Store) : FunctionValue where
  id := .fresh s.next
  code := d
  globals := ⟨s.spaces.size⟩
  defaults := w.function.defaults
  keywordDefaults := w.function.keywordDefaults
  closure := s.nextCells w.function.code.object.freevars.length

theorem runnable_eq (w : Wrapped) (d : LoadedCode) (s : Store) :
    w.runnable d s = .ok (w.launches d s) (w.prepares s) := by
  have hspace : Exec.newSpace w.environment.globals s =
      .ok ⟨s.spaces.size⟩ { s with spaces := s.spaces.push w.environment.globals } := rfl
  have hcells := newCells_eq w.environment.cells.get? w.function.code.object.freevars
    { s with spaces := s.spaces.push w.environment.globals }
  unfold Wrapped.runnable
  rw [bind_ok hspace, bind_ok hcells]
  rfl

theorem space_prepares (w : Wrapped) (s : Store) :
    (w.prepares s).space ⟨s.spaces.size⟩ = w.environment.globals := by
  simp [Wrapped.prepares, Store.withCells, Store.space]

theorem closure_prepares (w : Wrapped) (s : Store) :
    List.Forall₂ (fun n r => (w.prepares s).cell r = w.environment.cells.get? n)
      w.function.code.object.freevars (s.nextCells w.function.code.object.freevars.length) := by
  have hcells := cell_withCells (s := s) (w.function.code.object.freevars.map w.environment.cells.get?)
  rw [List.length_map, List.forall₂_map_left_iff] at hcells
  exact hcells

theorem runnable_ok {d : LoadedCode}
    (hcells : ∀ n ∈ w.function.code.object.freevars, (w.environment.cells.get? n).isSome)
    (h : w.runnable d s = .ok v t) : v.code = d ∧ (∀ r ∈ v.closure, (t.cell r).isSome) ∧
      ∀ n, (w.environment.globals.get? n).isSome → (t.lookup v.globals n).isSome := by
  rw [runnable_eq] at h
  cases h
  refine ⟨rfl, fun r hr => ?_, fun n hn => ?_⟩
  · obtain ⟨i, hi, rfl⟩ := List.mem_iff_getElem.1 hr
    have hclosure := closure_prepares w s
    have hlength : i < w.function.code.object.freevars.length := by
      rw [hclosure.length_eq]
      exact hi
    have hcell : (w.prepares s).cell (w.launches d s).closure[i] =
        w.environment.cells.get? w.function.code.object.freevars[i] := hclosure.get hlength hi
    rw [hcell]
    exact hcells _ (List.getElem_mem hlength)
  · rw [Store.lookup, Wrapped.launches, space_prepares]
    exact hn

end Calls

/-- What a frame looks for is there: no global name that it asks for is undefined, and no cell of the
function is unbound. -/
structure Finds (v : FunctionValue) (g : Frame) (s : Store) : Prop where
  globals : ∀ i, AsksGlobal g i → ∀ n t, step g s ≠ undefinedName n t
  cells : ∀ i r, g.cells[i]? = some r → r ∈ v.closure → ∃ x, g.loadDeref i s = .ok x s

/-- If a wrapper of a compiled function has no missing names, then every frame of a call of it, and of
the functions and classes that are made in such frames at any depth, finds what it looks for, at every
point of its course and however often it is suspended. All names that are required are free in the
body, or named by an instruction somewhere in its tree. -/
theorem ready_calls_find {f : FunctionValue} {w : Wrapped} (hf : f.code.object.Compiled)
    (hw : Wraps f w) :
    (w.environment.missing = [] → ∀ {v : FunctionValue} {s t : Store},
      w.runnable w.start.1 s = .ok v t → ∀ {h g : Frame} {u u' : Store} {es : List Event},
        FrameOf v t h u → Course h u es g u' → (∀ e ∈ es, e.Keeps) → Finds v g u') ∧
      ∀ n ∈ w.requirements.names, n ∈ f.code.object.freevars ∨
        ∃ d, Inside f.code.object d ∧ NamesGlobal d n := by
  have hprepared := hw.prepared (loadsInPool_of_sound hf.sound)
  refine ⟨fun hmissing v s t hrun h g u u' es hframe hcourse hes => ?_, fun n hn => ?_⟩
  · obtain ⟨sources, henvironment⟩ := hprepared.environment
    rw [henvironment] at hmissing
    obtain ⟨hclosures, hglobals⟩ := resolve_complete hmissing
    rw [← henvironment, hprepared.requirements] at hclosures hglobals
    obtain ⟨hcode, hcells, hnames⟩ := runnable_ok (fun n hn => hclosures n
      (mem_distinctNames.2 (hprepared.function ▸ hn))) hrun
    obtain ⟨hkeeps, e, he⟩ := belongs_of_frameOf (hcode ▸ hprepared.carries) hf hframe
    have hbody := hcourse.sameBody
    have hlater := hkeeps.trans (hcourse.keeps hes)
    refine ⟨fun i hi => hi.finds fun n hn => ?_, fun i r hr hmem => ?_⟩
    · have hreads := hi.reads
      rw [hbody.code] at hreads hn
      rw [he.carries.names] at hn
      have hrequired := globalReads_complete .functionBody he.inside (he.carries.readsGlobal hreads) hn
      have hvalue := hglobals n (mem_distinctNames.2 hrequired)
      rw [hbody.globals, he.globals, Store.global, Option.isSome_or, Bool.or_eq_true]
      rw [Option.isSome_or, Bool.or_eq_true] at hvalue
      exact hvalue.imp_left fun hvalue => hlater.names _ n (hnames n hvalue)
    · exact loadDeref_ok hr (hlater.cells r (hcells r hmem))
  · rw [hprepared.requirements] at hn
    rcases List.mem_append.1 hn with hn | hn
    · exact .inl (mem_distinctNames.1 hn)
    · exact .inr (globalReads_sound .functionBody _ (mem_distinctNames.1 hn))

/-- A function that makes one in which a global name is read that no module has. -/
def makingReader : String := "def f(n) \x7b def g() \x7b return step \x7d\n return g \x7d"

def stepMapping : NameMap := .ofList [("step", .int 1)]

/-- The wrapper with the mapping is ready, the second instruction of its body makes a function, and
the first instruction of that one asks for a global name. -/
def asksInside (f : FunctionValue) : Bool :=
  match Wrapped.ofFunction f [stepMapping] { mechanism := .transform } {} with
  | .error _ _ => false
  | .ok w s => w.environment.missing.isEmpty &&
    match w.runnable w.start.1 s with
    | .error _ _ => false
    | .ok v t =>
      match enterFunction v [.int 2] [] t with
      | .error _ _ => false
      | .ok f₀ t₀ =>
        match step f₀ t₀ with
        | .ok (.next f₁) t₁ =>
          match step f₁ t₁ with
          | .ok (.next f₂) t₂ =>
            f₁.code.object.instructions[f₁.pc]? == some (.makeFunction 0) &&
            match f₂.stack with
            | .function x :: _ =>
              match enterFunction x [] [] t₂ with
              | .error _ _ => false
              | .ok g _ => g.code.object.instructions[g.pc]? == some (.loadGlobal 0)
            | _ => false
          | _ => false
        | _ => false

theorem ready_calls_find_makingReader : ∃ f w s v t g u,
    firstFunction makingReader = some f ∧ f.code.object.Compiled ∧ Wraps f w ∧
    w.environment.missing = [] ∧ w.runnable w.start.1 s = .ok v t ∧ FrameOf v t g u ∧
    AsksGlobal g 0 ∧ Finds v g u := by
  have hasks : (firstFunction makingReader).any asksInside = true := by decide +kernel
  obtain ⟨f, hf, hasks⟩ := (Option.any_eq_true _ _).1 hasks
  unfold asksInside at hasks
  split at hasks
  · cases hasks
  rename_i w s hw
  rw [Bool.and_eq_true, List.isEmpty_iff] at hasks
  obtain ⟨hmissing, hasks⟩ := hasks
  split at hasks
  · cases hasks
  rename_i v t hrun
  split at hasks
  · cases hasks
  rename_i f₀ t₀ hentered
  split at hasks
  case h_2 => cases hasks
  rename_i f₁ t₁ hfirst
  split at hasks
  case h_2 => cases hasks
  rename_i f₂ t₂ hsecond
  rw [Bool.and_eq_true, beq_iff_eq] at hasks
  obtain ⟨hmakes, hasks⟩ := hasks
  split at hasks
  case h_2 => cases hasks
  rename_i x rest hstack
  split at hasks
  · cases hasks
  rename_i g u hinner
  have hcompiled := compiled_firstFunction hf
  have hwraps : Wraps f w := .function hw
  have hcourse : Course f₀ t₀ [.turn .nothing t₁ t₁] f₁ t₁ := .turn (n := 0) hfirst rfl .here
  have hframe : FrameOf v t g u :=
    .made (.own ⟨t, t₀, .refl t, .inl ⟨_, _, hentered⟩, .refl t₀⟩) hcourse
      (List.forall_mem_singleton.2 trivial) ⟨0, f₂, rest, hmakes, hsecond, hstack⟩
      ⟨t₂, u, .refl t₂, .inl ⟨_, _, hinner⟩, .refl u⟩
  exact ⟨f, w, s, v, t, g, u, hf, hcompiled, hwraps, hmissing, hrun, hframe, .inl (beq_iff_eq.1 hasks),
    (ready_calls_find hcompiled hwraps).1 hmissing hrun hframe .here (by simp)⟩

/-- A module whose function makes a class that reads a global name and stores one of that name
after. -/
def readingBeforeStore : String :=
  "x = 5\ndef f() \x7b class K \x7b y = x\nx = 1 \x7d\nreturn K.y \x7d"

/-- The function `f` of a module after it was loaded, and the store. -/
def loadedFunction (source : String) : Option (FunctionValue × Store) :=
  match Machine.load 100 source "sample" {} with
  | (.ok m, s) =>
    match s.lookup m.globals "f" with
    | some (.function f) => some (f, s)
    | _ => none
  | (.error _, _) => none

def givesDirectly (n : Int64) (f : FunctionValue) (s : Store) : Bool :=
  match Machine.callFunction 100 f [] [] s with
  | .ok (.int m) _ => m == n
  | _ => false

/-- The function has a wrapper without missing names, and the call of that fails with the kind of
exception. -/
def failsWhenWrapped (m : Mechanism) (kind : ExceptionKind) (f : FunctionValue) (s : Store) :
    Bool :=
  match Wrapped.ofFunction f [] { mechanism := m } s with
  | .error _ _ => false
  | .ok w t => w.isReady &&
    match w.call 100 [] [] t with
    | .error (.body (.raised e)) _ => e.kind == kind
    | _ => false

/-- A name that the body of a class reads before it stores it is not required. So a wrapper that
needs nothing more may fail where the function itself does not. -/
theorem ready_call_fails : ∃ f s, loadedFunction readingBeforeStore = some (f, s) ∧
    givesDirectly 5 f s ∧ ∀ m, failsWhenWrapped m .nameError f s := by
  have hloaded : (loadedFunction readingBeforeStore).any (fun p => givesDirectly 5 p.1 p.2 &&
      (failsWhenWrapped .transform .nameError p.1 p.2 &&
        failsWhenWrapped .trace .nameError p.1 p.2)) = true := by decide +kernel
  obtain ⟨⟨f, s⟩, hf, hcalls⟩ := (Option.any_eq_true _ _).1 hloaded
  rw [Bool.and_eq_true, Bool.and_eq_true] at hcalls
  obtain ⟨hdirect, htransform, htrace⟩ := hcalls
  refine ⟨f, s, hf, hdirect, fun m => ?_⟩
  cases m with
  | transform => exact htransform
  | trace => exact htrace

end Lexiscope.Capture
