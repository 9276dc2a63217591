import Lexiscope.Proofs.Capture.Readiness
import Lexiscope.Proofs.Machine.Offspring
/-!
# Calls that are isolated

Every call of a wrapper runs on a namespace and cells of its own, which hold what the environment of the
wrapper holds. Its frames, and those of all that is made in them, write nothing that was there before
the call but attributes; and no use of wrappers and streams changes a wrapper.
-/

namespace Lexiscope.Capture

open Machine Machine.Likeness

/-- The code of the function carries a compiled body, and the function shares no cell and no namespace
with an old store. -/
structure Detached (old : Store) (x : FunctionValue) : Prop where
  body : ∃ c, Carries c x.code ∧ c.object.Compiled
  globals : old.spaces.size ≤ x.globals.index
  closure : ∀ r ∈ x.closure, old.cells.size ≤ r.index

section Frames

variable {old s t u w : Store} {v x y : FunctionValue} {f g : Frame}

theorem Detached.beyond (h : Detached old x) (hs : old.Grows s) (hreaches : Reaches x s g w) :
    old.Grows w ∧ g.Beyond old := by
  obtain ⟨s', f, t, t', es, hs', hopened, ht', hcourse, hes⟩ := hreaches
  obtain ⟨ht, -, hcells, hglobals, hspace⟩ := hopened.spares (hs.trans hs') h.globals h.closure
  have hsame := hcourse.sameBody
  refine ⟨(ht.trans ht').trans (hcourse.grows hes), ?_, ?_, ?_⟩
  · rw [hsame.cells]
    exact hcells
  · rw [hsame.globals]
    exact hglobals
  · rw [hsame.classSpace]
    exact hspace

/-- A function that is made in a frame of a compiled body has cells of that frame only. -/
theorem Carries.makesOf {c : LoadedCode} {es : List Event} (h : Carries c f.code)
    (hc : c.object.Compiled) (hstack : f.stack = []) (hpc : f.pc = 0) (hcourse : Course f s es g t)
    (hmakes : Makes g t y u) : ∀ r ∈ y.closure, r ∈ f.cells := by
  cases hc.sound with
  | mk layout hlaid =>
    have hf : ReadsBody (MadeOf f.cells) c layout f := by
      intro _
      rw [hstack, hpc, hlaid.start]
      exact .nil
    have hg := h.readsBody_course (reading_madeOf f.cells) (fun r hr => ⟨r, hr, rfl⟩) hcourse hlaid hf
    have hsame := hcourse.sameBody
    rw [← hsame.code] at h
    rw [← hsame.cells] at hg ⊢
    obtain ⟨bits, _, _, hi, -⟩ := id hmakes
    rcases h.instruction hi with ⟨hi', -⟩ | ⟨hcapturing, -⟩
    · have hkinds := hg (Array.getElem?_eq_some_iff.1 hi').1
      exact hmakes.closure hkinds hi (hlaid.instruction _ _ hi')
    · exact hcapturing.elim

theorem Detached.made (h : Detached old x) (hs : old.Grows s) (hreaches : Reaches x s g w)
    (hmakes : Makes g w y u) : Detached old y ∧ old.Grows u := by
  obtain ⟨hw, hbeyond⟩ := h.beyond hs hreaches
  obtain ⟨s', f, t, t', es, hs', hopened, ht', hcourse, hes⟩ := hreaches
  obtain ⟨c, hcarries, hcompiled⟩ := h.body
  have hnew := hopened.isNew
  rw [← hnew.code] at hcarries
  have hpooled := hcarries.makes hcompiled hnew.stack hnew.pc hcourse hmakes
  have hclosure := hcarries.makesOf hcompiled hnew.stack hnew.pc hcourse hmakes
  have hglobals := hmakes.made.2.1
  obtain ⟨bits, g', rest, hi, hstep, hg'⟩ := hmakes
  refine ⟨⟨⟨y.code, .inl rfl, .inner hcompiled hpooled⟩, ?_, ?_⟩, hw.trans (grows_of_step hstep)⟩
  · rw [hglobals]
    exact hbeyond.globals
  · intro r hr
    apply hbeyond.cells
    rw [hcourse.sameBody.cells]
    exact hclosure r hr

theorem Detached.offspring (h : Detached old v) (hs : old.Grows s) (hx : Offspring v s x t) :
    Detached old x ∧ old.Grows t := by
  induction hx with
  | self => exact ⟨h, hs⟩
  | made _ hreaches hmakes ih => exact ih.1.made ih.2 hreaches hmakes

end Frames

/-- The namespace and the cells of the function are there. -/
structure Lives (f : FunctionValue) (s : Store) : Prop where
  globals : f.globals.index < s.spaces.size
  closure : ∀ r ∈ f.closure, r.index < s.cells.size

/-- What a host has: wrappers, the streams that calls of them gave, and a store. -/
structure Shelf where
  wrappers : List Wrapped
  streams : List Stream
  store : Store

namespace Shelf

def call (h : Shelf) (w : Wrapped) (n : Nat) (args : List Value) (keywords : Keywords) : Shelf :=
  match w.call n args keywords h.store with
  | .ok (.stream g) s => { h with streams := h.streams ++ [g], store := s }
  | .ok (.scope _) s | .error _ s => { h with store := s }

def draw (h : Shelf) (j n : Nat) : Shelf :=
  match h.streams[j]? with
  | none => h
  | some g =>
    match g.next n h.store with
    | .ok (_, g) s => { h with streams := h.streams.set j g, store := s }
    | .error _ s => { h with store := s }

def rewrap (h : Shelf) (w : Wrapped) (mappings : List NameMap) (options : Options) : Shelf :=
  match w.rewrap mappings options h.store with
  | .ok w s => { h with wrappers := h.wrappers ++ [w], store := s }
  | .error _ s => { h with store := s }

/-- Wrappers are called and made from others, streams go on, and other code runs in the store. -/
inductive Uses : Shelf → Shelf → Prop where
  | call {h w n args keywords} : w ∈ h.wrappers → Uses h (h.call w n args keywords)
  | draw {h j n} : Uses h (h.draw j n)
  | rewrap {h w mappings options} : w ∈ h.wrappers → Uses h (h.rewrap w mappings options)
  | other {h s} : h.store.Grows s → Uses h { h with store := s }

end Shelf

/-- The store after a computation of the capture, however it ended. -/
def Engine.after {α : Type} (x : Engine α) (s : Store) : Store :=
  match x s with
  | .ok _ t | .error _ t => t

def Engine.Growing {α : Type} (x : Engine α) : Prop := ∀ s : Store, s.Grows (x.after s)

section Growing

variable {α β : Type}

theorem growing_bind {x : Engine α} {k : α → Engine β} (hx : x.Growing) (hk : ∀ a, (k a).Growing) :
    Engine.Growing (x >>= k) := by
  intro s
  have hstart := hx s
  unfold Engine.after at hstart ⊢
  change s.Grows (match EStateM.bind x k s with | .ok _ t | .error _ t => t)
  unfold EStateM.bind
  cases h : x s with
  | ok a t =>
    rw [h] at hstart
    exact hstart.trans (hk a t)
  | error e t =>
    rw [h] at hstart
    exact hstart

theorem growing_pure (a : α) : Engine.Growing (pure a : Engine α) := fun s => .refl s

theorem growing_throw (e : CaptureError) : Engine.Growing (throw e : Engine α) := fun s => .refl s

theorem growing_get : Engine.Growing (get : Engine Store) := fun s => .refl s

theorem growing_settle (x : Except CaptureError α) : (Engine.settle x).Growing := by
  cases x with
  | ok a => exact growing_pure a
  | error e => exact growing_throw e

theorem growing_ofExec {x : Exec α} (h : Change.growing.Allows x) : (Engine.ofExec x).Growing := by
  intro s
  have hstep := h.after s
  unfold Exec.after at hstep
  unfold Engine.after Engine.ofExec
  cases hx : x s with
  | ok a t | error e t =>
    rw [hx] at hstep
    exact hstep

instance growing_runnable {w : Wrapped} {d : LoadedCode} : Change.growing.Allows (w.runnable d) := by
  have hcalm : Change.calm.Allows (w.runnable d) := by
    unfold Wrapped.runnable
    infer_instance
  exact hcalm.mono fun _ _ => Store.Calm.grows

instance growing_during {p : Probe} {forwards : Bool} {x : Exec α} [hx : Change.growing.Allows x] :
    Change.growing.Allows (p.during forwards x) := by
  constructor
  intro s
  have henter : s.Grows (p.enter forwards s) := by
    cases p with
    | transform marker => exact .refl s
    | trace target frame locals => exact ⟨Nat.le_refl _, Nat.le_refl _⟩
  have hleave : ∀ u : Store, u.Grows (p.leave u) := by
    intro u
    cases p with
    | transform marker => exact .refl u
    | trace target frame locals => exact ⟨Nat.le_refl _, Nat.le_refl _⟩
  have hrun := Probe.during_run p forwards x s
  have hstep := hx.after (p.enter forwards s)
  unfold Exec.after at hstep ⊢
  rw [hrun]
  cases h : x (p.enter forwards s) with
  | ok a u | error e u =>
    rw [h] at hstep
    exact (henter.trans hstep).trans (hleave u)

theorem growing_call (w : Wrapped) (n : Nat) (args : List Value) (keywords : Keywords) :
    (w.call n args keywords).Growing := by
  have hfunction := (growing_steady.runsAt n).callFunction
  unfold Wrapped.call
  split
  dsimp only
  split
  · exact fun s => .refl s
  refine growing_bind (growing_ofExec inferInstance) fun ⟨outcome, probe⟩ => ?_
  dsimp only
  split
  · exact growing_throw _
  split
  · exact growing_pure _
  · exact growing_bind growing_get fun s => growing_bind (growing_settle _) fun view => growing_pure _

theorem growing_rewrap (w : Wrapped) (mappings : List NameMap) (options : Options) :
    (w.rewrap mappings options).Growing := by
  have hmake : ∀ code mechanism reach, (Plan.make code mechanism reach).Growing := by
    intro code mechanism reach
    refine growing_bind (growing_settle _) fun _ => ?_
    cases mechanism with
    | trace => exact growing_pure _
    | transform =>
      refine growing_bind (growing_ofExec inferInstance) fun _ => ?_
      refine growing_bind (growing_settle _) fun _ => ?_
      exact growing_bind (growing_ofExec inferInstance) fun _ => growing_pure _
  have hassemble : ∀ plan, (Wrapped.assemble w.function w.requirements plan (some w.environment)
      mappings options).Growing :=
    fun plan => growing_bind growing_get fun s => growing_pure _
  unfold Wrapped.rewrap
  split
  · exact hassemble _
  · exact growing_bind (hmake _ _ _) hassemble

instance growing_next {g : Stream} {n : Nat} : Change.growing.Allows (g.next n) := by
  have hresume := (growing_steady.runsAt n).resume g.generator
  unfold Stream.next
  split
  · exact allows_pure
  refine growing_during.bind fun ⟨outcome, probe⟩ => ?_
  dsimp only
  split <;> infer_instance

end Growing

namespace Shelf

theorem call_keeps (h : Shelf) (w : Wrapped) (n : Nat) (args : List Value) (keywords : Keywords) :
    (h.call w n args keywords).wrappers = h.wrappers ∧
      h.store.Grows (h.call w n args keywords).store := by
  have hgrows := growing_call w n args keywords h.store
  unfold Engine.after at hgrows
  unfold call
  split <;> rename_i hcall <;> rw [hcall] at hgrows <;> exact ⟨rfl, hgrows⟩

theorem draw_keeps (h : Shelf) (j n : Nat) :
    (h.draw j n).wrappers = h.wrappers ∧ h.store.Grows (h.draw j n).store := by
  unfold draw
  split
  · exact ⟨rfl, .refl _⟩
  rename_i g _
  have hgrows : h.store.Grows ((g.next n).after h.store) := growing_next.after h.store
  unfold Exec.after at hgrows
  split <;> rename_i hnext <;> rw [hnext] at hgrows <;> exact ⟨rfl, hgrows⟩

theorem rewrap_keeps (h : Shelf) (w : Wrapped) (mappings : List NameMap) (options : Options) :
    h.wrappers <+: (h.rewrap w mappings options).wrappers ∧
      h.store.Grows (h.rewrap w mappings options).store := by
  have hgrows := growing_rewrap w mappings options h.store
  unfold Engine.after at hgrows
  unfold rewrap
  split <;> rename_i hrewrap <;> rw [hrewrap] at hgrows
  · exact ⟨List.prefix_append _ _, hgrows⟩
  · exact ⟨List.prefix_rfl, hgrows⟩

/-- Nothing that is done with wrappers and streams takes a wrapper away or puts another one in its
place. -/
theorem Uses.keeps {a b : Shelf} (h : Uses a b) : a.wrappers <+: b.wrappers ∧ a.store.Grows b.store := by
  cases h with
  | call =>
    obtain ⟨hwrappers, hgrows⟩ := call_keeps _ _ _ _ _
    exact ⟨hwrappers ▸ List.prefix_rfl, hgrows⟩
  | draw =>
    obtain ⟨hwrappers, hgrows⟩ := draw_keeps _ _ _
    exact ⟨hwrappers ▸ List.prefix_rfl, hgrows⟩
  | rewrap => exact rewrap_keeps _ _ _ _
  | other hgrows => exact ⟨List.prefix_rfl, hgrows⟩

end Shelf

/-- A call of the wrapper in the store runs a function that was made for it, with the bindings of the
wrapper's environment and none of the cells and namespaces that were there, those of the wrapped
function among them. These are as they were whenever a frame of the function, or of one that comes of
it, is made or does an instruction, except that an instruction may set an attribute. -/
structure Isolated (w : Wrapped) (f : FunctionValue) (s : Store) (v : FunctionValue) (t : Store) :
    Prop where
  runs : ∀ n args keywords, w.isReady = true →
    w.call n args keywords s = w.concluded (callFunction n v args keywords t)
  globals : t.space v.globals = w.environment.globals
  closure : List.Forall₂ (fun n r => t.cell r = w.environment.cells.get? n)
    f.code.object.freevars v.closure
  lives : Lives f s
  made : s.Spares none s t
  entered : ∀ {x u u' g u''}, Offspring v t x u → u.Grows u' → Opened x u' g u'' →
    s.Spares none u' u''
  stepped : ∀ {x u g u'}, Offspring v t x u → Reaches x u g u' →
    s.Spares g.mutates? u' ((step g).after u')

section Calls

variable {f : FunctionValue} {w : Wrapped} {s t : Store} {d : LoadedCode} {v : FunctionValue}

instance sparing_runnable {old : Store} {exempt : Option SpaceRef} :
    (Change.sparing old exempt).Allows (w.runnable d) := by
  unfold Wrapped.runnable
  infer_instance

theorem Prepared.isolated (hw : Prepared f w) (hf : f.code.object.Compiled) (hlives : Lives f s) :
    ∃ v t, Isolated w f s v t := by
  obtain ⟨u, hu, hcells, hspaces⟩ : ∃ u, u = w.start.2.enter true s ∧ u.cells = s.cells ∧
      u.spaces = s.spaces := by
    refine ⟨_, rfl, ?_⟩
    cases w.start.2 <;> exact ⟨rfl, rfl⟩
  have hrun := runnable_eq w w.start.1 u
  have hgrows : s.Grows u := .of_eq hcells hspaces
  have hmade : (Change.sparing s none).rel u (w.prepares u) := sparing_runnable.ok hrun
  obtain ⟨hprepared, hspares⟩ := hmade hgrows
  have hdetached : Detached s (w.launches w.start.1 u) :=
    ⟨⟨f.code, hw.carries, hf⟩, hgrows.spaces, fun r hr =>
      Nat.le_trans hgrows.cells (le_of_mem_nextCells hr)⟩
  refine ⟨w.launches w.start.1 u, w.prepares u, ?_, space_prepares w u, ?_, hlives, ?_, ?_, ?_⟩
  · intro n args keywords hready
    rw [call_run hready, ← hu, Wrapped.body, bind_ok hrun]
  · rw [← hw.function]
    exact closure_prepares w u
  · exact (Store.Spares.of_eq hcells hspaces).trans hspares
  · intro x u₁ u₂ g u₃ hx hu₂ hopened
    obtain ⟨hx, hu₁⟩ := hdetached.offspring hprepared hx
    exact (hopened.spares (hu₁.trans hu₂) hx.globals hx.closure).2.1
  · intro x u₁ g u₂ hx hreaches
    obtain ⟨hx, hu₁⟩ := hdetached.offspring hprepared hx
    obtain ⟨hu₂, hg⟩ := hx.beyond hu₁ hreaches
    exact hg.step hu₂

end Calls

/-- Whatever is done with the wrappers that a host has, and with the streams that their calls gave, and
whatever else runs meanwhile: a wrapper of a compiled function is what it was when it was made, and a
call of it is isolated. It starts with the bindings of the wrapper's environment, and neither its frames
nor those of anything that is made in them at any depth write the namespace or the cells of the
wrapped function, or any others that were there before the call. -/
theorem calls_isolated {f : FunctionValue} {w : Wrapped} (hf : f.code.object.Compiled)
    (hw : Wraps f w) {h h' : Shelf} {i : Nat} (hmem : h.wrappers[i]? = some w)
    (hlives : Lives f h.store) (huses : Relation.ReflTransGen Shelf.Uses h h') :
    h'.wrappers[i]? = some w ∧ ∃ v t, Isolated w f h'.store v t := by
  have hprepared := hw.prepared (loadsInPool_of_sound hf.sound)
  suffices hkept : h.wrappers <+: h'.wrappers ∧ h.store.Grows h'.store by
    obtain ⟨⟨more, hmore⟩, hgrows⟩ := hkept
    refine ⟨?_, hprepared.isolated hf ⟨?_, fun r hr => ?_⟩⟩
    · rw [← hmore, List.getElem?_append_left (List.getElem?_eq_some_iff.1 hmem).1]
      exact hmem
    · exact Nat.lt_of_lt_of_le hlives.globals hgrows.spaces
    · exact Nat.lt_of_lt_of_le (hlives.closure r hr) hgrows.cells
  induction huses with
  | refl => exact ⟨List.prefix_rfl, .refl _⟩
  | tail _ huse ih =>
    obtain ⟨hwrappers, hgrows⟩ := ih
    obtain ⟨hwrappers', hgrows'⟩ := huse.keeps
    exact ⟨hwrappers.trans hwrappers', hgrows.trans hgrows'⟩

/-- A function that writes a global name, and a cell through a function that it makes. -/
def writingOutside : String :=
  "def f(n) \x7b global total\n total = n\n k = n\n def g() \x7b nonlocal k\n k = total \x7d\n g()\n " ++
    "return k \x7d"

def oneSpace : Store := { spaces := #[.empty] }

def totalMapping : NameMap := .ofList [("total", .int 0)]

/-- A call of a wrapper gives a scope, and leaves the global name without a value. -/
def keepsOutside (f : FunctionValue) : Bool :=
  match Wrapped.ofFunction f [totalMapping] { mechanism := .transform } oneSpace with
  | .error _ _ => false
  | .ok w s => decide (f.globals.index < s.spaces.size) && f.closure.isEmpty &&
    match w.call 60 [.int 1] [] s with
    | .ok (.scope _) t => (t.lookup f.globals "total").isNone
    | _ => false

theorem calls_isolated_writingOutside : ∃ f w s h, firstFunction writingOutside = some f ∧
    f.code.object.Compiled ∧ Wraps f w ∧ Lives f s ∧
    h = Shelf.call ⟨[w], [], s⟩ w 60 [.int 1] [] ∧ Relation.ReflTransGen Shelf.Uses ⟨[w], [], s⟩ h ∧
    h.store.lookup f.globals "total" = none ∧ h.wrappers[0]? = some w ∧
    ∃ v t, Isolated w f h.store v t := by
  have hkeeps : (firstFunction writingOutside).any keepsOutside = true := by decide +kernel
  obtain ⟨f, hf, hkeeps⟩ := (Option.any_eq_true _ _).1 hkeeps
  unfold keepsOutside at hkeeps
  split at hkeeps
  · cases hkeeps
  rename_i w s hw
  rw [Bool.and_eq_true, Bool.and_eq_true, decide_eq_true_iff, List.isEmpty_iff] at hkeeps
  obtain ⟨⟨hglobals, hclosure⟩, hcalled⟩ := hkeeps
  split at hcalled
  case h_2 => cases hcalled
  rename_i view t hcall
  have hcompiled := compiled_firstFunction hf
  have hwraps : Wraps f w := .function hw
  have hlives : Lives f s := ⟨hglobals, by simp [hclosure]⟩
  have huses : Relation.ReflTransGen Shelf.Uses ⟨[w], [], s⟩ (Shelf.call ⟨[w], [], s⟩ w 60 [.int 1] []) :=
    .single (.call List.mem_cons_self)
  have hstore : (Shelf.call ⟨[w], [], s⟩ w 60 [.int 1] []).store = t := by
    unfold Shelf.call
    rw [hcall]
  have hisolated := calls_isolated hcompiled hwraps (i := 0) rfl hlives huses
  refine ⟨f, w, s, _, hf, hcompiled, hwraps, hlives, rfl, huses, ?_, hisolated⟩
  rw [hstore]
  exact Option.isNone_iff_eq_none.1 hcalled

end Lexiscope.Capture
