import Lexiscope.Proofs.Code.Compiled
import Lexiscope.Proofs.Capture.Mechanisms
/-!
# The two mechanisms agree

For compiled code it makes no difference to a program, and none to the scope that is captured,
whether the body is instrumented or watched.
-/

namespace Lexiscope.Capture

open Machine

theorem loadsInPool_of_sound {c : Code.Object} (h : c.Sound) : LoadsInPool c := by
  intro k hk
  obtain ⟨pc, hpc⟩ := Array.mem_iff_getElem?.1 hk
  cases h with
  | mk stack hlaid =>
    obtain ⟨_, _, -, -, d, _, hd, -⟩ := hlaid.instruction pc _ hpc
    exact (Array.getElem?_eq_some_iff.1 hd).1

theorem SameCall.mono {p q : Stream → Store → Stream → Store → Prop}
    {x y : EStateM.Result CaptureError Store Outcome} (h : SameCall p x y)
    (hpq : ∀ g s h t, p g s h t → q g s h t) : SameCall q x y := by
  cases h with
  | scope hview heffects => exact .scope hview heffects
  | stream hstreams => exact .stream (hpq _ _ _ _ hstreams)
  | error hclean heffects => exact .error hclean heffects

/-- Of a compiled function one wrapper instruments the body and one watches it, with the same
mappings and options, and both are made while cells and namespaces hold the same. From any store
and with any arguments the two give the same scope, or the same error, or streams that go on the
same way; they have the same effects, and no error says that a scope was missing. -/
theorem mechanisms_agree {f : FunctionValue} (hcompiled : f.code.object.Compiled)
    {mappings : List NameMap} {o : Options} {w w' : Wrapped} {s s' t t' : Store}
    (hcells : s'.cells = s.cells) (hspaces : s'.spaces = s.spaces)
    (hw : Wrapped.ofFunction f mappings { o with mechanism := .transform } s = .ok w t)
    (hw' : Wrapped.ofFunction f mappings { o with mechanism := .trace } s' = .ok w' t')
    (args : List Value) (keywords : Keywords) (u : Store) :
    EndAlike (SameCall SameStream) CallRanOut CallRanOut (fun n => w.call n args keywords u)
      (fun n => w'.call n args keywords u) := by
  have hsound := hcompiled.sound
  obtain ⟨d, marker, hcounterparts⟩ :=
    counterparts_ofFunction (loadsInPool_of_sound hsound) hcells hspaces hw hw'
  have hfunction : w'.function = f := by
    obtain ⟨_, _, -, rfl⟩ := ofFunction_ok hw'
    rfl
  have hends := call_endAlike hcounterparts (hfunction ▸ hsound.closed) args keywords u
  exact hends.map (fun _ h => h) (fun _ h => h) fun _ _ h =>
    h.mono fun _ _ _ _ htwins => htwins.sameStream

def firstFunction (source : String) : Option FunctionValue :=
  match Grammar.parse source with
  | .ok body =>
    match Code.compile body "sample" with
    | .ok c =>
      match (c.constants[0]? : Option (Code.Constant Code.Object)) with
      | some (.code d) => some ⟨.fresh 0, ⟨.unit 0, .unit 0, d⟩, ⟨0⟩, [], .empty, []⟩
      | _ => none
    | .error _ => none
  | .error _ => none

theorem compiled_firstFunction {source : String} {f : FunctionValue}
    (h : firstFunction source = some f) : f.code.object.Compiled := by
  unfold firstFunction at h
  split at h
  · rename_i body hparse
    split at h
    · rename_i c hcompile
      split at h
      · rename_i d hd
        cases h
        exact .inner (.unit hparse hcompile) (Array.mem_of_getElem? hd)
      · cases h
    · cases h
  · cases h

def leavingLoop : String := "def f(n) { for i in [1, 2] { if n { return i } } }"

def canWrap (m : Mechanism) (f : FunctionValue) : Bool :=
  match Wrapped.ofFunction f [] { mechanism := m } {} with
  | .ok _ _ => true
  | .error _ _ => false

theorem ofFunction_of_canWrap {m : Mechanism} {f : FunctionValue} (h : canWrap m f = true) :
    ∃ w t, Wrapped.ofFunction f [] { mechanism := m } {} = .ok w t := by
  unfold canWrap at h
  split at h
  · exact ⟨_, _, by assumption⟩
  · cases h

theorem mechanisms_agree_leavingLoop : ∃ f w w' t t',
    firstFunction leavingLoop = some f ∧
    Wrapped.ofFunction f [] { mechanism := .transform } {} = .ok w t ∧
    Wrapped.ofFunction f [] { mechanism := .trace } {} = .ok w' t' ∧
    EndAlike (SameCall SameStream) CallRanOut CallRanOut (fun n => w.call n [.int 1] [] {})
      (fun n => w'.call n [.int 1] [] {}) := by
  have hmade : (firstFunction leavingLoop).any
      (fun f => canWrap .transform f && canWrap .trace f) = true := by decide +kernel
  obtain ⟨f, hf, hwraps⟩ := (Option.any_eq_true _ _).1 hmade
  rw [Bool.and_eq_true] at hwraps
  obtain ⟨w, t, hw⟩ := ofFunction_of_canWrap hwraps.1
  obtain ⟨w', t', hw'⟩ := ofFunction_of_canWrap hwraps.2
  exact ⟨f, w, w', t, t', hf, hw, hw', mechanisms_agree (o := { mechanism := .trace })
    (compiled_firstFunction hf) rfl rfl hw hw' [.int 1] [] {}⟩

end Lexiscope.Capture
