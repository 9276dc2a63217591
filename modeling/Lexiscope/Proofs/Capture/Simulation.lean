import Lexiscope.Capture.Probe
import Lexiscope.Capture.Instrumented
import Lexiscope.Proofs.Machine.Course
/-!
# Instrumented bodies do what the bodies do

No instruction moves, and a return jumps to the tail, so that the course of an instrumented body
is that of the body up to the return. There the tail takes over.
-/

namespace Lexiscope.Capture

open Code (Instr Object Marker)
open Machine Machine.Likeness

def LoadsInPool (c : Object) : Prop :=
  ∀ k, .loadConst k ∈ c.instructions → k < c.constants.size

/-- The second code is the first one instrumented, and shares its pool of constants. -/
structure Instruments (c d : LoadedCode) (marker : Marker) : Prop where
  pool : d.pool = c.pool
  object : d.object = { c.object with
    instructions := c.object.instructions.mapIdx (redirect c.object.instructions.size) ++
      captureTail c.object.constants.size
    constants := c.object.constants.push (.marker marker) }
  loads : LoadsInPool c.object

theorem instrument_ok {c d : Object} {marker : Marker} {reach : Nat}
    (h : instrument c marker reach = .ok d) :
    d = { c with
      instructions := c.instructions.mapIdx (redirect c.instructions.size) ++
        captureTail c.constants.size
      constants := c.constants.push (.marker marker) } := by
  unfold instrument at h
  dsimp only at h
  split at h
  · cases h
  · cases h
    rfl

namespace Instruments

variable {c d : LoadedCode} {marker : Marker} (h : Instruments c d marker)

include h

theorem samePools : c.SamePools d := by
  have ho := h.object
  exact ⟨h.pool, by rw [ho], by rw [ho], by rw [ho], by rw [ho], by rw [ho]⟩

theorem instruction {pc : Nat} {i : Instr} (hi : c.object.instructions[pc]? = some i) :
    d.object.instructions[pc]? = some (redirect c.object.instructions.size pc i) := by
  obtain ⟨hpc, -⟩ := Array.getElem?_eq_some_iff.1 hi
  rw [h.object, Array.getElem?_append_left (by simpa using hpc), Array.getElem?_mapIdx, hi]
  rfl

theorem kept {pc : Nat} {i : Instr} (hi : c.object.instructions[pc]? = some i)
    (hne : i ≠ .returnValue) : d.object.instructions[pc]? = some i := by
  rw [h.instruction hi, redirect, if_neg hne]

theorem tail (k : Nat) :
    d.object.instructions[c.object.instructions.size + k]? =
      (captureTail c.object.constants.size)[k]? := by
  rw [h.object, Array.getElem?_append_right (by simp)]
  simp

theorem constant {pc k : Nat} (hi : c.object.instructions[pc]? = some (.loadConst k)) :
    d.object.constants[k]? = c.object.constants[k]? := by
  have hk := h.loads k (Array.mem_of_getElem? hi)
  rw [h.object, Array.getElem?_push, if_neg (by omega)]

theorem markerConstant :
    d.object.constants[c.object.constants.size]? = some (.marker marker) := by
  rw [h.object, Array.getElem?_push, if_pos rfl]

end Instruments

section Returns

variable {f : Frame}

theorem step_returns (hi : f.code.object.instructions[f.pc]? = some .returnValue) {v : Value}
    {rest : List Value} (hs : f.stack = v :: rest) (s : Store) :
    step f s = .ok (.returned v { f with stack := rest, pc := f.pc + 1 }) s := by
  unfold step
  rw [hi]
  simp only [perform, Frame.pop, hs]
  rfl

theorem step_underflow (hi : f.code.object.instructions[f.pc]? = some .returnValue)
    (hs : f.stack = []) (s : Store) :
    step f s = .error (.raised {
      kind := .runtimeError, message := "value stack underflow", isInternal := true }) s := by
  unfold step
  rw [hi]
  simp only [perform, Frame.pop, hs]
  rfl

theorem step_return {s u : Store} {a : Action}
    (hi : f.code.object.instructions[f.pc]? = some .returnValue) (ha : step f s = .ok a u) :
    ∃ v rest, f.stack = v :: rest ∧ u = s ∧
      a = .returned v { f with stack := rest, pc := f.pc + 1 } := by
  cases hs : f.stack with
  | nil =>
    rw [step_underflow hi hs] at ha
    cases ha
  | cons v rest =>
    rw [step_returns hi hs] at ha
    cases ha
    exact ⟨v, rest, rfl, rfl, rfl⟩

theorem returns_of_step {s u : Store} {v : Value} {g : Frame}
    (h : step f s = .ok (.returned v g) u) :
    f.code.object.instructions[f.pc]? = some .returnValue := by
  obtain ⟨i, hi, -, hdoes⟩ := performs_of_step h
  rw [hi, eq_return_of_does hdoes]

end Returns

section Kept

variable {f : Frame} {d : LoadedCode} {marker : Marker} (h : Instruments f.code d marker)

include h

theorem follows_kept {i : Instr} (hi : f.code.object.instructions[f.pc]? = some i)
    (hne : i ≠ .returnValue) :
    same.Follows (fun a b => b = a.withCode d ∧ same.Acts f.code a) (step f)
      (step (f.withCode d)) := by
  refine loose_step same_steady.toLawful h.samePools hi (h.kept hi hne) fun k hk => ?_
  rw [hk] at hi
  exact h.constant hi

theorem goes_kept {n : Nat} {s u v : Store} {a : Action} {g : Frame}
    (hstep : step f s = .ok a u) (hact : act n a u = .ok (.goes g) v) :
    step (f.withCode d) s = .ok (a.withCode d) u ∧
      act n (a.withCode d) u = .ok (.goes (g.withCode d)) v ∧ g.code = f.code := by
  cases hi : f.code.object.instructions[f.pc]? with
  | none =>
    simp only [step, hi] at hstep
    cases hstep
  | some i =>
    have hne : i ≠ .returnValue := by
      rintro rfl
      obtain ⟨x, rest, -, -, rfl⟩ := step_return hi hstep
      cases hact
    obtain ⟨b, hb, rfl, hacts⟩ := (follows_kept h hi hne).ok_same hstep
    have hturn := tries_act d same_steady.toLawful (same_steady.runsAt (Nat.le_refl n)) hacts
    obtain ⟨y, hy, rfl, hgoes⟩ := hturn.ok_same hact fun hspent => hspent
    exact ⟨hb, hy, hgoes.2⟩

theorem yields_kept {v : Value} {s u : Store} {g : Frame}
    (hstep : step f s = .ok (.yielded v g) u) :
    step (f.withCode d) s = .ok (.yielded v (g.withCode d)) u ∧ g.code = f.code := by
  cases hi : f.code.object.instructions[f.pc]? with
  | none =>
    simp only [step, hi] at hstep
    cases hstep
  | some i =>
    have hne : i ≠ .returnValue := by
      rintro rfl
      obtain ⟨x, rest, -, -, hx⟩ := step_return hi hstep
      cases hx
    obtain ⟨b, hb, rfl, hacts⟩ := (follows_kept h hi hne).ok_same hstep
    exact ⟨hb, hacts.2⟩

end Kept

theorem course_kept {f g : Frame} {s t : Store} {es : List Event} {d : LoadedCode}
    {marker : Marker} (h : Instruments f.code d marker) (hcourse : Course f s es g t) :
    Course (f.withCode d) s es (g.withCode d) t ∧ g.code = f.code := by
  induction hcourse with
  | here => exact ⟨.here, rfl⟩
  | @turn f s a u n g v es h' w hstep hact _ ih =>
    obtain ⟨hstep', hact', hcode⟩ := goes_kept h hstep hact
    obtain ⟨hrest, hcode'⟩ := ih (hcode ▸ h)
    have hrequest : (a.withCode d).request = a.request := by cases a <;> rfl
    exact ⟨hrequest ▸ .turn hstep' hact' hrest, hcode'.trans hcode⟩
  | @yield f s x g u t es h' w hstep _ ih =>
    obtain ⟨hstep', hcode⟩ := yields_kept h hstep
    have hcode' : (g.push .none).code = f.code := hcode
    obtain ⟨hrest, hcode''⟩ := ih (hcode' ▸ h)
    exact ⟨.yield hstep' hrest, hcode''.trans hcode'⟩

section Tail

/-- A dictionary with the names was added to the store, for which new numbers were given. -/
def Snapshots (names : NameMap) (s t : Store) : Prop :=
  ∃ entries next, t = { s with dicts := s.dicts.push ⟨entries⟩, next } ∧ s.next ≤ next ∧
    Probe.namesOf entries = some names.entries

theorem dictOfNames_run (names : NameMap) (s : Store) :
    ∃ entries next, Exec.dictOfNames names s = .ok ⟨entries⟩ { s with next } ∧ s.next ≤ next ∧
      Probe.namesOf entries = some names.entries := by
  obtain ⟨names⟩ := names
  have hentries : ∀ s : Store, ∃ entries next,
      (names.mapM fun e => do return (Key.str ⟨← Exec.freshIdentity, e.1⟩, e.2) :
        Exec (List (Key × Value))) s = .ok entries { s with next } ∧ s.next ≤ next ∧
      Probe.namesOf entries = some names := by
    induction names with
    | nil => exact fun s => ⟨[], s.next, rfl, Nat.le_refl _, rfl⟩
    | cons e names ih =>
      intro s
      obtain ⟨entries, next, hrun, hnext, hnames⟩ := ih { s with next := s.next + 1 }
      refine ⟨(.str ⟨.fresh s.next, e.1⟩, e.2) :: entries, next, ?_, Nat.le_of_succ_le hnext, ?_⟩
      · rw [List.mapM_cons]
        have hfirst : (do return (Key.str ⟨← Exec.freshIdentity, e.1⟩, e.2) :
            Exec (Key × Value)) s =
            .ok (.str ⟨.fresh s.next, e.1⟩, e.2) { s with next := s.next + 1 } := rfl
        rw [bind_ok hfirst, bind_ok hrun]
        rfl
      · simp only [Probe.namesOf, hnames, Option.map_some]
  obtain ⟨entries, next, hrun, hrest⟩ := hentries s
  refine ⟨entries, next, ?_, hrest⟩
  unfold Exec.dictOfNames
  rw [bind_ok hrun]
  rfl

variable {f : Frame} {d : LoadedCode} {marker : Marker} (h : Instruments f.code d marker)
  (hi : f.code.object.instructions[f.pc]? = some .returnValue)

/-- The frame of an instrumented body some instructions into the tail. -/
def inTail (f : Frame) (d : LoadedCode) (k : Nat) (stack : List Value) : Frame :=
  { f.withCode d with pc := f.code.object.instructions.size + k, stack }

include h

theorem step_inTail {k : Nat} {stack : List Value} {i : Instr}
    (hk : (captureTail f.code.object.constants.size)[k]? = some i) :
    step (inTail f d k stack) = perform (inTail f d (k + 1) stack) i := by
  have htail := h.tail k
  rw [hk] at htail
  unfold step
  rw [show (inTail f d k stack).code.object.instructions[(inTail f d k stack).pc]? = some i
    from htail]
  rfl

include hi in
theorem step_jumpToTail (s : Store) :
    step (f.withCode d) s = .ok (.next (inTail f d 0 f.stack)) s := by
  obtain ⟨hpc, -⟩ := Array.getElem?_eq_some_iff.1 hi
  have hjump := h.instruction hi
  rw [redirect, if_pos rfl] at hjump
  unfold step
  rw [show (f.withCode d).code.object.instructions[(f.withCode d).pc]? = _ from hjump]
  have htarget : f.pc + 1 + (f.code.object.instructions.size - (f.pc + 1)) =
      f.code.object.instructions.size + 0 := by omega
  change EStateM.Result.ok (Action.next { f.withCode d with
    pc := f.pc + 1 + (f.code.object.instructions.size - (f.pc + 1)) }) s = _
  rw [htarget]
  rfl

theorem step_snapshot (stack : List Value) (s : Store) :
    ∃ t, step (inTail f d 0 stack) s =
        .ok (.next (inTail f d 1 (.dict ⟨s.dicts.size⟩ :: stack))) t ∧
      Snapshots (f.locals s) s t := by
  obtain ⟨entries, next, hrun, hnext, hnames⟩ := dictOfNames_run (f.locals s) s
  refine ⟨{ s with dicts := s.dicts.push ⟨entries⟩, next }, ?_, entries, next, rfl, hnext,
    hnames⟩
  rw [step_inTail h rfl]
  have hlocals : (inTail f d 1 stack).locals s = f.locals s :=
    locals_alike h.samePools (alike_refl s)
  have hdict : (do Exec.newDict (← Exec.dictOfNames ((inTail f d 1 stack).locals (← get))) :
      Exec Value) s = .ok (.dict ⟨s.dicts.size⟩)
        { s with dicts := s.dicts.push ⟨entries⟩, next } := by
    change (Exec.dictOfNames ((inTail f d 1 stack).locals s) >>= Exec.newDict) s = _
    rw [hlocals, bind_ok hrun]
    rfl
  change ((do Exec.newDict (← Exec.dictOfNames ((inTail f d 1 stack).locals (← get))) :
      Exec Value) >>= fun v => pure (Action.next ((inTail f d 1 stack).push v))) s = _
  rw [bind_ok hdict]
  rfl

theorem step_marker (stack : List Value) (s : Store) :
    step (inTail f d 1 stack) s = .ok (.next (inTail f d 2 (.marker marker :: stack))) s := by
  rw [step_inTail h (i := .loadConst f.code.object.constants.size) rfl]
  have hconstant : (inTail f d 2 stack).constant f.code.object.constants.size =
      pure (.marker marker) := by
    unfold Frame.constant
    rw [show (inTail f d 2 stack).code.object.constants[f.code.object.constants.size]? = _
      from h.markerConstant]
  change (inTail f d 2 stack).pushed ((inTail f d 2 stack).constant
    f.code.object.constants.size) s = _
  rw [hconstant]
  rfl

/-- A value that lay on the stack is returned beside the names and the marker. -/
theorem runFrame_tail {v : Value} {rest : List Value} (hs : f.stack = v :: rest)
    (hi : f.code.object.instructions[f.pc]? = some .returnValue) (s : Store) :
    ∃ g id t, (∀ n, runFrame (n + 5) (f.withCode d) s =
        .ok ⟨g, .ok (.returned (.tuple id [v, .dict ⟨s.dicts.size⟩, .marker marker]))⟩ t) ∧
      Snapshots (f.locals s) s t := by
  obtain ⟨t, hsnapshot, entries, next, rfl, hnext, hnames⟩ := step_snapshot h f.stack s
  refine ⟨inTail f d 4 rest, .fresh next, _, fun n => ?_, entries, next + 1, rfl, by omega,
    hnames⟩
  rw [runFrame_next (step_jumpToTail h hi s), runFrame_next hsnapshot,
    runFrame_next (step_marker h _ _), hs]
  have htuple : step (inTail f d 2 (.marker marker :: .dict ⟨s.dicts.size⟩ :: v :: rest))
      { s with dicts := s.dicts.push ⟨entries⟩, next } =
      .ok (.next (inTail f d 3
        (.tuple (.fresh next) [v, .dict ⟨s.dicts.size⟩, .marker marker] :: rest)))
        { s with dicts := s.dicts.push ⟨entries⟩, next := next + 1 } := by
    rw [step_inTail h (i := .buildTuple 3) rfl]
    rfl
  rw [runFrame_next htuple]
  refine runFrame_returned ?_
  rw [step_inTail h (i := .returnValue) rfl]
  rfl

/-- Without a value on the stack the tail fails as the return does. -/
theorem runFrame_tail_underflow (hs : f.stack = [])
    (hi : f.code.object.instructions[f.pc]? = some .returnValue) (s : Store) :
    ∃ g t, (∀ n, runFrame (n + 4) (f.withCode d) s = .ok ⟨g, .error (.raised {
        kind := .runtimeError, message := "value stack underflow", isInternal := true })⟩ t) ∧
      Snapshots (f.locals s) s t := by
  obtain ⟨t, hsnapshot, hsnapshots⟩ := step_snapshot h f.stack s
  refine ⟨inTail f d 2 [.marker marker, .dict ⟨s.dicts.size⟩], t, fun n => ?_, hsnapshots⟩
  rw [runFrame_next (step_jumpToTail h hi s), runFrame_next hsnapshot,
    runFrame_next (step_marker h _ _), hs]
  refine runFrame_stops (turn_error ?_ _)
  rw [step_inTail h (i := .buildTuple 3) rfl]
  rfl

end Tail

/-- An instrumented body does what the body does: it asks for the same things and leaves the
same stores, it yields the same values, it returns the value of the body with its local names and
the marker, and it fails with the same exception. Only a body that returns without a value leaves
a dictionary more behind. -/
theorem instrumented_simulates {f g : Frame} {s t : Store} {es : List Event} {d : LoadedCode}
    {marker : Marker} {reach : Nat} (hloads : LoadsInPool f.code.object)
    (hd : instrument f.code.object marker reach = .ok d.object) (hpool : d.pool = f.code.pool)
    (hcourse : Course f s es g t) :
    Course (f.withCode d) s es (g.withCode d) t ∧
    (∀ v h u, step g t = .ok (.yielded v h) u →
      step (g.withCode d) t = .ok (.yielded v (h.withCode d)) u) ∧
    (∀ n v h u, turn n g t = .ok (.stops ⟨h, .ok (.returned v)⟩) u →
      u = t ∧ ∃ h' id w, (∀ m, runFrame (m + 5) (g.withCode d) t =
          .ok ⟨h', .ok (.returned (.tuple id [v, .dict ⟨t.dicts.size⟩, .marker marker]))⟩ w) ∧
        Snapshots (h.locals t) t w) ∧
    (∀ n e h u, g.pc < f.code.object.instructions.size →
      turn n g t = .ok (.stops ⟨h, .error e⟩) u → e ≠ .outOfFuel →
      ∃ h' w, (∀ m, runFrame (m + n + 4) (g.withCode d) t = .ok ⟨h', .error e⟩ w) ∧
        (w = u ∨ g.stack = [] ∧ Snapshots (g.locals t) u w)) := by
  have h : Instruments f.code d marker := ⟨hpool, instrument_ok hd, hloads⟩
  obtain ⟨hkept, hcode⟩ := course_kept h hcourse
  have hg : Instruments g.code d marker := hcode ▸ h
  refine ⟨hkept, fun v h u hstep => (yields_kept hg hstep).1, ?_, ?_⟩
  · intro n v h u hturn
    have hstep := step_of_returned hturn
    have hi := returns_of_step hstep
    obtain ⟨v', rest, hs, rfl, hv⟩ := step_return hi hstep
    cases hv
    exact ⟨rfl, runFrame_tail hg hs hi _⟩
  · intro n e h u hpc hturn he
    rw [← hcode] at hpc
    have hi := Array.getElem?_eq_getElem hpc
    by_cases hreturn : g.code.object.instructions[g.pc] = .returnValue
    · rw [hreturn] at hi
      cases hs : g.stack with
      | nil =>
        -- A return with nothing to return: the tail finds that out only after it has taken down the names.
        obtain ⟨h', w, hrun, hsnapshots⟩ := runFrame_tail_underflow hg hs hi t
        have hunderflow := turn_error (step_underflow hi hs t) n
        rw [hunderflow] at hturn
        cases hturn
        exact ⟨h', w, fun m => hrun (m + n), .inr ⟨rfl, hsnapshots⟩⟩
      | cons v rest =>
        rw [turn_ok (step_returns hi hs t)] at hturn
        cases hturn
    · refine ⟨h.withCode d, u, fun m => ?_, .inl rfl⟩
      have hruns := same_steady.runsAt (show n ≤ m + n + 3 by omega)
      obtain ⟨x, hx, rfl, -⟩ := (tries_turn same_steady.toLawful hruns
        (follows_kept hg hi hreturn)).ok_same hturn fun hspent => he (Except.error.inj hspent)
      exact runFrame_stops hx

def yieldingCode : LoadedCode where
  id := .unit 0
  pool := .unit 0
  object :=
    { name := "count", qualname := "count"
      instructions := #[.loadConst 0, .yieldValue, .pop, .loadConst 0, .returnValue]
      constants := #[.int 7]
      flags := { isGenerator := true } }

def instrumentedYielding : LoadedCode where
  id := .unit 1
  pool := .unit 0
  object :=
    { name := "count", qualname := "count"
      instructions := #[.loadConst 0, .yieldValue, .pop, .loadConst 0, .jumpForward 0,
        .snapshotLocals, .loadConst 1, .buildTuple 3, .returnValue]
      constants := #[.int 7, .marker ⟨0, "count"⟩]
      flags := { isGenerator := true } }

/-- The body that yields a number, somewhere in its course. -/
def yieldingFrame (pc : Nat) (stack : List Value) : Frame :=
  { id := 0, code := yieldingCode, globals := ⟨0⟩, fast := #[], cells := [], stack, pc }

theorem instrumented_simulates_yielding :
    LoadsInPool yieldingCode.object ∧
      instrument yieldingCode.object ⟨0, "count"⟩ 255 = .ok instrumentedYielding.object ∧
      ∃ es, Course (yieldingFrame 0 []) {} es (yieldingFrame 4 [.int 7]) {} ∧
        Course ((yieldingFrame 0 []).withCode instrumentedYielding) {} es
          ((yieldingFrame 4 [.int 7]).withCode instrumentedYielding) {} := by
  have hloads : LoadsInPool yieldingCode.object := by
    intro k hk
    have : k = 0 := by simpa [yieldingCode] using hk
    rw [this]
    decide
  have hcourse : Course (yieldingFrame 0 []) {} _ (yieldingFrame 4 [.int 7]) {} :=
    .turn (n := 0) (g := yieldingFrame 1 [.int 7]) rfl rfl
      (.yield (g := yieldingFrame 2 []) (t := {}) rfl
        (.turn (n := 0) (g := yieldingFrame 3 []) rfl rfl
          (.turn (n := 0) (g := yieldingFrame 4 [.int 7]) rfl rfl .here)))
  have hd : instrument yieldingCode.object ⟨0, "count"⟩ 255 =
      .ok instrumentedYielding.object := rfl
  refine ⟨hloads, hd, _, hcourse, ?_⟩
  exact (instrumented_simulates (f := yieldingFrame 0 []) (d := instrumentedYielding) hloads hd
    rfl hcourse).1

end Lexiscope.Capture
