import Lexiscope.Proofs.Machine.Growing
import Lexiscope.Proofs.Meaning.Seats
/-!
# The local names of a frame

A function has parameters and other local names, some of which it shares with inner bodies, and it
takes names from around. At every point of a call its frame lists those of them that are bound, each
once and with the value that the body would read, and nothing else. Where a value lies in a shared
cell, what another body stores there is listed too.
-/

namespace Lexiscope.Meaning

open Machine Exec Likeness
open Code
open Grammar (Stmt)
open Lexical (Scope)

section Reading

variable {s : Scope} {f : Frame} {st : Store} {v : Value}

theorem loadFast_iff {slot : Nat} :
    f.loadFast slot st = .ok v st ↔ (f.fast[slot]?).join = some v := by
  unfold Frame.loadFast
  cases hslot : f.fast[slot]? with
  | none => exact ⟨nofun, nofun⟩
  | some value =>
    cases value with
    | some w =>
      constructor
      · rintro ⟨⟩
        rfl
      · rintro ⟨⟩
        rfl
    | none =>
      cases f.code.object.varnames[slot]? <;> exact ⟨nofun, nofun⟩

theorem loadDeref_iff {i : Nat} :
    f.loadDeref i st = .ok v st ↔ (f.cells[i]?).bind st.cell = some v := by
  constructor
  · intro h
    obtain ⟨now, _, hget, h⟩ := bind_eq_ok h
    cases hget
    obtain ⟨r, u, hcell, h⟩ := bind_eq_ok h
    have hr := cell_ok hcell
    rw [Frame.cell, hr] at hcell
    cases hcell
    rw [hr, Option.bind_some]
    cases hvalue : st.cell r with
    | some w =>
      rw [hvalue] at h
      cases h
      rfl
    | none =>
      rw [hvalue] at h
      obtain ⟨name, w, -, h⟩ := bind_eq_ok h
      split at h <;> cases h
  · intro h
    obtain ⟨r, hr, hvalue⟩ := Option.bind_eq_some_iff.1 h
    have hcell : f.cell i st = .ok r st := by
      rw [Frame.cell, hr]
      rfl
    refine (bind_ok hcell).trans ?_
    rw [hvalue]
    rfl

theorem Seats.valueIn_iff (hc : Seats s f.code.object) {n : Name} (hn : n ∈ frameNames s)
    (hglobal : n ∉ s.facts.globals) :
    valueIn f n st = some v ↔ readName s n f st = .ok v st := by
  by_cases hcell : n ∈ f.code.object.derefNames
  · have hsymbol : s.symbol n = .cell ∨ s.symbol n = .free := by
      rw [hc.derefNames, List.mem_append] at hcell
      by_cases hown : n ∈ s.cells
      · exact .inl (by simp [Scope.symbol, hc.kind, hglobal, hown])
      · exact .inr (by simp [Scope.symbol, hc.kind, hglobal, hown, hcell.resolve_left hown])
    rw [valueIn, if_pos hcell, ← loadDeref_iff]
    rcases hsymbol with hsymbol | hsymbol <;> rw [readName, hsymbol]
  · have hsymbol : s.symbol n = .fast := by
      rw [hc.derefNames, List.mem_append, not_or] at hcell
      have hlocal : n ∈ s.facts.localNames :=
        (hc.mem_frameNames.1 hn).elim (hc.paramsOwn n) fun h => h.resolve_right hcell.2
      have hbound := (Lexical.Facts.mem_localNames.1 hlocal).1
      simp [Scope.symbol, hc.kind, hglobal, hcell.1, hcell.2, hbound]
    rw [valueIn, if_neg hcell, readName, hsymbol, loadFast_iff]

end Reading

/-- What a frame of a function lists: its names that have values, in order, each with the value that
the body would read. No name has a value in a slot and a cell besides. -/
structure Lists (s : Scope) (f : Frame) : Prop where
  locals : ∀ st, f.locals st = ⟨(frameNames s).filterMap fun n => (valueIn f n st).map (n, ·)⟩
  /-- A name that is declared global is read elsewhere, and may be passed on to inner bodies. -/
  reads : ∀ n ∈ frameNames s, n ∉ s.facts.globals → ∀ st v,
    valueIn f n st = some v ↔ readName s n f st = .ok v st
  single : ∀ (slot : Nat) n, f.code.object.varnames[slot]? = some n → n ∈ s.cells ++ s.free →
    f.fast[slot]? = some none

/-- The next instruction of the frame stores a value in the slot of a name. -/
def StoresInSlot (f : Frame) (n : Name) (v : Value) : Prop :=
  ∃ rest, f.code.object.instructions[f.pc]? = some (.storeFast (slotOf f n)) ∧ f.stack = v :: rest

/-- The next instruction of the frame stores a value in the cell of a name. -/
def StoresInCell (f : Frame) (n : Name) (v : Value) : Prop :=
  ∃ rest, f.code.object.instructions[f.pc]? = some (.storeDeref (cellOf f n)) ∧ f.stack = v :: rest

/-- The frame is of a call, or of a body that was made into a function there or further inside and
takes the name from there. -/
inductive Shares (n : Name) (e : Frame) : Frame → Prop where
  | own {g} : Reaches e g → Shares n e g
  | inner {g f h} : Shares n e g → EnteredFrom g f → n ∈ f.code.object.freevars →
    n ∉ f.code.object.cellvars → Reaches f h → Shares n e h

section Stores

variable {e f g h : Frame} {n : Name} {st st' : Store} {a : Action} {v : Value}

theorem cellOf_congr (hbody : f.SameBody g) (n : Name) : cellOf g n = cellOf f n := by
  rw [cellOf, cellOf, hbody.code]

theorem slotOf_congr (hcode : g.code = f.code) (n : Name) : slotOf g n = slotOf f n := by
  rw [slotOf, slotOf, hcode]

/-- Frames that share a name have one cell for it. -/
theorem Shares.cell (h : Shares n e g) : g.cells[cellOf g n]? = e.cells[cellOf e n]? := by
  induction h with
  | own hreaches =>
    rw [cellOf_congr hreaches.sameBody, hreaches.sameBody.cells]
  | inner _ hentered hfree hown hreaches ih =>
    obtain ⟨r, hr, hg⟩ := hentered.shares hfree hown
    rw [cellOf_congr hreaches.sameBody, hreaches.sameBody.cells, hr, ← ih, hg]

theorem cell_of_step (hstores : StoresInCell f n v) (h : step f st = .ok a st') :
    ∃ r, f.cells[cellOf f n]? = some r ∧
      st' = { st with cells := st.cells.setIfInBounds r.index (some v) } := by
  obtain ⟨rest, hi, hstack⟩ := hstores
  unfold step at h
  rw [hi] at h
  obtain ⟨⟨w, f'⟩, u, hpop, h⟩ := bind_eq_ok h
  unfold Frame.pop at hpop
  simp only [hstack] at hpop
  cases hpop
  obtain ⟨r, u, hcell, h⟩ := bind_eq_ok h
  have hr := cell_ok hcell
  rw [Frame.cell, hr] at hcell
  cases hcell
  cases h
  exact ⟨r, hr, rfl⟩

theorem fast_of_storesInSlot (hstores : StoresInSlot f n v) (h : step f st = .ok a st') :
    slotOf f n < f.fast.size ∧
      a.frame.fast = f.fast.setIfInBounds (slotOf f n) (some v) ∧ st' = st := by
  obtain ⟨rest, hi, hstack⟩ := hstores
  unfold step at h
  rw [hi] at h
  obtain ⟨⟨w, f'⟩, u, hpop, h⟩ := bind_eq_ok h
  unfold Frame.pop at hpop
  simp only [hstack] at hpop
  cases hpop
  obtain ⟨g, u, hstore, h⟩ := bind_eq_ok h
  unfold Frame.storeFast at hstore
  split at hstore
  · rename_i hlt
    cases hstore
    cases h
    exact ⟨hlt, rfl, rfl⟩
  · cases hstore

end Stores

section Calls

variable {s : Scope} {e f g : Frame} {n : Name} {st w : Store} {v : Value}

theorem lists_of_clear (hs : Seats s f.code.object) (hc : Apart f.code.object) (hf : Clear f) :
    Lists s f := by
  constructor
  case locals =>
    intro st
    rw [locals_eq hc hf, hs.listedNames]
  case reads => exact fun n hn hglobal st v => hs.valueIn_iff hn hglobal
  case single => exact fun slot n hslot hn => hf.empty slot n hslot (hs.derefNames ▸ hn)

theorem Lists.mem_entries (h : Lists s f) :
    (n, v) ∈ (f.locals st).entries ↔ n ∈ frameNames s ∧ valueIn f n st = some v := by
  rw [h.locals, List.mem_filterMap]
  constructor
  · rintro ⟨m, hm, hvalue⟩
    obtain ⟨x, hx, heq⟩ := Option.map_eq_some_iff.1 hvalue
    cases heq
    exact ⟨hm, hx⟩
  · rintro ⟨hn, hvalue⟩
    exact ⟨n, hn, by rw [hvalue]; rfl⟩

/-- What is stored under a name is listed: in its slot, by the frame itself, and in its cell, by
whichever frame shares that. -/
structure ListsStores (s : Scope) (e : Frame) (w : Store) : Prop where
  slots : ∀ {g n v st st' a}, Reaches e g → n ∈ frameNames s → n ∉ s.cells ++ s.free →
    StoresInSlot g n v → step g st = .ok a st' → (n, v) ∈ (a.frame.locals st').entries
  cells : ∀ {g h n v st st' a}, Reaches e g → n ∈ s.cells ++ s.free → Shares n e h →
    StoresInCell h n v → w.Grows st → step h st = .ok a st' → (n, v) ∈ (g.locals st').entries

theorem listsStores_of_clear (hs : Seats s e.code.object) (hc : Apart e.code.object)
    (he : Clear e) (hcells : ∀ r ∈ e.cells, r.index < w.cells.size) : ListsStores s e w := by
  have hthere {g} (hreaches : Reaches e g) :
      Seats s g.code.object ∧ Apart g.code.object ∧ Clear g := by
    have hcode := hreaches.sameBody.code
    exact ⟨hcode ▸ hs, hcode ▸ hc, hreaches.clear hc he⟩
  constructor
  · intro g n v st st' a hreaches hn hslot hstores hstep
    obtain ⟨hsg, hcg, hg⟩ := hthere hreaches
    have hcode := (successors_of_step hstep).1.code
    have hlists := lists_of_clear (hcode ▸ hsg) (hcode ▸ hcg) (hg.step hcg hstep)
    obtain ⟨hlt, hfast, rfl⟩ := fast_of_storesInSlot hstores hstep
    refine hlists.mem_entries.2 ⟨hn, ?_⟩
    rw [valueIn, hcode, if_neg (hsg.derefNames ▸ hslot), slotOf_congr hcode, hfast,
      Array.getElem?_setIfInBounds, if_pos rfl, if_pos hlt]
    rfl
  · intro g h n v st st' a hreaches hn hshares hstores hgrows hstep
    obtain ⟨hsg, hcg, hg⟩ := hthere hreaches
    obtain ⟨r, hr, rfl⟩ := cell_of_step hstores hstep
    have hshared : g.cells[cellOf g n]? = some r := by
      rw [(Shares.own hreaches).cell, ← hshares.cell, hr]
    have hlt : r.index < st.cells.size := by
      refine Nat.lt_of_lt_of_le (hcells r ?_) hgrows.cells
      rw [← hreaches.sameBody.cells]
      exact List.mem_of_getElem? hshared
    refine (lists_of_clear hsg hcg hg).mem_entries.2 ⟨?_, ?_⟩
    · rw [frameNames, List.append_assoc]
      exact List.mem_append_right _ hn
    · rw [valueIn, if_pos (hsg.derefNames ▸ hn), hshared, Option.bind_some, Store.cell,
        Likeness.getD_setIfInBounds, if_pos ⟨rfl, hlt⟩]

variable {source : String} {module : List Stmt} {c : Object} {f : FunctionValue}

/-- A function of a module that was read and compiled has a seat for each of its names. At every
point of every call its frame lists those that are bound, and it lists what is stored for them. -/
theorem locals_exact (hparse : Grammar.parse source = .ok module) (hcode : FunctionCode module s c)
    (hruns : RunsFor c f.code.object) :
    (frameNames s).Nodup ∧
    (∀ n, n ∈ frameNames s ↔ n ∈ s.facts.params ∨ n ∈ s.facts.localNames ∨ n ∈ s.free) ∧
    Seats s f.code.object ∧
    ∀ {args keywords t e w}, enterFunction f args keywords t = .ok e w →
      (∀ g, Reaches e g → Lists s g) ∧
      ((∀ r ∈ f.closure, r.index < t.cells.size) → ListsStores s e w) := by
  obtain ⟨params, hcompiles⟩ := hcode.compiles hparse
  have hs := hruns.seats hcompiles.seats
  have hc := hruns.apart hcompiles.apart
  refine ⟨hs.listedNames ▸ nodup_listedNames hc, fun n => hs.mem_frameNames, hs, ?_⟩
  intro args keywords t e w henter
  have he := clear_of_enterFunction hc henter
  have hentered : e.code = f.code := by
    obtain ⟨fast, fast', u, -, rfl, -⟩ := enterFunction_ok henter
    rfl
  rw [← hentered] at hs hc
  refine ⟨fun g hreaches => ?_, fun hclosure => ?_⟩
  · have hcode := hreaches.sameBody.code
    exact lists_of_clear (hcode ▸ hs) (hcode ▸ hc) (hreaches.clear hc he)
  · exact listsStores_of_clear hs hc he (cells_lt_of_enterFunction hclosure henter)

def firstCode (source : String) : Option (List Stmt × Scope × Object) := do
  let module ← (Grammar.parse source).toOption
  let .define name params body _ span :: _ := module | none
  let root ← (Lexical.analyze module).toOption
  let ((_, _, s), _) ← (functionHead root params span (Draft.start root)).toOption
  let (_, draft) ← (block s [] body (Draft.startFunction s)).toOption
  let c ← (finish draft s.facts.span
    (functionObject s name params (root.facts.kind = .functionBody))).toOption
  return (module, s, c)

theorem functionCode_of_firstCode (h : firstCode source = some (module, s, c)) :
    Grammar.parse source = .ok module ∧ FunctionCode module s c := by
  unfold firstCode at h
  simp only [Option.bind_eq_bind, Option.bind_eq_some_iff] at h
  obtain ⟨module, hmodule, h⟩ := h
  split at h
  case h_2 => cases h
  simp only [Option.bind_eq_some_iff] at h
  obtain ⟨root, hroot, ⟨⟨_, _, s⟩, _⟩, hhead, ⟨⟨⟩, draft⟩, hblock, c, hfinish, h⟩ := h
  cases h
  exact ⟨eq_ok_of_toOption hmodule, .mk (.module (eq_ok_of_toOption hroot)) .here
    (.define (eq_ok_of_toOption hhead)) (eq_ok_of_toOption hblock) (eq_ok_of_toOption hfinish)⟩

def afterTurns : Nat → Frame → Store → Option (Frame × Store)
  | 0, f, st => some (f, st)
  | k + 1, f, st =>
    match turn 9 f st with
    | .ok (.goes g) w => afterTurns k g w
    | _ => none

theorem course_of_afterTurns {k : Nat} (h : afterTurns k e w = some (g, st)) :
    ∃ es, Course e w es g st := by
  induction k generalizing e w with
  | zero =>
    cases h
    exact ⟨_, .here⟩
  | succ k ih =>
    unfold afterTurns at h
    split at h
    case h_2 => cases h
    rename_i f u hturn
    obtain ⟨a, v, hstep, hact⟩ := step_of_goes hturn
    obtain ⟨es, hcourse⟩ := ih h
    exact ⟨_, .turn hstep hact hcourse⟩

/-- A call has come to a frame, in which an inner function is made and called. The inner body has
come to an instruction that does something to the store. -/
structure InnerCall where
  module : List Stmt
  scope : Scope
  function : FunctionValue
  start : Frame
  started : Store
  frame : Frame
  inner : Frame
  innerNow : Frame
  before : Store
  action : Action
  after : Store

/-- The first function of a module is called, and after some turns a function is made of its first
inner body and called too. -/
def innerCall (source : String) (args innerArgs : List Value) (turns innerTurns : Nat) :
    Option InnerCall := do
  let (module, scope, c) ← firstCode source
  let function : FunctionValue := ⟨.fresh 0, ⟨.unit 0, .unit 0, c⟩, ⟨0⟩, [], .empty, []⟩
  let .ok start started := enterFunction function args [] {} | none
  let (frame, t) ← afterTurns turns start started
  let .ok (.function v) t := closureOver 0 none none frame t | none
  let .ok inner t := enterFunction v innerArgs [] t | none
  let (innerNow, before) ← afterTurns innerTurns inner t
  let .ok action after := step innerNow before | none
  return { module, scope, function, start, started, frame, inner, innerNow, before, action, after }

theorem runs_of_innerCall {args innerArgs : List Value} {turns innerTurns : Nat} {u : InnerCall}
    (h : innerCall source args innerArgs turns innerTurns = some u) :
    Grammar.parse source = .ok u.module ∧
    FunctionCode u.module u.scope u.function.code.object ∧
    u.function.closure = [] ∧
    enterFunction u.function args [] {} = .ok u.start u.started ∧
    Reaches u.start u.frame ∧
    EnteredFrom u.frame u.inner ∧
    Reaches u.inner u.innerNow ∧
    step u.innerNow u.before = .ok u.action u.after := by
  unfold innerCall at h
  simp only [Option.bind_eq_bind, Option.bind_eq_some_iff] at h
  obtain ⟨⟨module, s, c⟩, hcode, h⟩ := h
  obtain ⟨hparse, hcode⟩ := functionCode_of_firstCode hcode
  dsimp only at h
  split at h
  case h_2 => cases h
  rename_i start started henter
  simp only [Option.bind_eq_some_iff] at h
  obtain ⟨⟨frame, t⟩, hturns, h⟩ := h
  obtain ⟨es, hcourse⟩ := course_of_afterTurns hturns
  split at h
  case h_2 => cases h
  rename_i v t₁ hmade
  split at h
  case h_2 => cases h
  rename_i inner t₂ hinner
  simp only [Option.bind_eq_some_iff] at h
  obtain ⟨⟨innerNow, before⟩, hinnerTurns, h⟩ := h
  obtain ⟨es', hinnerCourse⟩ := course_of_afterTurns hinnerTurns
  split at h
  case h_2 => cases h
  rename_i action after hstep
  cases h
  exact ⟨hparse, hcode, rfl, henter, .before hcourse,
    ⟨v, ⟨0, none, none, t, t₁, hmade⟩, t₁, t₂, .inl ⟨innerArgs, [], hinner⟩⟩,
    .before hinnerCourse, hstep⟩

/-- The inner body stores a number in the cell of a name that it has from around. -/
def InnerCall.storesInt (u : InnerCall) (n : Name) (k : Int64) : Bool :=
  n ∈ u.inner.code.object.freevars && n ∉ u.inner.code.object.cellvars &&
  u.innerNow.code.object.instructions[u.innerNow.pc]? =
    some (.storeDeref (cellOf u.innerNow n)) &&
  (match u.innerNow.stack with
    | .int m :: _ => m = k
    | _ => false) &&
  u.started.cells.size ≤ u.before.cells.size && u.started.spaces.size ≤ u.before.spaces.size

theorem InnerCall.shares {u : InnerCall} {k : Int64} (h : u.storesInt n k = true)
    (hframe : Reaches u.start u.frame) (hinner : EnteredFrom u.frame u.inner)
    (hnow : Reaches u.inner u.innerNow) :
    Shares n u.start u.innerNow ∧ StoresInCell u.innerNow n (.int k) ∧
      u.started.Grows u.before := by
  simp only [InnerCall.storesInt, Bool.and_eq_true, decide_eq_true_eq] at h
  obtain ⟨⟨⟨⟨⟨hfree, hown⟩, hi⟩, htop⟩, hcells⟩, hspaces⟩ := h
  refine ⟨.inner (.own hframe) hinner hfree hown hnow, ?_, hcells, hspaces⟩
  split at htop
  case h_2 => cases htop
  rename_i m rest hstack
  obtain rfl : m = k := of_decide_eq_true htop
  exact ⟨rest, hi, hstack⟩

def tally : String :=
  "def tally(total, step) { def add(n) { nonlocal total; total = total + n }; add(step); return total }"

/-- The parameter has left its slot, and the frame lists what the inner body has stored. -/
theorem locals_exact_tally : ∃ u, innerCall tally [.int 1, .int 2] [.int 2] 5 3 = some u ∧
    frameNames u.scope = ["step", "add", "total"] ∧ u.frame.fast[0]? = some none ∧
    ("total", .int 3) ∈ (u.frame.locals u.after).entries := by
  have hruns : ((innerCall tally [.int 1, .int 2] [.int 2] 5 3).any fun u =>
      u.storesInt "total" 3 && frameNames u.scope = ["step", "add", "total"] &&
        "total" ∈ u.scope.cells && u.frame.code.object.varnames[0]? = some "total") = true := by
    decide +kernel
  obtain ⟨u, hu, hruns⟩ := (Option.any_eq_true _ _).1 hruns
  simp only [Bool.and_eq_true, decide_eq_true_eq] at hruns
  obtain ⟨⟨⟨hstores, hnames⟩, hcell⟩, hslot⟩ := hruns
  obtain ⟨hparse, hcode, hclosure, henter, hframe, hinner, hnow, hstep⟩ := runs_of_innerCall hu
  obtain ⟨hshares, hstores, hgrows⟩ := u.shares hstores hframe hinner hnow
  obtain ⟨-, -, -, hcalls⟩ := locals_exact hparse hcode (.inl rfl)
  obtain ⟨hlists, hlater⟩ := hcalls henter
  have hcell : "total" ∈ u.scope.cells ++ u.scope.free := List.mem_append_left _ hcell
  refine ⟨u, hu, hnames, (hlists u.frame hframe).single 0 "total" hslot hcell, ?_⟩
  exact (hlater (by simp [hclosure])).cells hframe hcell hshares hstores hgrows hstep

end Calls

end Lexiscope.Meaning
