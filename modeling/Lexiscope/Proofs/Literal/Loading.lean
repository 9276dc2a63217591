import Lexiscope.Machine.Program
import Lexiscope.Proofs.Grammar.Assignment
import Lexiscope.Proofs.Literal.Compilation
import Lexiscope.Proofs.Literal.Evaluation
import Lexiscope.Proofs.Machine.Course
import Lexiscope.Proofs.Meaning.StatementCode
/-!
# Texts of values are source

A module that binds a name to the text of a value can be read, compiled and run, and the name has an
equal value with the same text then.
-/

namespace Lexiscope.Meaning

open Machine Exec
open Code (Keeps Draft Object bindingScope bindingCode)
open Grammar (Expr literalOf)

variable {n : Nat} {name : Name} {e : Expr} {d : Datum}

def bind (n : Nat) (name : Name) (e : Expr) : Tale Unit := do
  let v ← evaluate n (bindingScope name) e
  .bindName name v (writeName (bindingScope name) name v)
  let v ← (pure .none : Tale Value)
  .returns v

theorem computes_bindingCode : Computes True n (bindingCode name e) [] (bind n name e) fun _ => [] := by
  unfold bindingCode bind
  refine (computes_expression n _ e).andThen fun v => ?_
  refine computes_storeName.andThen fun _ => ?_
  exact computes_none.andThen fun v => lowers_returnValue

/-- The code of a binding binds the name to a value that shows the datum, and returns. -/
theorem runFrame_binding (h : d.Writable) (he : e.bare = literalOf d) {draft : Draft} {c : Object}
    {labels : Code.Label → Nat}
    (hcode : bindingCode name e (.start (bindingScope name)) = .ok ((), draft))
    (hends : draft.builder.Ends c labels) {f : Frame} (hf : f.code.object = c) (hpc : f.pc = 0)
    (hstack : f.stack = []) {s : Store} (hglobals : f.globals.index < s.spaces.size) :
    ∃ k g t w, runFrame k f s = .ok ⟨g, .ok (.returned .none)⟩ t ∧
      t.lookup f.globals name = some w ∧ w.Shows t d ∧ Keeps s.lists t.lists ∧ Keeps s.dicts t.dicts := by
  have hcomputes : Computes True 0 (bindingCode name e) [] (bind 0 name e) _ := computes_bindingCode
  obtain ⟨-, -, hrealizes⟩ := hcomputes hcode
  have hmatches := hrealizes c labels ⟨by simp [Draft.start], by simp [Draft.start]⟩ hends f s hf
  rw [show f.placed _ [] = f by rw [← hstack]; exact congrArg (fun pc => { f with pc }) hpc.symm] at hmatches
  obtain ⟨w, t, ds, hend, hw, hgains⟩ := builds_literal (n := 0) (c := bindingScope name) d h he s f
  let u : Store := { t with spaces := t.spaces.modify f.globals.index (·.insert name w) }
  have htold : bind 0 name e f s = .ended (.error (.returned .none)) f u (ds ++ [.bind name w]) := by
    unfold bind
    change (evaluate 0 (bindingScope name) e f s).bind _ = _
    rw [hend]
    rfl
  dsimp only at hmatches
  rw [htold] at hmatches
  obtain htired | ⟨k, pc, σ, hrun⟩ := hmatches.runsAs
  · cases htired
  · have hlt : f.globals.index < t.spaces.size := by rwa [hgains.spaces]
    have hlookup : u.lookup f.globals name = some w := by
      simp [u, Store.lookup, Store.space, Array.getElem_modify_self, hlt]
    have hw' : w.Shows u d := shows_of_keeps (t := u) (.refl t.lists) (.refl t.dicts) d hw
    exact ⟨0 + k, _, u, w, hrun, hlookup, hw', hgains.lists, hgains.dicts⟩

theorem cellvars_binding {draft : Draft} {c : Object} {labels : Code.Label → Nat}
    (hcode : bindingCode name e (.start (bindingScope name)) = .ok ((), draft))
    (hends : draft.builder.Ends c labels) : c.cellvars = [] := by
  have hcomputes : Computes True 0 (bindingCode name e) [] (bind 0 name e) _ := computes_bindingCode
  obtain ⟨hextends, -, -⟩ := hcomputes hcode
  exact hends.cellvars.trans hextends.toGrows.cellvars

end Lexiscope.Meaning

namespace Lexiscope.Machine

open Code (Keeps Draft bindingScope bindingCode)
open Grammar (Expr literalOf)
open Meaning (runFrame_binding cellvars_binding)

/-- Where one more frame may run, a module with a binding runs to its end. -/
theorem runModule_binding {name : Name} {e : Expr} {d : Datum} (h : d.Writable) (he : e.bare = literalOf d)
    {draft : Draft} {c : LoadedCode} {labels : Code.Label → Nat}
    (hcode : bindingCode name e (.start (bindingScope name)) = .ok ((), draft))
    (hends : draft.builder.Ends c.object labels) {globals : SpaceRef} {s : Store}
    (hglobals : globals.index < s.spaces.size) (hdepth : s.depth < s.limit) :
    ∃ k t w, (∀ fuel, k ≤ fuel → runModule fuel c globals s = .ok () t) ∧
      t.lookup globals name = some w ∧ w.Shows t d ∧ Keeps s.lists t.lists ∧ Keeps s.dicts t.dicts := by
  let f : Frame := { id := s.next, code := c, globals, fast := emptySlots c, cells := [] }
  let s' : Store := { s with next := s.next + 1 }
  have hmake : Frame.make c globals (emptySlots c) [] none s = .ok f s' := by
    unfold Frame.make
    rw [cellvars_binding hcode hends]
    rfl
  obtain ⟨k, g, t, w, hrun, hlookup, hw, hlists, hdicts⟩ := runFrame_binding h he hcode hends (f := f)
    rfl rfl rfl (s := s'.entered f) hglobals
  let u : Store := t.left ⟨g, .ok (.returned .none)⟩
  have hexecute : ∀ fuel, k + 1 ≤ fuel → execute fuel f s' = .ok (.returned .none, g) u := by
    intro fuel hfuel
    obtain ⟨m, rfl⟩ := Nat.exists_eq_succ_of_ne_zero (Nat.ne_zero_of_lt hfuel)
    rw [execute_run (by change ¬ s.limit < s.depth + 1; omega)
      (runFrame_mono (Nat.le_of_succ_le_succ hfuel) hrun nofun), leaveFrame_run]
  refine ⟨k + 1, u, w, fun fuel hfuel => ?_, hlookup,
    shows_of_keeps (t := u) (.refl t.lists) (.refl t.dicts) d hw, hlists, hdicts⟩
  unfold runModule
  rw [bind_ok hmake, bind_ok (hexecute fuel hfuel)]
  rfl

mutual

theorem distinct_literal : (d : Datum) → (literalOf d).Distinct
  | .none | .bool _ | .str _ => trivial
  | .int i => by
    rw [literalOf]
    split <;> trivial
  | .list ds | .tuple ds => distinct_literals ds
  | .dict es => distinct_entries es

theorem distinct_literals : (ds : List Datum) → Grammar.ItemsDistinct (Grammar.literalsOf ds)
  | [] => trivial
  | d :: ds => ⟨distinct_literal d, distinct_literals ds⟩

theorem distinct_entries : (es : List (Datum × Datum)) → Grammar.EntriesDistinct (Grammar.entryLiterals es)
  | [] => trivial
  | (key, value) :: es => ⟨distinct_literal key, distinct_literal value, distinct_entries es⟩

end

mutual

theorem bare_literal : (d : Datum) → (literalOf d).bare = literalOf d
  | .none | .bool _ | .str _ => rfl
  | .int i => by
    rw [literalOf]
    split <;> rfl
  | .list ds => congrArg (Expr.list · .origin) (bare_literals ds)
  | .tuple ds => congrArg (Expr.tuple · .origin) (bare_literals ds)
  | .dict es => congrArg (Expr.dict · .origin) (bare_entries es)

theorem bare_literals : (ds : List Datum) →
    Grammar.bareItems (Grammar.literalsOf ds) = Grammar.literalsOf ds
  | [] => rfl
  | d :: ds => congrArg₂ List.cons (bare_literal d) (bare_literals ds)

theorem bare_entries : (es : List (Datum × Datum)) →
    Grammar.bareEntries (Grammar.entryLiterals es) = Grammar.entryLiterals es
  | [] => rfl
  | (key, value) :: es => congrArg₂ List.cons (congrArg₂ Prod.mk (bare_literal key) (bare_literal value))
    (bare_entries es)

end

theorem parse_binding {d : Datum} (h : d.Writable) : ∃ e place span, e.bare = literalOf d ∧
    Grammar.parse ("_ = " ++ d.text) = .ok [.assign [.name "_" place] e span] := by
  obtain ⟨tokens, newline, eof, hlex, hkinds, hnewline, heof⟩ := Grammar.lex_assignment h
  obtain ⟨e, place, span, he, hread⟩ :=
    Grammar.assignment_read (distinct_literal d) hkinds hnewline heof
  refine ⟨e, place, span, he.trans (bare_literal d), ?_⟩
  rw [Grammar.parse, hlex]
  exact hread

/-- The text of a value that can be written is source. A module that binds a name to it is read,
compiled and run, if a frame may be run at all, and then the name has an equal value with the same
text. -/
theorem text_loads {s : Store} {v : Value} (h : v.Writable s) (hdepth : s.depth < s.limit)
    (name : String) : ∃ fuel m t w, (∀ n, fuel ≤ n →
        load n ("_ = " ++ v.render s) name s = (.ok m, t)) ∧
      t.lookup m.globals "_" = some w ∧ w.equal t v = true ∧ w.render t = v.render s := by
  obtain ⟨d, hd, hv⟩ := exists_shows h
  obtain ⟨e, place, span, he, hparse⟩ := parse_binding hd
  obtain ⟨draft, c, labels, hcompile, hcode, hends⟩ := Code.compile_binding he place span name
  let code : LoadedCode := ⟨.unit s.next, .unit s.next, c⟩
  let s' : Store := { s with next := s.next + 1, spaces := s.spaces.push .empty }
  have hglobals : (⟨s.spaces.size⟩ : SpaceRef).index < s'.spaces.size := by simp [s']
  have hdepth' : s'.depth < s'.limit := hdepth
  obtain ⟨k, t, w, hrun, hlookup, hw, hlists, hdicts⟩ :=
    runModule_binding (c := code) hd he hcode hends hglobals hdepth'
  have hv' : v.Shows t d := shows_of_keeps (s := s') hlists hdicts d
    (shows_of_keeps (t := s') (.refl s.lists) (.refl s.dicts) d hv)
  refine ⟨k, ⟨name, ⟨s.spaces.size⟩⟩, t, w, fun n hn => ?_, hlookup, equal_of_shows hd hw hv', ?_⟩
  · have hunit : (do runUnit n (← Exec.unitOf c) : Exec SpaceRef) s = .ok ⟨s.spaces.size⟩ t := by
      change (do runModule n code ⟨s.spaces.size⟩; return (⟨s.spaces.size⟩ : SpaceRef) : Exec SpaceRef) s' = _
      rw [bind_ok (hrun n hn)]
      rfl
    rw [load, render_of_shows hv, hparse]
    dsimp only
    rw [hcompile]
    dsimp only
    rw [Exec.outcome, hunit]
  · rw [render_of_shows hw, render_of_shows hv]

def nestedItems : List Value :=
  [.int (-5), .str ⟨.fresh 0, "it's \"so\"\n"⟩, .tuple (.fresh 1) [.none]]

/-- A list under a tuple, and entries under a truth value and the integer that it is equal to. -/
def nestedEntries : List (Key × Value) :=
  [(.tuple [.int (-1), .str ⟨.fresh 2, "a"⟩], .list ⟨0⟩), (.bool true, .bool false),
    (.int 1, .tuple (.fresh 3) [])]

def nestedStore : Store := { lists := #[nestedItems.toArray], dicts := #[⟨nestedEntries⟩], next := 4 }

theorem text_loads_nestedStore : (Value.dict ⟨0⟩).Writable nestedStore ∧
    nestedStore.depth < nestedStore.limit ∧ ∃ fuel m t w,
      (∀ n, fuel ≤ n → load n ("_ = " ++ (Value.dict ⟨0⟩).render nestedStore) "m" nestedStore = (.ok m, t)) ∧
      t.lookup m.globals "_" = some w ∧ w.equal t (.dict ⟨0⟩) = true ∧
      w.render t = (Value.dict ⟨0⟩).render nestedStore := by
  have hlist : (Value.list ⟨0⟩).Writable nestedStore := by
    refine .list (by decide) fun v hv => ?_
    have hmem : v ∈ nestedItems := hv
    simp only [nestedItems, List.mem_cons, List.not_mem_nil, or_false] at hmem
    rcases hmem with rfl | rfl | rfl
    · exact .int (by decide)
    · exact .str
    · refine .tuple fun w hw => ?_
      obtain rfl := List.mem_singleton.1 hw
      exact .none
  have hkeys : nestedEntries.Pairwise fun e e' => (e.1 == e'.1) = false := by
    refine .cons (fun e he => ?_) (.cons (fun e he => ?_) (List.pairwise_singleton ..))
    · simp only [List.mem_cons, List.not_mem_nil, or_false] at he
      rcases he with rfl | rfl <;> rfl
    · obtain rfl := List.mem_singleton.1 he
      rfl
  have hwritable : ∀ e ∈ nestedEntries, e.1.Writable ∧ e.2.Writable nestedStore := by
    intro e he
    simp only [nestedEntries, List.mem_cons, List.not_mem_nil, or_false] at he
    rcases he with rfl | rfl | rfl
    · exact ⟨⟨show (-1 : Int64) ≠ Int64.minValue by decide, trivial, trivial⟩, hlist⟩
    · exact ⟨trivial, .bool⟩
    · exact ⟨show (1 : Int64) ≠ Int64.minValue by decide, .tuple nofun⟩
  have hdict : (Value.dict ⟨0⟩).Writable nestedStore :=
    .dict (by decide) hkeys (fun e he => (hwritable e he).1) fun e he => (hwritable e he).2
  exact ⟨hdict, by decide, text_loads hdict (by decide) "m"⟩

end Lexiscope.Machine
