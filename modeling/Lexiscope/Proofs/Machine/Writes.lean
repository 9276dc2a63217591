import Lexiscope.Proofs.Machine.QuietOperations
/-!
# What an instruction writes

Beside mild changes an instruction may bind a cell of its frame, a global name, a name of the class
whose body it stands in, or an attribute of an instance or a class. A sort of changes that allows
these writes allows the instruction. If it allows every write, and cells and namespaces to be made, it
also allows frames to be made.
-/

namespace Lexiscope.Machine

open Exec
open Code (Instr FunctionParts)

variable {c : Change} {α : Type} {f : Frame}

/-- What the frame may write with the instruction is allowed. -/
structure Change.Admits (c : Change) (f : Frame) (i : Instr) : Prop where
  cells : ∀ r ∈ f.cells, ∀ v, c.Allows (setCell r v)
  globals : ∀ n v, c.Allows (setName f.globals n v)
  classSpace : ∀ r ∈ f.classSpace, ∀ n v, c.Allows (setName r n v)
  attributes : ∀ j v rest, i = .storeAttr j → f.stack = v :: rest →
    ∀ n w, c.Allows (setAttribute v n w)

section Frames

instance allows_underflow : c.Allows (Frame.underflow : Exec α) := allows_brokenRule

instance allows_outOfRange {what : String} {i : Nat} : c.Allows (Frame.outOfRange what i : Exec α) :=
  allows_brokenRule

instance allows_unboundLocal {name : Name} : c.Allows (Frame.unboundLocal name : Exec α) :=
  allows_throw

instance allows_top : c.Allows f.top := by
  unfold Frame.top
  split <;> infer_instance

instance allows_pop : c.Allows f.pop := by
  unfold Frame.pop
  split <;> infer_instance

instance allows_popMany {n : Nat} : c.Allows (f.popMany n) := by
  unfold Frame.popMany
  infer_instance

instance allows_constant {i : Nat} : c.Allows (f.constant i) := by
  unfold Frame.constant
  split <;> infer_instance

instance allows_name {i : Nat} : c.Allows (f.name i) := by
  unfold Frame.name
  split <;> infer_instance

instance allows_loadFast {i : Nat} : c.Allows (f.loadFast i) := by
  unfold Frame.loadFast
  split <;> infer_instance

instance allows_storeFast {i : Nat} {v : Value} : c.Allows (f.storeFast i v) := by
  unfold Frame.storeFast
  infer_instance

instance allows_cell {i : Nat} : c.Allows (f.cell i) := by
  unfold Frame.cell
  split <;> infer_instance

instance allows_derefName {i : Nat} : c.Allows (f.derefName i) := by
  unfold Frame.derefName
  split <;> infer_instance

instance allows_loadDeref {i : Nat} : c.Allows (f.loadDeref i) := by
  unfold Frame.loadDeref
  refine allows_get.bind fun s => allows_cell.bind fun r => ?_
  split <;> infer_instance

instance allows_undefinedName {name : Name} : c.Allows (undefinedName name : Exec α) := allows_raise

instance allows_loadGlobal {i : Nat} : c.Allows (f.loadGlobal i) := by
  unfold Frame.loadGlobal
  refine allows_name.bind fun name => allows_get.bind fun s => ?_
  split <;> infer_instance

instance allows_loadName {i : Nat} : c.Allows (f.loadName i) := by
  unfold Frame.loadName
  refine allows_name.bind fun name => allows_get.bind fun s => ?_
  split <;> infer_instance

instance allows_loadClassDeref {i : Nat} : c.Allows (f.loadClassDeref i) := by
  unfold Frame.loadClassDeref
  refine allows_get.bind fun s => allows_derefName.bind fun name => ?_
  split <;> infer_instance

instance allows_pushed {x : Exec Value} [c.Allows x] : c.Allows (f.pushed x) := by
  unfold Frame.pushed
  infer_instance

instance allows_replace1 {operation : Value → Exec Value} [∀ v, c.Allows (operation v)] :
    c.Allows (f.replace1 operation) := by
  unfold Frame.replace1
  infer_instance

instance allows_replace2 {operation : Value → Value → Exec Value}
    [∀ v w, c.Allows (operation v w)] : c.Allows (f.replace2 operation) := by
  unfold Frame.replace2
  infer_instance

instance allows_jumpWhen {truth : Bool} {target : Nat} : c.Allows (f.jumpWhen truth target) := by
  unfold Frame.jumpWhen
  infer_instance

instance allows_jumpWhenOrPop {truth : Bool} {target : Nat} :
    c.Allows (f.jumpWhenOrPop truth target) := by
  unfold Frame.jumpWhenOrPop
  infer_instance

end Frames

section Parts

variable {m : OrderedMap Key Value} {v : Value}

instance allows_entriesOfFlat {flat : List Value} : c.Allows (entriesOfFlat m flat) := by
  induction m, flat using entriesOfFlat.induct with
  | case1 m k v rest ih =>
    unfold entriesOfFlat
    infer_instance
  | case2 m flat hflat =>
    unfold entriesOfFlat
    split
    · exact absurd rfl (hflat _ _ _)
    · infer_instance

instance allows_keywordNames : c.Allows (keywordNames v) := by
  unfold keywordNames
  split
  · infer_instance
  · exact .mapM (fun item => by split <;> infer_instance) _

instance allows_keywordCall {n : Nat} : c.Allows (keywordCall f n) := by
  unfold keywordCall
  infer_instance

instance allows_closureCells : c.Allows (closureCells v) := by
  unfold closureCells
  split
  · infer_instance
  · exact .mapM (fun item => by split <;> infer_instance) _

instance allows_keywordDefaultsOf : c.Allows (keywordDefaultsOf v) := by
  unfold keywordDefaultsOf
  split <;> infer_instance

instance allows_defaultsOf : c.Allows (defaultsOf v) := by
  unfold defaultsOf
  split <;> infer_instance

instance allows_takePart {present : Bool} {absent : α} {read : Value → Exec α}
    [∀ v, c.Allows (read v)] : c.Allows (takePart present absent read f) := by
  unfold takePart
  infer_instance

instance allows_makeFunction {parts : FunctionParts} : c.Allows (makeFunction parts f) := by
  unfold makeFunction
  refine allows_pop.bind fun ⟨top, g⟩ => ?_
  cases top <;> infer_instance

instance allows_raiseValue : c.Allows (raiseValue v : Exec α) := by
  unfold raiseValue
  cases v <;> infer_instance

end Parts

theorem Change.Allows.pop_bind {k : Value × Frame → Exec α}
    (h : ∀ v rest, f.stack = v :: rest → c.Allows (k (v, { f with stack := rest }))) :
    c.Allows (f.pop >>= k) := by
  cases hstack : f.stack with
  | nil =>
    rw [Frame.pop, hstack]
    exact allows_throw_bind
  | cons v rest =>
    rw [Frame.pop, hstack]
    exact h v rest hstack

theorem Change.Allows.cell_bind {i : Nat} {k : CellRef → Exec α}
    (h : ∀ r ∈ f.cells, c.Allows (k r)) : c.Allows (f.cell i >>= k) := by
  cases hcell : f.cells[i]? with
  | none =>
    rw [Frame.cell, hcell]
    exact allows_throw_bind
  | some r =>
    rw [Frame.cell, hcell]
    exact h r (List.mem_of_getElem? hcell)

theorem Change.Admits.perform {i : Instr} (h : c.Admits f i) : c.Allows (perform f i) := by
  cases i <;> simp only [Machine.perform]
  case storeDeref j =>
    refine .pop_bind fun v rest _ => .cell_bind fun r hr => ?_
    exact (h.cells r hr v).bind fun _ => allows_pure
  case storeGlobal j =>
    refine allows_name.bind fun n => .pop_bind fun v rest _ => ?_
    exact (h.globals n v).bind fun _ => allows_pure
  case storeName j =>
    have hwrite : ∀ n v, c.Allows (setName (f.classSpace.getD f.globals) n v) := by
      cases hspace : f.classSpace with
      | none => exact h.globals
      | some r => exact h.classSpace r hspace
    refine allows_name.bind fun n => .pop_bind fun v rest _ => ?_
    exact (hwrite n v).bind fun _ => allows_pure
  case storeAttr j =>
    refine allows_name.bind fun n => .pop_bind fun v rest hstack => .pop_bind fun w _ _ => ?_
    exact (h.attributes j v rest rfl hstack n w).bind fun _ => allows_pure
  all_goals infer_instance

theorem allows_step (h : ∀ i, f.code.object.instructions[f.pc]? = some i → c.Admits f i) :
    c.Allows (step f) := by
  unfold step
  split
  · rename_i i hi
    have hadmits := h i hi
    exact Change.Admits.perform ⟨hadmits.cells, hadmits.globals, hadmits.classSpace,
      hadmits.attributes⟩
  · infer_instance

/-- Cells and namespaces may be made and written with changes of the sort. -/
class Change.Writes (c : Change) : Prop where
  newCell (value : Option Value) : c.Allows (newCell value)
  newSpace (names : NameMap) : c.Allows (newSpace names)
  setCell (r : CellRef) (v : Value) : c.Allows (setCell r v)
  setName (r : SpaceRef) (n : Name) (v : Value) : c.Allows (setName r n v)

section Making

variable [hc : c.Writes]

instance allows_newCell {value : Option Value} : c.Allows (newCell value) := hc.newCell value

instance allows_newSpace {names : NameMap} : c.Allows (newSpace names) := hc.newSpace names

instance allows_setCell {r : CellRef} {v : Value} : c.Allows (setCell r v) := hc.setCell r v

instance allows_setName {r : SpaceRef} {n : Name} {v : Value} : c.Allows (setName r n v) :=
  hc.setName r n v

instance allows_setAttribute {v w : Value} {n : Name} : c.Allows (setAttribute v n w) := by
  unfold setAttribute
  split <;> infer_instance

theorem allows_step_of_writes (f : Frame) : c.Allows (step f) :=
  allows_step fun _ _ => ⟨fun _ _ _ => inferInstance, fun _ _ => inferInstance,
    fun _ _ _ _ => inferInstance, fun _ _ _ _ _ _ _ => inferInstance⟩

instance allows_make {code : LoadedCode} {globals : SpaceRef} {fast : Array (Option Value)}
    {closure : List CellRef} {space : Option SpaceRef} :
    c.Allows (Frame.make code globals fast closure space) := by
  unfold Frame.make
  infer_instance

instance allows_moveToCells {cells : List CellRef} {fast : Array (Option Value)}
    {params : List (Nat × Nat)} : c.Allows (moveToCells cells fast params) := by
  induction params generalizing fast with
  | nil => exact allows_pure
  | cons param params ih =>
    unfold moveToCells
    split <;> infer_instance

instance allows_enterFunction {f : FunctionValue} {args : List Value} {keywords : Keywords} :
    c.Allows (enterFunction f args keywords) := by
  unfold enterFunction
  infer_instance

instance allows_enterClassBody {f : FunctionValue} {space : SpaceRef} :
    c.Allows (enterClassBody f space) :=
  allows_make

end Making

end Lexiscope.Machine
