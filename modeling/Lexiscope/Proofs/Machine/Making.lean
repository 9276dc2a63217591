import Mathlib.Data.List.Forall2
import Lexiscope.Proofs.Machine.Turn
/-!
# New cells and new frames

New cells have places after all that there were before. A new frame has new cells for the names that
live in cells, and those of the closure after them.
-/

namespace Lexiscope.Machine

open Exec

def Store.nextCells (s : Store) (count : Nat) : List CellRef :=
  (List.range' s.cells.size count).map CellRef.mk

def Store.withCells (s : Store) (values : List (Option Value)) : Store :=
  { s with cells := s.cells ++ values.toArray }

section Making

variable {ι : Type} {s : Store} {r : CellRef}

theorem le_of_mem_nextCells {count : Nat} (h : r ∈ s.nextCells count) : s.cells.size ≤ r.index := by
  obtain ⟨i, hi, rfl⟩ := List.mem_map.1 h
  exact (List.mem_range'_1.1 hi).1

theorem newCells_eq (value : ι → Option Value) (names : List ι) (s : Store) :
    names.mapM (fun n => newCell (value n)) s =
      .ok (s.nextCells names.length) (s.withCells (names.map value)) := by
  induction names generalizing s with
  | nil => simp [Store.nextCells, Store.withCells, pure, EStateM.pure]
  | cons n names ih =>
    have hfirst : newCell (value n) s =
        .ok ⟨s.cells.size⟩ { s with cells := s.cells.push (value n) } := rfl
    have hrest := ih { s with cells := s.cells.push (value n) }
    rw [List.mapM_cons, bind_ok hfirst, bind_ok hrest]
    simp [Store.nextCells, Store.withCells, List.range'_succ, pure, EStateM.pure]

theorem cell_withCells (values : List (Option Value)) :
    List.Forall₂ (fun v r => (s.withCells values).cell r = v) values (s.nextCells values.length) := by
  rw [List.forall₂_iff_get]
  constructor
  · simp [Store.nextCells]
  · intro i hi _
    have hnew : (s.cells ++ values.toArray)[s.cells.size + i]? = some values[i] := by
      rw [Array.getElem?_append_right (Nat.le_add_right _ _)]
      simp [hi]
    simp [Store.nextCells, Store.withCells, Store.cell, hnew]

theorem make_eq (code : LoadedCode) (globals : SpaceRef) (fast : Array (Option Value))
    (closure : List CellRef) (space : Option SpaceRef) (s : Store) :
    Frame.make code globals fast closure space s =
      .ok { id := s.next, code, globals, fast, classSpace := space
            cells := s.nextCells code.object.cellvars.length ++ closure }
        { s.withCells (code.object.cellvars.map fun _ => none) with next := s.next + 1 } := by
  have hown := newCells_eq (fun _ => none) code.object.cellvars s
  unfold Frame.make
  rw [bind_ok hown]
  rfl

end Making

end Lexiscope.Machine
