import Lexiscope.Proofs.Machine.Closed
import Lexiscope.Proofs.Machine.Kinds
/-!
# The stack at every place

A body that starts with the stack that its code is laid out for keeps to the layout, however often
it yields and whatever it meets in the store. So every place in the code is reached with one depth
of the stack.
-/

namespace Lexiscope.Machine

open Code (Instr Kind Kinds Object)
open Likeness

variable {layout : Nat → Kinds}

/-- The operands of a frame are split as its next instruction takes them. -/
theorem Frame.Reads.split {P : Value → Kind → Prop} {f : Frame} {i : Instr}
    {next target : Kinds → Prop} {p : Code.Pools} (hf : f.Reads P layout)
    (hi : i.Suits p next target (layout f.pc)) :
    ∃ τ σ, i.takes ≤ f.stack.length ∧ List.Forall₂ P (f.stack.take i.takes) τ ∧
      List.Forall₂ P (f.drop i.takes).stack σ ∧ i.Lays p next target τ σ := by
  obtain ⟨τ, σ, hlayout, hlength, hlays⟩ := hi
  have hstack := hlayout ▸ hf.stack
  have hle := hstack.length_eq
  rw [List.length_append] at hle
  refine ⟨τ, σ, by omega, ?_, ?_, hlays⟩
  · rw [← hlength]
    exact List.forall₂_take_append _ _ _ hstack
  · rw [Frame.drop, ← hlength]
    exact List.forall₂_drop_append _ _ _ hstack

theorem Frame.Fits.split {f : Frame} {i : Instr} {next target : Kinds → Prop} {p : Code.Pools}
    (hf : f.Fits layout) (hi : i.Suits p next target (layout f.pc)) :
    ∃ τ σ, i.takes ≤ f.stack.length ∧ HaveKinds (f.stack.take i.takes) τ ∧
      HaveKinds (f.drop i.takes).stack σ ∧ i.Lays p next target τ σ :=
  Frame.Reads.split ⟨hf.place, hf.stack⟩ hi

theorem mem_cells_of_step {f g : Frame} {k : Nat} {r : CellRef} {s u : Store}
    (hi : f.code.object.instructions[f.pc]? = some (.loadClosure k))
    (h : step f s = .ok (.next (g.push (.cell r))) u) : r ∈ f.cells := by
  unfold step at h
  rw [hi] at h
  obtain ⟨v, t, hv, h⟩ := bind_eq_ok h
  obtain ⟨q, t', hq, hv⟩ := bind_eq_ok hv
  cases hv
  obtain rfl : q = r := by
    simp only [pure, EStateM.pure, EStateM.Result.ok.injEq, Action.next.injEq, Frame.push,
      Frame.mk.injEq, List.cons.injEq, Value.cell.injEq] at h
    exact h.1.2.2.2.2.2.2.1.1
  cases hcell : f.cells[k]? with
  | none =>
    rw [Frame.cell, hcell] at hq
    cases hq
  | some q' =>
    rw [Frame.cell, hcell] at hq
    cases hq
    exact List.mem_of_getElem? hcell

/-- What is said of operands by their kinds holds after a step, if it holds of the cells of the
frame. -/
theorem leaves_of_step {P : Value → Kind → Prop} {f : Frame} {s u : Store} {a : Action}
    (hP : Reading P) (hcells : ∀ r ∈ f.cells, P (.cell r) .cell)
    (hc : f.code.object.LaidOut layout) (hf : f.Reads P layout) (h : step f s = .ok a u) :
    a.Leaves (Frame.Reads P layout) := by
  obtain ⟨i, hi, -, hdoes⟩ := performs_of_step h
  obtain ⟨τ, σ, -, htaken, hrest, hlays⟩ := hf.split (hc.instruction f.pc i hi)
  refine leaves_of_does (f := ({ f with pc := f.pc + 1 } : Frame).drop i.takes) hP rfl hrest htaken
    rfl hlays hdoes ?_
  rintro k r rfl rfl
  exact hcells r (mem_cells_of_step hi h)

theorem keeps_of_performs {L : Likeness} {f : Frame} {i : Instr} {a : Action}
    (hc : f.code.object.LaidOut layout) (hf : f.Fits layout)
    (hi : f.code.object.instructions[f.pc]? = some i)
    (h : L.Performs { f with pc := f.pc + 1 } i a) : a.Keeps layout := by
  obtain ⟨τ, σ, -, htaken, hrest, hlays⟩ := hf.split (hc.instruction f.pc i hi)
  exact keeps_of_does (f := ({ f with pc := f.pc + 1 } : Frame).drop i.takes) rfl hrest htaken rfl
    hlays h.2

/-- What an instruction does leaves a frame of the same body, which keeps to the layout. -/
theorem keeps_of_step {f : Frame} {s u : Store} {a : Action} (hc : f.code.object.LaidOut layout)
    (hf : f.Fits layout) (h : step f s = .ok a u) :
    f.SameBody a.frame ∧ a.frame.fast.size = f.fast.size ∧ a.Keeps layout := by
  obtain ⟨i, hi, hperforms⟩ := performs_of_step h
  have hsize := fastSize_of_does hperforms.2
  exact ⟨sameBody_of_performs hperforms, hsize, keeps_of_performs hc hf hi hperforms⟩

theorem Frame.Roomy.sameBody {f g : Frame} (hf : f.Roomy) (hbody : f.SameBody g)
    (hsize : g.fast.size = f.fast.size) : g.Roomy := by
  refine ⟨?_, ?_⟩
  · rw [hsize, hbody.code]
    exact hf.fast
  · rw [hbody.cells, hbody.code]
    exact hf.cells

theorem Action.Leaves.leadsTo {p : Frame → Prop} {a : Action} {g : Frame} (ha : a.Leaves p)
    (h : a.LeadsTo g) : p g := by
  cases a with
  | next f =>
    obtain rfl := h
    exact ha
  | returned x f | yielded x f => exact h.elim
  | invoke callee args keywords f =>
    obtain ⟨v, rfl⟩ := h
    exact ha v
  | unpack x count f =>
    obtain ⟨items, hcount, rfl⟩ := h
    exact ha items hcount
  | advance iterator target f =>
    obtain ⟨hgo, w, rest, hstack, hend⟩ := ha
    rcases h with ⟨v, rfl⟩ | ⟨v, rest', hstack', rfl⟩
    · exact hgo v
    · rw [hstack] at hstack'
      cases hstack'
      exact hend

theorem Action.Keeps.leadsTo {a : Action} {g : Frame} (ha : a.Keeps layout) (h : a.LeadsTo g) :
    g.Fits layout :=
  (Action.keeps_iff.1 ha).leadsTo h

/-- A body keeps to its layout in all its course. -/
theorem Course.fits {f g : Frame} {s t : Store} {es : List Event} (h : Course f s es g t)
    (hc : f.code.object.LaidOut layout) (hf : f.Fits layout) :
    g.code = f.code ∧ g.Fits layout := by
  induction h with
  | here => exact ⟨rfl, hf⟩
  | turn hstep hact _ ih =>
    obtain ⟨hbody, -, hkeeps⟩ := keeps_of_step hc hf hstep
    have hleads := leadsTo_of_act hact
    obtain ⟨hbody', -, -⟩ := hleads.same
    have hsame := hbody.trans hbody'
    obtain ⟨hcode, hfits⟩ := ih (hsame.code ▸ hc) (hkeeps.leadsTo hleads)
    exact ⟨hcode.trans hsame.code, hfits⟩
  | yield hstep _ ih =>
    obtain ⟨hbody, -, hkeeps⟩ := keeps_of_step hc hf hstep
    obtain ⟨hcode, hfits⟩ := ih (hbody.code ▸ hc) hkeeps
    exact ⟨hcode.trans hbody.code, hfits⟩

end Lexiscope.Machine
