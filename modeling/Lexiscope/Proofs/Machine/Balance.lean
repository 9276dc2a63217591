import Lexiscope.Proofs.Machine.Situations
/-!
# Steps keep the balance

Wherever steps lead, the depth of calls is the number of frames that are open, and what was told is
made of complete groups, apart from the entries of these frames.
-/

namespace Lexiscope.Machine

/-- What holds of a situation to which the machine came from a store, after a past, with no frame open
at the start. -/
structure Situation.Balanced (σ : Situation) (s : Store) (past : List Report) : Prop where
  told : ∃ new, σ.told = past ++ new ∧ Opens new σ.active
  depth : σ.store.depth = s.depth + σ.active.length
  limit : σ.store.limit = s.limit
  bound : s.depth ≤ s.limit → σ.store.depth ≤ σ.store.limit

section Balance

variable {σ τ : Situation} {s t : Store} {past : List Report}

theorem Situation.balanced_start (s : Store) (past : List Report) :
    Situation.Balanced ⟨s, past, []⟩ s past := by
  constructor
  · exact ⟨[], (List.append_nil past).symm, .groups .nil⟩
  · rfl
  · rfl
  · exact id

theorem Advance.balanced (h : Advance σ τ) (hσ : σ.Balanced s past) : τ.Balanced s past := by
  obtain ⟨⟨new, htold, hopens⟩, hdepth, hlimit, hbound⟩ := hσ
  cases h with
  | @calm u v told active hcalm =>
    refine ⟨⟨new, htold, hopens⟩, hcalm.depth.trans hdepth, hcalm.limit.trans hlimit, ?_⟩
    intro hs
    dsimp only
    rw [hcalm.depth, hcalm.limit]
    exact hbound hs
  | @start u f told active hnew hroom =>
    refine ⟨⟨new ++ [(.enter, f.id)], ?_, hopens.entered⟩, ?_, hlimit, fun _ => hroom⟩
    · rw [← List.append_assoc, ← htold]
    · change u.depth + 1 = s.depth + (active.length + 1)
      dsimp only at hdepth
      omega
  | @goOn u v r f told active hwake hroom =>
    -- Waking a generator leaves the depth alone; only then its frame is entered.
    obtain ⟨g, hg, hid, rfl⟩ := wake_eq_ok hwake
    refine ⟨⟨new ++ [(.enter, f.id)], ?_, hopens.entered⟩, ?_, hlimit, fun _ => hroom⟩
    · rw [← List.append_assoc, ← htold]
    · change u.depth + 1 = s.depth + (active.length + 1)
      dsimp only at hdepth
      omega
  | @stop u told active q =>
    have hless : u.depth - 1 ≤ u.depth := Nat.sub_le _ _
    refine ⟨⟨new ++ [(q.moment, q.frame.id)], ?_, hopens.left q.moment_ne_enter⟩, ?_, hlimit,
      fun hs => Nat.le_trans hless (hbound hs)⟩
    · rw [← List.append_assoc, ← htold]
    · change u.depth - 1 = s.depth + active.length
      simp only [List.length_cons] at hdepth
      omega
  | @rest u told active q v r hq =>
    have hless : u.depth - 1 ≤ u.depth := Nat.sub_le _ _
    refine ⟨⟨new ++ [(.suspend, q.frame.id)], ?_, hopens.left (by simp)⟩, ?_, hlimit,
      fun hs => Nat.le_trans hless (hbound hs)⟩
    · rw [← List.append_assoc, ← htold]
    · change u.depth - 1 = s.depth + active.length
      simp only [List.length_cons] at hdepth
      omega
  | keep _ => exact ⟨⟨new, htold, hopens⟩, hdepth, hlimit, hbound⟩
  | drop _ => exact ⟨⟨new, htold, hopens⟩, hdepth, hlimit, hbound⟩

theorem Path.balanced (h : Path ⟨s, past, []⟩ σ) : σ.Balanced s past := by
  induction h with
  | refl => exact Situation.balanced_start s past
  | tail _ hstep ih => exact hstep.balanced ih

def Situation.inside (σ : Situation) (outer : List Nat) : Situation :=
  { σ with active := σ.active ++ outer }

theorem Advance.inside (h : Advance σ τ) (outer : List Nat) :
    Advance (σ.inside outer) (τ.inside outer) := by
  cases h with
  | calm hcalm => exact .calm hcalm
  | start hnew hroom => exact .start ⟨hnew.next, hnew.told, hnew.held⟩ hroom
  | goOn hwake hroom => exact .goOn hwake hroom
  | stop q => exact .stop q
  | rest r hq => exact .rest r hq
  | keep hnew => exact .keep ⟨hnew.next, hnew.told, hnew.held⟩
  | drop hg => exact .drop hg

theorem Path.inside (h : Path σ τ) (outer : List Nat) : Path (σ.inside outer) (τ.inside outer) := by
  induction h with
  | refl => exact .refl
  | tail _ hstep ih => exact ih.tail (hstep.inside outer)

end Balance

end Lexiscope.Machine
