import Lexiscope.Code.Builder
/-!
# The code objects of inner bodies

The code of an inner body has a place of its own among the constants. The places are in the order in
which the bodies are defined.
-/

namespace Lexiscope.Code

def holdsCode (constants : Array (Constant Object)) (place : Nat) : Bool :=
  match constants[place]? with
  | some (.code _) => true
  | _ => false

/-- The places of the code objects among constants, in the order in which they were made. -/
def codePlaces (constants : Array (Constant Object)) : List Nat :=
  (List.range constants.size).filter (holdsCode constants)

def Builder.codeCount (b : Builder) : Nat := (codePlaces b.constants).length

theorem codePlaces_push (constants : Array (Constant Object)) (k : Constant Object) :
    codePlaces (constants.push k) =
      codePlaces constants ++ match k with | .code _ => [constants.size] | _ => [] := by
  unfold codePlaces
  rw [Array.size_push, List.range_succ, List.filter_append]
  congr 1
  · refine List.filter_congr fun i hi => ?_
    unfold holdsCode
    rw [Array.getElem?_push, if_neg (Nat.ne_of_lt (List.mem_range.1 hi))]
  · simp only [List.filter, holdsCode, Array.getElem?_push_size]
    cases k <;> rfl

theorem codeCount_constant (b : Builder) {k : Constant Object} (hk : ∀ c, k ≠ .code c) :
    (b.constant k).2.codeCount = b.codeCount := by
  unfold Builder.constant
  split
  · rfl
  · unfold Builder.codeCount
    rw [codePlaces_push]
    cases k with
    | code c => exact absurd rfl (hk c)
    | _ => simp

end Lexiscope.Code
