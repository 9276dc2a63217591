import Lexiscope.Machine.Compare
/-!
# Equality of containers

Containers are equal if their items are. The bound on nesting that the definition of equality counts
down does not matter for what is not inside a list or a dictionary.
-/

namespace Lexiscope.Machine

variable {s : Store}

theorem allEqualWith_eq_allRelated (list : ListRef → ListRef → Bool)
    (dict : DictRef → DictRef → Bool) (vs ws : List Value) :
    allEqualWith list dict vs ws = allRelated (Value.equalWith list dict) vs ws := by
  induction vs generalizing ws with
  | nil => cases ws <;> simp [allEqualWith, allRelated]
  | cons v vs ih => cases ws <;> simp [allEqualWith, allRelated, ih]

theorem equalTo_list (n : Nat) (r q : ListRef) : (Value.list r).equalTo s (n + 1) (.list q) =
    (r == q || allRelated (Value.equalTo s n) (s.list r).toList (s.list q).toList) := by
  rfl

theorem equalTo_dict (n : Nat) (r q : DictRef) : (Value.dict r).equalTo s (n + 1) (.dict q) =
    (r == q || (s.dict r).sameBy (Value.equalTo s n) (s.dict q)) := by
  rfl

theorem equalTo_tuple (n : Nat) (i j : Identity) (vs ws : List Value) :
    (Value.tuple i vs).equalTo s n (.tuple j ws) = allRelated (Value.equalTo s n) vs ws := by
  cases n <;> exact allEqualWith_eq_allRelated _ _ vs ws

theorem equal_tuple (i j : Identity) (vs ws : List Value) :
    (Value.tuple i vs).equal s (.tuple j ws) = allRelated (Value.equal s) vs ws :=
  equalTo_tuple s.nesting i j vs ws

/-- Equality compares lists and dictionaries in some way, and all other values by their kinds. -/
theorem exists_equalWith (s : Store) : ∃ list dict, Value.equal s = Value.equalWith list dict :=
  ⟨_, _, rfl⟩

end Lexiscope.Machine
