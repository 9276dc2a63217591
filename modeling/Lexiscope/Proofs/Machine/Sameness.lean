import Lexiscope.Machine.Operators
import Lexiscope.Proofs.Data.Double
import Lexiscope.Proofs.Machine.Equality
/-!
# Sameness

The operator `is` looks at the handle of each value, and takes two values to be the same if both
have one and the same. So it does not depend on the order of its operands, what is the same as one
value is so in a row, and every value is the same as itself but a range, which has no handle. Values
that are the same are equal, if no number in them is not a number.
-/

namespace Lexiscope.Machine

/-- What the operator `is` looks at in a value. -/
inductive Handle where
  | none
  | ellipsis
  | bool (b : Bool)
  | int (n : Int64)
  | float (x : Double)
  | str (id : Identity)
  | list (r : ListRef)
  | tuple (id : Identity)
  | dict (r : DictRef)
  | function (id : Identity)
  | builtin (id : Option Identity) (b : Builtin)
  | method (id : Identity)
  | type (space : SpaceRef)
  | object (attrs : SpaceRef)
  | generator (r : GeneratorRef)
  | iterator (r : IteratorRef)
  | exception (id : Identity)
  | exceptionType (kind : ExceptionKind)
  | cell (r : CellRef)
  | marker (id : Nat)
  | code (id : Origin)
  deriving DecidableEq

/-- What the operator `is` looks at. A range has nothing of the kind. -/
def Value.handle : Value → Option Handle
  | .none => some .none
  | .ellipsis => some .ellipsis
  | .bool b => some (.bool b)
  | .int n => some (.int n)
  | .float x => some (.float x)
  | .str t => some (.str t.id)
  | .list r => some (.list r)
  | .tuple id _ => some (.tuple id)
  | .dict r => some (.dict r)
  | .range _ => Option.none
  | .function f => some (.function f.id)
  | .builtin id b => some (.builtin id b)
  | .method id _ _ => some (.method id)
  | .type c => some (.type c.space)
  | .object _ attrs => some (.object attrs)
  | .generator r => some (.generator r)
  | .iterator r => some (.iterator r)
  | .exception id _ _ => some (.exception id)
  | .exceptionType k => some (.exceptionType k)
  | .cell r => some (.cell r)
  | .marker m => some (.marker m.id)
  | .code c => some (.code c.id)

section Handles

variable {a b c : Value}

theorem same_iff : a.same b = true ↔ a.handle = b.handle ∧ a.handle ≠ Option.none := by
  cases a <;> cases b <;> simp [Value.same, Value.sameObject, Value.handle]

theorem handle_eq_none : a.handle = Option.none ↔ ∃ r, a = .range r := by
  cases a <;> simp [Value.handle]

theorem same_self : a.same a = true ↔ ∀ r, a ≠ .range r := by
  simp [same_iff, handle_eq_none]

theorem same_comm (a b : Value) : a.same b = b.same a := by
  rw [Bool.eq_iff_iff, same_iff, same_iff]
  constructor
  · exact fun h => ⟨h.1.symm, h.1 ▸ h.2⟩
  · exact fun h => ⟨h.1.symm, h.1 ▸ h.2⟩

theorem same_trans (hab : a.same b = true) (hbc : b.same c = true) : a.same c = true := by
  rw [same_iff] at *
  exact ⟨hab.1.trans hbc.1, hab.2⟩

end Handles

mutual

/-- The value is a double that is not a number, or a tuple with such a value. A list or a dictionary
equals itself whatever is in it. -/
def Value.hasNaN : Value → Bool
  | .float x => x.isNaN
  | .tuple _ items => anyNaN items
  | _ => false

/-- One of the values has something in it that is not a number. -/
def anyNaN : List Value → Bool
  | [] => false
  | v :: vs => v.hasNaN || anyNaN vs

end

section Equality

variable {list : ListRef → ListRef → Bool} {dict : DictRef → DictRef → Bool}

mutual

theorem equalWith_self (hlist : ∀ r, list r r = true) (hdict : ∀ r, dict r r = true) :
    ∀ v : Value, v.hasNaN = false → v.equalWith list dict v = true
  | .float x, h => by
    have hx : x.equals x = true := by
      rw [Double.equals_self]
      simpa [Value.hasNaN] using h
    simp [Value.equalWith, Value.number?, Number.equal, Number.toDouble, hx]
  | .tuple _ items, h => allEqualWith_self hlist hdict items h
  | .list r, _ => by simp [Value.equalWith, Value.number?, hlist]
  | .dict r, _ => by simp [Value.equalWith, Value.number?, hdict]
  | .none, _ | .ellipsis, _ | .str _, _ | .range _, _ | .bool _, _ | .int _, _ => by
    simp [Value.equalWith, Value.number?, Number.equal]
  -- All others are compared as objects.
  | .function _, _ | .builtin _ _, _ | .method _ _ _, _ | .type _, _ | .object _ _, _
  | .generator _, _ | .iterator _, _ | .exception _ _ _, _ | .exceptionType _, _ | .cell _, _
  | .marker _, _ | .code _, _ => by
    simp [Value.equalWith, Value.number?, Value.sameObject]

theorem allEqualWith_self (hlist : ∀ r, list r r = true) (hdict : ∀ r, dict r r = true) :
    ∀ vs : List Value, anyNaN vs = false → allEqualWith list dict vs vs = true
  | [], _ => rfl
  | v :: vs, h => by
    rw [anyNaN, Bool.or_eq_false_iff] at h
    rw [allEqualWith, equalWith_self hlist hdict v h.1, allEqualWith_self hlist hdict vs h.2]
    rfl

end

end Equality

/-- What lies in memory under each identity: a text or the items of a tuple, which never change. -/
structure Memory where
  text : Identity → String
  items : Identity → List Value

/-- A text or a tuple is what lies in memory under its identity. -/
def Value.LiesIn (m : Memory) : Value → Prop
  | .str t => t.text = m.text t.id
  | .tuple id items => items = m.items id
  | _ => True

section Memory

variable {s : Store} {m : Memory} {a b : Value}

theorem equal_self (h : a.hasNaN = false) : a.equal s a = true := by
  rw [Value.equal, Store.nesting, Value.equalTo]
  exact equalWith_self (by simp) (by simp) a h

theorem equal_of_sameObject (h : a.sameObject b = true) : a.equal s b = true := by
  obtain ⟨list, dict, heq⟩ := exists_equalWith s
  rw [heq]
  cases a <;> cases b <;> simp_all [Value.sameObject, Value.equalWith, Value.number?]

theorem Str.eq_iff {t u : Str} : t = u ↔ t.id = u.id ∧ t.text = u.text := by
  cases t
  cases u
  simp

/-- Values of one memory that are the same are one value, unless they are compared as objects. -/
theorem eq_or_sameObject (ha : a.LiesIn m) (hb : b.LiesIn m) (h : a.same b = true) :
    a = b ∨ a.sameObject b = true := by
  cases a <;> cases b <;> simp_all [Value.same, Value.sameObject, Value.LiesIn, Str.eq_iff]

theorem equal_of_same (ha : a.LiesIn m) (hb : b.LiesIn m) (hnumbers : a.hasNaN = false)
    (h : a.same b = true) : a.equal s b = true := by
  rcases eq_or_sameObject ha hb h with rfl | hobject
  · exact equal_self hnumbers
  · exact equal_of_sameObject hobject

end Memory

theorem compareValues_is (a b : Value) (s : Store) :
    compareValues .is a b s = .ok (a.same b) s := rfl

/-- The operator `is` takes a value to be the same as itself exactly if it is no range. It is
symmetric and transitive, and `is not` is its negation. Values of one memory that are the same are
equal, unless something in them is not a number. -/
theorem same_relation (a b c : Value) (s : Store) :
    (compareValues .is a a s = .ok true s ↔ ∀ r, a ≠ .range r) ∧
    compareValues .is a b s = compareValues .is b a s ∧
    (compareValues .is a b s = .ok true s → compareValues .is b c s = .ok true s →
      compareValues .is a c s = .ok true s) ∧
    compareValues .isNot a b s = (not <$> compareValues .is a b) s ∧
    ∀ m : Memory, a.LiesIn m → b.LiesIn m → a.hasNaN = false →
      compareValues .is a b s = .ok true s → compareValues .eq a b s = .ok true s := by
  have htrue : ∀ a b, compareValues .is a b s = .ok true s ↔ a.same b = true := by
    simp [compareValues_is]
  refine ⟨by rw [htrue, same_self], ?_, ?_, rfl, ?_⟩
  · rw [compareValues_is, compareValues_is, same_comm]
  · rw [htrue, htrue, htrue]
    exact same_trans
  · intro m ha hb hnumbers hsame
    have hequal : a.equal s b = true := equal_of_same ha hb hnumbers ((htrue a b).1 hsame)
    change EStateM.Result.ok (a.equal s b) s = _
    rw [hequal]

def mixedPair : Value := .tuple (.fresh 0) [.float ⟨0x3FF8000000000000⟩, .str ⟨.fresh 1, "x"⟩]

theorem same_relation_mixedPair :
    ∃ m : Memory, mixedPair.LiesIn m ∧ mixedPair.hasNaN = false ∧
    compareValues .is mixedPair mixedPair {} = .ok true {} ∧
    compareValues .eq mixedPair mixedPair {} = .ok true {} := by
  obtain ⟨hself, -, -, -, hequal⟩ := same_relation mixedPair mixedPair mixedPair {}
  let m : Memory := ⟨fun _ => "x", fun _ => (mixedPair.tuple?).getD []⟩
  have hlies : mixedPair.LiesIn m := rfl
  have hnumbers : mixedPair.hasNaN = false := by decide
  have hsame := hself.2 nofun
  exact ⟨m, hlies, hnumbers, hsame, hequal m hlies hlies hnumbers hsame⟩

/-- A range equals itself, but the operator `is` does not take it to be the same as itself. -/
theorem range_not_itself :
    compareValues .is (.range ⟨0, 3, 1⟩) (.range ⟨0, 3, 1⟩) {} = .ok false {} ∧
    compareValues .eq (.range ⟨0, 3, 1⟩) (.range ⟨0, 3, 1⟩) {} = .ok true {} :=
  ⟨rfl, rfl⟩

end Lexiscope.Machine
