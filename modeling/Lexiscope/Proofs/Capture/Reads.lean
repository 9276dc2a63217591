import Lexiscope.Capture.Requirements
/-!
# The names that a tree of code reads

A body and the bodies in its pool of constants, at any depth, form a tree. The walk over it finds
every global name that is read somewhere in the tree, and no name that is not read there.
-/

namespace Lexiscope.Capture

open Code (Instr Constant Object)

/-- The second body is the first one, or lies inside it at some depth. -/
inductive Inside : Object → Object → Prop where
  | self {c} : Inside c c
  | inner {c d e} : Inside c d → .code e ∈ d.constants → Inside c e

theorem Inside.outwards {c d e : Object} (hd : .code d ∈ c.constants) (h : Inside d e) :
    Inside c e := by
  induction h with
  | self => exact .inner .self hd
  | inner _ he ih => exact .inner ih he

/-- The place in the pool of names is that of a global name which an instruction reads, unless it
finds the name in the namespace of a class. A name that the body stores is one of its class. -/
def ReadsGlobal (c : Object) (i : Nat) : Prop :=
  .loadGlobal i ∈ c.instructions ∨ .loadName i ∈ c.instructions ∧ .storeName i ∉ c.instructions

/-- An instruction of the body that reads global names has the name. -/
def NamesGlobal (c : Object) (n : Name) : Prop :=
  ∃ i, (.loadGlobal i ∈ c.instructions ∨ .loadName i ∈ c.instructions) ∧ c.names[i]? = some n

section Own

variable {names : Array Name} {instructions : List Instr} {stored : List Nat} {i : Nat} {n : Name}

theorem mem_storedNames : i ∈ storedNames instructions ↔ .storeName i ∈ instructions := by
  unfold storedNames
  rw [List.mem_filterMap]
  constructor
  · rintro ⟨instr, hinstr, h⟩
    cases instr <;> cases h
    exact hinstr
  · exact fun h => ⟨_, h, rfl⟩

theorem mem_ownReads : n ∈ ownReads names stored instructions ↔
    ∃ i, (.loadGlobal i ∈ instructions ∨ .loadName i ∈ instructions ∧ i ∉ stored) ∧
      names[i]? = some n := by
  unfold ownReads
  rw [List.mem_filterMap]
  constructor
  · rintro ⟨instr, hinstr, h⟩
    cases instr <;> try cases h
    case loadGlobal i => exact ⟨i, .inl hinstr, h⟩
    case loadName i =>
      dsimp only at h
      split at h
      · cases h
      · exact ⟨i, .inr ⟨hinstr, by assumption⟩, h⟩
  · rintro ⟨i, hinstr | ⟨hinstr, hstored⟩, hn⟩
    · exact ⟨_, hinstr, hn⟩
    · exact ⟨_, hinstr, by simpa only [if_neg hstored] using hn⟩

end Own

section Pool

variable {constants : List (Constant Object)} {instructions : List Instr}

/-- Of several pairs for one place the first is kept. -/
theorem firsts_complete {bodies : List (Nat × InnerKind)} (seen : List (Nat × InnerKind)) {i : Nat}
    (h : i ∈ seen.map Prod.fst ∨ i ∈ bodies.map Prod.fst) :
    i ∈ (bodies.foldl (fun seen p => if seen.any (·.1 == p.1) then seen else seen ++ [p])
      seen).map Prod.fst := by
  induction bodies generalizing seen with
  | nil => exact h.resolve_right List.not_mem_nil
  | cons p bodies ih =>
    refine ih _ ?_
    rw [List.map_cons, List.mem_cons] at h
    dsimp only
    split
    · rename_i hseen
      rcases h with h | rfl | h
      · exact .inl h
      · obtain ⟨q, hq, hqp⟩ := List.any_eq_true.1 hseen
        exact .inl (List.mem_map.2 ⟨q, hq, beq_iff_eq.1 hqp⟩)
      · exact .inr h
    · rw [List.map_append, List.mem_append]
      rcases h with h | rfl | h
      · exact .inl (.inl h)
      · exact .inl (.inr List.mem_cons_self)
      · exact .inr h

/-- No body in the pool is left out, whatever is made of it. -/
theorem innerBodies_complete {i : Nat} {c : Object} (h : constants[i]? = some (.code c)) :
    ∃ kind, (i, kind) ∈ innerBodies constants instructions := by
  have hi : i ∈ (innerBodies constants instructions).map Prod.fst := by
    refine firsts_complete [] (.inr ?_)
    rw [List.map_append, List.mem_append, List.map_map]
    refine .inr (List.mem_map.2 ⟨i, List.mem_filter.2 ⟨?_, ?_⟩, rfl⟩)
    · exact List.mem_range.2 (List.getElem?_eq_some_iff.1 h).1
    · rw [h]
      rfl
  obtain ⟨⟨j, kind⟩, hmem, rfl⟩ := List.mem_map.1 hi
  exact ⟨kind, hmem⟩

theorem getElem?_poolReads (i : Nat) :
    (poolReads constants)[i]? = constants[i]?.map constantReads := by
  induction constants generalizing i with
  | nil => rfl
  | cons c constants ih => cases i with
    | zero => rfl
    | succ i => exact ih i

end Pool

section Tree

variable {c d : Object} {n : Name}

/-- The names that the walk finds are those that the body itself reads, and those that it finds in
the bodies of the pool. -/
theorem mem_globalReads (kind : InnerKind) : n ∈ globalReads kind c ↔
    n ∈ ownReads c.names (if kind = .classBody then storedNames c.instructions.toList else [])
      c.instructions.toList ∨
    ∃ i inner d, (i, inner) ∈ innerBodies c.constants.toList c.instructions.toList ∧
      c.constants[i]? = some (.code d) ∧ n ∈ globalReads inner d := by
  obtain ⟨_, _, instructions, ⟨constants⟩, names, _, _, _, _, _, _, _⟩ := c
  simp only [globalReads, List.mem_append, List.mem_flatMap, getElem?_poolReads,
    List.getElem?_toArray]
  refine or_congr Iff.rfl ⟨?_, ?_⟩
  · rintro ⟨⟨i, inner⟩, hmem, hn⟩
    cases hi : constants[i]? with
    | none => simp [hi] at hn
    | some k =>
      simp only [hi, Option.map_some] at hn
      cases k with
      | code d => exact ⟨i, inner, d, hmem, hi, hn⟩
      | _ => simp [constantReads] at hn
  · rintro ⟨i, inner, d, hmem, hi, hn⟩
    refine ⟨(i, inner), hmem, ?_⟩
    simp only [hi, Option.map_some]
    unfold constantReads
    exact hn

theorem globalReads_own (kind : InnerKind) {i : Nat} (hi : ReadsGlobal c i)
    (hn : c.names[i]? = some n) : n ∈ globalReads kind c := by
  refine (mem_globalReads kind).2 (.inl (mem_ownReads.2 ⟨i, ?_, hn⟩))
  rcases hi with hi | ⟨hi, hstored⟩
  · exact .inl (Array.mem_toList_iff.2 hi)
  · refine .inr ⟨Array.mem_toList_iff.2 hi, ?_⟩
    split
    · rwa [mem_storedNames, Array.mem_toList_iff]
    · exact List.not_mem_nil

/-- Every global name that is read somewhere in the tree is found. -/
theorem globalReads_complete (kind : InnerKind) (h : Inside c d) {i : Nat} (hi : ReadsGlobal d i)
    (hn : d.names[i]? = some n) : n ∈ globalReads kind c := by
  -- The walk comes to every body, though it may take it for another kind than it is.
  have hcomes : ∃ inner, ∀ m ∈ globalReads inner d, m ∈ globalReads kind c := by
    clear hi hn
    induction h with
    | self => exact ⟨kind, fun _ hm => hm⟩
    | @inner d e _ he ih =>
      obtain ⟨outer, houter⟩ := ih
      obtain ⟨j, hj⟩ := Array.mem_iff_getElem?.1 he
      obtain ⟨inner, hinner⟩ := innerBodies_complete (by rwa [Array.getElem?_toList])
      refine ⟨inner, fun m hm => houter m ?_⟩
      exact (mem_globalReads outer).2 (.inr ⟨j, inner, e, hinner, hj, hm⟩)
  obtain ⟨inner, hinner⟩ := hcomes
  exact hinner n (globalReads_own inner hi hn)

theorem namesGlobal_of_ownReads {stored : List Nat}
    (h : n ∈ ownReads c.names stored c.instructions.toList) : NamesGlobal c n := by
  obtain ⟨i, hi, hn⟩ := mem_ownReads.1 h
  refine ⟨i, ?_, hn⟩
  rw [← Array.mem_toList_iff, ← Array.mem_toList_iff]
  exact hi.imp_right And.left

mutual

/-- Every name that is found is named by an instruction somewhere in the tree. -/
theorem globalReads_sound : (kind : InnerKind) → (c : Object) → n ∈ globalReads kind c →
    ∃ d, Inside c d ∧ NamesGlobal d n
  | kind, ⟨_, _, instructions, ⟨constants⟩, names, _, _, _, _, _, _, _⟩, h => by
    rcases (mem_globalReads kind).1 h with h | ⟨i, inner, e, -, he, h⟩
    · exact ⟨_, .self, namesGlobal_of_ownReads h⟩
    · rw [List.getElem?_toArray] at he
      have he := List.mem_of_getElem? he
      obtain ⟨d, hd, hn⟩ := poolReads_sound constants e he inner h
      exact ⟨d, hd.outwards (List.mem_toArray.2 he), hn⟩

theorem poolReads_sound : (constants : List (Constant Object)) → (e : Object) →
    .code e ∈ constants → (kind : InnerKind) → n ∈ globalReads kind e →
      ∃ d, Inside e d ∧ NamesGlobal d n
  | [], _, he, _, _ => absurd he List.not_mem_nil
  | .code d :: constants, e, he, kind, h => by
    rcases List.mem_cons.1 he with hed | he
    · cases hed
      exact globalReads_sound kind d h
    · exact poolReads_sound constants e he kind h
  | .none :: constants, e, he, kind, h | .ellipsis :: constants, e, he, kind, h
  | .bool _ :: constants, e, he, kind, h | .int _ :: constants, e, he, kind, h
  | .float _ :: constants, e, he, kind, h | .str _ :: constants, e, he, kind, h
  | .names _ :: constants, e, he, kind, h | .marker _ :: constants, e, he, kind, h => by
    exact poolReads_sound constants e (List.mem_of_ne_of_mem (by simp) he) kind h

end

end Tree

end Lexiscope.Capture
