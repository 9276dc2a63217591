/-!
# Maps in order of insertion

A map is the list of its entries. A new key goes to the end; a key that is present keeps its
place and its form, and only its value changes.
-/

namespace Lexiscope

/-- Entries in the order in which their keys were first inserted. -/
structure OrderedMap (κ : Type u) (α : Type v) where
  entries : List (κ × α) := []
  deriving Repr

namespace OrderedMap

variable {κ : Type u} {α : Type v} {β : Type w}

def empty : OrderedMap κ α := ⟨[]⟩

instance : Inhabited (OrderedMap κ α) := ⟨empty⟩

def keys (m : OrderedMap κ α) : List κ := m.entries.map Prod.fst

def values (m : OrderedMap κ α) : List α := m.entries.map Prod.snd

def size (m : OrderedMap κ α) : Nat := m.entries.length

def isEmpty (m : OrderedMap κ α) : Bool := m.entries.isEmpty

def mapValues (f : α → β) (m : OrderedMap κ α) : OrderedMap κ β :=
  ⟨m.entries.map fun e => (e.1, f e.2)⟩

def filter (p : κ → α → Bool) (m : OrderedMap κ α) : OrderedMap κ α :=
  ⟨m.entries.filter fun e => p e.1 e.2⟩

section

variable [BEq κ]

def findIn (k : κ) : List (κ × α) → Option α
  | [] => none
  | e :: es => if e.1 == k then some e.2 else findIn k es

def get? (m : OrderedMap κ α) (k : κ) : Option α := findIn k m.entries

def contains (m : OrderedMap κ α) (k : κ) : Bool := m.entries.any fun e => e.1 == k

/-- The entries with the value of `k` set: in place if it is there, else at the end. -/
def insertIn (k : κ) (v : α) : List (κ × α) → List (κ × α)
  | [] => [(k, v)]
  | e :: es => if e.1 == k then (e.1, v) :: es else e :: insertIn k v es

def insert (m : OrderedMap κ α) (k : κ) (v : α) : OrderedMap κ α := ⟨insertIn k v m.entries⟩

/-- The map without a key; the others keep their order. -/
def erase (m : OrderedMap κ α) (k : κ) : OrderedMap κ α := ⟨m.entries.eraseP fun e => e.1 == k⟩

def insertAll (m : OrderedMap κ α) (entries : List (κ × α)) : OrderedMap κ α :=
  entries.foldl (fun m e => m.insert e.1 e.2) m

def ofList (entries : List (κ × α)) : OrderedMap κ α := empty.insertAll entries

/-- Both maps have the same keys with related values, in whatever order. -/
def sameBy (related : α → α → Bool) (m n : OrderedMap κ α) : Bool :=
  m.size == n.size && m.entries.all fun e =>
    match n.get? e.1 with
    | some v => related e.2 v
    | none => false

theorem findIn_insertIn_self [ReflBEq κ] (k : κ) (v : α) (es : List (κ × α)) :
    findIn k (insertIn k v es) = some v := by
  induction es with
  | nil => simp [insertIn, findIn]
  | cons e es ih => by_cases h : (e.1 == k) = true <;> simp [insertIn, findIn, h, ih]

theorem findIn_insertIn_of_ne [EquivBEq κ] {k l : κ} (v : α) (es : List (κ × α))
    (h : (k == l) = false) : findIn l (insertIn k v es) = findIn l es := by
  induction es with
  | nil => simp [insertIn, findIn, h]
  | cons e es ih =>
    by_cases he : (e.1 == k) = true
    · have hl : (e.1 == l) = false := by rw [BEq.congr_left he]; exact h
      simp [insertIn, findIn, he, hl]
    · simp [insertIn, findIn, he, ih]

@[simp] theorem get?_empty (k : κ) : (empty : OrderedMap κ α).get? k = none := rfl

@[simp] theorem get?_insert_self [ReflBEq κ] (m : OrderedMap κ α) (k : κ) (v : α) :
    (m.insert k v).get? k = some v :=
  findIn_insertIn_self k v m.entries

theorem get?_insert_of_ne [EquivBEq κ] (m : OrderedMap κ α) {k l : κ} (v : α)
    (h : (k == l) = false) : (m.insert k v).get? l = m.get? l :=
  findIn_insertIn_of_ne v m.entries h

theorem contains_eq_isSome_get? (m : OrderedMap κ α) (k : κ) :
    m.contains k = (m.get? k).isSome := by
  obtain ⟨es⟩ := m
  simp only [contains, get?]
  induction es with
  | nil => rfl
  | cons e es ih => by_cases h : (e.1 == k) = true <;> simp_all [findIn]

theorem keys_insert (m : OrderedMap κ α) (k : κ) (v : α) :
    (m.insert k v).keys = if m.contains k then m.keys else m.keys ++ [k] := by
  obtain ⟨es⟩ := m
  simp only [contains, keys, insert]
  induction es with
  | nil => rfl
  | cons e es ih =>
    by_cases h : (e.1 == k) = true
    · simp [insertIn, h]
    · rw [Bool.not_eq_true] at h
      simp only [insertIn, h, List.any_cons, Bool.false_or, List.map_cons, Bool.false_eq_true,
        if_false, ih]
      exact apply_ite (e.1 :: ·) _ _ _

end

end OrderedMap

end Lexiscope
