/-!
# Names

Identifiers, and lists of them in which no name occurs twice. Such a list is a set in the
order in which its names came.
-/

namespace Lexiscope

/-- Identifiers, and all that is named by one. -/
abbrev Name := String

/-- A name added to the end of a list unless it is there. -/
def addName (names : List Name) (name : Name) : List Name :=
  if name ∈ names then names else names ++ [name]

def distinctNames (names : List Name) : List Name := names.foldl addName []

/-- Two lists without repetitions have the same names in whatever order. -/
def sameNames (a b : List Name) : Bool :=
  a.length == b.length && a.all b.contains

theorem mem_addName {names : List Name} {name n : Name} :
    n ∈ addName names name ↔ n ∈ names ∨ n = name := by
  unfold addName
  split <;> simp_all

theorem nodup_addName {names : List Name} (name : Name) (h : names.Nodup) :
    (addName names name).Nodup := by
  unfold addName
  split
  · exact h
  · rename_i hn
    rw [List.nodup_append]
    refine ⟨h, by simp, fun a ha b hb => ?_⟩
    rintro rfl
    exact hn (List.mem_singleton.1 hb ▸ ha)

theorem mem_foldl_addName {n : Name} (seen names : List Name) :
    n ∈ names.foldl addName seen ↔ n ∈ seen ∨ n ∈ names := by
  induction names generalizing seen with
  | nil => simp
  | cons m names ih => simp [ih, mem_addName, or_assoc]

theorem nodup_foldl_addName {seen : List Name} (names : List Name) (h : seen.Nodup) :
    (names.foldl addName seen).Nodup := by
  induction names generalizing seen with
  | nil => exact h
  | cons m names ih => exact ih (nodup_addName m h)

@[simp] theorem mem_distinctNames {n : Name} {names : List Name} :
    n ∈ distinctNames names ↔ n ∈ names := by
  simp [distinctNames, mem_foldl_addName]

theorem nodup_distinctNames (names : List Name) : (distinctNames names).Nodup :=
  nodup_foldl_addName names List.nodup_nil

end Lexiscope
