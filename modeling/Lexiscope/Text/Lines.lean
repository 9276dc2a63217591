/-!
# Lines

A text is cut into lines at its line breaks. A line feed is a line break, and a carriage
return right before it belongs to the break.
-/

namespace Lexiscope.Text

/-- The lines of characters. There is one more than there are line breaks. -/
def splitLines : List Char → List (List Char)
  | [] => [[]]
  | '\n' :: rest => [] :: splitLines rest
  | '\r' :: '\n' :: rest => [] :: splitLines rest
  | c :: rest =>
    match splitLines rest with
    | line :: lines => (c :: line) :: lines
    | [] => [[c]]

theorem splitLines_ne_nil (cs : List Char) : splitLines cs ≠ [] := by
  fun_cases splitLines cs <;> simp

theorem newline_not_mem_of_mem_splitLines {cs line : List Char}
    (h : line ∈ splitLines cs) : '\n' ∉ line := by
  fun_induction splitLines cs generalizing line with
  | case1 => simp_all
  | case2 rest ih | case3 rest ih =>
    rcases List.mem_cons.1 h with rfl | h
    · simp
    · exact ih h
  | case4 c rest hc _ first lines hs ih =>
    rcases List.mem_cons.1 h with rfl | h
    · have hfirst : '\n' ∉ first := ih (hs ▸ List.mem_cons_self)
      simp_all [eq_comm]
    · exact ih (hs ▸ List.mem_cons_of_mem _ h)
  | case5 c rest hc _ hs => exact absurd hs (splitLines_ne_nil rest)

def lines (s : String) : List String := (splitLines s.toList).map String.ofList

end Lexiscope.Text
