/-!
# Lines of a text

A text and its lines: line feeds part the lines and belong to none of them, so every text has at
least one line.  A carriage return is a character of its line like any other.  Output of other
programs is read by a second rule, which takes a line feed as the end of a line and drops one
carriage return before it.
-/

namespace PonyEditor
namespace Text

/-- The pieces between the occurrences of `sep`; there is always at least one. -/
def splitOn (sep : Char) : List Char → List (List Char)
  | [] => [[]]
  | c :: cs =>
    if c = sep then [] :: splitOn sep cs
    else
      match splitOn sep cs with
      | [] => [[c]]
      | piece :: pieces => (c :: piece) :: pieces

theorem splitOn_ne_nil (sep : Char) (cs : List Char) : splitOn sep cs ≠ [] := by
  cases cs with
  | nil => simp [splitOn]
  | cons c cs =>
    rw [splitOn]
    split
    · simp
    · split <;> simp

theorem sep_notMem_of_mem_splitOn {sep : Char} {cs piece : List Char}
    (h : piece ∈ splitOn sep cs) : sep ∉ piece := by
  induction cs generalizing piece with
  | nil => simp_all [splitOn]
  | cons c cs ih =>
    rw [splitOn] at h
    split at h
    · rcases List.mem_cons.1 h with rfl | h
      · simp
      · exact ih h
    · rename_i hc
      split at h
      · rename_i hs
        exact absurd hs (splitOn_ne_nil sep cs)
      · rename_i first pieces hs
        rcases List.mem_cons.1 h with rfl | h
        · have hfirst : sep ∉ first := ih (by simp [hs])
          simp [hfirst, Ne.symm hc]
        · exact ih (by simp [hs, h])

/-- The lines of a text. -/
def lines (text : String) : List String := (splitOn '\n' text.toList).map String.ofList

/-- The text with the given lines. -/
def unlines : List String → String
  | [] => ""
  | [line] => line
  | line :: rest => line ++ "\n" ++ unlines rest

/-- The characters without a carriage return at their end. -/
def dropReturn (cs : List Char) : List Char :=
  if cs.getLast? = some '\r' then cs.dropLast else cs

/-- The lines among pieces between line feeds: each but the last was ended by one, and nothing
after the last line feed is no line. -/
def ended : List (List Char) → List (List Char)
  | [] => []
  | [last] => if last = [] then [] else [last]
  | piece :: rest => dropReturn piece :: ended rest

/-- The lines of another program's output. -/
def outputLines (output : String) : List String :=
  (ended (splitOn '\n' output.toList)).map String.ofList

end Text
end PonyEditor
