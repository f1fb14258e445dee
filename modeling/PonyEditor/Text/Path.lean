import PonyEditor.Text.Lines

/-!
# Paths

A path is compared by its parts.  Slashes in a row count as one, one at the end does not count,
and neither does a dot that is not the very first part.  Two dots are a part like any other.
-/

namespace PonyEditor

/-- The parts of a path, and whether it begins at the root. -/
structure Path where
  rooted : Bool
  parts : List (List Char)
  deriving DecidableEq, Repr

namespace Path

/-- The parts among the pieces after the first slash. -/
def laterParts (pieces : List (List Char)) : List (List Char) :=
  pieces.filter fun piece => piece ≠ [] ∧ piece ≠ ['.']

/-- Reads a path. -/
def ofString (text : String) : Path :=
  match Text.splitOn '/' text.toList with
  | [] => ⟨false, []⟩
  | [] :: pieces => ⟨text ≠ "", laterParts pieces⟩
  | first :: pieces => ⟨false, first :: laterParts pieces⟩

end Path
end PonyEditor
