import PonyEditor.Text.Lined

/-!
# Start offsets

A table of where each line starts, so that an offset is found without adding up lengths.  After a
change at a line the starts before it stay, and only the rest is computed again.
-/

namespace PonyEditor

/-- The offset of the first byte of each line. -/
structure Starts where
  offsets : Array Nat
  deriving DecidableEq, Repr, Inhabited

namespace Starts

/-- The starts of consecutive lines, the first of them at `start`. -/
def offsetsFrom (start : Nat) : List String → List Nat
  | [] => []
  | line :: rest => start :: offsetsFrom (Text.nextStart start line) rest

@[simp]
theorem length_offsetsFrom (start : Nat) (lines : List String) :
    (offsetsFrom start lines).length = lines.length := by
  induction lines generalizing start with
  | nil => rfl
  | cons line rest ih => simp [offsetsFrom, ih]

/-- The table of the lines. -/
def ofLines (lines : List String) : Starts := ⟨(offsetsFrom 0 lines).toArray⟩

/-- The table of the lines, given one that is right for those before `first`. -/
def rebuild (t : Starts) (lines : List String) (first : Nat) : Starts :=
  let kept := min (min first lines.length) t.offsets.size
  let start :=
    match kept with
    | 0 => 0
    | last + 1 => Text.nextStart (t.offsets[last]?.getD 0) (lines[last]?.getD "")
  ⟨t.offsets.take kept ++ (offsetsFrom start (lines.drop kept)).toArray⟩

/-- The number of lines in the table. -/
def size (t : Starts) : Nat := t.offsets.size

/-- The start of a line. -/
def get? (t : Starts) (i : Nat) : Option Nat := t.offsets[i]?

/-- The last line that starts at or before an offset.  The table does not know where a line ends,
so an offset past the text is in the last line. -/
def lineOf? (t : Starts) (offset : Nat) : Option Nat :=
  if (t.get? 0).any (· ≤ offset) then
    some (bisect (fun i => (t.get? i).any (· ≤ offset)) 0 t.size)
  else none

end Starts
end PonyEditor
