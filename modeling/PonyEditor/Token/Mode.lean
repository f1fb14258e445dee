import PonyEditor.Offset

/-!
# Scanning modes

Two constructs run past the end of a line: triple-quoted strings and block comments, which nest.
A mode says which of them is open between two lines.
-/

namespace PonyEditor

/-- What is still open where a line begins. -/
inductive Mode where
  /-- Nothing is open. -/
  | normal
  /-- A triple-quoted string is open. -/
  | tripleString
  /-- As many block comments are open, one in the other. -/
  | blockComment (depth : Nat) (pos : 0 < depth)
  deriving DecidableEq, Repr

namespace Mode

instance : Inhabited Mode := ⟨normal⟩

/-- The mode with `depth` block comments open. -/
def ofDepth : Nat → Mode
  | 0 => normal
  | depth + 1 => blockComment (depth + 1) depth.succ_pos

/-- The number of open block comments. -/
def depth : Mode → Nat
  | blockComment depth _ => depth
  | _ => 0

/-- Whether a construct goes on from the line before. -/
def isContinuation (mode : Mode) : Bool := mode != normal

/-- One block comment more; the count stops at the limit. -/
def deepen (depth : Nat) : Nat := if depth < Offset.limit then depth + 1 else depth

instance : ToString Mode where
  toString
    | normal => "normal"
    | tripleString => "triple-string"
    | blockComment depth _ => "block-comment(" ++ toString depth ++ ")"

@[simp]
theorem depth_ofDepth (d : Nat) : (ofDepth d).depth = d := by
  cases d <;> rfl

theorem ofDepth_of_pos {d : Nat} (h : 0 < d) : ofDepth d = blockComment d h := by
  cases d with
  | zero => exact absurd h (Nat.lt_irrefl 0)
  | succ d => rfl

end Mode
end PonyEditor
