import PonyEditor.Text.Lines
import PonyEditor.Text.Starts

/-!
# Buffers

The lines of a document together with their start offsets.
-/

namespace PonyEditor

/-- Lines with a table of their starts. -/
structure Buffer where
  lines : List String
  starts : Starts
  deriving DecidableEq, Repr, Inhabited

namespace Buffer

/-- The buffer of the lines. -/
def ofLines (lines : List String) : Buffer := ⟨lines, Starts.ofLines lines⟩

/-- The buffer of a text. -/
def ofText (text : String) : Buffer := ofLines (Text.lines text)

/-- The text of a buffer. -/
def text (b : Buffer) : String := Text.unlines b.lines

/-- Puts lines in the place of those from `start` up to `stop`. -/
def replace (b : Buffer) (start stop : Nat) (lines : List String) : Buffer :=
  let lines := b.lines.take start ++ lines ++ b.lines.drop stop
  ⟨lines, b.starts.rebuild lines start⟩

/-- The line that an offset is in. -/
def lineAt? (b : Buffer) (offset : Nat) : Option Nat := do
  let i ← b.starts.lineOf? offset
  let start ← b.starts.get? i
  if offset ≤ Offset.add start (Text.lineLength (b.lines[i]?.getD "")) then some i else none

instance : Lined Buffer where
  lines := Buffer.lines
  start? b := b.starts.get?
  lineAt? := Buffer.lineAt?

end Buffer
end PonyEditor
