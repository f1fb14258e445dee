import PonyEditor.Text.Bytes

/-!
# Texts held as lines

An editor holds its text as numbered lines and is asked two questions about offsets: where a line
starts, and which line an offset is in.  `Lined` is what a holder of lines answers.  Here a plain
list of lines is one: it adds up the lengths before a line, and finds the line of an offset by
halving.
-/

namespace PonyEditor

/-- The last number of `lo ..< hi` at which `p` holds, found by halving.  It is right when `p`
holds at `lo` and, from the first number on where it fails, fails at every later one. -/
def bisect (p : Nat → Bool) (lo hi : Nat) : Nat :=
  if hi - lo ≤ 1 then lo
  else if p (lo + (hi - lo) / 2) then bisect p (lo + (hi - lo) / 2) hi
  else bisect p lo (lo + (hi - lo) / 2)
termination_by hi - lo

/-- A text held as lines. -/
class Lined (σ : Type) where
  /-- The lines, from the first on. -/
  lines : σ → List String
  /-- The offset of the first byte of a line. -/
  start? : σ → Nat → Option Nat
  /-- The line an offset is in; the end of a line, before the line feed, is still in it. -/
  lineAt? : σ → Nat → Option Nat

namespace Lined

variable {σ : Type} [Lined σ]

/-- The number of lines. -/
def count (source : σ) : Nat := (lines source).length

/-- The text of a line, if there is one of that number. -/
def line? (source : σ) (i : Nat) : Option String := (lines source)[i]?

/-- The text of a line; that of a line there is not is empty. -/
def line (source : σ) (i : Nat) : String := (line? source i).getD ""

/-- The offset after the last byte of a line. -/
def stop? (source : σ) (i : Nat) : Option Nat :=
  (start? source i).map fun start => Offset.add start (Text.lineLength (line source i))

end Lined

namespace Text

/-- Where the line after `line` starts, if `line` starts at `start`. -/
def nextStart (start : Nat) (line : String) : Nat :=
  Offset.add (Offset.add start (lineLength line)) 1

/-- The offset of the first byte of a line of the list. -/
def start? (lines : List String) (i : Nat) : Option Nat :=
  if i < lines.length then some ((lines.take i).foldl nextStart 0) else none

/-- The line of the list that an offset is in. -/
def lineAt? (lines : List String) (offset : Nat) : Option Nat :=
  if lines.isEmpty then none
  else
    let i := bisect (fun i => (start? lines i).any (· ≤ offset)) 0 lines.length
    match start? lines i with
    | some start =>
      if offset ≤ Offset.add start (lineLength (lines[i]?.getD "")) then some i else none
    | none => none

end Text

instance : Lined (List String) where
  lines := id
  start? := Text.start?
  lineAt? := Text.lineAt?

end PonyEditor
