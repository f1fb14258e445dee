import PonyEditor.Offset

/-!
# Edits of whole lines

An edit replaces consecutive lines by a number of new ones.  It says nothing about their text, so
it is all that line numbers, ranges of lines and line counts need to be carried over the change.
-/

namespace PonyEditor

/-- The lines from `start` up to, and not including, `stop`. -/
structure LineRange where
  start : Nat
  stop : Nat
  deriving DecidableEq, Repr, Inhabited

/-- Whether the range has no line. -/
def LineRange.isEmpty (r : LineRange) : Bool := r.stop ≤ r.start

/-- The replacement of the lines from `start` up to `stop` by `count` lines. -/
structure Edit where
  start : Nat
  stop : Nat
  count : Nat
  deriving DecidableEq, Repr

/-- Why an edit is refused. -/
inductive EditError where
  /-- The replaced lines are inverted, or not all in the document. -/
  | outOfRange (start stop lineCount : Nat)
  /-- The text does not have the number of lines the edit leads to. -/
  | countMismatch (expected actual : Nat)
  /-- A replacement line holds a line feed. -/
  | lineBreak (index : Nat)
  /-- The document would have more lines than can be numbered. -/
  | tooManyLines (lineCount count : Nat)
  deriving DecidableEq, Repr

/-- The reason in words. -/
def EditError.message : EditError → String
  | outOfRange start stop lineCount =>
    s!"edit range {start}..{stop} is outside the document ({lineCount} lines)"
  | countMismatch expected actual =>
    s!"edit expects {expected} lines after applying, but the source has {actual}"
  | lineBreak index => s!"replacement line {index} contains a line break"
  | tooManyLines lineCount count =>
    s!"inserting {count} lines into {lineCount} overflows the line count"

namespace Edit

/-- The insertion of lines before a line. -/
def insert (line count : Nat) : Edit := ⟨line, line, count⟩

/-- The deletion of lines. -/
def delete (start stop : Nat) : Edit := ⟨start, stop, 0⟩

/-- The change of one line. -/
def change (line : Nat) : Edit := ⟨line, line + 1, 1⟩

/-- The number of replaced lines. -/
def removed (e : Edit) : Nat := e.stop - e.start

/-- Whether the replaced lines are lines of a document with `lineCount` lines. -/
def fits (e : Edit) (lineCount : Nat) : Bool := e.start ≤ e.stop && e.stop ≤ lineCount

/-- The line count after the edit; `none` if fewer lines were there than it removes, or more would
be than can be numbered. -/
def countAfter? (e : Edit) (lineCount : Nat) : Option Nat :=
  if lineCount < e.removed then none
  else if Offset.limit < lineCount - e.removed + e.count then none
  else some (lineCount - e.removed + e.count)

/-- The line count after the edit, or why the edit is refused. -/
def check (e : Edit) (lineCount : Nat) : Except EditError Nat :=
  if e.fits lineCount then
    match e.countAfter? lineCount with
    | some count => .ok count
    | none => .error (.tooManyLines lineCount e.count)
  else .error (.outOfRange e.start e.stop lineCount)

/-- A boundary between lines after the edit.  One among the replaced lines goes to `inside`. -/
def carryBoundary (e : Edit) (inside line : Nat) : Nat :=
  if line ≤ e.start then line
  else if e.stop ≤ line then Offset.add (line - e.removed) e.count
  else inside

/-- A range of lines after the edit.  An end of it among the replaced lines goes to the outer edge
of the new ones, so the range still has every line it had. -/
def carryRange (e : Edit) (r : LineRange) : LineRange :=
  let start := e.carryBoundary e.start r.start
  let stop := e.carryBoundary (Offset.add e.start e.count) r.stop
  ⟨start, max stop start⟩

end Edit
end PonyEditor
