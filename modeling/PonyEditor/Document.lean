import PonyEditor.Bracket
import PonyEditor.Indent
import PonyEditor.Report
import PonyEditor.Settings
import PonyEditor.Text.Buffer
import PonyEditor.View.RangeWalk

/-!
# Documents

A document is a text under edit, with the modes of its lines and the report of the last compiler
run.  Text and modes change together, and every change drops the report.  A batch of changes is
checked as a whole before the first of them is made.
-/

namespace PonyEditor

/-- New text for the lines from `start` up to `stop`. -/
structure Change where
  start : Nat
  stop : Nat
  lines : List String
  deriving DecidableEq, Repr

namespace Change

/-- The edit of lines that the change makes. -/
def edit (c : Change) : Edit := ⟨c.start, c.stop, c.lines.length⟩

/-- Whether a line of text holds a line feed, and so is none. -/
def isBroken (line : String) : Bool := line.toList.contains '\n'

/-- The line count after the change, or why the change is refused.  A line feed in the new lines
is found before a range that does not fit. -/
def check (c : Change) (lineCount : Nat) : Except EditError Nat :=
  match c.lines.findIdx? isBroken with
  | some index => .error (.lineBreak (Offset.cap index))
  | none => c.edit.check lineCount

/-- The line count after changes in a row, or why the first refused one is. -/
def checkAll : List Change → Nat → Except EditError Nat
  | [], lineCount => .ok lineCount
  | c :: cs, lineCount => do
    let lineCount ← c.check lineCount
    checkAll cs lineCount

end Change

/-- A text under edit. -/
structure Document where
  path : Option String := none
  buffer : Buffer
  table : ModeTable
  report : Report := {}
  deriving DecidableEq, Repr

namespace Document

/-- The document of a text. -/
def ofText (text : String) : Document :=
  let buffer := Buffer.ofText text
  { buffer, table := .ofSource buffer }

instance : Inhabited Document := ⟨ofText ""⟩

variable (d : Document)

/-- The document as the content of a file. -/
def withPath (path : String) : Document := { d with path := some path }

/-- The text of a document. -/
def text : String := d.buffer.text

/-- The number of lines. -/
def lineCount : Nat := d.buffer.lines.length

/-- The number of the current state. -/
def snapshot : Snapshot := d.table.snapshot

/-- The tokens of the current state. -/
def view : View Buffer := ⟨d.table, d.buffer⟩

/-! ## Changes -/

/-- Makes one change, which has been checked. -/
def perform (c : Change) : Except EditError (Document × Notice) := do
  let buffer := d.buffer.replace c.start c.stop c.lines
  let (table, notice) ← d.table.follow buffer c.edit
  return ({ d with buffer, table }, notice)

/-- Makes changes in a row, which have been checked.  Gives the lines scanned for each, in the
numbering after it. -/
def performAll (d : Document) : List Change → Except EditError (Document × List LineRange)
  | [] => .ok (d, [])
  | c :: cs => do
    let (d, notice) ← d.perform c
    let (d, scanned) ← d.performAll cs
    return (d, notice.lines :: scanned)

/-- Puts lines in the place of those from `start` up to `stop`. -/
def replace (c : Change) : Except EditError (Document × Notice) := do
  let _ ← c.check d.lineCount
  let (d, notice) ← d.perform c
  return ({ d with report := d.report.clear.2 }, notice)

/-- The ranges, each carried from the numbering after its own edit to that after the last. -/
def carryAll : List (Edit × LineRange) → List LineRange
  | [] => []
  | (_, range) :: later =>
    later.foldl (fun range next => next.1.carryRange range) range :: carryAll later

/-- Makes changes in a row, each to the text that the one before leaves, or none of them.  Gives a
notice for each, in the numbering after the last. -/
def applyBatch (changes : List Change) : Except EditError (Document × List Notice) := do
  let _ ← Change.checkAll changes d.lineCount
  let (d', scanned) ← d.performAll changes
  let d' := if changes.isEmpty then d' else { d' with report := d'.report.clear.2 }
  let carried := carryAll ((changes.map Change.edit).zip scanned)
  return (d', carried.map (Notice.ofLines d'.buffer))

/-- Takes a new text from the start. -/
def reload (text : String) : Document × Notice :=
  let buffer := Buffer.ofText text
  let (table, notice) := d.table.rescan buffer
  ({ d with buffer, table, report := d.report.clear.2 }, notice)

/-! ## Reports -/

/-- Takes the report of a compiler run. -/
def setReport (report : Report) : Document := { d with report }

/-- The underlines of the report.  A document with a path takes only the diagnostics in its file,
one without takes them all. -/
def underlines : List Underline :=
  match d.path with
  | some path => d.view.underlines (d.report.forFile path)
  | none => d.view.underlines d.report.diagnostics

/-! ## Questions -/

/-- The offset of a column of a line. -/
def offsetAt? (line column : Nat) : Option Nat := d.view.offsetAt? line column

/-- The indent for a new line. -/
def indent (line : Nat) (settings : Settings) : Nat := d.view.indent line settings.indentSize

/-- The spans of the bracket group at an offset. -/
def bracketGroup (offset : Nat) : List Span := d.view.bracketGroup offset

/-- The tokens that overlap a span, asked for at a snapshot. -/
def range (snapshot : Snapshot) (span : Span) : Except QueryError (RangeWalk Buffer) := do
  let view ← d.table.view d.buffer snapshot
  return view.range span

end Document
end PonyEditor
