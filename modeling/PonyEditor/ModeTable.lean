import PonyEditor.Edit
import PonyEditor.Span
import PonyEditor.Text.Lined
import PonyEditor.Token.Lexeme

/-!
# The mode every line begins in

A table with the mode at the start of each line, and one more for the end of the text.  With it
any line can be scanned alone.  An edit fits the table to the new lines and then scans forward from
the first new line, until a line leaves the mode that the next one is recorded to begin in: from
there on nothing can have changed.

Each change that is applied makes a new snapshot, and a question about an older one is refused.
-/

namespace PonyEditor

/-! ## Snapshots -/

/-- The number of a state of the table. -/
structure Snapshot where
  version : UInt64
  deriving DecidableEq, Repr, Inhabited

namespace Snapshot

/-- The number before any text was seen. -/
def zero : Snapshot := ⟨0⟩

/-- The number after one more change. -/
def next (s : Snapshot) : Snapshot := ⟨s.version + 1⟩

instance : ToString Snapshot where
  toString s := "v" ++ toString s.version

end Snapshot

/-- Why a question is refused. -/
inductive QueryError where
  /-- The snapshot asked about is not the current one. -/
  | staleSnapshot (requested current : Snapshot)
  deriving DecidableEq, Repr

/-- The reason in words. -/
def QueryError.message : QueryError → String
  | staleSnapshot requested current => s!"stale snapshot {requested} (current is {current})"

/-! ## Notices -/

/-- The report that tokens on some lines may have changed: those lines, and their span. -/
structure Notice where
  lines : LineRange
  span : Span
  deriving DecidableEq, Repr

namespace Notice

variable {σ : Type} [Lined σ]

/-- The offset after the last byte of the text; `none` if it has no line. -/
def endOfText? (source : σ) : Option Nat :=
  match Lined.count source with
  | 0 => none
  | last + 1 => Lined.stop? source last

/-- The notice for the given lines.  For no lines its span is the point where they would be. -/
def ofLines (source : σ) (lines : LineRange) : Notice :=
  if lines.isEmpty then
    ⟨lines, Span.point
      (((Lined.start? source lines.start).or (endOfText? source)).getD 0)⟩
  else
    let start := (Lined.start? source lines.start).getD 0
    ⟨lines, ⟨start, (Lined.stop? source (lines.stop - 1)).getD start⟩⟩

end Notice

/-! ## The table -/

/-- The modes recorded for the lines.  `none` stands for a line that is not scanned yet. -/
structure ModeTable where
  entries : List (Option Mode)
  snapshot : Snapshot
  deriving DecidableEq, Repr

namespace ModeTable

/-- The number of lines of the table. -/
def lineCount (t : ModeTable) : Nat := t.entries.length - 1

/-- The mode a line begins in; at the line count, the mode the text ends in. -/
def entry? (t : ModeTable) (line : Nat) : Option Mode := t.entries[line]?.join

/-- The mode of every entry, a pending one taken as normal. -/
def modes (t : ModeTable) : List Mode := t.entries.map fun entry => entry.getD .normal

/-- Scans lines from the mode the first begins in, against the modes recorded after each of them,
and stops at the first line that leaves the recorded mode.  Gives the modes after each line, and
the number of lines scanned. -/
def settle (mode : Mode) : List String → List (Option Mode) → List (Option Mode) × Nat
  | line :: lines, recorded :: later =>
    let exit := mode.exit line
    if recorded = some exit then (recorded :: later, 1)
    else
      let (settled, scanned) := settle exit lines later
      (some exit :: settled, scanned + 1)
  | _, recorded => (recorded, 0)

/-- Scans forward from line `start`.  Gives the entries, and the line it stopped before. -/
def settleFrom (entries : List (Option Mode)) (lines : List String) (start : Nat) :
    List (Option Mode) × Nat :=
  let mode := (entries[start]?.join).getD .normal
  let (settled, scanned) := settle mode (lines.drop start) (entries.drop (start + 1))
  (entries.take (start + 1) ++ settled, start + scanned)

/-- The entries with room for the new lines of an edit.  New lines are pending, and the entry
after the last replaced line stands after the last new one, for comparison. -/
def refit (entries : List (Option Mode)) (e : Edit) : List (Option Mode) :=
  match e.count with
  | 0 => entries.take (e.start + 1) ++ entries.drop (e.stop + 1)
  | new + 1 => entries.take (e.start + 1) ++ List.replicate new none ++ entries.drop e.stop

theorem length_settle (mode : Mode) (lines : List String) (recorded : List (Option Mode)) :
    (settle mode lines recorded).1.length = recorded.length := by
  fun_induction settle mode lines recorded <;> simp_all

theorem length_settleFrom (entries : List (Option Mode)) (lines : List String) (start : Nat) :
    (settleFrom entries lines start).1.length = entries.length := by
  simp only [settleFrom, List.length_append, length_settle, List.length_take, List.length_drop]
  omega

/-- The fitted entries number one more than the lines after the edit. -/
theorem length_refit {entries : List (Option Mode)} {e : Edit} (hstart : e.start ≤ e.stop)
    (hstop : e.stop < entries.length) :
    (refit entries e).length = entries.length - e.removed + e.count := by
  unfold refit Edit.removed
  split
  · simp only [List.length_append, List.length_take, List.length_drop]
    omega
  · simp only [List.length_append, List.length_take, List.length_drop, List.length_replicate]
    omega

variable {σ : Type} [Lined σ]

/-- Forgets every entry and scans the whole text. -/
def rescan (t : ModeTable) (source : σ) : ModeTable × Notice :=
  let (entries, stop) :=
    settleFrom (some .normal :: List.replicate (Lined.count source) none) (Lined.lines source) 0
  (⟨entries, t.snapshot.next⟩, Notice.ofLines source ⟨0, stop⟩)

/-- The table of a text. -/
def ofSource (source : σ) : ModeTable := (rescan ⟨[], .zero⟩ source).1

/-- Follows an edit of the text.  The source holds the text after the edit. -/
def follow (t : ModeTable) (source : σ) (e : Edit) : Except EditError (ModeTable × Notice) :=
  let expected := t.lineCount - e.removed + e.count
  if !e.fits t.lineCount then .error (.outOfRange e.start e.stop t.lineCount)
  else if expected ≠ Lined.count source then
    .error (.countMismatch (Offset.cap expected) (Lined.count source))
  else
    let (entries, stop) := settleFrom (refit t.entries e) (Lined.lines source) e.start
    .ok (⟨entries, t.snapshot.next⟩, Notice.ofLines source ⟨e.start, stop⟩)

end ModeTable
end PonyEditor
