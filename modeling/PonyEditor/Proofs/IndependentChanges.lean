import PonyEditor.Proofs.BatchAtomicity

/-!
# Independent changes commute

Two changes of lines that do not overlap may be made in either order.  Made second, the lower one
has its lines moved by as many as the upper one adds or takes away (`Change.shiftedPast`).  The
lines after both are the old ones with two stretches replaced at once (`Change.spliceBoth`), and
either order gives these (`splice_shiftedPast`, `splice_splice_above`).

The two orders go through different tables of starts and different scans: a comment that one change
opens may be seen before or after the other one closes it.  But what a change leaves is decided by
the lines (`Document.after`), so the same lines make the same document.
-/

namespace PonyEditor
namespace Change

/-- The change as it stands after another one above it: its lines are moved by as many as that one
adds or takes away. -/
def shiftedPast (c above : Change) : Change :=
  { c with
    start := c.start - above.edit.removed + above.lines.length
    stop := c.stop - above.edit.removed + above.lines.length }

/-- The lines after two changes that are made at once, the first of them above the second. -/
def spliceBoth (a b : Change) (lines : List String) : List String :=
  lines.take a.start ++ a.lines ++ (lines.drop a.stop).take (b.start - a.stop) ++ b.lines ++
    lines.drop b.stop

/-- A change of a middle part leaves the parts around it alone. -/
lemma splice_append {c : Change} {before middle : List String} (hstart : before.length = c.start)
    (hstop : (before ++ middle).length = c.stop) (after : List String) :
    c.splice (before ++ middle ++ after) = before ++ c.lines ++ after := by
  rw [splice, List.drop_left' hstop, List.append_assoc before, List.take_left' hstart]

/-- The lines from one number on, cut at a later one. -/
private lemma take_append_drop_of_le {lines : List String} {i j : Nat} (h : i ≤ j) :
    (lines.drop i).take (j - i) ++ lines.drop j = lines.drop i := by
  obtain ⟨k, rfl⟩ := Nat.exists_eq_add_of_le h
  rw [Nat.add_sub_cancel_left, ← List.drop_drop, List.take_append_drop]

/-- The lines up to one number, cut at an earlier one. -/
private lemma take_append_take_of_le {lines : List String} {i j : Nat} (h : i ≤ j) :
    lines.take i ++ (lines.drop i).take (j - i) = lines.take j := by
  obtain ⟨k, rfl⟩ := Nat.exists_eq_add_of_le h
  rw [Nat.add_sub_cancel_left, List.take_add]

section Independent

variable {a b : Change} {lines : List String} (ha : a.edit.fits lines.length = true)
  (hb : b.edit.fits lines.length = true) (hbelow : a.stop ≤ b.start)
include ha hb hbelow

/-- The upper change first. -/
lemma splice_shiftedPast : (b.shiftedPast a).splice (a.splice lines) = spliceBoth a b lines := by
  obtain ⟨hstart, hstop⟩ : a.start ≤ a.stop ∧ a.stop ≤ lines.length := Edit.fits_iff.mp ha
  obtain ⟨hstart', hstop'⟩ : b.start ≤ b.stop ∧ b.stop ≤ lines.length := Edit.fits_iff.mp hb
  have hcut : a.splice lines = lines.take a.start ++ a.lines ++
      (lines.drop a.stop).take (b.start - a.stop) ++
      (lines.drop b.start).take (b.stop - b.start) ++ lines.drop b.stop := by
    simp only [splice, List.append_assoc, take_append_drop_of_le hstart',
      take_append_drop_of_le hbelow]
  rw [hcut]
  apply splice_append
  · simp only [shiftedPast, Edit.removed, edit_start, edit_stop, List.length_append,
      List.length_take, List.length_drop]
    omega
  · simp only [shiftedPast, Edit.removed, edit_start, edit_stop, List.length_append,
      List.length_take, List.length_drop]
    omega

omit hb in
/-- The lower change first. -/
lemma splice_splice_above : a.splice (b.splice lines) = spliceBoth a b lines := by
  obtain ⟨hstart, hstop⟩ : a.start ≤ a.stop ∧ a.stop ≤ lines.length := Edit.fits_iff.mp ha
  have hcut : b.splice lines = lines.take a.start ++
      (lines.drop a.start).take (a.stop - a.start) ++
      ((lines.drop a.stop).take (b.start - a.stop) ++ b.lines ++ lines.drop b.stop) := by
    rw [splice, take_append_take_of_le hstart, ← List.append_assoc, ← List.append_assoc,
      take_append_take_of_le hbelow]
  have hlength : (lines.take a.start).length = a.start := List.length_take_of_le (by omega)
  have hlength' : (lines.take a.start ++ (lines.drop a.start).take (a.stop - a.start)).length =
      a.stop := by
    rw [take_append_take_of_le hstart, List.length_take_of_le hstop]
  rw [hcut, splice_append hlength hlength', spliceBoth]
  simp only [List.append_assoc]

end Independent

section Valid

variable {a b : Change} {lineCount : Nat} (ha : a.Valid lineCount) (hb : b.Valid lineCount)
  (hbelow : a.stop ≤ b.start)
  (hlimit : b.edit.countAfter (a.edit.countAfter lineCount) ≤ Offset.limit)
include ha hb hbelow hlimit

lemma validAll_shiftedPast : ValidAll [a, b.shiftedPast a] lineCount := by
  obtain ⟨hstart, hstop⟩ : a.start ≤ a.stop ∧ a.stop ≤ lineCount := Edit.fits_iff.mp ha.fits
  obtain ⟨hstart', hstop'⟩ : b.start ≤ b.stop ∧ b.stop ≤ lineCount := Edit.fits_iff.mp hb.fits
  simp only [Edit.countAfter, Edit.removed, edit_start, edit_stop, edit_count] at hlimit
  refine ⟨ha, ⟨hb.1, ?_, ?_, ?_⟩, trivial⟩
  · simp only [shiftedPast, Edit.removed, edit_start, edit_stop]
    omega
  · simp only [shiftedPast, Edit.countAfter, Edit.removed, edit_start, edit_stop, edit_count]
    omega
  · simp only [shiftedPast, Edit.countAfter, Edit.removed, edit_start, edit_stop, edit_count]
    omega

lemma validAll_above : ValidAll [b, a] lineCount := by
  obtain ⟨hstart, hstop⟩ : a.start ≤ a.stop ∧ a.stop ≤ lineCount := Edit.fits_iff.mp ha.fits
  obtain ⟨hstart', hstop'⟩ : b.start ≤ b.stop ∧ b.stop ≤ lineCount := Edit.fits_iff.mp hb.fits
  simp only [Edit.countAfter, Edit.removed, edit_start, edit_stop, edit_count] at hlimit
  refine ⟨hb, ⟨ha.1, hstart, ?_, ?_⟩, trivial⟩
  · simp only [Edit.countAfter, Edit.removed, edit_start, edit_stop, edit_count]
    omega
  · simp only [Edit.countAfter, Edit.removed, edit_start, edit_stop, edit_count]
    omega

end Valid

end Change

namespace Document

/-- The document after two independent changes. -/
def afterBoth (d : Document) (a b : Change) : Document :=
  { d with
    buffer := Buffer.ofLines (a.spliceBoth b d.buffer.lines)
    table := ⟨ModeTable.trail .normal (a.spliceBoth b d.buffer.lines),
      d.table.snapshot.next.next⟩
    report := {} }

/-- Two changes that are valid in a row leave what their lines say, one at a time or in a batch. -/
lemma replaceEach_pair {d : Document} (hd : d.InStep) {x y a b : Change}
    (hvalid : Change.ValidAll [x, y] d.lineCount)
    (hlines : y.splice (x.splice d.buffer.lines) = a.spliceBoth b d.buffer.lines) :
    d.replaceEach [x, y] = .ok (d.afterBoth a b) := by
  rw [replaceEach_of_valid hd hvalid, afterBoth, ← hlines]
  rfl

/-- **Independent changes commute.**  After any run of calls on the document of a text, let two
changes be valid, the second at or below the end of the first, with lines that can be numbered
after both.  The first and then the second, moved by the lines that the first adds or takes away,
leave the same document as the second and then the first, one at a time or in a batch: the same
lines, offsets, modes and snapshot.  The lines are the old ones with both stretches replaced. -/
theorem independent_changes_commute (text : String) (calls : List Call) (a b : Change) :
    let d := (ofText text).run calls
    a.Valid d.lineCount → b.Valid d.lineCount → a.stop ≤ b.start →
    b.edit.countAfter (a.edit.countAfter d.lineCount) ≤ Offset.limit →
    ∃ d', d.replaceEach [a, b.shiftedPast a] = .ok d' ∧ d.replaceEach [b, a] = .ok d' ∧
      (d.applyBatch [a, b.shiftedPast a]).map Prod.fst = .ok d' ∧
      (d.applyBatch [b, a]).map Prod.fst = .ok d' ∧
      d'.buffer.lines = a.spliceBoth b d.buffer.lines ∧
      d'.buffer.starts = Starts.ofLines d'.buffer.lines ∧
      d'.table.entries = (ModeTable.ofSource d'.buffer).entries ∧
      d'.snapshot = d.snapshot.next.next := by
  intro d ha hb hbelow hlimit
  obtain ⟨hd, -⟩ : d.InStep ∧ _ := run_spec (inStep_ofText text) calls
  have hfirst := replaceEach_pair hd (Change.validAll_shiftedPast ha hb hbelow hlimit)
    (Change.splice_shiftedPast ha.fits hb.fits hbelow)
  have hsecond := replaceEach_pair hd (Change.validAll_above ha hb hbelow hlimit)
    (Change.splice_splice_above ha.fits hbelow)
  refine ⟨d.afterBoth a b, hfirst, hsecond, ?_, ?_, rfl, rfl, ?_, rfl⟩
  · rw [map_fst_applyBatch hd, hfirst]
  · rw [map_fst_applyBatch hd, hsecond]
  · exact (ModeTable.entries_ofSource (d.afterBoth a b).buffer).symm

/-- The upper change opens a comment and the lower one, right below it, closes it: seen first, the
one that closes it has nothing to close. -/
theorem independent_changes_commute_around_comment :
    let d := (ofText "a\nb\nc").run [.replace ⟨3, 3, ["d"]⟩]
    let a : Change := ⟨0, 1, ["/*", "x"]⟩
    let b : Change := ⟨1, 1, ["*/"]⟩
    b.shiftedPast a = ⟨2, 2, ["*/"]⟩ ∧
    a.Valid d.lineCount ∧ b.Valid d.lineCount ∧ a.stop ≤ b.start ∧
    ∃ d', d.replaceEach [a, b.shiftedPast a] = .ok d' ∧ d.replaceEach [b, a] = .ok d' ∧
      (d.applyBatch [a, b.shiftedPast a]).map Prod.fst = .ok d' ∧
      (d.applyBatch [b, a]).map Prod.fst = .ok d' ∧
      d'.buffer.lines = ["/*", "x", "*/", "b", "c", "d"] ∧
      d'.buffer.starts = Starts.ofLines d'.buffer.lines ∧
      d'.table.entries = (ModeTable.ofSource d'.buffer).entries ∧
      d'.snapshot = d.snapshot.next.next := by
  intro d a b
  have hlines : d.buffer.lines = ["a", "b", "c", "d"] := by decide +kernel
  have ha : a.Valid d.lineCount := by decide +kernel
  have hb : b.Valid d.lineCount := by decide +kernel
  have hboth : ["/*", "x", "*/", "b", "c", "d"] = a.spliceBoth b d.buffer.lines := by
    rw [hlines]
    rfl
  rw [hboth]
  exact ⟨rfl, ha, hb, Nat.le_refl 1, independent_changes_commute "a\nb\nc"
    [.replace ⟨3, 3, ["d"]⟩] a b ha hb (Nat.le_refl 1) (by decide +kernel)⟩

end Document
end PonyEditor
