import PonyEditor.Proofs.DocumentRuns

/-!
# Notices of a batch

A batch of changes reports the lines scanned for each of them, in the numbering after the last.
Nothing that changes goes unreported: a line of the new text that no notice has is a line of the
old text, carried through all the edits, with the text and the mode it had
(`reported_or_sameLine`).  The reports lie within the new text, and their spans hold exactly
their lines.

The proof goes through the batch from the front.  One change touches nothing outside the lines
scanned for it (`exists_sameLine_of_notMem`).  A line that is outside the lines of all later
notices comes from the text after the first change, and if it was scanned there, the first notice
still has it: a carried range keeps its lines (`Edit.mem_carryThrough_iff`).
-/

namespace PonyEditor

/-- The span of a notice is that of its lines in the text: what it holds is those lines, joined,
and before it are the lines before them.  For no line it is the point where the line would start,
or the end of the text. -/
structure Notice.Exact (n : Notice) (lines : List String) : Prop where
  span_of_lt : n.lines.start < n.lines.stop →
    n.span.start = Text.bytesBefore lines n.lines.start ∧
    Text.slice? (Text.unlines lines) n.span.start n.span.stop =
      some (Text.unlines ((lines.take n.lines.stop).drop n.lines.start))
  span_of_le : n.lines.stop ≤ n.lines.start →
    n.span = Span.point
      (if n.lines.start < lines.length then Text.bytesBefore lines n.lines.start
        else Text.width (Text.unlines lines).toList)

lemma Notice.exact_ofLines {lines : List String} {r : LineRange} (hstop : r.stop ≤ lines.length)
    (hlimit : Text.width (Text.unlines lines).toList ≤ Offset.limit) :
    (Notice.ofLines (Buffer.ofLines lines) r).Exact lines := by
  constructor
  · intro hlt
    rw [Notice.lines_ofLines] at hlt ⊢
    exact Notice.span_ofLines_of_lt hlt hstop hlimit
  · intro hle
    rw [Notice.lines_ofLines] at hle ⊢
    exact Notice.span_ofLines_of_le hle hlimit

namespace Document

/-! ## One change -/

/-- A line that was not scanned for a change is a line from before it. -/
lemma exists_sameLine_of_notMem {d : Document} (hd : d.InStep) {c : Change}
    (hfits : c.edit.fits d.lineCount = true) {j : Nat} (hj : j < (d.after c).lineCount)
    (hnot : j ∉ (⟨c.start, ModeTable.reach d.buffer.lines c⟩ : LineRange)) :
    ∃ i, c.edit.lineAfter? i = some j ∧ (d.after c).view.SameLine j d.view i := by
  have hnew : Lined.lines (d.after c).buffer = c.splice (Lined.lines d.buffer) := rfl
  by_cases hbefore : j < c.start
  · exact ⟨j, Edit.lineAfter?_of_lt hbefore,
      ModeTable.sameLine_of_lt hfits hd.entries rfl hnew hbefore⟩
  · have hreach : ModeTable.reach d.buffer.lines c ≤ j :=
      Nat.le_of_not_lt fun hlt => hnot ⟨Nat.le_of_not_lt hbefore, hlt⟩
    have hnewLines : c.start + c.edit.count ≤ j := Nat.le_trans (ModeTable.le_reach hfits) hreach
    have hordered : c.start ≤ c.stop := (Edit.fits_iff.mp hfits).1
    have hremoved : c.start + c.edit.removed = c.stop := Nat.add_sub_cancel' hordered
    refine ⟨j - c.edit.count + c.edit.removed, ?_,
      ModeTable.sameLine_of_reach_le hfits hd.entries rfl hnew hreach hj⟩
    have hafter : c.edit.stop ≤ j - c.edit.count + c.edit.removed := by
      rw [c.edit_stop]
      omega
    rw [Edit.lineAfter?_of_le hordered hafter, Nat.add_sub_cancel]
    congr 1
    omega

/-! ## Changes in a row -/

@[simp] lemma length_scanned (lines : List String) (cs : List Change) :
    (scanned lines cs).length = cs.length := by
  induction cs generalizing lines with
  | nil => rfl
  | cons c cs ih => simp [scanned, ih]

lemma reported_cons (lines : List String) (c : Change) (cs : List Change) :
    reported lines (c :: cs) =
      Edit.carryThrough (cs.map Change.edit) ⟨c.start, ModeTable.reach lines c⟩ ::
        reported (c.splice lines) cs := by
  have hedits : ((cs.map Change.edit).zip (scanned (c.splice lines) cs)).map Prod.fst =
      cs.map Change.edit := List.map_fst_zip (by simp)
  rw [Edit.carryThrough, ← hedits, List.foldl_map]
  rfl

lemma length_reported (lines : List String) (cs : List Change) :
    (reported lines cs).length = cs.length := by
  induction cs generalizing lines with
  | nil => rfl
  | cons c cs ih => rw [reported_cons, List.length_cons, ih, List.length_cons]

lemma lineCount_foldl_after {d : Document} {cs : List Change}
    (hvalid : Change.ValidAll cs d.lineCount) :
    (cs.foldl after d).lineCount = Edit.countAfterAll (cs.map Change.edit) d.lineCount := by
  induction cs generalizing d with
  | nil => rfl
  | cons c cs ih =>
      obtain ⟨hc, hcs⟩ := hvalid
      rw [← lineCount_after hc] at hcs
      rw [List.foldl_cons, ih hcs, lineCount_after hc]
      rfl

/-- The lines scanned for a change are in order and within the text after it. -/
lemma scanned_bounds {lines : List String} {c : Change}
    (hfits : c.edit.fits lines.length = true) :
    c.start ≤ ModeTable.reach lines c ∧ ModeTable.reach lines c ≤ (c.splice lines).length :=
  ⟨Nat.le_trans (Nat.le_add_right _ _) (ModeTable.le_reach hfits), ModeTable.reach_le hfits⟩

lemma reported_bounds {d : Document} {cs : List Change}
    (hvalid : Change.ValidAll cs d.lineCount) {r : LineRange}
    (hr : r ∈ reported d.buffer.lines cs) :
    r.start ≤ r.stop ∧ r.stop ≤ (cs.foldl after d).lineCount := by
  induction cs generalizing d with
  | nil => exact nomatch hr
  | cons c cs ih =>
      obtain ⟨hc, hcs⟩ := hvalid
      rw [← lineCount_after hc] at hcs
      rw [reported_cons, List.mem_cons] at hr
      rcases hr with rfl | hr
      · obtain ⟨hstart, hstop⟩ := scanned_bounds hc.fits
        rw [List.foldl_cons, lineCount_foldl_after hcs]
        exact Edit.carryThrough_le hcs.edits hstart hstop
      · exact ih hcs hr

/-- **A line is reported, or it is a line from before the batch.** -/
lemma reported_or_sameLine {d : Document} (hd : d.InStep) {cs : List Change}
    (hvalid : Change.ValidAll cs d.lineCount) {j : Nat} (hj : j < (cs.foldl after d).lineCount) :
    (∃ r ∈ reported d.buffer.lines cs, j ∈ r) ∨
      ∃ i, Edit.lineAfterAll? (cs.map Change.edit) i = some j ∧
        (cs.foldl after d).view.SameLine j d.view i := by
  induction cs generalizing d with
  | nil => exact .inr ⟨j, rfl, View.SameLine.of_text_entry rfl rfl⟩
  | cons c cs ih =>
      obtain ⟨hc, hcs⟩ := hvalid
      rw [← lineCount_after hc] at hcs
      rw [reported_cons]
      rcases ih (hd.after hc.1) hcs hj with ⟨r, hr, hmem⟩ | ⟨i, hlater, hsame⟩
      · exact .inl ⟨r, List.mem_cons_of_mem _ hr, hmem⟩
      -- the line is line `i` of the text after the first change
      · by_cases hscan : i ∈ (⟨c.start, ModeTable.reach d.buffer.lines c⟩ : LineRange)
        · obtain ⟨hstart, hstop⟩ := scanned_bounds hc.fits
          refine .inl ⟨_, List.mem_cons_self, ?_⟩
          exact (Edit.mem_carryThrough_iff hcs.edits hstart hstop hlater).mpr hscan
        · have hi : i < (d.after c).lineCount := hsame.lt_lineCount hj
          obtain ⟨first, hfirst, hsame'⟩ := exists_sameLine_of_notMem hd hc.fits hi hscan
          refine .inr ⟨first, ?_, hsame.trans hsame'⟩
          rw [List.map_cons, Edit.lineAfterAll?, hfirst]
          exact hlater

/-! ## The notices of a batch -/

/-- **The notices of a batch miss nothing.**  After any run of calls on the document of a text, a
batch that its lines can take is made, with one notice for each change.  A line of the new text is
in the lines of a notice, or it is a line from before the batch, renumbered through all its edits,
with the text, the mode and the tokens it had there.  The lines of every notice are lines of the
new text and, while its offsets can be numbered, the span is that of the lines. -/
theorem applyBatch_misses_nothing (text : String) (calls : List Call) (cs : List Change)
    (hvalid : Change.ValidAll cs ((ofText text).run calls).lineCount) :
    ∃ d' notices, ((ofText text).run calls).applyBatch cs = .ok (d', notices) ∧
      d'.buffer.lines = cs.foldl (fun lines c => c.splice lines)
        ((ofText text).run calls).buffer.lines ∧
      notices.length = cs.length ∧
      (∀ j < d'.lineCount, (∃ n ∈ notices, j ∈ n.lines) ∨
        ∃ i < ((ofText text).run calls).lineCount,
          Edit.lineAfterAll? (cs.map Change.edit) i = some j ∧
          d'.view.SameLine j ((ofText text).run calls).view i) ∧
      ∀ n ∈ notices, n.lines.start ≤ n.lines.stop ∧ n.lines.stop ≤ d'.lineCount ∧
        (Text.width d'.text.toList ≤ Offset.limit → n.Exact d'.buffer.lines) := by
  obtain ⟨hd, -⟩ := run_spec (inStep_ofText text) calls
  generalize (ofText text).run calls = d at hd hvalid
  refine ⟨_, _, applyBatch_of_valid hd hvalid, ?_⟩
  -- what the batch returns differs by the report alone from the changes made in a row, and no
  -- part of the statement reads the report
  refine ⟨lines_foldl_after d cs, ?_, ?_, ?_⟩
  · rw [List.length_map, length_reported]
  · intro j hj
    rcases reported_or_sameLine hd hvalid hj with ⟨r, hr, hmem⟩ | ⟨i, hline, hsame⟩
    · refine .inl ⟨_, List.mem_map_of_mem hr, ?_⟩
      rwa [Notice.lines_ofLines]
    · exact .inr ⟨i, hsame.lt_lineCount hj, hline, hsame⟩
  · intro n hn
    obtain ⟨r, hr, rfl⟩ := List.mem_map.mp hn
    obtain ⟨hordered, hwithin⟩ := reported_bounds hvalid hr
    rw [Notice.lines_ofLines]
    refine ⟨hordered, hwithin, fun hlimit => ?_⟩
    rw [(hd.foldl_after hvalid).buffer_eq]
    exact Notice.exact_ofLines hwithin hlimit

/-- A comment is opened on the second line, and then two lines come in above it. -/
theorem applyBatch_misses_nothing_above_comment :
    Change.ValidAll [⟨1, 2, ["/*"]⟩, ⟨1, 1, ["use", "end"]⟩] ((ofText "a\nb\nc").run []).lineCount ∧
    ∃ d' notices, ((ofText "a\nb\nc").run []).applyBatch
        [⟨1, 2, ["/*"]⟩, ⟨1, 1, ["use", "end"]⟩] = .ok (d', notices) ∧
      d'.buffer.lines = ["a", "use", "end", "/*", "c"] ∧ notices.length = 2 ∧
      ∀ j < d'.lineCount, (∃ n ∈ notices, j ∈ n.lines) ∨
        ∃ i < ((ofText "a\nb\nc").run []).lineCount,
          Edit.lineAfterAll? [⟨1, 2, 1⟩, ⟨1, 1, 2⟩] i = some j ∧
          d'.view.SameLine j ((ofText "a\nb\nc").run []).view i := by
  have hvalid : Change.ValidAll [⟨1, 2, ["/*"]⟩, ⟨1, 1, ["use", "end"]⟩]
      ((ofText "a\nb\nc").run []).lineCount := by decide +kernel
  obtain ⟨d', notices, hok, hlines, hlength, hcovered, -⟩ :=
    applyBatch_misses_nothing "a\nb\nc" [] _ hvalid
  refine ⟨hvalid, d', notices, hok, hlines.trans ?_, hlength, hcovered⟩
  decide +kernel

end Document
end PonyEditor
