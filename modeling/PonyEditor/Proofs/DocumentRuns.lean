import PonyEditor.Proofs.ByteOffsets
import PonyEditor.Proofs.Renumbering
import PonyEditor.Proofs.Settling
import PonyEditor.Proofs.TokenOrder

/-!
# Runs of a document

A document holds its text three times over: the lines, their start offsets, and the mode each of
them begins in.  Each follows a change by a rule of its own.  `InStep` says that the three agree,
and every call keeps it (`call_spec`): a change that is checked is always made
(`replace_of_valid`, `applyBatch_of_valid`), and one that is refused leaves the document alone.

The lines after a run are those that the accepted changes give on the list of lines
(`run_spec`).  A document in step with its lines answers every question as the document of its
text does, since what a view answers does not depend on the number of its snapshot
(`View.restamp`).
-/

namespace PonyEditor

/-! ## Changes that are accepted -/

/-- What accepts where `p` holds and refuses where it does not accepts exactly where `p` holds. -/
lemma exists_ok_iff {ε α : Type} {x : Except ε α} {p : Prop} (hok : p → ∃ a, x = .ok a)
    (herror : ¬ p → ∃ e, x = .error e) : (∃ a, x = .ok a) ↔ p := by
  refine ⟨?_, hok⟩
  rintro ⟨a, ha⟩
  by_cases hp : p
  · exact hp
  · obtain ⟨e, he⟩ := herror hp
    exact nomatch ha.symm.trans he

namespace Edit

lemma check_of_valid {e : Edit} {lineCount : Nat} (h : e.Valid lineCount) :
    e.check lineCount = .ok (e.countAfter lineCount) := by
  have hfits : e.fits lineCount = true := fits_iff.mpr ⟨h.1, h.2.1⟩
  have hcount : e.countAfter? lineCount = some (e.countAfter lineCount) :=
    (countAfter?_eq_some_iff h.1 h.2.1).mpr ⟨h, rfl⟩
  rw [check, if_pos hfits, hcount]

lemma check_of_not_valid {e : Edit} {lineCount : Nat} (h : ¬ e.Valid lineCount) :
    ∃ reason, e.check lineCount = .error reason := by
  by_cases hfits : e.fits lineCount = true
  · obtain ⟨hordered, hwithin⟩ := fits_iff.mp hfits
    have hlimit : ¬ e.countAfter lineCount ≤ Offset.limit := fun hle => h ⟨hordered, hwithin, hle⟩
    rw [countAfter] at hlimit
    have hcount : e.countAfter? lineCount = none := by
      rw [countAfter?, if_neg (by rw [removed]; omega), if_pos (by omega)]
    exact ⟨_, by rw [check, if_pos hfits, hcount]⟩
  · exact ⟨_, by rw [check, if_neg hfits]⟩

end Edit

namespace Change

/-- A change that a text of `lineCount` lines can take: the edit is valid, and no new line holds a
line feed. -/
def Valid (c : Change) (lineCount : Nat) : Prop :=
  (∀ line ∈ c.lines, '\n' ∉ line.toList) ∧ c.edit.Valid lineCount

instance (c : Change) (lineCount : Nat) : Decidable (c.Valid lineCount) :=
  inferInstanceAs (Decidable (_ ∧ _))

/-- Changes that a text of `lineCount` lines can take one after the other. -/
def ValidAll : List Change → Nat → Prop
  | [], _ => True
  | c :: cs, lineCount => c.Valid lineCount ∧ ValidAll cs (c.edit.countAfter lineCount)

instance decidableValidAll :
    (cs : List Change) → (lineCount : Nat) → Decidable (ValidAll cs lineCount)
  | [], _ => .isTrue trivial
  | c :: cs, lineCount =>
    haveI := decidableValidAll cs (c.edit.countAfter lineCount)
    inferInstanceAs (Decidable (_ ∧ _))

lemma Valid.fits {c : Change} {lineCount : Nat} (h : c.Valid lineCount) :
    c.edit.fits lineCount = true :=
  Edit.fits_iff.mpr ⟨h.2.1, h.2.2.1⟩

lemma ValidAll.edits {cs : List Change} {lineCount : Nat} (h : ValidAll cs lineCount) :
    Edit.ValidAll (cs.map edit) lineCount := by
  induction cs generalizing lineCount with
  | nil => trivial
  | cons c cs ih => exact ⟨h.1.2, ih h.2⟩

lemma isBroken_eq_false_iff {line : String} : isBroken line = false ↔ '\n' ∉ line.toList := by
  simp [isBroken]

lemma check_of_valid {c : Change} {lineCount : Nat} (h : c.Valid lineCount) :
    c.check lineCount = .ok (c.edit.countAfter lineCount) := by
  have hnone : c.lines.findIdx? isBroken = none := by
    rw [List.findIdx?_eq_none_iff]
    exact fun line hline => isBroken_eq_false_iff.mpr (h.1 line hline)
  rw [check, hnone, Edit.check_of_valid h.2]

lemma check_of_not_valid {c : Change} {lineCount : Nat} (h : ¬ c.Valid lineCount) :
    ∃ reason, c.check lineCount = .error reason := by
  rw [check]
  cases hfind : c.lines.findIdx? isBroken with
  | some index => exact ⟨_, rfl⟩
  | none =>
      rw [List.findIdx?_eq_none_iff] at hfind
      have hlines : ∀ line ∈ c.lines, '\n' ∉ line.toList :=
        fun line hline => isBroken_eq_false_iff.mp (hfind line hline)
      exact Edit.check_of_not_valid fun hedit => h ⟨hlines, hedit⟩

lemma checkAll_of_valid {cs : List Change} {lineCount : Nat} (h : ValidAll cs lineCount) :
    checkAll cs lineCount = .ok (Edit.countAfterAll (cs.map edit) lineCount) := by
  induction cs generalizing lineCount with
  | nil => rfl
  | cons c cs ih =>
      rw [checkAll, check_of_valid h.1]
      exact ih h.2

lemma checkAll_of_not_valid {cs : List Change} {lineCount : Nat} (h : ¬ ValidAll cs lineCount) :
    ∃ reason, checkAll cs lineCount = .error reason := by
  induction cs generalizing lineCount with
  | nil => exact absurd trivial h
  | cons c cs ih =>
      by_cases hc : c.Valid lineCount
      · obtain ⟨reason, hreason⟩ := ih fun hcs => h ⟨hc, hcs⟩
        exact ⟨reason, by rw [checkAll, check_of_valid hc]; exact hreason⟩
      · obtain ⟨reason, hreason⟩ := check_of_not_valid hc
        exact ⟨reason, by rw [checkAll, hreason]; rfl⟩

end Change

/-! ## Text, offsets and modes in step -/

namespace Document

/-- The three forms of the text agree: no line is broken, the table of starts is that of the lines,
and so is the table of modes. -/
structure InStep (d : Document) : Prop where
  unbroken : ∀ line ∈ d.buffer.lines, '\n' ∉ line.toList
  starts : d.buffer.starts = Starts.ofLines d.buffer.lines
  entries : d.table.entries = ModeTable.trail .normal d.buffer.lines

lemma InStep.buffer_eq {d : Document} (hd : d.InStep) :
    d.buffer = Buffer.ofLines d.buffer.lines := by
  show (⟨d.buffer.lines, d.buffer.starts⟩ : Buffer) =
    ⟨d.buffer.lines, Starts.ofLines d.buffer.lines⟩
  rw [hd.starts]

lemma InStep.exact {d : Document} (hd : d.InStep) : Lined.Exact d.view.source := by
  show Lined.Exact d.buffer
  rw [hd.buffer_eq]
  exact Buffer.exact_ofLines d.buffer.lines

lemma InStep.mode_eq {d : Document} (hd : d.InStep) {i : Nat} (hi : i ≤ d.buffer.lines.length) :
    d.view.mode i = (d.buffer.lines.take i).foldl Mode.exit .normal := by
  have hentry : d.table.entry? i = some ((d.buffer.lines.take i).foldl Mode.exit .normal) := by
    rw [ModeTable.entry?, hd.entries, ModeTable.getElem?_trail _ hi]
    rfl
  exact congrArg (Option.getD · .normal) hentry

/-- The walk over a line, by its text and the lines before it. -/
lemma InStep.walk_eq {d : Document} (hd : d.InStep) {i : Nat} {line : String}
    (hline : d.buffer.lines[i]? = some line) :
    d.view.walk i = .ofLine line ((d.buffer.lines.take i).foldl Mode.exit .normal)
      (Text.lineStart d.buffer.lines i) := by
  have hlt : i < d.buffer.lines.length := (List.getElem?_eq_some_iff.mp hline).1
  have htext : d.view.line? i = some line := hline
  have hstart : d.view.start? i = some (Text.lineStart d.buffer.lines i) :=
    (hd.exact.start? i).trans (Text.start?_of_lt hlt)
  simp only [View.walk, htext, hstart, hd.mode_eq (Nat.le_of_lt hlt)]

/-- The document after a change that is made to it. -/
def after (d : Document) (c : Change) : Document :=
  { d with
    buffer := Buffer.ofLines (c.splice d.buffer.lines)
    table := ⟨ModeTable.trail .normal (c.splice d.buffer.lines), d.table.snapshot.next⟩ }

/-- The lines scanned for each of the changes in a row, in the numbering after it. -/
def scanned (lines : List String) : List Change → List LineRange
  | [] => []
  | c :: cs => ⟨c.start, ModeTable.reach lines c⟩ :: scanned (c.splice lines) cs

/-- The lines that a batch reports: those scanned for each change, carried through the later
edits. -/
def reported (lines : List String) (cs : List Change) : List LineRange :=
  carryAll ((cs.map Change.edit).zip (scanned lines cs))

@[simp] lemma lines_after (d : Document) (c : Change) :
    (d.after c).buffer.lines = c.splice d.buffer.lines := rfl

lemma lineCount_after {d : Document} {c : Change} (hc : c.Valid d.lineCount) :
    (d.after c).lineCount = c.edit.countAfter d.lineCount :=
  Change.length_splice hc.fits

lemma InStep.after {d : Document} (hd : d.InStep) {c : Change}
    (hlines : ∀ line ∈ c.lines, '\n' ∉ line.toList) : (d.after c).InStep := by
  refine ⟨?_, rfl, rfl⟩
  intro line hline
  simp only [lines_after, Change.splice, List.mem_append] at hline
  rcases hline with (hbefore | hnew) | hafter
  · exact hd.unbroken line (List.mem_of_mem_take hbefore)
  · exact hlines line hnew
  · exact hd.unbroken line (List.mem_of_mem_drop hafter)

lemma InStep.replace_buffer {d : Document} (hd : d.InStep) (c : Change) :
    d.buffer.replace c.start c.stop c.lines = (d.after c).buffer := by
  rw [hd.buffer_eq]
  exact Buffer.replace_ofLines _ _ _ _

/-- **The table follows a change that fits**: neither of its two refusals can come up after the
lines are replaced. -/
lemma InStep.follow_eq {d : Document} (hd : d.InStep) {c : Change}
    (hfits : c.edit.fits d.lineCount = true) :
    d.table.follow (d.buffer.replace c.start c.stop c.lines) c.edit =
      .ok ((d.after c).table, Notice.ofLines (d.after c).buffer
        ⟨c.start, ModeTable.reach d.buffer.lines c⟩) := by
  have hsource : Lined.lines (d.after c).buffer = c.splice d.buffer.lines := rfl
  rw [hd.replace_buffer]
  exact ModeTable.follow_of_trail hfits hd.entries hsource

/-- A change that fits is made. -/
lemma perform_eq {d : Document} (hd : d.InStep) {c : Change}
    (hfits : c.edit.fits d.lineCount = true) :
    d.perform c = .ok (d.after c, Notice.ofLines (d.after c).buffer
      ⟨c.start, ModeTable.reach d.buffer.lines c⟩) := by
  unfold perform
  simp only [hd.follow_eq hfits]
  rw [hd.replace_buffer]
  rfl

lemma performAll_eq {d : Document} (hd : d.InStep) {cs : List Change}
    (hvalid : Change.ValidAll cs d.lineCount) :
    d.performAll cs = .ok (cs.foldl after d, scanned d.buffer.lines cs) := by
  induction cs generalizing d with
  | nil => rfl
  | cons c cs ih =>
      obtain ⟨hc, hcs⟩ := hvalid
      have hrest := ih (hd.after hc.1) (by rwa [lineCount_after hc])
      unfold performAll
      rw [perform_eq hd hc.fits]
      simp only [bind, Except.bind, hrest, Notice.lines_ofLines]
      rfl

lemma InStep.foldl_after {d : Document} (hd : d.InStep) {cs : List Change}
    (hvalid : Change.ValidAll cs d.lineCount) : (cs.foldl Document.after d).InStep := by
  induction cs generalizing d with
  | nil => exact hd
  | cons c cs ih =>
      obtain ⟨hc, hcs⟩ := hvalid
      exact ih (hd.after hc.1) (by rwa [lineCount_after hc])

lemma lines_foldl_after (d : Document) (cs : List Change) :
    (cs.foldl after d).buffer.lines = cs.foldl (fun lines c => c.splice lines) d.buffer.lines := by
  induction cs generalizing d with
  | nil => rfl
  | cons c cs ih => exact ih (d.after c)

/-! ### Calls that are accepted, and calls that are refused -/

lemma replace_of_valid {d : Document} (hd : d.InStep) {c : Change} (hvalid : c.Valid d.lineCount) :
    d.replace c = .ok ({ d.after c with report := {} }, Notice.ofLines (d.after c).buffer
      ⟨c.start, ModeTable.reach d.buffer.lines c⟩) := by
  unfold replace
  rw [Change.check_of_valid hvalid, perform_eq hd hvalid.fits]
  rfl

lemma replace_of_not_valid {d : Document} {c : Change} (hvalid : ¬ c.Valid d.lineCount) :
    ∃ reason, d.replace c = .error reason := by
  obtain ⟨reason, hreason⟩ := Change.check_of_not_valid hvalid
  refine ⟨reason, ?_⟩
  unfold replace
  rw [hreason]
  rfl

lemma replace_ok_iff {d : Document} (hd : d.InStep) {c : Change} :
    (∃ result, d.replace c = .ok result) ↔ c.Valid d.lineCount :=
  exists_ok_iff (fun hvalid => ⟨_, replace_of_valid hd hvalid⟩) replace_of_not_valid

lemma applyBatch_of_valid {d : Document} (hd : d.InStep) {cs : List Change}
    (hvalid : Change.ValidAll cs d.lineCount) :
    d.applyBatch cs = .ok (
      { cs.foldl after d with report := if cs.isEmpty then d.report else {} },
      (reported d.buffer.lines cs).map (Notice.ofLines (cs.foldl after d).buffer)) := by
  unfold applyBatch
  rw [Change.checkAll_of_valid hvalid, performAll_eq hd hvalid]
  cases cs with
  | nil => rfl
  | cons c cs => rfl

lemma applyBatch_of_not_valid {d : Document} {cs : List Change}
    (hvalid : ¬ Change.ValidAll cs d.lineCount) : ∃ reason, d.applyBatch cs = .error reason := by
  obtain ⟨reason, hreason⟩ := Change.checkAll_of_not_valid hvalid
  refine ⟨reason, ?_⟩
  unfold applyBatch
  rw [hreason]
  rfl

lemma applyBatch_ok_iff {d : Document} (hd : d.InStep) {cs : List Change} :
    (∃ result, d.applyBatch cs = .ok result) ↔ Change.ValidAll cs d.lineCount :=
  exists_ok_iff (fun hvalid => ⟨_, applyBatch_of_valid hd hvalid⟩) applyBatch_of_not_valid

end Document

/-! ## Answers and snapshots -/

section Restamp

variable {σ : Type} [Lined σ]

/-- The view with another number for its state. -/
def View.restamp (v : View σ) (snapshot : Snapshot) : View σ :=
  ⟨⟨v.table.entries, snapshot⟩, v.source⟩

namespace RangeWalk

/-- The walk with another number for the state it walks. -/
def restamp (w : RangeWalk σ) (snapshot : Snapshot) : RangeWalk σ :=
  { w with view := w.view.restamp snapshot }

lemma next?_restamp (w : RangeWalk σ) (snapshot : Snapshot) :
    (w.restamp snapshot).next? = w.next?.map fun (t, w') => (t, w'.restamp snapshot) := by
  fun_induction next? w with
  | case1 w token left hfind =>
      rw [next?]
      simp [restamp, hfind]
  | case2 w hfind =>
      rw [next?]
      simp [restamp, hfind]
  | case3 w hfind hlt ih =>
      have hfind' : find (w.restamp snapshot).span (w.restamp snapshot).left = .exhausted := hfind
      have hlt' : (w.restamp snapshot).line < (w.restamp snapshot).last := hlt
      rw [next?, hfind']
      simp only [if_pos hlt']
      exact ih
  | case4 w hfind hlt =>
      rw [next?]
      simp [restamp, hfind, hlt]

lemma toList_restamp (w : RangeWalk σ) (snapshot : Snapshot) :
    (w.restamp snapshot).toList = w.toList := by
  fun_induction toList w with
  | case1 w hnext =>
      apply toList_of_none
      rw [next?_restamp, hnext]
      rfl
  | case2 w token w' hnext ih =>
      rw [← ih]
      apply toList_of_some
      rw [next?_restamp, hnext]
      rfl

end RangeWalk

lemma View.range_restamp (v : View σ) (snapshot : Snapshot) (span : Span) :
    (v.restamp snapshot).range span = (v.range span).restamp snapshot := by
  have hline : (v.restamp snapshot).lineAt? span.start = v.lineAt? span.start := rfl
  unfold View.range
  rw [hline]
  cases v.lineAt? span.start with
  | none => rfl
  | some first => rfl

end Restamp

namespace Document

/-- Two documents give the same answer to every question, each asked at its own snapshot. -/
structure SameAnswers (d e : Document) : Prop where
  range : ∀ span, ∃ w w', d.range d.snapshot span = .ok w ∧ e.range e.snapshot span = .ok w' ∧
    w.toList = w'.toList
  walk : ∀ line, d.view.walk line = e.view.walk line
  tokenAt : ∀ offset, d.view.tokenAt? offset = e.view.tokenAt? offset
  indent : ∀ line settings, d.indent line settings = e.indent line settings
  bracketGroup : ∀ offset, d.bracketGroup offset = e.bracketGroup offset
  spanAt : ∀ line column, d.view.spanAt? line column = e.view.spanAt? line column
  offsetAt : ∀ line column, d.offsetAt? line column = e.offsetAt? line column

lemma sameAnswers_of_eq {d e : Document} (hbuffer : d.buffer = e.buffer)
    (hentries : d.table.entries = e.table.entries) : d.SameAnswers e := by
  have hview : d.view = e.view.restamp d.snapshot := by
    unfold view View.restamp snapshot
    rw [hbuffer, ← hentries]
  constructor
  · intro span
    refine ⟨d.view.range span, e.view.range span, ?_, ?_, ?_⟩
    · simp only [range, ModeTable.view, snapshot, if_true]
      rfl
    · simp only [range, ModeTable.view, snapshot, if_true]
      rfl
    · rw [hview, View.range_restamp, RangeWalk.toList_restamp]
  · intro line
    rw [hview]
    rfl
  · intro offset
    rw [hview]
    rfl
  · intro line settings
    unfold indent
    rw [hview]
    rfl
  · intro offset
    unfold bracketGroup
    rw [hview]
    rfl
  · intro line column
    rw [hview]
    rfl
  · intro line column
    unfold offsetAt?
    rw [hview]
    rfl

/-! ## Calls -/

/-- A call that changes a document. -/
inductive Call where
  | replace (c : Change)
  | apply (cs : List Change)
  | reload (text : String)
  | setReport (report : Report)
  | withPath (path : String)

/-- The document after a call.  One that is refused leaves it as it was. -/
def call (d : Document) : Call → Document
  | .replace c =>
    match d.replace c with
    | .ok (d', _) => d'
    | .error _ => d
  | .apply cs =>
    match d.applyBatch cs with
    | .ok (d', _) => d'
    | .error _ => d
  | .reload text => (d.reload text).1
  | .setReport report => d.setReport report
  | .withPath path => d.withPath path

/-- The document after calls in a row. -/
def run (d : Document) (calls : List Call) : Document := calls.foldl call d

/-- What a call does to a list of lines: it makes the splices that are accepted. -/
def Call.onLines (lines : List String) : Call → List String
  | .replace c => if c.Valid lines.length then c.splice lines else lines
  | .apply cs =>
    if Change.ValidAll cs lines.length then cs.foldl (fun lines c => c.splice lines) lines
    else lines
  | .reload text => Text.lines text
  | .setReport _ => lines
  | .withPath _ => lines

lemma inStep_ofText (text : String) : (ofText text).InStep where
  unbroken _ hline := Text.newline_notMem_of_mem_lines hline
  starts := rfl
  entries := ModeTable.entries_ofSource (Buffer.ofText text)

/-- Every call keeps the three forms of the text in step, and does to the lines what it says. -/
lemma call_spec {d : Document} (hd : d.InStep) (call : Call) :
    (d.call call).InStep ∧ (d.call call).buffer.lines = call.onLines d.buffer.lines := by
  cases call with
  | replace c =>
      by_cases hvalid : c.Valid d.buffer.lines.length
      · simp only [Document.call, replace_of_valid hd hvalid, Call.onLines, if_pos hvalid]
        obtain ⟨hunbroken, hstarts, hentries⟩ := hd.after hvalid.1
        exact ⟨⟨hunbroken, hstarts, hentries⟩, rfl⟩
      · obtain ⟨reason, hreason⟩ := replace_of_not_valid hvalid
        simp only [Document.call, hreason, Call.onLines, if_neg hvalid, and_true]
        exact hd
  | apply cs =>
      by_cases hvalid : Change.ValidAll cs d.buffer.lines.length
      · simp only [Document.call, applyBatch_of_valid hd hvalid, Call.onLines, if_pos hvalid]
        obtain ⟨hunbroken, hstarts, hentries⟩ := hd.foldl_after hvalid
        exact ⟨⟨hunbroken, hstarts, hentries⟩, lines_foldl_after d cs⟩
      · obtain ⟨reason, hreason⟩ := applyBatch_of_not_valid hvalid
        simp only [Document.call, hreason, Call.onLines, if_neg hvalid, and_true]
        exact hd
  | reload text =>
      have hentries := ModeTable.entries_rescan d.table (Buffer.ofText text)
      exact ⟨⟨(inStep_ofText text).unbroken, rfl, hentries⟩, rfl⟩
  | setReport report => exact ⟨⟨hd.unbroken, hd.starts, hd.entries⟩, rfl⟩
  | withPath path => exact ⟨⟨hd.unbroken, hd.starts, hd.entries⟩, rfl⟩

lemma run_spec {d : Document} (hd : d.InStep) (calls : List Call) :
    (d.run calls).InStep ∧
      (d.run calls).buffer.lines = calls.foldl Call.onLines d.buffer.lines := by
  induction calls generalizing d with
  | nil => exact ⟨hd, rfl⟩
  | cons call calls ih =>
      obtain ⟨hstep, hlines⟩ := call_spec hd call
      obtain ⟨hrun, hrest⟩ := ih hstep
      refine ⟨hrun, hrest.trans ?_⟩
      rw [hlines]
      rfl

/-- A document in step with its lines, of which there is one, is the document of its text. -/
lemma InStep.ofText_text {d : Document} (hd : d.InStep) (hlines : d.buffer.lines ≠ []) :
    Buffer.ofText d.text = d.buffer := by
  have hsplit : Text.lines d.text = d.buffer.lines := Text.lines_unlines hlines hd.unbroken
  rw [Buffer.ofText, hsplit, ← hd.buffer_eq]

/-- **A document never drifts from its text.**  After any run of calls on the document of a text,
accepted or refused, its lines are those that the accepted splices give on the list of lines.  No
line is broken, the start offsets are those of the lines, and the modes those of a fresh scan.  The
calls accepted are those that the lines can take.  While there is a line, splitting the text gives
the buffer back, and every question is answered as by the document of the text. -/
theorem run_never_drifts (text : String) (calls : List Call) :
    ((ofText text).run calls).buffer.lines = calls.foldl Call.onLines (Text.lines text) ∧
    (∀ line ∈ ((ofText text).run calls).buffer.lines, '\n' ∉ line.toList) ∧
    ((ofText text).run calls).buffer.starts =
      Starts.ofLines ((ofText text).run calls).buffer.lines ∧
    ((ofText text).run calls).table.entries =
      (ModeTable.ofSource ((ofText text).run calls).buffer).entries ∧
    (∀ c, (∃ result, ((ofText text).run calls).replace c = .ok result) ↔
      c.Valid ((ofText text).run calls).lineCount) ∧
    (∀ cs, (∃ result, ((ofText text).run calls).applyBatch cs = .ok result) ↔
      Change.ValidAll cs ((ofText text).run calls).lineCount) ∧
    (0 < ((ofText text).run calls).lineCount →
      Buffer.ofText ((ofText text).run calls).text = ((ofText text).run calls).buffer ∧
      ((ofText text).run calls).SameAnswers (ofText ((ofText text).run calls).text)) := by
  obtain ⟨hd, hlines⟩ := run_spec (inStep_ofText text) calls
  generalize (ofText text).run calls = d at hd hlines
  refine ⟨hlines, hd.unbroken, hd.starts, ?_, fun c => replace_ok_iff hd,
    fun cs => applyBatch_ok_iff hd, ?_⟩
  · exact hd.entries.trans (ModeTable.entries_ofSource d.buffer).symm
  · intro hpos
    have hbuffer := hd.ofText_text (List.ne_nil_of_length_pos hpos)
    refine ⟨hbuffer, sameAnswers_of_eq hbuffer.symm ?_⟩
    show d.table.entries = (ModeTable.ofSource (Buffer.ofText d.text)).entries
    rw [hbuffer, ModeTable.entries_ofSource]
    exact hd.entries

/-- The document is emptied, a change of a line it no longer has is refused, and it is filled again
by a batch whose second change is above the first. -/
theorem run_never_drifts_through_empty :
    let calls : List Call :=
      [.replace ⟨0, 2, []⟩, .replace ⟨1, 2, ["x"]⟩, .apply [⟨0, 0, ["b", "*/"]⟩, ⟨0, 0, ["/*"]⟩]]
    0 < ((ofText "a\nb").run calls).lineCount ∧
    ((ofText "a\nb").run calls).buffer.lines = ["/*", "b", "*/"] ∧
    Buffer.ofText ((ofText "a\nb").run calls).text = ((ofText "a\nb").run calls).buffer ∧
    ((ofText "a\nb").run calls).SameAnswers (ofText ((ofText "a\nb").run calls).text) := by
  intro calls
  obtain ⟨hlines, -, -, -, -, -, hsame⟩ := run_never_drifts "a\nb" calls
  have heq : ((ofText "a\nb").run calls).buffer.lines = ["/*", "b", "*/"] :=
    hlines.trans (by decide +kernel)
  have hpos : 0 < ((ofText "a\nb").run calls).lineCount := by
    rw [lineCount, heq]
    decide
  exact ⟨hpos, heq, hsame hpos⟩

end Document

end PonyEditor
