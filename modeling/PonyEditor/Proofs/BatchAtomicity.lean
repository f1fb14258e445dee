import Mathlib.Tactic.ByContra
import PonyEditor.Proofs.DocumentRuns

/-!
# A batch is made whole or not at all

A batch is checked against line counts alone, before the first of its changes is made.  When the
changes are made, the lines are replaced first and the table of modes is asked to follow after
that, so a table that refused would leave a document with new lines and old modes.  It never does:
the counts of the check are those that the table goes by.

To say so, the batch is written a second time, as a program on a document that stays changed where
the program stops (`Writing.batch`).  The two agree on every document that a run can reach
(`Writing.batch_on_of_valid`), and a batch that is refused leaves nothing behind
(`Writing.batch_on_of_checkAll_error`).  What a batch does is what its changes do one at a time
(`map_fst_applyBatch`), and it is refused for the reason that the first of them to be refused is
(`exists_refused`).
-/

namespace PonyEditor

lemma Edit.check_error_cases {e : Edit} {lineCount : Nat} {reason : EditError}
    (h : e.check lineCount = .error reason) :
    (¬ (e.start ≤ e.stop ∧ e.stop ≤ lineCount) ∧
      reason = .outOfRange e.start e.stop lineCount) ∨
    ((e.start ≤ e.stop ∧ e.stop ≤ lineCount) ∧ Offset.limit < e.countAfter lineCount ∧
      reason = .tooManyLines lineCount e.count) := by
  by_cases hrange : e.start ≤ e.stop ∧ e.stop ≤ lineCount
  · have hlimit : Offset.limit < e.countAfter lineCount := by
      by_contra hle
      exact nomatch h.symm.trans (check_of_valid ⟨hrange.1, hrange.2, Nat.le_of_not_lt hle⟩)
    have hcount : e.countAfter? lineCount = none := by
      rw [countAfter] at hlimit
      rw [countAfter?, if_pos hlimit, ite_self]
    rw [check, if_pos (fits_iff.mpr hrange), hcount] at h
    exact .inr ⟨hrange, hlimit, (Except.error.inj h).symm⟩
  · rw [check, if_neg (mt fits_iff.mp hrange)] at h
    exact .inl ⟨hrange, (Except.error.inj h).symm⟩

namespace Change

/-- Why a change is refused on a text of `lineCount` lines.  A line feed in the new lines comes
before lines that are not there, and these come before lines that cannot be numbered. -/
inductive Refused (c : Change) (lineCount : Nat) : EditError → Prop
  /-- A new line holds a line feed, and none before it does. -/
  | lineBreak (index : Nat) (line : String) (hline : c.lines[index]? = some line)
      (hbroken : '\n' ∈ line.toList) (hfirst : ∀ line ∈ c.lines.take index, '\n' ∉ line.toList) :
      Refused c lineCount (.lineBreak (Offset.cap index))
  /-- The replaced lines are inverted, or not all in the text. -/
  | outOfRange (hlines : ∀ line ∈ c.lines, '\n' ∉ line.toList)
      (hrange : ¬ (c.start ≤ c.stop ∧ c.stop ≤ lineCount)) :
      Refused c lineCount (.outOfRange c.start c.stop lineCount)
  /-- The lines after the change cannot be numbered. -/
  | tooManyLines (hlines : ∀ line ∈ c.lines, '\n' ∉ line.toList)
      (hrange : c.start ≤ c.stop ∧ c.stop ≤ lineCount)
      (hlimit : Offset.limit < c.edit.countAfter lineCount) :
      Refused c lineCount (.tooManyLines lineCount c.lines.length)

lemma valid_of_check {c : Change} {lineCount count : Nat} (h : c.check lineCount = .ok count) :
    c.Valid lineCount := by
  by_contra hvalid
  obtain ⟨reason, hreason⟩ := check_of_not_valid hvalid
  exact nomatch h.symm.trans hreason

lemma validAll_of_checkAll {cs : List Change} {lineCount count : Nat}
    (h : checkAll cs lineCount = .ok count) : ValidAll cs lineCount := by
  by_contra hvalid
  obtain ⟨reason, hreason⟩ := checkAll_of_not_valid hvalid
  exact nomatch h.symm.trans hreason

lemma refused_of_check {c : Change} {lineCount : Nat} {reason : EditError}
    (h : c.check lineCount = .error reason) : c.Refused lineCount reason := by
  rw [check] at h
  cases hfind : c.lines.findIdx? isBroken with
  | some index =>
      rw [hfind] at h
      obtain rfl := Except.error.inj h
      obtain ⟨hlt, hbroken, hfirst⟩ := List.findIdx?_eq_some_iff_getElem.mp hfind
      refine .lineBreak index c.lines[index] (List.getElem?_eq_getElem hlt) ?_ ?_
      · by_contra hnot
        exact Bool.noConfusion (hbroken.symm.trans (isBroken_eq_false_iff.mpr hnot))
      · intro line hline
        obtain ⟨i, hi, rfl⟩ := List.mem_take_iff_getElem.mp hline
        exact isBroken_eq_false_iff.mp (by simpa using hfirst i (by omega))
  | none =>
      rw [hfind] at h
      rw [List.findIdx?_eq_none_iff] at hfind
      have hlines : ∀ line ∈ c.lines, '\n' ∉ line.toList :=
        fun line hline => isBroken_eq_false_iff.mp (hfind line hline)
      rcases Edit.check_error_cases h with ⟨hrange, rfl⟩ | ⟨hrange, hlimit, rfl⟩
      · exact .outOfRange hlines hrange
      · exact .tooManyLines hlines hrange hlimit

end Change

namespace Document

/-! ## One change at a time -/

/-- Makes changes one at a time, up to the first that is refused. -/
def replaceEach (d : Document) : List Change → Except EditError Document
  | [] => .ok d
  | c :: cs => do
    let (d, _) ← d.replace c
    d.replaceEach cs

lemma replace_of_check_error {d : Document} {c : Change} {reason : EditError}
    (h : c.check d.lineCount = .error reason) : d.replace c = .error reason := by
  unfold replace
  rw [h]
  rfl

lemma applyBatch_of_checkAll_error {d : Document} {cs : List Change} {reason : EditError}
    (h : Change.checkAll cs d.lineCount = .error reason) : d.applyBatch cs = .error reason := by
  unfold applyBatch
  rw [h]
  rfl

lemma checkAll_of_applyBatch_error {d : Document} (hd : d.InStep) {cs : List Change}
    {reason : EditError} (h : d.applyBatch cs = .error reason) :
    Change.checkAll cs d.lineCount = .error reason := by
  cases hcheck : Change.checkAll cs d.lineCount with
  | error first =>
      rw [applyBatch_of_checkAll_error hcheck] at h
      rw [Except.error.inj h]
  | ok count =>
      have hok := applyBatch_of_valid hd (Change.validAll_of_checkAll hcheck)
      exact nomatch hok.symm.trans h

lemma InStep.replaced {d : Document} (hd : d.InStep) {c : Change} (hvalid : c.Valid d.lineCount) :
    { d.after c with report := {} : Document }.InStep := by
  obtain ⟨hunbroken, hstarts, hentries⟩ := hd.after hvalid.1
  exact ⟨hunbroken, hstarts, hentries⟩

lemma replaceEach_cons_of_valid {d : Document} (hd : d.InStep) {c : Change}
    (hvalid : c.Valid d.lineCount) (cs : List Change) :
    d.replaceEach (c :: cs) = { d.after c with report := {} : Document }.replaceEach cs := by
  rw [replaceEach, replace_of_valid hd hvalid]
  rfl

/-- A report plays no part in changes. -/
lemma foldl_after_report (d : Document) (report : Report) (cs : List Change) :
    cs.foldl after { d with report } = { cs.foldl after d with report } := by
  induction cs generalizing d with
  | nil => rfl
  | cons c cs ih => exact ih (d.after c)

/-- Changes that are valid in a row are all made, and the first of them drops the report. -/
lemma replaceEach_of_valid {d : Document} (hd : d.InStep) {cs : List Change}
    (hvalid : Change.ValidAll cs d.lineCount) :
    d.replaceEach cs =
      .ok { cs.foldl after d with report := if cs.isEmpty then d.report else {} } := by
  induction cs generalizing d with
  | nil => rfl
  | cons c cs ih =>
      obtain ⟨hc, hcs⟩ := hvalid
      have hcount : { d.after c with report := {} : Document }.lineCount =
          c.edit.countAfter d.lineCount := lineCount_after hc
      rw [replaceEach_cons_of_valid hd hc, ih (hd.replaced hc) (hcount ▸ hcs), foldl_after_report,
        ite_self]
      rfl

/-- The check of a row of changes foresees the refusal that making them one at a time meets. -/
lemma replaceEach_of_checkAll_error {d : Document} (hd : d.InStep) {cs : List Change}
    {reason : EditError} (h : Change.checkAll cs d.lineCount = .error reason) :
    d.replaceEach cs = .error reason := by
  induction cs generalizing d with
  | nil => exact nomatch h
  | cons c cs ih =>
      rw [Change.checkAll] at h
      cases hcheck : c.check d.lineCount with
      | error first =>
          rw [hcheck] at h
          obtain rfl := Except.error.inj h
          rw [replaceEach, replace_of_check_error hcheck]
          rfl
      | ok count =>
          have hc := Change.valid_of_check hcheck
          have hcount : { d.after c with report := {} : Document }.lineCount = count :=
            (lineCount_after hc).trans
              (Except.ok.inj ((Change.check_of_valid hc).symm.trans hcheck))
          rw [hcheck] at h
          rw [replaceEach_cons_of_valid hd hc]
          exact ih (hd.replaced hc) (by rw [hcount]; exact h)

/-- The first change to be refused, in the document that those before it leave. -/
lemma exists_refused {d : Document} (hd : d.InStep) {cs : List Change} {reason : EditError}
    (h : d.replaceEach cs = .error reason) :
    ∃ before c later d', cs = before ++ c :: later ∧ d.replaceEach before = .ok d' ∧
      d'.replace c = .error reason ∧ c.Refused d'.lineCount reason := by
  induction cs generalizing d with
  | nil => exact nomatch h
  | cons c cs ih =>
      cases hcheck : c.check d.lineCount with
      | error first =>
          have hreplace := replace_of_check_error hcheck
          rw [replaceEach, hreplace] at h
          obtain rfl := Except.error.inj h
          exact ⟨[], c, cs, d, rfl, rfl, hreplace, Change.refused_of_check hcheck⟩
      | ok count =>
          have hc := Change.valid_of_check hcheck
          rw [replaceEach_cons_of_valid hd hc] at h
          obtain ⟨before, c', later, d', rfl, hbefore, hrefused⟩ := ih (hd.replaced hc) h
          rw [← replaceEach_cons_of_valid hd hc] at hbefore
          exact ⟨c :: before, c', later, d', rfl, hbefore, hrefused⟩

/-! ## In place -/

/-- A program on a document.  Where it stops with a refusal, the document stays as it then is. -/
abbrev Writing := ExceptT EditError (StateM Document)

namespace Writing

variable {α β : Type}

/-- What a program gives, and the document it leaves. -/
def on (m : Writing α) (d : Document) : Except EditError α × Document := m.run.run d

lemma on_pure (a : α) (d : Document) : (pure a : Writing α).on d = (.ok a, d) := rfl

lemma on_get (d : Document) : (get : Writing Document).on d = (.ok d, d) := rfl

lemma on_modify (f : Document → Document) (d : Document) :
    (modify f : Writing Unit).on d = (.ok (), f d) := rfl

lemma on_bind_of_ok {m : Writing α} {d d' : Document} {a : α} (h : m.on d = (.ok a, d'))
    (f : α → Writing β) : (m >>= f).on d = (f a).on d' := by
  simp only [on, StateT.run, ExceptT.run] at h
  simp only [on, StateT.run, ExceptT.run, bind, ExceptT.bind, ExceptT.mk, StateT.bind, h]
  rfl

/-- Replaces the lines and their starts, and then has the table of modes follow.  A table that
refuses leaves the lines replaced. -/
def change (c : Change) : Writing Notice := do
  modify fun d => { d with buffer := d.buffer.replace c.start c.stop c.lines }
  let d ← get
  match d.table.follow d.buffer c.edit with
  | .error reason => throw reason
  | .ok (table, notice) =>
    set { d with table }
    return notice

/-- A batch: the check, then the changes in a row, then the report. -/
def batch (cs : List Change) : Writing (List Notice) := do
  match Change.checkAll cs (← get).lineCount with
  | .error reason => throw reason
  | .ok _ =>
    let notices ← cs.mapM change
    unless cs.isEmpty do
      modify fun d => { d with report := d.report.clear.2 }
    let d ← get
    let carried := carryAll ((cs.map Change.edit).zip (notices.map Notice.lines))
    return carried.map (Notice.ofLines d.buffer)

lemma change_on_of_follow {d : Document} {c : Change} {table : ModeTable} {notice : Notice}
    (h : d.table.follow (d.buffer.replace c.start c.stop c.lines) c.edit = .ok (table, notice)) :
    (change c).on d =
      (.ok notice, { d with buffer := d.buffer.replace c.start c.stop c.lines, table }) := by
  rw [change, on_bind_of_ok (on_modify _ d), on_bind_of_ok (on_get _)]
  simp only [h]
  rfl

/-- On a document in step, the table follows every change that fits. -/
lemma change_on {d : Document} (hd : d.InStep) {c : Change}
    (hfits : c.edit.fits d.lineCount = true) :
    (change c).on d = (.ok (Notice.ofLines (d.after c).buffer
      ⟨c.start, ModeTable.reach d.buffer.lines c⟩), d.after c) := by
  rw [change_on_of_follow (hd.follow_eq hfits), hd.replace_buffer]
  rfl

lemma mapM_change_on {d : Document} (hd : d.InStep) {cs : List Change}
    (hvalid : Change.ValidAll cs d.lineCount) :
    ∃ notices, (cs.mapM change).on d = (.ok notices, cs.foldl after d) ∧
      notices.map Notice.lines = scanned d.buffer.lines cs := by
  induction cs generalizing d with
  | nil => exact ⟨[], rfl, rfl⟩
  | cons c cs ih =>
      obtain ⟨hc, hcs⟩ := hvalid
      rw [← lineCount_after hc] at hcs
      obtain ⟨notices, hrest, hlines⟩ := ih (hd.after hc.1) hcs
      refine ⟨Notice.ofLines (d.after c).buffer ⟨c.start, ModeTable.reach d.buffer.lines c⟩ ::
        notices, ?_, ?_⟩
      · rw [List.mapM_cons, on_bind_of_ok (change_on hd hc.fits), on_bind_of_ok hrest, on_pure]
        rfl
      · rw [List.map_cons, hlines, Notice.lines_ofLines]
        rfl

lemma batch_on_of_checkAll_error {d : Document} {cs : List Change} {reason : EditError}
    (h : Change.checkAll cs d.lineCount = .error reason) :
    (batch cs).on d = (.error reason, d) := by
  rw [batch, on_bind_of_ok (on_get d)]
  simp only [h]
  rfl

lemma batch_on_of_valid {d : Document} (hd : d.InStep) {cs : List Change}
    (hvalid : Change.ValidAll cs d.lineCount) {d' : Document} {notices : List Notice}
    (hbatch : d.applyBatch cs = .ok (d', notices)) : (batch cs).on d = (.ok notices, d') := by
  obtain ⟨scans, hrun, hlines⟩ := mapM_change_on hd hvalid
  rw [applyBatch_of_valid hd hvalid] at hbatch
  obtain ⟨rfl, rfl⟩ := Prod.mk.inj (Except.ok.inj hbatch)
  rw [batch, on_bind_of_ok (on_get d)]
  simp only [Change.checkAll_of_valid hvalid]
  rw [on_bind_of_ok hrun, hlines]
  cases cs with
  | nil => rfl
  | cons c cs => rfl

end Writing

/-! ## Whole or not at all -/

/-- A batch does what its changes do one at a time, or is refused as the first of them is. -/
lemma map_fst_applyBatch {d : Document} (hd : d.InStep) (cs : List Change) :
    (d.applyBatch cs).map Prod.fst = d.replaceEach cs := by
  cases hcheck : Change.checkAll cs d.lineCount with
  | error reason =>
      rw [applyBatch_of_checkAll_error hcheck, replaceEach_of_checkAll_error hd hcheck]
      rfl
  | ok count =>
      have hvalid := Change.validAll_of_checkAll hcheck
      rw [applyBatch_of_valid hd hvalid, replaceEach_of_valid hd hvalid]
      rfl

/-- **A batch is made whole or not at all.**  After any run of calls on the document of a text, a
batch leaves the document that its changes leave when they are made one at a time, or it is
refused for the reason that the first of them to be refused is: a line feed in its new lines, else
a range that is not in the document that the changes before it leave, else more lines than can be
numbered.  The batch as a program on the document does the same, and where it is refused the
document is as before.  The table of modes, which is asked after the lines are replaced, follows
every change that was checked. -/
theorem applyBatch_all_or_nothing (text : String) (calls : List Call) (cs : List Change) :
    (((ofText text).run calls).applyBatch cs).map Prod.fst =
      ((ofText text).run calls).replaceEach cs ∧
    (∀ reason, ((ofText text).run calls).applyBatch cs = .error reason →
      (Writing.batch cs).on ((ofText text).run calls) = (.error reason, (ofText text).run calls) ∧
      ∃ before c later d', cs = before ++ c :: later ∧
        ((ofText text).run calls).replaceEach before = .ok d' ∧
        d'.replace c = .error reason ∧ c.Refused d'.lineCount reason) ∧
    (∀ d' notices, ((ofText text).run calls).applyBatch cs = .ok (d', notices) →
      (Writing.batch cs).on ((ofText text).run calls) = (.ok notices, d')) ∧
    (∀ (c : Change) (count : Nat), c.check ((ofText text).run calls).lineCount = .ok count →
      ∃ table notice, ((ofText text).run calls).table.follow
        (((ofText text).run calls).buffer.replace c.start c.stop c.lines) c.edit =
          .ok (table, notice)) := by
  obtain ⟨hd, -⟩ := run_spec (inStep_ofText text) calls
  generalize (ofText text).run calls = d at hd
  have hsame := map_fst_applyBatch hd cs
  refine ⟨hsame, ?_, ?_, ?_⟩
  · intro reason herror
    have hcheck := checkAll_of_applyBatch_error hd herror
    rw [herror] at hsame
    exact ⟨Writing.batch_on_of_checkAll_error hcheck, exists_refused hd hsame.symm⟩
  · intro d' notices hok
    have hvalid := (applyBatch_ok_iff hd).mp ⟨_, hok⟩
    exact Writing.batch_on_of_valid hd hvalid hok
  · intro c count hcheck
    exact ⟨_, _, hd.follow_eq (Change.valid_of_check hcheck).fits⟩

/-- The second change of a batch is out of range in the three lines that the first leaves. -/
theorem applyBatch_all_or_nothing_past_end :
    let d := (ofText "a\nb").run []
    let cs : List Change := [⟨0, 1, ["x", "y"]⟩, ⟨4, 5, ["z"]⟩]
    d.applyBatch cs = .error (.outOfRange 4 5 3) ∧
    (Writing.batch cs).on d = (.error (.outOfRange 4 5 3), d) ∧
    ∃ before c later d', cs = before ++ c :: later ∧ d.replaceEach before = .ok d' ∧
      d'.replace c = .error (.outOfRange 4 5 3) ∧ c.Refused d'.lineCount (.outOfRange 4 5 3) := by
  intro d cs
  have herror : d.applyBatch cs = .error (.outOfRange 4 5 3) := rfl
  obtain ⟨-, hrefused, -, -⟩ := applyBatch_all_or_nothing "a\nb" [] cs
  exact ⟨herror, hrefused _ herror⟩

end Document
end PonyEditor
