import PonyEditor.Proofs.BatchAtomicity
import PonyEditor.Proofs.StaleSnapshots

/-!
# A report does not outlive its text

A report is about the text that the compiler read, so a change drops it, and nothing else does.
Three calls drop it, each at its own point: lines replaced and a batch once the change is made,
a batch only if it has a change at all, and a new text on the way.  Between one report and the next
it is there as long as no change is made (`report_run`), and then the document is that of the
moment it was set.

A refused call must not drop the report on its way out.  So the calls are also written as programs
on a document that stays as it is where they stop (`Writing.perform`), and these leave the same
(`written_eq_run`).  Questions leave a document as it is and are no part of a run.
-/

namespace PonyEditor
namespace Document

/-! ## Calls in place -/

namespace Writing

lemma on_bind_of_error {α β : Type} {m : Writing α} {d d' : Document} {reason : EditError}
    (h : m.on d = (.error reason, d')) (f : α → Writing β) :
    (m >>= f).on d = (.error reason, d') := by
  simp only [on, StateT.run, ExceptT.run] at h
  simp only [on, StateT.run, ExceptT.run, bind, ExceptT.bind, ExceptT.mk, StateT.bind, h]
  rfl

/-- A call that may be refused, with its notices left unread. -/
private lemma on_bind_pure {α : Type} {m : Writing α} {d d' : Document}
    {result : Except EditError α} (h : m.on d = (result, d')) :
    ((m >>= fun _ => pure ()).on d).2 = d' := by
  cases result with
  | ok a =>
      rw [on_bind_of_ok h]
      rfl
  | error reason => rw [on_bind_of_error h]

/-- Lines replaced: the check, then the change, then the report. -/
def replace (c : Change) : Writing Notice := do
  match c.check (← get).lineCount with
  | .error reason => throw reason
  | .ok _ =>
    let notice ← change c
    modify fun d => { d with report := d.report.clear.2 }
    return notice

/-- A new text: the lines, then the report, then the modes. -/
def reload (text : String) : Writing Notice := do
  modify fun d => { d with buffer := Buffer.ofText text }
  modify fun d => { d with report := d.report.clear.2 }
  let d ← get
  set { d with table := (d.table.rescan d.buffer).1 }
  return (d.table.rescan d.buffer).2

/-- A call. -/
def perform : Call → Writing Unit
  | .replace c => do
    let _ ← replace c
  | .apply cs => do
    let _ ← batch cs
  | .reload text => do
    let _ ← reload text
  | .setReport report => modify fun d => { d with report }
  | .withPath path => modify fun d => { d with path := some path }

lemma replace_on_of_valid {d : Document} (hd : d.InStep) {c : Change}
    (hvalid : c.Valid d.lineCount) :
    (replace c).on d = (.ok (Notice.ofLines (d.after c).buffer
      ⟨c.start, ModeTable.reach d.buffer.lines c⟩), { d.after c with report := {} }) := by
  rw [replace, on_bind_of_ok (on_get d)]
  simp only [Change.check_of_valid hvalid]
  rw [on_bind_of_ok (change_on hd hvalid.fits)]
  rfl

lemma replace_on_of_check_error {d : Document} {c : Change} {reason : EditError}
    (h : c.check d.lineCount = .error reason) : (replace c).on d = (.error reason, d) := by
  rw [replace, on_bind_of_ok (on_get d)]
  simp only [h]
  rfl

/-- A call in place leaves the document that the call gives, refused or not. -/
lemma perform_on {d : Document} (hd : d.InStep) (call : Call) :
    ((perform call).on d).2 = d.call call := by
  cases call with
  | replace c =>
      cases hcheck : c.check d.lineCount with
      | ok count =>
          have hvalid := Change.valid_of_check hcheck
          rw [Document.call, replace_of_valid hd hvalid]
          exact on_bind_pure (replace_on_of_valid hd hvalid)
      | error reason =>
          rw [Document.call, replace_of_check_error hcheck]
          exact on_bind_pure (replace_on_of_check_error hcheck)
  | apply cs =>
      cases hbatch : d.applyBatch cs with
      | ok result =>
          have hvalid := (applyBatch_ok_iff hd).mp ⟨_, hbatch⟩
          rw [Document.call, hbatch]
          exact on_bind_pure (batch_on_of_valid hd hvalid hbatch)
      | error reason =>
          have hcheck := checkAll_of_applyBatch_error hd hbatch
          rw [Document.call, hbatch]
          exact on_bind_pure (batch_on_of_checkAll_error hcheck)
  | reload text => rfl
  | setReport report => rfl
  | withPath path => rfl

end Writing

/-- The document after calls in a row, made in place. -/
def written (d : Document) (calls : List Call) : Document :=
  calls.foldl (fun d call => ((Writing.perform call).on d).2) d

lemma written_eq_run {d : Document} (hd : d.InStep) (calls : List Call) :
    d.written calls = d.run calls := by
  induction calls generalizing d with
  | nil => rfl
  | cons call calls ih =>
      have hrest := ih (call_spec hd call).1
      rw [written, List.foldl_cons, Writing.perform_on hd call]
      exact hrest

/-! ## From one report to the next -/

lemma report_call {d : Document} (hd : d.InStep) {call : Call} (hcall : ∀ r, call ≠ .setReport r) :
    (d.call call).report = if d.changesOf call = 0 then d.report else {} := by
  cases call with
  | replace c =>
      by_cases hvalid : c.Valid d.lineCount
      · simp only [Document.call, changesOf, replace_of_valid hd hvalid]
        rfl
      · obtain ⟨reason, hreason⟩ := replace_of_not_valid hvalid
        simp only [Document.call, changesOf, hreason]
        rfl
  | apply cs =>
      by_cases hvalid : Change.ValidAll cs d.lineCount
      · simp only [Document.call, changesOf, applyBatch_of_valid hd hvalid]
        cases cs with
        | nil => rfl
        | cons c cs => rfl
      · obtain ⟨reason, hreason⟩ := applyBatch_of_not_valid hvalid
        simp only [Document.call, changesOf, hreason]
        rfl
  | reload text => rfl
  | setReport report => exact absurd rfl (hcall report)
  | withPath path => rfl

/-- **Until the next one is set, a report is there as long as no change is made.** -/
lemma report_run {d : Document} (hd : d.InStep) {calls : List Call}
    (hcalls : ∀ r, .setReport r ∉ calls) :
    (d.run calls).report = if d.changesIn calls = 0 then d.report else {} := by
  induction calls generalizing d with
  | nil => rfl
  | cons call calls ih =>
      have hcall : ∀ r, call ≠ .setReport r := fun r heq => hcalls r (by simp [heq])
      have hrest := ih (call_spec hd call).1 fun r hmem => hcalls r (List.mem_cons_of_mem _ hmem)
      rw [report_call hd hcall] at hrest
      rw [changesIn]
      by_cases hzero : d.changesOf call = 0
      · rw [if_pos hzero] at hrest
        rw [hzero, Nat.zero_add]
        exact hrest
      · rw [if_neg hzero, ite_self] at hrest
        rw [if_neg (by omega)]
        exact hrest

/-- Of calls in a row, the last that sets a report, if there is one. -/
lemma exists_last_setReport (calls : List Call) :
    (∀ r, .setReport r ∉ calls) ∨ ∃ before report later,
      calls = before ++ .setReport report :: later ∧ ∀ r, .setReport r ∉ later := by
  induction calls with
  | nil => exact .inl fun r => List.not_mem_nil
  | cons call calls ih =>
      rcases ih with hnone | ⟨before, report, later, rfl, hlater⟩
      · cases call with
        | setReport report => exact .inr ⟨[], report, calls, rfl, hnone⟩
        | replace c => exact .inl (by simpa using hnone)
        | apply cs => exact .inl (by simpa using hnone)
        | reload text => exact .inl (by simpa using hnone)
        | withPath path => exact .inl (by simpa using hnone)
      · exact .inr ⟨call :: before, report, later, rfl, hlater⟩

/-- What is left of the last report that was set, at the end of a run. -/
lemma report_run_append {d : Document} (hd : d.InStep) (before : List Call) (report : Report)
    {later : List Call} (hlater : ∀ r, .setReport r ∉ later) :
    (d.run (before ++ .setReport report :: later)).report =
      if (d.run (before ++ [.setReport report])).changesIn later = 0 then report else {} := by
  have hset : (d.run (before ++ [.setReport report])).report = report := by
    rw [run_append]
    rfl
  have hstep := (run_spec hd (before ++ [.setReport report])).1
  have hrest := report_run hstep hlater
  rw [hset, ← run_append, List.append_assoc] at hrest
  exact hrest

/-- **A report does not outlive its text.**  After any run of calls on the document of a text, a
report that is not empty is the one last set, and the lines, their offsets, their modes and the
snapshot are those at the moment it was set.  If no change was made since, the report is the one
last set, whatever calls were refused and whatever batches were empty; otherwise it is empty.  Made
in place, where a refused call leaves what it has done, the calls leave the same document. -/
theorem report_never_outlives_text (text : String) (calls : List Call) :
    let d := (ofText text).run calls
    (ofText text).written calls = d ∧
    (d.report.diagnostics ≠ [] → ∃ before report later,
      calls = before ++ .setReport report :: later ∧ (∀ r, .setReport r ∉ later) ∧
      d.report = report ∧ d.buffer = ((ofText text).run before).buffer ∧
      d.table = ((ofText text).run before).table) ∧
    (∀ before report later, calls = before ++ .setReport report :: later →
      (∀ r, .setReport r ∉ later) → d.report =
        if ((ofText text).run (before ++ [.setReport report])).changesIn later = 0 then report
        else {}) := by
  intro d
  have hd := inStep_ofText text
  refine ⟨written_eq_run hd calls, fun hsome => ?_, ?_⟩
  · rcases exists_last_setReport calls with hnone | ⟨before, report, later, hcalls, hlater⟩
    · have hempty : d.report = {} := (report_run hd hnone).trans (ite_self _)
      exact absurd (congrArg Report.diagnostics hempty) hsome
    · have hreport := report_run_append hd before report hlater
      rw [← hcalls] at hreport
      by_cases hzero : ((ofText text).run (before ++ [.setReport report])).changesIn later = 0
      · rw [if_pos hzero] at hreport
        have hstep := (run_spec hd (before ++ [.setReport report])).1
        obtain ⟨hbuffer, htable⟩ := run_of_changesIn_eq_zero hstep hzero
        rw [← run_append, List.append_assoc, List.singleton_append, ← hcalls, run_append]
          at hbuffer htable
        exact ⟨before, report, later, hcalls, hlater, hreport, hbuffer, htable⟩
      · rw [if_neg hzero] at hreport
        exact absurd (congrArg Report.diagnostics hreport) hsome
  · rintro before report later hcalls hlater
    have hreport := report_run_append hd before report hlater
    rwa [← hcalls] at hreport

/-- A report is set.  A change that is refused, an empty batch and a path leave it; a line inserted
above drops it. -/
theorem report_never_outlives_text_changed_above :
    let report := Report.ofOutput "a.pony:1:1: x"
    let kept : List Call := [.setReport report, .replace ⟨3, 4, []⟩, .apply [], .withPath "a.pony"]
    let d := (ofText "a").run kept
    let changed := (ofText "a").run (kept ++ [.apply [⟨0, 0, ["b"]⟩]])
    d.report.diagnostics ≠ [] ∧ d.report = report ∧
    (∃ before report later,
      kept = before ++ .setReport report :: later ∧ (∀ r, .setReport r ∉ later) ∧
      d.report = report ∧ d.buffer = ((ofText "a").run before).buffer ∧
      d.table = ((ofText "a").run before).table) ∧
    changed.report = {} := by
  intro report kept d changed
  obtain ⟨-, hkept, hlast⟩ := report_never_outlives_text "a" kept
  obtain ⟨-, -, hlast'⟩ :=
    report_never_outlives_text "a" (kept ++ [.apply [⟨0, 0, ["b"]⟩]])
  have hreport : d.report = report :=
    (hlast [] report _ rfl (by simp)).trans (if_pos (by decide +kernel))
  have hsome : d.report.diagnostics ≠ [] := by
    rw [hreport]
    decide +kernel
  exact ⟨hsome, hreport, hkept hsome,
    (hlast' [] report _ rfl (by simp)).trans (if_neg (by decide +kernel))⟩

end Document
end PonyEditor
