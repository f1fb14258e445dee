import Mathlib.Algebra.Group.Nat.Defs
import PonyEditor.Proofs.DocumentRuns

/-!
# Stale snapshots

Every change that is made gives a document a new snapshot, and nothing else does: a batch makes as
many as it has changes, a refused call and an empty batch none.  So the version counts the changes
(`version_run`), and as long as the count has not gone round, two points of a run have one
snapshot exactly when no change was made between them.

A question is asked at a snapshot and answered at the current one only (`range_of_ne`).  Questions
leave a document as it is, so they are no part of a run; they are asked at its points.
-/

namespace PonyEditor
namespace Document

/-! ## Counting changes -/

/-- The number of changes that a call makes: one for lines replaced and for a new text, one for
each element of a batch, and none if the call is refused. -/
def changesOf (d : Document) : Call → Nat
  | .replace c =>
    match d.replace c with
    | .ok _ => 1
    | .error _ => 0
  | .apply cs =>
    match d.applyBatch cs with
    | .ok _ => cs.length
    | .error _ => 0
  | .reload _ => 1
  | .setReport _ => 0
  | .withPath _ => 0

/-- The number of changes that calls in a row make. -/
def changesIn (d : Document) : List Call → Nat
  | [] => 0
  | call :: calls => d.changesOf call + (d.call call).changesIn calls

lemma changesIn_append (d : Document) (xs ys : List Call) :
    d.changesIn (xs ++ ys) = d.changesIn xs + (d.run xs).changesIn ys := by
  induction xs generalizing d with
  | nil => exact (Nat.zero_add _).symm
  | cons call xs ih =>
      rw [List.cons_append, changesIn, changesIn, ih, Nat.add_assoc]
      rfl

lemma run_append (d : Document) (xs ys : List Call) : d.run (xs ++ ys) = (d.run xs).run ys :=
  List.foldl_append

/-! ## Versions -/

lemma version_foldl_after (d : Document) (cs : List Change) :
    (cs.foldl after d).snapshot.version = d.snapshot.version + UInt64.ofNat cs.length := by
  induction cs generalizing d with
  | nil => exact (UInt64.add_zero _).symm
  | cons c cs ih =>
      have hnext : (d.after c).snapshot.version = d.snapshot.version + 1 := rfl
      rw [List.foldl_cons, ih, hnext, List.length_cons, UInt64.ofNat_add, UInt64.add_assoc,
        UInt64.add_comm 1]
      rfl

/-- A call moves the version on by the number of its changes. -/
lemma version_call {d : Document} (hd : d.InStep) (call : Call) :
    (d.call call).snapshot.version = d.snapshot.version + UInt64.ofNat (d.changesOf call) := by
  cases call with
  | replace c =>
      by_cases hvalid : c.Valid d.lineCount
      · simp only [Document.call, changesOf, replace_of_valid hd hvalid]
        rfl
      · obtain ⟨reason, hreason⟩ := replace_of_not_valid hvalid
        simp only [Document.call, changesOf, hreason]
        exact (UInt64.add_zero _).symm
  | apply cs =>
      by_cases hvalid : Change.ValidAll cs d.lineCount
      · simp only [Document.call, changesOf, applyBatch_of_valid hd hvalid]
        exact version_foldl_after d cs
      · obtain ⟨reason, hreason⟩ := applyBatch_of_not_valid hvalid
        simp only [Document.call, changesOf, hreason]
        exact (UInt64.add_zero _).symm
  | reload text => rfl
  | setReport report => exact (UInt64.add_zero _).symm
  | withPath path => exact (UInt64.add_zero _).symm

/-- **The version counts the changes of a run.** -/
lemma version_run {d : Document} (hd : d.InStep) (calls : List Call) :
    (d.run calls).snapshot.version = d.snapshot.version + UInt64.ofNat (d.changesIn calls) := by
  induction calls generalizing d with
  | nil => exact (UInt64.add_zero _).symm
  | cons call calls ih =>
      have hrest := ih (call_spec hd call).1
      rw [version_call hd, UInt64.add_assoc, ← UInt64.ofNat_add] at hrest
      exact hrest

lemma toNat_version_run (text : String) {calls : List Call}
    (hcount : (ofText text).changesIn calls < 2 ^ 64 - 1) :
    ((ofText text).run calls).snapshot.version.toNat = (ofText text).changesIn calls + 1 := by
  have hfirst : (ofText text).snapshot.version = 1 := rfl
  rw [version_run (inStep_ofText text), hfirst, UInt64.toNat_add, UInt64.toNat_ofNat',
    UInt64.toNat_one]
  omega

/-! ## Calls that change nothing -/

/-- A call that makes no change leaves the text and the modes of its lines alone. -/
lemma call_of_changesOf_eq_zero {d : Document} (hd : d.InStep) {call : Call}
    (h : d.changesOf call = 0) :
    (d.call call).buffer = d.buffer ∧ (d.call call).table = d.table := by
  cases call with
  | replace c =>
      by_cases hvalid : c.Valid d.lineCount
      · simp only [changesOf, replace_of_valid hd hvalid] at h
        cases h
      · obtain ⟨reason, hreason⟩ := replace_of_not_valid hvalid
        simp only [Document.call, hreason, and_self]
  | apply cs =>
      by_cases hvalid : Change.ValidAll cs d.lineCount
      · simp only [changesOf, applyBatch_of_valid hd hvalid] at h
        obtain rfl := List.eq_nil_of_length_eq_zero h
        simp only [Document.call, applyBatch_of_valid hd hvalid]
        exact ⟨rfl, rfl⟩
      · obtain ⟨reason, hreason⟩ := applyBatch_of_not_valid hvalid
        simp only [Document.call, hreason, and_self]
  | reload text => cases h
  | setReport report => exact ⟨rfl, rfl⟩
  | withPath path => exact ⟨rfl, rfl⟩

lemma run_of_changesIn_eq_zero {d : Document} (hd : d.InStep) {calls : List Call}
    (h : d.changesIn calls = 0) :
    (d.run calls).buffer = d.buffer ∧ (d.run calls).table = d.table := by
  induction calls generalizing d with
  | nil => exact ⟨rfl, rfl⟩
  | cons call calls ih =>
      obtain ⟨hfirst, hrest⟩ := Nat.add_eq_zero_iff.mp h
      obtain ⟨hbuffer, htable⟩ := call_of_changesOf_eq_zero hd hfirst
      obtain ⟨hbuffer', htable'⟩ := ih (call_spec hd call).1 hrest
      exact ⟨hbuffer'.trans hbuffer, htable'.trans htable⟩

/-! ## Questions -/

lemma range_of_eq {d : Document} {snapshot : Snapshot} (h : snapshot = d.snapshot) (span : Span) :
    d.range snapshot span = .ok (d.view.range span) := by
  have hcurrent : snapshot = d.table.snapshot := h
  rw [range, ModeTable.view, if_pos hcurrent]
  rfl

lemma range_of_ne {d : Document} {snapshot : Snapshot} (h : snapshot ≠ d.snapshot) (span : Span) :
    d.range snapshot span = .error (.staleSnapshot snapshot d.snapshot) := by
  have hcurrent : snapshot ≠ d.table.snapshot := h
  rw [range, ModeTable.view, if_neg hcurrent]
  rfl

lemma range_ok_iff {d : Document} {snapshot : Snapshot} {span : Span} :
    (∃ walk, d.range snapshot span = .ok walk) ↔ snapshot = d.snapshot :=
  exists_ok_iff (fun h => ⟨_, range_of_eq h span⟩) fun h => ⟨_, range_of_ne h span⟩

section Points

variable (text : String) {before later : List Call}
  (hcount : (ofText text).changesIn (before ++ later) < 2 ^ 64 - 1)
include hcount

/-- **Two points of a run have one snapshot exactly when no change was made between them.** -/
lemma snapshot_eq_iff :
    ((ofText text).run before).snapshot = (((ofText text).run before).run later).snapshot ↔
      ((ofText text).run before).changesIn later = 0 := by
  have hnow := toNat_version_run text hcount
  rw [changesIn_append] at hcount hnow
  rw [run_append] at hnow
  have hthen := toNat_version_run text (Nat.lt_of_le_of_lt (Nat.le_add_right _ _) hcount)
  constructor
  · -- versions this low have not gone round, so equal ones count the same changes
    intro heq
    rw [← heq, hthen] at hnow
    omega
  · intro hzero
    obtain ⟨hd, -⟩ := run_spec (inStep_ofText text) before
    exact congrArg ModeTable.snapshot (run_of_changesIn_eq_zero hd hzero).2.symm

lemma zero_ne_snapshot : Snapshot.zero ≠ (((ofText text).run before).run later).snapshot := by
  have hnow := toNat_version_run text hcount
  rw [run_append] at hnow
  intro heq
  rw [← heq] at hnow
  exact absurd hnow (Nat.succ_ne_zero _).symm

end Points

/-- **Stale snapshots are detected exactly.**  In a run of fewer changes than there are versions, a
question at the snapshot of an earlier point is answered exactly when no change was made since: no
lines replaced, no element of a batch made, no new text taken.  Then the text and the modes of its
lines are those of that point, and so is the answer.  Otherwise the question is refused, with the
snapshot it was asked at and the current one, and the two differ.  The snapshot before any text is
refused at every point. -/
theorem stale_snapshots_detected (text : String) (before later : List Call)
    (hcount : (ofText text).changesIn (before ++ later) < 2 ^ 64 - 1) :
    let d := (ofText text).run before
    let now := d.run later
    (∀ span, (∃ walk, now.range d.snapshot span = .ok walk) ↔ d.changesIn later = 0) ∧
    (d.changesIn later = 0 → now.buffer = d.buffer ∧ now.table = d.table ∧
      ∀ span, now.range d.snapshot span = .ok (d.view.range span)) ∧
    (d.changesIn later ≠ 0 → d.snapshot ≠ now.snapshot ∧
      ∀ span, now.range d.snapshot span = .error (.staleSnapshot d.snapshot now.snapshot)) ∧
    (∀ span, now.range .zero span = .error (.staleSnapshot .zero now.snapshot)) := by
  intro d now
  have hiff : d.snapshot = now.snapshot ↔ d.changesIn later = 0 := snapshot_eq_iff text hcount
  refine ⟨fun span => range_ok_iff.trans hiff, ?_, ?_, range_of_ne (zero_ne_snapshot text hcount)⟩
  · intro hzero
    obtain ⟨hd, -⟩ := run_spec (inStep_ofText text) before
    obtain ⟨hbuffer, htable⟩ : now.buffer = d.buffer ∧ now.table = d.table :=
      run_of_changesIn_eq_zero hd hzero
    refine ⟨hbuffer, htable, fun span => ?_⟩
    rw [range_of_eq (hiff.mpr hzero), view, view, hbuffer, htable]
  · intro hchanged
    have hne := mt hiff.mp hchanged
    exact ⟨hne, range_of_ne hne⟩

/-- A comment is opened.  After it come a batch that is refused for its last change, an empty batch
and a report, and the snapshot still answers; then a batch of two changes makes it stale. -/
theorem stale_snapshots_detected_after_refused_batch :
    let before : List Call := [.replace ⟨0, 0, ["/*"]⟩]
    let refused : List Call :=
      [.apply [⟨0, 1, []⟩, ⟨2, 3, []⟩], .apply [], .setReport (.ofOutput "a.pony:1:1: x")]
    let made : List Call := refused ++ [.apply [⟨0, 1, []⟩, ⟨0, 1, ["b"]⟩]]
    let d := (ofText "a").run before
    d.snapshot = ⟨2⟩ ∧
    (ofText "a").changesIn (before ++ refused) = 1 ∧ (ofText "a").changesIn (before ++ made) = 3 ∧
    (∃ walk, (d.run refused).range d.snapshot ⟨0, 4⟩ = .ok walk) ∧
    (d.run refused).buffer = d.buffer ∧
    (d.run made).range d.snapshot ⟨0, 4⟩ =
      .error (.staleSnapshot d.snapshot (d.run made).snapshot) ∧
    (d.run made).range .zero ⟨0, 4⟩ = .error (.staleSnapshot .zero (d.run made).snapshot) := by
  intro before refused made d
  have hrefused : (ofText "a").changesIn (before ++ refused) = 1 := by decide +kernel
  have hmade : (ofText "a").changesIn (before ++ made) = 3 := by decide +kernel
  have hnone : d.changesIn refused = 0 := by decide +kernel
  have hsome : d.changesIn made ≠ 0 := by decide +kernel
  obtain ⟨hanswered, hsame, -, -⟩ :=
    stale_snapshots_detected "a" before refused (by rw [hrefused]; decide)
  obtain ⟨-, -, hstale, hzero⟩ :=
    stale_snapshots_detected "a" before made (by rw [hmade]; decide)
  exact ⟨by decide +kernel, hrefused, hmade, (hanswered _).mpr hnone, (hsame hnone).1,
    (hstale hsome).2 _, hzero _⟩

end Document
end PonyEditor
