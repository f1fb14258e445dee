import Mathlib.Logic.Relation
import PonyEditor.Document

/-!
# Settling gives the modes of a fresh scan

A table of modes follows an edit without scanning the whole text: `refit` makes room for the new
lines, and `settle` scans forward until a line leaves the mode that stands on record after it.
What is left is the table of a fresh scan, and what is reported is what changed.

The entries a text calls for are its `trail`: the mode each line begins in, and the one the last
line leaves.  What makes an early stop safe is `Coherent`: every mode on record is followed by the
trail that starts in it.  Pending entries claim nothing, so they keep the scan going.  A refitted
table is coherent with the new lines (`coherent_refit`), a coherent record settles into the whole
trail (`cons_settle_eq_trail`), and so a table that is kept through any run of edits, refusals and
rescans is at every point that of a fresh scan (`Host.entries_eq_of_run`).

The stop itself is exact: before it every recorded mode was wrong, and from it on every one stands
(`scanned_le_of_eq`, `settle_eq_of_le`).  For the lines of the text this is `sameLine_of_lt`,
`sameLine_of_reach_le` and `getElem?_trail_ne_of_lt_reach`.
-/

namespace PonyEditor

lemma Edit.fits_iff {e : Edit} {lineCount : Nat} :
    e.fits lineCount = true ↔ e.start ≤ e.stop ∧ e.stop ≤ lineCount := by
  simp [fits]

namespace Change

@[simp] lemma edit_start (c : Change) : c.edit.start = c.start := rfl

@[simp] lemma edit_stop (c : Change) : c.edit.stop = c.stop := rfl

@[simp] lemma edit_count (c : Change) : c.edit.count = c.lines.length := rfl

/-- The lines after a change. -/
def splice (c : Change) (lines : List String) : List String :=
  lines.take c.start ++ c.lines ++ lines.drop c.stop

section Splice

variable {c : Change} {old : List String} (hfits : c.edit.fits old.length = true)
include hfits

lemma length_splice :
    (c.splice old).length = old.length - c.edit.removed + c.edit.count := by
  obtain ⟨hstart, hstop⟩ := Edit.fits_iff.mp hfits
  simp only [edit] at hstart hstop
  simp only [splice, edit, Edit.removed, List.length_append, List.length_take, List.length_drop]
  omega

lemma take_splice : (c.splice old).take c.start = old.take c.start := by
  obtain ⟨hstart, hstop⟩ := Edit.fits_iff.mp hfits
  simp only [edit] at hstart hstop
  rw [splice, List.append_assoc, List.take_left' (by simp; omega)]

lemma drop_splice : (c.splice old).drop c.start = c.lines ++ old.drop c.stop := by
  obtain ⟨hstart, hstop⟩ := Edit.fits_iff.mp hfits
  simp only [edit] at hstart hstop
  rw [splice, List.append_assoc, List.drop_left' (by simp; omega)]

lemma getElem?_splice_of_lt {j : Nat} (hj : j < c.start) : (c.splice old)[j]? = old[j]? := by
  rw [← List.getElem?_take_of_lt hj, take_splice hfits, List.getElem?_take_of_lt hj]

/-- A line after the new ones is an old one under a new number. -/
lemma getElem?_splice_of_le {j : Nat} (hj : c.start + c.lines.length ≤ j) :
    (c.splice old)[j]? = old[j - c.edit.count + c.edit.removed]? := by
  obtain ⟨hstart, hstop⟩ := Edit.fits_iff.mp hfits
  simp only [edit] at hstart hstop
  obtain ⟨i, rfl⟩ := Nat.exists_eq_add_of_le hj
  have hdrop := congrArg (fun lines => lines[c.lines.length + i]?) (drop_splice hfits)
  simp only [List.getElem?_drop, List.getElem?_append_right (Nat.le_add_right _ _)] at hdrop
  rw [Nat.add_assoc, hdrop]
  congr 1
  simp only [edit, Edit.removed]
  omega

end Splice

end Change

@[simp] lemma Notice.lines_ofLines {σ : Type} [Lined σ] (source : σ) (lines : LineRange) :
    (ofLines source lines).lines = lines := by
  unfold ofLines
  split <;> rfl

namespace ModeTable

/-! ## Trails -/

/-- The entries of lines of which the first begins in `mode`: the mode each of them begins in, and
the one the last leaves. -/
def trail (mode : Mode) (lines : List String) : List (Option Mode) :=
  (lines.scanl Mode.exit mode).map some

@[simp] lemma trail_nil (mode : Mode) : trail mode [] = [some mode] := by
  simp [trail]

@[simp] lemma trail_cons (mode : Mode) (line : String) (lines : List String) :
    trail mode (line :: lines) = some mode :: trail (mode.exit line) lines := by
  simp [trail]

@[simp] lemma length_trail (mode : Mode) (lines : List String) :
    (trail mode lines).length = lines.length + 1 := by
  simp [trail]

lemma take_trail (mode : Mode) (lines : List String) (i : Nat) :
    (trail mode lines).take (i + 1) = trail mode (lines.take i) := by
  rw [trail, ← List.map_take, List.take_scanl, trail]

/-- After the first `i` lines comes the trail from the mode they lead to. -/
lemma drop_trail (mode : Mode) {lines : List String} {i : Nat} (hi : i ≤ lines.length) :
    (trail mode lines).drop i = trail ((lines.take i).foldl Mode.exit mode) (lines.drop i) := by
  induction lines generalizing mode i with
  | nil =>
      obtain rfl : i = 0 := Nat.le_zero.mp hi
      simp
  | cons line lines ih =>
      cases i with
      | zero => simp
      | succ i => simpa using ih (mode.exit line) (Nat.le_of_succ_le_succ hi)

lemma getElem?_trail (mode : Mode) {lines : List String} {i : Nat} (hi : i ≤ lines.length) :
    (trail mode lines)[i]? = some (some ((lines.take i).foldl Mode.exit mode)) := by
  rw [trail, List.getElem?_map, List.getElem?_scanl, if_pos hi]
  rfl

/-- No entry of a trail is pending, so the modes of lines are told apart by their entries. -/
lemma join_trail_eq_iff {mode mode' : Mode} {lines lines' : List String} {i j : Nat} :
    (trail mode lines)[i]?.join = (trail mode' lines')[j]?.join ↔
      (trail mode lines)[i]? = (trail mode' lines')[j]? := by
  have hjoin (entry : Option Mode) : (entry.map some).join = entry := by cases entry <;> rfl
  have hinj : Function.Injective (some : Mode → Option Mode) := fun _ _ h => Option.some.inj h
  simp only [trail, List.getElem?_map, hjoin, (Option.map_injective hinj).eq_iff]

/-! ## Settling -/

/-- Every mode on record is followed by the trail that starts in it.  The entries are those after
each of the lines. -/
def Coherent : List String → List (Option Mode) → Prop
  | _ :: lines, entry :: later =>
    (∀ mode, entry = some mode → entry :: later = trail mode lines) ∧ Coherent lines later
  | [], [] => True
  | _, _ => False

lemma coherent_trail (mode : Mode) (line : String) (lines : List String) :
    Coherent (line :: lines) (trail mode lines) := by
  induction lines generalizing mode line with
  | nil => simp [Coherent]
  | cons next lines ih =>
      rw [trail_cons, Coherent]
      refine ⟨?_, ih (mode.exit next) next⟩
      rintro _ ⟨rfl⟩
      rw [trail_cons]

lemma coherent_pending {lines : List String} {recorded : List (Option Mode)}
    (h : Coherent lines recorded) (new : List String) :
    Coherent (new ++ lines) (List.replicate new.length none ++ recorded) := by
  induction new with
  | nil => simpa using h
  | cons line new ih =>
      rw [List.length_cons, List.replicate_succ, List.cons_append, List.cons_append, Coherent]
      exact ⟨fun _ hmode => (nomatch hmode), ih⟩

lemma Coherent.length_eq {lines : List String} {recorded : List (Option Mode)}
    (h : Coherent lines recorded) : recorded.length = lines.length := by
  induction lines generalizing recorded with
  | nil =>
      cases recorded with
      | nil => rfl
      | cons entry later => exact h.elim
  | cons line lines ih =>
      cases recorded with
      | nil => exact h.elim
      | cons entry later => simpa using ih h.2

/-- **A coherent record settles into the whole trail**, wherever the scan stops. -/
lemma cons_settle_eq_trail (mode : Mode) {lines : List String} {recorded : List (Option Mode)}
    (h : Coherent lines recorded) :
    some mode :: (settle mode lines recorded).1 = trail mode lines := by
  fun_induction settle mode lines recorded with
  | case1 mode line lines later exit =>
      -- the scan stops here, and coherence vouches for all that is on record after it
      rw [trail_cons, h.1 exit rfl]
  | case2 mode line lines entry later exit hne settled scanned hsettle ih =>
      rw [hsettle] at ih
      rw [trail_cons, ← ih h.2]
  | case3 lines mode recorded hnot =>
      have hlength := h.length_eq
      rcases lines with _ | ⟨line, lines⟩ <;> rcases recorded with _ | ⟨entry, later⟩
      · rfl
      · simp at hlength
      · simp at hlength
      · exact (hnot _ _ _ _ rfl rfl).elim

/-! ### Where the scan stops -/

lemma scanned_le (mode : Mode) (lines : List String) (recorded : List (Option Mode)) :
    (settle mode lines recorded).2 ≤ lines.length := by
  fun_induction settle mode lines recorded with
  | case1 => simp
  | case2 mode line lines entry later exit hne settled scanned hsettle ih =>
      rw [hsettle] at ih
      simpa using ih
  | case3 => simp

lemma scanned_pos (mode : Mode) {lines : List String} {recorded : List (Option Mode)}
    (hlines : lines ≠ []) (hrecorded : recorded ≠ []) : 0 < (settle mode lines recorded).2 := by
  obtain ⟨line, lines, rfl⟩ := List.exists_cons_of_ne_nil hlines
  obtain ⟨entry, later, rfl⟩ := List.exists_cons_of_ne_nil hrecorded
  rw [settle]
  split
  · exact Nat.one_pos
  · exact Nat.succ_pos _

/-- Pending entries do not stop the scan. -/
lemma scanned_pending (mode : Mode) (new lines : List String) (recorded : List (Option Mode)) :
    (settle mode (new ++ lines) (List.replicate new.length none ++ recorded)).2 =
      new.length + (settle (new.foldl Mode.exit mode) lines recorded).2 := by
  induction new generalizing mode with
  | nil => simp
  | cons line new ih =>
      rw [List.length_cons, List.replicate_succ, List.cons_append, List.cons_append, settle,
        if_neg (by simp), List.foldl_cons]
      have hrest := ih (mode.exit line)
      simp only [hrest]
      omega

/-- An entry that stands as it was is where the scan stops, or after: it corrects every entry
before. -/
lemma scanned_le_of_eq {mode : Mode} {lines : List String} {recorded : List (Option Mode)} {i : Nat}
    (heq : (settle mode lines recorded).1[i]? = recorded[i]?) :
    (settle mode lines recorded).2 ≤ i + 1 := by
  induction lines generalizing mode recorded i with
  | nil => simp [settle]
  | cons line lines ih =>
      cases recorded with
      | nil => simp [settle]
      | cons entry later =>
          rw [settle] at heq ⊢
          split
          · simp
          · rename_i hne
            rw [if_neg hne] at heq
            cases i with
            | zero => exact absurd (by simpa using heq.symm) hne
            | succ i => exact Nat.succ_le_succ (ih (by simpa using heq))

/-- From the line the scan stops at, every entry stands as it was, unless that line is the last:
then the scan did not stop but ran out of lines. -/
lemma settle_eq_of_le {mode : Mode} {lines : List String} {recorded : List (Option Mode)}
    (hlength : recorded.length = lines.length)
    (hlt : (settle mode lines recorded).2 < lines.length)
    {i : Nat} (hi : (settle mode lines recorded).2 ≤ i + 1) :
    (settle mode lines recorded).1[i]? = recorded[i]? := by
  fun_induction settle mode lines recorded generalizing i with
  | case1 => rfl
  | case2 mode line lines entry later exit hne settled scanned hsettle ih =>
      simp only [hsettle, List.length_cons, Nat.add_lt_add_iff_right, Nat.add_right_cancel_iff,
        Nat.add_le_add_iff_right] at ih hlength hlt hi
      cases i with
      | zero =>
          have hlines : lines ≠ [] := List.ne_nil_of_length_pos (by omega)
          have hlater : later ≠ [] := List.ne_nil_of_length_pos (by omega)
          have hpos := scanned_pos exit hlines hlater
          rw [hsettle] at hpos
          exact absurd hi (Nat.not_le.mpr hpos)
      | succ i => simpa using ih hlength hlt hi
  | case3 => rfl

/-- A scan from line `start` gives the trail of the text, if the entries up to that line are right
and those after it coherent. -/
lemma settleFrom_eq_trail {entries : List (Option Mode)} {lines : List String} {start : Nat}
    (hstart : start ≤ lines.length)
    (htake : entries.take (start + 1) = trail .normal (lines.take start))
    (hdrop : Coherent (lines.drop start) (entries.drop (start + 1))) :
    (settleFrom entries lines start).1 = trail .normal lines := by
  have hentry : entries[start]? = some (some ((lines.take start).foldl Mode.exit .normal)) := by
    have hlength : start ≤ (lines.take start).length := by simp [hstart]
    have hget := getElem?_trail .normal hlength
    rwa [← htake, List.getElem?_take_of_lt (Nat.lt_succ_self start), List.take_take,
      Nat.min_self] at hget
  have hsettle := cons_settle_eq_trail ((lines.take start).foldl Mode.exit .normal) hdrop
  have hrest := congrArg List.tail (hsettle.trans (drop_trail .normal hstart).symm)
  rw [List.tail_cons, List.tail_drop] at hrest
  rw [settleFrom, hentry]
  calc entries.take (start + 1) ++ _
      = (trail .normal lines).take (start + 1) ++ (trail .normal lines).drop (start + 1) :=
        congrArg₂ _ (htake.trans (take_trail .normal lines start).symm) hrest
    _ = trail .normal lines := List.take_append_drop _ _

section Sources

variable {σ : Type} [Lined σ]

/-- A rescan gives the trail of the text, whatever the table held. -/
lemma entries_rescan (t : ModeTable) (source : σ) :
    (t.rescan source).1.entries = trail .normal (Lined.lines source) := by
  rw [rescan]
  refine settleFrom_eq_trail (Nat.zero_le _) (by simp) ?_
  have hnil : Coherent [] [] := trivial
  simpa [Lined.count] using coherent_pending hnil (Lined.lines source)

lemma entries_ofSource (source : σ) :
    (ofSource source).entries = trail .normal (Lined.lines source) :=
  entries_rescan _ source

end Sources

/-! ## Refitting -/

lemma drop_refit_zero {entries : List (Option Mode)} {e : Edit} (h : e.start < entries.length)
    (hcount : e.count = 0) :
    (refit entries e).drop (e.start + 1) = entries.drop (e.stop + 1) := by
  have hlength : (entries.take (e.start + 1)).length = e.start + 1 := by simp; omega
  simp only [refit, hcount]
  exact List.drop_left' hlength

lemma drop_refit_succ {entries : List (Option Mode)} {e : Edit} {new : Nat}
    (h : e.start < entries.length) (hcount : e.count = new + 1) :
    (refit entries e).drop (e.start + 1) = List.replicate new none ++ entries.drop e.stop := by
  have hlength : (entries.take (e.start + 1)).length = e.start + 1 := by simp; omega
  simp only [refit, hcount, List.append_assoc]
  exact List.drop_left' hlength

lemma take_refit {entries : List (Option Mode)} {e : Edit} (h : e.start < entries.length) :
    (refit entries e).take (e.start + 1) = entries.take (e.start + 1) := by
  have hlength : (entries.take (e.start + 1)).length = e.start + 1 := by simp; omega
  cases hcount : e.count with
  | zero =>
      simp only [refit, hcount]
      exact List.take_left' hlength
  | succ new =>
      simp only [refit, hcount, List.append_assoc]
      exact List.take_left' hlength

section Refit

variable {c : Change} {old : List String} (hfits : c.edit.fits old.length = true)
include hfits

private lemma start_lt_length_trail : c.edit.start < (trail .normal old).length := by
  obtain ⟨hstart, hstop⟩ := Edit.fits_iff.mp hfits
  rw [length_trail]
  omega

/-- **The refitted entries are coherent with the new lines.**  A deletion keeps the entry after the
line that follows the hole; otherwise the entry of that line comes after the last new one. -/
lemma coherent_refit :
    Coherent ((c.splice old).drop c.start)
      ((refit (trail .normal old) c.edit).drop (c.start + 1)) := by
  have hstart := start_lt_length_trail hfits
  have hstop : c.stop ≤ old.length := (Edit.fits_iff.mp hfits).2
  rw [Change.drop_splice hfits, ← c.edit_start]
  rcases List.eq_nil_or_concat c.lines with hlines | ⟨init, last, hlines⟩
  · rw [drop_refit_zero hstart (by simp [hlines]), hlines, List.nil_append, c.edit_stop,
      ← List.tail_drop, drop_trail .normal hstop]
    rcases old.drop c.stop with _ | ⟨line, later⟩
    · simp [Coherent]
    · simpa using coherent_trail _ line later
  · rw [List.concat_eq_append] at hlines
    have hcount : c.edit.count = init.length + 1 := by simp [hlines]
    rw [drop_refit_succ hstart hcount, hlines, c.edit_stop, drop_trail .normal hstop,
      List.append_assoc]
    exact coherent_pending (coherent_trail _ last (old.drop c.stop)) init

/-- After the new lines, the refitted entries are the old ones under new numbers.  The line right
after a deletion is left out: its entry is that of the first deleted line. -/
lemma getElem?_refit {j : Nat} (hj : c.start < j) (hnew : c.start + c.lines.length ≤ j) :
    (refit (trail .normal old) c.edit)[j]? =
      (trail .normal old)[j - c.edit.count + c.edit.removed]? := by
  have hlt := start_lt_length_trail hfits
  have hstart : c.start ≤ c.stop := (Edit.fits_iff.mp hfits).1
  obtain ⟨i, rfl⟩ := Nat.exists_eq_add_of_lt hj
  rw [Nat.add_right_comm, ← c.edit_start, ← List.getElem?_drop]
  cases hcount : c.lines.length with
  | zero =>
      rw [drop_refit_zero hlt hcount, List.getElem?_drop]
      congr 1
      simp only [Edit.removed, c.edit_start, c.edit_stop, c.edit_count]
      omega
  | succ new =>
      rw [drop_refit_succ hlt hcount, List.getElem?_append_right (by simp; omega),
        List.getElem?_drop]
      congr 1
      simp only [List.length_replicate, Edit.removed, c.edit_start, c.edit_stop, c.edit_count]
      omega

end Refit

/-! ## Following a change -/

/-- The line that the scan after a change stops before. -/
def reach (old : List String) (c : Change) : Nat :=
  (settleFrom (refit (trail .normal old) c.edit) (c.splice old) c.start).2

section Follow

variable {c : Change} {old : List String} (hfits : c.edit.fits old.length = true)
include hfits

lemma settleFrom_refit :
    (settleFrom (refit (trail .normal old) c.edit) (c.splice old) c.start).1 =
      trail .normal (c.splice old) := by
  have hstart := start_lt_length_trail hfits
  refine settleFrom_eq_trail ?_ ?_ (coherent_refit hfits)
  · have hle := congrArg List.length (Change.take_splice hfits)
    simp only [c.edit_start, length_trail, List.length_take] at hstart hle
    omega
  · rw [← c.edit_start, take_refit hstart, take_trail, c.edit_start, Change.take_splice hfits]

/-- The scan after a change, counted from the first new line: it goes as far as the reach, and its
entries are those of the new text. -/
lemma exists_settle_eq :
    ∃ mode,
      reach old c = c.start + (settle mode ((c.splice old).drop c.start)
        ((refit (trail .normal old) c.edit).drop (c.start + 1))).2 ∧
      ∀ i, (trail .normal (c.splice old))[c.start + 1 + i]? = (settle mode
        ((c.splice old).drop c.start)
        ((refit (trail .normal old) c.edit).drop (c.start + 1))).1[i]? := by
  refine ⟨((refit (trail .normal old) c.edit)[c.start]?.join).getD .normal, rfl, fun i => ?_⟩
  have hlength : ((refit (trail .normal old) c.edit).take (c.start + 1)).length = c.start + 1 := by
    have hstart := start_lt_length_trail hfits
    rw [← c.edit_start, take_refit hstart, List.length_take]
    omega
  rw [← settleFrom_refit hfits, settleFrom, List.getElem?_append_right (by omega), hlength,
    Nat.add_sub_cancel_left]

lemma reach_le : reach old c ≤ (c.splice old).length := by
  obtain ⟨mode, hreach, -⟩ := exists_settle_eq hfits
  have hle := scanned_le mode ((c.splice old).drop c.start)
    ((refit (trail .normal old) c.edit).drop (c.start + 1))
  have hstart := Change.length_splice hfits
  obtain ⟨hse, hstop⟩ := Edit.fits_iff.mp hfits
  simp only [List.length_drop, Edit.removed, c.edit_start, c.edit_stop] at hle hstart hse hstop
  omega

/-- The scan reads every new line: the entries after all of them but the last are pending. -/
lemma le_reach : c.start + c.lines.length ≤ reach old c := by
  obtain ⟨mode, hreach, -⟩ := exists_settle_eq hfits
  have hlt := start_lt_length_trail hfits
  have hstop : c.stop ≤ old.length := (Edit.fits_iff.mp hfits).2
  rw [hreach]
  rcases List.eq_nil_or_concat c.lines with hlines | ⟨init, last, hlines⟩
  · simp [hlines]
  · rw [List.concat_eq_append] at hlines
    have hcount : c.edit.count = init.length + 1 := by simp [hlines]
    rw [Change.drop_splice hfits, ← c.edit_start, drop_refit_succ hlt hcount, hlines,
      List.append_assoc, scanned_pending]
    have hrecorded : (trail .normal old).drop c.stop ≠ [] :=
      List.ne_nil_of_length_pos (by simp; omega)
    have hpos := scanned_pos (init.foldl Mode.exit mode)
      (List.cons_ne_nil last (old.drop c.stop)) hrecorded
    simp only [List.length_append, List.length_singleton, List.singleton_append, c.edit_stop]
    omega

/-- The scan reads a line, if there is one. -/
lemma start_lt_reach (hlt : c.start < (c.splice old).length) : c.start < reach old c := by
  obtain ⟨mode, hreach, -⟩ := exists_settle_eq hfits
  have hlines : (c.splice old).drop c.start ≠ [] :=
    List.ne_nil_of_length_pos (by rw [List.length_drop]; omega)
  have hrecorded : (refit (trail .normal old) c.edit).drop (c.start + 1) ≠ [] := by
    apply List.ne_nil_of_length_pos
    rw [(coherent_refit hfits).length_eq]
    exact List.length_pos_iff.mpr hlines
  have hpos := scanned_pos mode hlines hrecorded
  omega

lemma getElem?_trail_of_le {j : Nat} (hj : j ≤ c.start) :
    (trail .normal (c.splice old))[j]? = (trail .normal old)[j]? := by
  have hlt : j < c.start + 1 := Nat.lt_succ_of_le hj
  rw [← List.getElem?_take_of_lt hlt, take_trail, Change.take_splice hfits, ← take_trail,
    List.getElem?_take_of_lt hlt]

/-- From its reach on, a change leaves the entries of the lines as they were. -/
lemma getElem?_trail_of_reach_le {j : Nat} (hj : reach old c ≤ j)
    (hlt : j < (c.splice old).length) :
    (trail .normal (c.splice old))[j]? =
      (trail .normal old)[j - c.edit.count + c.edit.removed]? := by
  obtain ⟨mode, hreach, hentry⟩ := exists_settle_eq hfits
  have hnew := le_reach hfits
  have hlength := (coherent_refit hfits).length_eq
  have hstart : c.start < j := Nat.lt_of_lt_of_le (start_lt_reach hfits (by omega)) hj
  obtain ⟨i, rfl⟩ := Nat.exists_eq_add_of_lt hstart
  rw [← getElem?_refit hfits hstart (by omega), Nat.add_right_comm, hentry, ← List.getElem?_drop]
  apply settle_eq_of_le hlength
  · rw [List.length_drop]
    omega
  · omega

/-- Before its reach, a change gives every line after the new ones an entry it did not have.  Left
out is the first line scanned, whose entry no line before it gave. -/
lemma getElem?_trail_ne_of_lt_reach {j : Nat} (hstart : c.start < j)
    (hnew : c.start + c.lines.length ≤ j) (hj : j < reach old c) :
    (trail .normal (c.splice old))[j]? ≠
      (trail .normal old)[j - c.edit.count + c.edit.removed]? := by
  obtain ⟨mode, hreach, hentry⟩ := exists_settle_eq hfits
  intro heq
  rw [← getElem?_refit hfits hstart hnew] at heq
  obtain ⟨i, rfl⟩ := Nat.exists_eq_add_of_lt hstart
  rw [Nat.add_right_comm, hentry, ← List.getElem?_drop] at heq
  have hle := scanned_le_of_eq heq
  omega

/-- **Following a change gives the table of the new text**, and a notice of the lines up to its
reach. -/
lemma follow_of_trail {σ : Type} [Lined σ] {t : ModeTable} {source : σ}
    (ht : t.entries = trail .normal old) (hsource : Lined.lines source = c.splice old) :
    t.follow source c.edit =
      .ok (⟨trail .normal (c.splice old), t.snapshot.next⟩,
        Notice.ofLines source ⟨c.start, reach old c⟩) := by
  have hcount : t.lineCount = old.length := by simp [lineCount, ht]
  have hactual : Lined.count source = old.length - c.edit.removed + c.edit.count := by
    rw [Lined.count, hsource, Change.length_splice hfits]
  have hentries := settleFrom_refit hfits
  simp only [follow, hcount, hfits, hactual, hsource, ht, reach, ← hentries, c.edit_start,
    Bool.not_true, Bool.false_eq_true, if_false, ne_eq, not_true_eq_false]

end Follow

end ModeTable

/-! ## Lines that a change leaves alone -/

namespace View

variable {σ : Type} [Lined σ]

/-- The lexemes of a line: its tokens, wherever the line starts. -/
def lexemesOf (v : View σ) (line : Nat) : List Lexeme :=
  ((v.line? line).map (v.mode line).lexemes).getD []

/-- Line `j` of a view is line `i` of another: the same text, scanned from the same mode, so that
the same tokens come out, only moved with the line. -/
structure SameLine (v : View σ) (j : Nat) (w : View σ) (i : Nat) : Prop where
  text : v.line? j = w.line? i
  entry : v.table.entry? j = w.table.entry? i
  lexemes : v.lexemesOf j = w.lexemesOf i

lemma SameLine.of_text_entry {v w : View σ} {j i : Nat} (htext : v.line? j = w.line? i)
    (hentry : v.table.entry? j = w.table.entry? i) : v.SameLine j w i :=
  ⟨htext, hentry, by rw [lexemesOf, lexemesOf, htext, mode, mode, hentry]⟩

lemma SameLine.trans {u v w : View σ} {k j i : Nat} (h : u.SameLine k v j)
    (h' : v.SameLine j w i) : u.SameLine k w i :=
  ⟨h.text.trans h'.text, h.entry.trans h'.entry, h.lexemes.trans h'.lexemes⟩

lemma SameLine.lt_lineCount {v w : View σ} {j i : Nat} (h : v.SameLine j w i)
    (hj : j < v.lineCount) : i < w.lineCount := by
  have htext := h.text
  simp only [line?, Lined.line?, List.getElem?_eq_getElem hj] at htext
  exact (List.getElem?_eq_some_iff.mp htext.symm).1

end View

namespace ModeTable

variable {σ : Type} [Lined σ]

section SameLine

variable {t t' : ModeTable} {old new : σ} {c : Change}
  (hfits : c.edit.fits (Lined.count old) = true)
  (ht : t.entries = trail .normal (Lined.lines old))
  (ht' : t'.entries = trail .normal (c.splice (Lined.lines old)))
  (hnew : Lined.lines new = c.splice (Lined.lines old))
include hfits ht ht' hnew

lemma sameLine_of_lt {j : Nat} (hj : j < c.start) : View.SameLine ⟨t', new⟩ j ⟨t, old⟩ j := by
  apply View.SameLine.of_text_entry
  · simpa only [View.line?, Lined.line?, hnew] using Change.getElem?_splice_of_lt hfits hj
  · simp only [ht, ht', entry?, getElem?_trail_of_le hfits (Nat.le_of_lt hj)]

lemma sameLine_of_reach_le {j : Nat} (hj : reach (Lined.lines old) c ≤ j)
    (hlt : j < (c.splice (Lined.lines old)).length) :
    View.SameLine ⟨t', new⟩ j ⟨t, old⟩ (j - c.edit.count + c.edit.removed) := by
  have hafter : c.start + c.lines.length ≤ j := Nat.le_trans (le_reach hfits) hj
  apply View.SameLine.of_text_entry
  · simpa only [View.line?, Lined.line?, hnew] using Change.getElem?_splice_of_le hfits hafter
  · simp only [ht, ht', entry?, getElem?_trail_of_reach_le hfits hj hlt]

end SameLine

/-- **The lines reported for a change are the ones it touches.**  The table follows the change and
reports the lines from the first replaced one up to its reach: all new lines are among them.  The
lines before and after them are old ones with the mode they had.  Of the lines reported after the
new ones, every one but the first line scanned begins in another mode than it did. -/
theorem follow_reports_exactly_what_changed (t : ModeTable) (old new : σ) (c : Change)
    (htable : t.entries = (ofSource old).entries)
    (hfits : c.edit.fits (Lined.count old) = true)
    (hnew : Lined.lines new = c.splice (Lined.lines old)) :
    ∃ t' notice, t.follow new c.edit = .ok (t', notice) ∧
      notice.lines.start = c.start ∧
      c.start + c.lines.length ≤ notice.lines.stop ∧
      notice.lines.stop ≤ Lined.count new ∧
      (c.start = Lined.count new → notice.lines.stop = c.start) ∧
      (∀ j, j < c.start → View.SameLine ⟨t', new⟩ j ⟨t, old⟩ j) ∧
      (∀ j, notice.lines.stop ≤ j → j < Lined.count new →
        View.SameLine ⟨t', new⟩ j ⟨t, old⟩ (j - c.edit.count + c.edit.removed)) ∧
      (∀ j, c.start < j → j < notice.lines.stop → c.start + c.lines.length ≤ j →
        t'.entry? j ≠ t.entry? (j - c.edit.count + c.edit.removed)) := by
  rw [entries_ofSource] at htable
  have hcount : Lined.count new = (c.splice (Lined.lines old)).length := by
    rw [Lined.count, hnew]
  have hle := reach_le hfits
  have hnewLines := le_reach hfits
  refine ⟨_, _, follow_of_trail hfits htable hnew, ?_⟩
  simp only [Notice.lines_ofLines, true_and]
  refine ⟨hnewLines, hcount ▸ hle, ?_, ?_, ?_, ?_⟩
  · intro hstart
    exact Nat.le_antisymm (by rwa [hstart, hcount]) (Nat.le_trans (Nat.le_add_right _ _) hnewLines)
  · intro j hj
    exact sameLine_of_lt hfits htable rfl hnew hj
  · intro j hj hlt
    exact sameLine_of_reach_le hfits htable rfl hnew hj (hcount ▸ hlt)
  · intro j hstart hj hafter heq
    simp only [htable, entry?, join_trail_eq_iff] at heq
    exact getElem?_trail_ne_of_lt_reach hfits hstart hafter hj heq

/-- Where a comment is no longer opened on the first line, the lines up to its end are reported and
the line after it is not. -/
theorem follow_reports_comment_no_longer_opened :
    let old := ["/*", "a", "*/ b", "c"]
    let new := ["x", "a", "*/ b", "c"]
    let c : Change := ⟨0, 1, ["x"]⟩
    c.edit.fits (Lined.count old) = true ∧ Lined.lines new = c.splice (Lined.lines old) ∧
    ∃ t' notice, (ofSource old).follow new c.edit = .ok (t', notice) ∧
      notice.lines.start = 0 ∧ 0 + 1 ≤ notice.lines.stop ∧ notice.lines.stop ≤ 4 ∧
      (0 = 4 → notice.lines.stop = 0) ∧
      (∀ j, j < 0 → View.SameLine ⟨t', new⟩ j ⟨ofSource old, old⟩ j) ∧
      (∀ j, notice.lines.stop ≤ j → j < 4 →
        View.SameLine ⟨t', new⟩ j ⟨ofSource old, old⟩ (j - 1 + 1)) ∧
      (∀ j, 0 < j → j < notice.lines.stop → 0 + 1 ≤ j →
        t'.entry? j ≠ ModeTable.entry? (ofSource old) (j - 1 + 1)) := by
  intro old new c
  exact ⟨rfl, rfl, follow_reports_exactly_what_changed (ofSource old) old new c rfl rfl rfl⟩

/-! ## Runs -/

/-- The table after it was told of an edit.  An edit that is refused leaves it as it was. -/
def told (t : ModeTable) (source : σ) (e : Edit) : ModeTable :=
  match t.follow source e with
  | .ok (t', _) => t'
  | .error _ => t

/-- A text and the table kept for it. -/
structure Host (σ : Type) where
  source : σ
  table : ModeTable

/-- A step of a host that keeps its table with its text. -/
inductive Host.Step : Host σ → Host σ → Prop
  /-- The text is changed, and the table is told. -/
  | change (h : Host σ) (source : σ) (c : Change)
      (hfits : c.edit.fits (Lined.count h.source) = true)
      (hsource : Lined.lines source = c.splice (Lined.lines h.source)) :
      Step h ⟨source, h.table.told source c.edit⟩
  /-- The table is told of an edit of any text, and refuses it. -/
  | refusal (h : Host σ) (source : σ) (e : Edit) (reason : EditError)
      (hrefused : h.table.follow source e = .error reason) :
      Step h ⟨h.source, h.table.told source e⟩
  /-- The text is scanned again. -/
  | rescan (h : Host σ) : Step h ⟨h.source, (h.table.rescan h.source).1⟩

lemma told_of_trail {t : ModeTable} {old : List String} {source : σ} {c : Change}
    (hfits : c.edit.fits old.length = true) (ht : t.entries = trail .normal old)
    (hsource : Lined.lines source = c.splice old) :
    (t.told source c.edit).entries = trail .normal (Lined.lines source) := by
  rw [told, follow_of_trail hfits ht hsource, hsource]

lemma told_of_error {t : ModeTable} {source : σ} {e : Edit} {reason : EditError}
    (h : t.follow source e = .error reason) : t.told source e = t := by
  rw [told, h]

/-- Every step leaves the table with the trail of the text. -/
lemma Host.Step.entries_eq {h h' : Host σ} (hstep : Step h h')
    (ht : h.table.entries = trail .normal (Lined.lines h.source)) :
    h'.table.entries = trail .normal (Lined.lines h'.source) := by
  cases hstep with
  | change source c hfits hsource => exact told_of_trail hfits ht hsource
  | refusal source e reason hrefused => rw [told_of_error hrefused, ht]
  | rescan => exact entries_rescan h.table h.source

/-- What a run of steps from a fresh table keeps: the trail of the text. -/
lemma Host.entries_eq_of_run {first : σ} {h : Host σ}
    (hrun : Relation.ReflTransGen Step ⟨first, ofSource first⟩ h) :
    h.table.entries = trail .normal (Lined.lines h.source) := by
  induction hrun with
  | refl => exact entries_ofSource first
  | tail _ hstep ih => exact hstep.entries_eq ih

/-- The entries of a fresh scan, one by one. -/
lemma trail_normal_spec (source : σ) :
    (trail .normal (Lined.lines source)).length = Lined.count source + 1 ∧
    none ∉ trail .normal (Lined.lines source) ∧
    (trail .normal (Lined.lines source))[0]? = some (some .normal) ∧
    ∀ i line, Lined.line? source i = some line →
      ∃ mode, (trail .normal (Lined.lines source))[i]? = some (some mode) ∧
        (trail .normal (Lined.lines source))[i + 1]? = some (some (mode.exit line)) := by
  refine ⟨length_trail _ _, by simp [trail], getElem?_trail .normal (Nat.zero_le _), ?_⟩
  intro i line hline
  obtain ⟨hi, rfl⟩ := List.getElem?_eq_some_iff.mp hline
  refine ⟨_, getElem?_trail .normal (Nat.le_of_lt hi), ?_⟩
  rw [getElem?_trail .normal hi, List.take_succ_eq_append_getElem hi, List.foldl_append]
  rfl

/-- **Following equals scanning afresh, over whole runs.**  From the table of any text, after any
run of changes the table was told of, edits it refused and rescans, its entries are those of a
fresh table of the text at that point: one more than there are lines, none of them pending, the
first with nothing open, and each next one the mode that its line leaves.  No change that fits the
text is refused. -/
theorem entries_eq_fresh_of_run {first : σ} {h : Host σ}
    (hrun : Relation.ReflTransGen Host.Step ⟨first, ofSource first⟩ h) :
    h.table.entries = (ofSource h.source).entries ∧
    h.table.entries.length = Lined.count h.source + 1 ∧
    none ∉ h.table.entries ∧
    h.table.entries[0]? = some (some .normal) ∧
    (∀ i line, Lined.line? h.source i = some line →
      ∃ mode, h.table.entries[i]? = some (some mode) ∧
        h.table.entries[i + 1]? = some (some (mode.exit line))) ∧
    (∀ (source : σ) (c : Change), c.edit.fits (Lined.count h.source) = true →
      Lined.lines source = c.splice (Lined.lines h.source) →
      ∃ t' notice, h.table.follow source c.edit = .ok (t', notice)) := by
  have hentries := Host.entries_eq_of_run hrun
  obtain ⟨hlength, hpending, hfirst, hnext⟩ := trail_normal_spec h.source
  refine ⟨hentries.trans (entries_ofSource h.source).symm, ?_⟩
  rw [hentries]
  refine ⟨hlength, hpending, hfirst, hnext, fun source c hfits hsource => ?_⟩
  exact ⟨_, _, follow_of_trail hfits hentries hsource⟩

/-- A comment is opened above the text, an inverted edit is refused, and the text is rescanned. -/
theorem entries_eq_fresh_after_comment_opened :
    let first := ["a", "b"]
    let opened := ["/*", "a", "b"]
    let h : Host (List String) :=
      ⟨opened, ((((ofSource first).told opened ⟨0, 0, 1⟩).told first ⟨2, 1, 0⟩).rescan opened).1⟩
    Relation.ReflTransGen Host.Step ⟨first, ofSource first⟩ h ∧
    h.table.entries = (ofSource opened).entries ∧
    h.table.entries.length = 4 ∧
    none ∉ h.table.entries ∧
    h.table.entries[0]? = some (some .normal) ∧
    (∀ i line, opened[i]? = some line →
      ∃ mode, h.table.entries[i]? = some (some mode) ∧
        h.table.entries[i + 1]? = some (some (mode.exit line))) ∧
    (∀ (source : List String) (c : Change), c.edit.fits 3 = true → source = c.splice opened →
      ∃ t' notice, h.table.follow source c.edit = .ok (t', notice)) := by
  intro first opened h
  have hchange := Host.Step.change ⟨first, ofSource first⟩ opened ⟨0, 0, ["/*"]⟩ rfl rfl
  have hrefusal := Host.Step.refusal ⟨opened, (ofSource first).told opened ⟨0, 0, 1⟩⟩ first
    ⟨2, 1, 0⟩ (.outOfRange 2 1 _) rfl
  have hrescan := Host.Step.rescan
    ⟨opened, ((ofSource first).told opened ⟨0, 0, 1⟩).told first ⟨2, 1, 0⟩⟩
  have hrun := ((Relation.ReflTransGen.single hchange).tail hrefusal).tail hrescan
  exact ⟨hrun, entries_eq_fresh_of_run hrun⟩

end ModeTable
end PonyEditor
