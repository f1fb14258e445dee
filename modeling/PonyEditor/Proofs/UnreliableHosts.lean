import PonyEditor.Proofs.Renumbering
import PonyEditor.Proofs.Settling

/-!
# Tables under unreliable hosts

A table of modes is told of edits by its host, and a host may be wrong: the text it shows may have
nothing to do with the one before, and the edit may be any.  What the entries say of the text is
then the host's affair, but the table stays whole.  After every call that is taken, it has one
entry more than there are lines, none of them pending, and the first with nothing open; on the
lines it reports, every entry is the mode that the line before leaves (`Covers`).  Nothing is used
for this but the sizes that the table checks: pending entries do not stop the scan
(`settle_pending`), and there are fewer of them than lines to scan (`none_notMem_settle_refit`).

That no call reaches past the entries is said of the table kept in place, by programs that read
and write single entries and stop where there is none (`Upkeep`).  They never stop, and leave what
`follow` and `rescan` give (`Upkeep.run_follow`, `Upkeep.run_rescan`).
-/

namespace PonyEditor
namespace ModeTable

/-! ## Settling any record -/

/-- Pending entries are all filled in, and the scan goes on after them. -/
lemma settle_pending (mode : Mode) (new lines : List String) (recorded : List (Option Mode)) :
    (settle mode (new ++ lines) (List.replicate new.length none ++ recorded)).1 =
      (trail mode new).tail ++ (settle (new.foldl Mode.exit mode) lines recorded).1 := by
  induction new generalizing mode with
  | nil => simp
  | cons line new ih =>
      rw [List.length_cons, List.replicate_succ, List.cons_append, List.cons_append, settle,
        if_neg (by simp), trail_cons, List.foldl_cons, List.tail_cons]
      have hrest := ih (mode.exit line)
      simp only [hrest]
      cases new with
      | nil => simp
      | cons next new => simp

lemma none_notMem_settle {mode : Mode} {lines : List String} {recorded : List (Option Mode)}
    (h : none ∉ recorded) : none ∉ (settle mode lines recorded).1 := by
  fun_induction settle mode lines recorded with
  | case1 => exact h
  | case2 mode line lines entry later exit hne settled scanned hsettle ih =>
      rw [hsettle] at ih
      have hlater : none ∉ later := fun hmem => h (List.mem_cons_of_mem _ hmem)
      simpa using ih hlater
  | case3 => exact h

/-- Every line that is scanned leaves the mode that is on record after it. -/
lemma getElem?_settle {mode : Mode} {lines : List String} {recorded : List (Option Mode)} {i : Nat}
    (hi : i < (settle mode lines recorded).2) :
    ∃ line entry, lines[i]? = some line ∧
      (some mode :: (settle mode lines recorded).1)[i]? = some (some entry) ∧
      (some mode :: (settle mode lines recorded).1)[i + 1]? = some (some (entry.exit line)) := by
  fun_induction settle mode lines recorded generalizing i
  case case1 mode line lines later exit =>
      obtain rfl : i = 0 := Nat.lt_one_iff.mp hi
      exact ⟨line, mode, rfl, rfl, rfl⟩
  case case2 mode line lines entry later exit hne settled scanned hsettle ih =>
      cases i with
      | zero => exact ⟨line, mode, rfl, rfl, rfl⟩
      | succ i =>
          rw [hsettle] at ih
          exact ih (Nat.lt_of_succ_lt_succ hi)
  case case3 => exact absurd hi (Nat.not_lt_zero i)

/-- A scan from a line whose mode is known. -/
lemma settleFrom_eq {entries : List (Option Mode)} {start : Nat} {mode : Mode}
    (h : entries[start]? = some (some mode)) (lines : List String) :
    settleFrom entries lines start =
      (entries.take start ++
        some mode :: (settle mode (lines.drop start) (entries.drop (start + 1))).1,
      start + (settle mode (lines.drop start) (entries.drop (start + 1))).2) := by
  obtain ⟨hlt, hentry⟩ := List.getElem?_eq_some_iff.mp h
  have htake : entries.take (start + 1) = entries.take start ++ [some mode] := by
    rw [List.take_succ_eq_append_getElem hlt, hentry]
  simp only [settleFrom, h, htake, Option.join_some, Option.getD_some, List.append_assoc,
    List.singleton_append]

lemma settleFrom_of_le {entries : List (Option Mode)} {lines : List String} {start : Nat}
    (h : lines.length ≤ start) : settleFrom entries lines start = (entries, start) := by
  simp [settleFrom, List.drop_eq_nil_of_le h, settle]

lemma take_settleFrom {entries : List (Option Mode)} {start : Nat} (h : start < entries.length)
    (lines : List String) :
    (settleFrom entries lines start).1.take (start + 1) = entries.take (start + 1) := by
  rw [settleFrom]
  exact List.take_left' (by simp; omega)

lemma drop_settleFrom {entries : List (Option Mode)} {start : Nat} {mode : Mode}
    (h : entries[start]? = some (some mode)) (lines : List String) :
    (settleFrom entries lines start).1.drop (start + 1) =
      (settle mode (lines.drop start) (entries.drop (start + 1))).1 := by
  have hlt := (List.getElem?_eq_some_iff.mp h).1
  rw [settleFrom, h]
  exact List.drop_left' (by simp; omega)

lemma getElem?_settleFrom {entries : List (Option Mode)} {start : Nat} {mode : Mode}
    (h : entries[start]? = some (some mode)) {lines : List String} {j : Nat} (hstart : start ≤ j)
    (hj : j < (settleFrom entries lines start).2) :
    ∃ line entry, lines[j]? = some line ∧
      (settleFrom entries lines start).1[j]? = some (some entry) ∧
      (settleFrom entries lines start).1[j + 1]? = some (some (entry.exit line)) := by
  obtain ⟨i, rfl⟩ := Nat.exists_eq_add_of_le hstart
  rw [settleFrom_eq h] at hj ⊢
  obtain ⟨line, entry, hline, hentry, hexit⟩ := getElem?_settle (Nat.lt_of_add_lt_add_left hj)
  have hlength : (entries.take start).length = start :=
    List.length_take_of_le (Nat.le_of_lt (List.getElem?_eq_some_iff.mp h).1)
  refine ⟨line, entry, List.getElem?_drop.symm.trans hline, ?_, ?_⟩
  · rwa [List.getElem?_append_right (by omega), hlength, Nat.add_sub_cancel_left]
  · rwa [Nat.add_assoc, List.getElem?_append_right (by omega), hlength, Nat.add_sub_cancel_left]

section Refit

variable {entries : List (Option Mode)} {e : Edit} {lines : List String}
  (hstart : e.start ≤ e.stop) (hstop : e.stop < entries.length)
  (hlength : lines.length + 1 = entries.length - e.removed + e.count)
include hstart hstop hlength

/-- The lines to scan, with as many in front as a refitted table has entries pending. -/
private lemma exists_pending_lines {new : Nat} (hcount : e.count = new + 1) :
    ∃ front back, lines.drop e.start = front ++ back ∧ front.length = new ∧ back ≠ [] := by
  rw [Edit.removed] at hlength
  refine ⟨(lines.drop e.start).take new, (lines.drop e.start).drop new,
    (List.take_append_drop _ _).symm, ?_, ?_⟩
  · simp only [List.length_take, List.length_drop]
    omega
  · apply List.ne_nil_of_length_pos
    simp only [List.length_drop]
    omega

/-- **A refitted table has fewer entries pending than lines to scan**, so the scan leaves none. -/
lemma none_notMem_settle_refit (hknown : none ∉ entries) (mode : Mode) :
    none ∉ (settle mode (lines.drop e.start) ((refit entries e).drop (e.start + 1))).1 := by
  have hlt : e.start < entries.length := Nat.lt_of_le_of_lt hstart hstop
  cases hcount : e.count with
  | zero =>
      rw [drop_refit_zero hlt hcount]
      exact none_notMem_settle (mt List.mem_of_mem_drop hknown)
  | succ new =>
      obtain ⟨front, back, hlines, rfl, -⟩ :=
        exists_pending_lines hstart hstop hlength hcount
      rw [drop_refit_succ hlt hcount, hlines, settle_pending, List.mem_append, not_or]
      refine ⟨mt List.mem_of_mem_tail (by simp [trail]), ?_⟩
      exact none_notMem_settle (mt List.mem_of_mem_drop hknown)

lemma count_le_scanned_refit (mode : Mode) :
    e.count ≤ (settle mode (lines.drop e.start) ((refit entries e).drop (e.start + 1))).2 := by
  have hlt : e.start < entries.length := Nat.lt_of_le_of_lt hstart hstop
  cases hcount : e.count with
  | zero => exact Nat.zero_le _
  | succ new =>
      obtain ⟨front, back, hlines, rfl, hback⟩ :=
        exists_pending_lines hstart hstop hlength hcount
      have hrecorded : entries.drop e.stop ≠ [] :=
        List.ne_nil_of_length_pos (by rw [List.length_drop]; omega)
      have hpos := scanned_pos (front.foldl Mode.exit mode) hback hrecorded
      rw [drop_refit_succ hlt hcount, hlines, scanned_pending]
      omega

end Refit

/-! ## What a call leaves -/

section Calls

variable {σ : Type} [Lined σ]

/-- Why an edit is refused: the replaced lines are inverted or not all in the table, or else the
text does not have the lines that the edit leads to. -/
inductive Refused (t : ModeTable) (source : σ) (e : Edit) : EditError → Prop
  | outOfRange (hrange : e.stop < e.start ∨ t.lineCount < e.stop) :
      Refused t source e (.outOfRange e.start e.stop t.lineCount)
  | countMismatch (hrange : e.start ≤ e.stop ∧ e.stop ≤ t.lineCount)
      (hcount : t.lineCount - (e.stop - e.start) + e.count ≠ Lined.count source) :
      Refused t source e (.countMismatch
        (Offset.cap (t.lineCount - (e.stop - e.start) + e.count)) (Lined.count source))

/-- What a table holds of a text: an entry for each line and one more, none of them pending, the
first with nothing open, and after each of the given lines the mode that it leaves. -/
structure Covers (t : ModeTable) (source : σ) (lines : LineRange) : Prop where
  length : t.entries.length = Lined.count source + 1
  known : none ∉ t.entries
  first : t.entries[0]? = some (some .normal)
  scanned : ∀ j ∈ lines, ∃ line mode, Lined.line? source j = some line ∧
    t.entries[j]? = some (some mode) ∧ t.entries[j + 1]? = some (some (mode.exit line))

/-- What every call leaves of the table, whatever the text: known entries, of which the first has
nothing open. -/
structure Whole (t : ModeTable) : Prop where
  known : none ∉ t.entries
  first : t.entries[0]? = some (some .normal)

lemma Covers.whole {t : ModeTable} {source : σ} {lines : LineRange} (h : t.Covers source lines) :
    t.Whole :=
  ⟨h.known, h.first⟩

lemma Whole.length_pos {t : ModeTable} (h : t.Whole) : 0 < t.entries.length :=
  (List.getElem?_eq_some_iff.mp h.first).1

lemma Whole.length_eq {t : ModeTable} (h : t.Whole) : t.entries.length = t.lineCount + 1 := by
  have hpos := h.length_pos
  rw [lineCount]
  omega

lemma Whole.exists_mode {t : ModeTable} (h : t.Whole) {i : Nat} (hi : i < t.entries.length) :
    ∃ mode, t.entries[i]? = some (some mode) := by
  cases hentry : t.entries[i] with
  | none => exact absurd (hentry ▸ List.getElem_mem hi) h.known
  | some mode => exact ⟨mode, by rw [List.getElem?_eq_getElem hi, hentry]⟩

lemma lines_rescan (t : ModeTable) (source : σ) :
    (t.rescan source).2.lines = ⟨0, Lined.count source⟩ := by
  have hscanned := scanned_pending .normal (Lined.lines source) [] []
  simp only [List.append_nil] at hscanned
  rw [rescan, settleFrom_eq rfl, Notice.lines_ofLines]
  simp only [List.drop_zero, Nat.zero_add, List.drop_succ_cons]
  rw [Lined.count, hscanned]
  rfl

lemma covers_rescan (t : ModeTable) (source : σ) :
    (t.rescan source).1.Covers source ⟨0, Lined.count source⟩ := by
  obtain ⟨hlength, hknown, hfirst, hnext⟩ := trail_normal_spec source
  rw [← entries_rescan t source] at hlength hknown hfirst hnext
  refine ⟨hlength, hknown, hfirst, fun j hj => ?_⟩
  obtain ⟨line, hline⟩ : ∃ line, Lined.line? source j = some line :=
    ⟨_, List.getElem?_eq_getElem hj.2⟩
  obtain ⟨mode, hentry, hexit⟩ := hnext j line hline
  exact ⟨line, mode, hline, hentry, hexit⟩

variable {t : ModeTable} {source : σ} {e : Edit}

lemma follow_of_fits (hfits : e.fits t.lineCount = true)
    (hcount : t.lineCount - e.removed + e.count = Lined.count source) :
    t.follow source e =
      .ok (⟨(settleFrom (refit t.entries e) (Lined.lines source) e.start).1, t.snapshot.next⟩,
        Notice.ofLines source
          ⟨e.start, (settleFrom (refit t.entries e) (Lined.lines source) e.start).2⟩) := by
  simp only [follow, hfits, hcount, Bool.not_true, Bool.false_eq_true, if_false, ne_eq,
    not_true_eq_false]

lemma fits_eq_false (h : e.stop < e.start ∨ t.lineCount < e.stop) : e.fits t.lineCount = false := by
  rw [Bool.eq_false_iff, ne_eq, Edit.fits_iff]
  omega

lemma follow_of_refused {reason : EditError} (h : t.Refused source e reason) :
    t.follow source e = .error reason := by
  cases h with
  | outOfRange hrange => simp only [follow, fits_eq_false hrange, Bool.not_false, if_true]
  | countMismatch hrange hcount =>
      have hfits : e.fits t.lineCount = true := Edit.fits_iff.mpr hrange
      simp only [follow, Edit.removed, hfits, Bool.not_true, Bool.false_eq_true, if_false, ne_eq,
        hcount, not_false_eq_true, if_true]

/-- An edit is refused for one of the two reasons, or it fits the table and the text. -/
lemma refused_or_fits (t : ModeTable) (source : σ) (e : Edit) :
    (∃ reason, t.Refused source e reason) ∨
      (e.fits t.lineCount = true ∧ t.lineCount - e.removed + e.count = Lined.count source) := by
  by_cases hrange : e.start ≤ e.stop ∧ e.stop ≤ t.lineCount
  · by_cases hcount : t.lineCount - (e.stop - e.start) + e.count = Lined.count source
    · exact .inr ⟨Edit.fits_iff.mpr hrange, hcount⟩
    · exact .inl ⟨_, .countMismatch hrange hcount⟩
  · exact .inl ⟨_, .outOfRange (by omega)⟩

lemma follow_error_iff {reason : EditError} :
    t.follow source e = .error reason ↔ t.Refused source e reason := by
  refine ⟨fun h => ?_, follow_of_refused⟩
  rcases refused_or_fits t source e with ⟨reason', hrefused⟩ | ⟨hfits, hcount⟩
  · obtain rfl := Except.error.inj ((follow_of_refused hrefused).symm.trans h)
    exact hrefused
  · exact nomatch (follow_of_fits hfits hcount).symm.trans h

section Fits

variable (ht : t.Whole) (hfits : e.fits t.lineCount = true)
include ht hfits

private lemma stop_lt_length : e.stop < t.entries.length := by
  rw [ht.length_eq]
  exact Nat.lt_succ_of_le (Edit.fits_iff.mp hfits).2

private lemma start_lt_length : e.start < t.entries.length :=
  Nat.lt_of_le_of_lt (Edit.fits_iff.mp hfits).1 (stop_lt_length ht hfits)

/-- The mode that the scan starts from is known. -/
private lemma exists_refit_start : ∃ mode, (refit t.entries e)[e.start]? = some (some mode) := by
  have hlt := start_lt_length ht hfits
  rw [← List.getElem?_take_of_lt (Nat.lt_succ_self e.start), take_refit hlt,
    List.getElem?_take_of_lt (Nat.lt_succ_self e.start)]
  exact ht.exists_mode hlt

lemma take_settleFrom_refit (lines : List String) :
    (settleFrom (refit t.entries e) lines e.start).1.take (e.start + 1) =
      t.entries.take (e.start + 1) := by
  obtain ⟨mode, hmode⟩ := exists_refit_start ht hfits
  rw [take_settleFrom (List.getElem?_eq_some_iff.mp hmode).1,
    take_refit (start_lt_length ht hfits)]

variable (hcount : t.lineCount - e.removed + e.count = Lined.count source)
include hcount

private lemma length_lines_of_fits :
    (Lined.lines source).length + 1 = t.entries.length - e.removed + e.count := by
  obtain ⟨hstart, hstop⟩ := Edit.fits_iff.mp hfits
  rw [Lined.count, Edit.removed] at hcount
  rw [ht.length_eq, Edit.removed]
  omega

lemma covers_settleFrom (snapshot : Snapshot) :
    Covers ⟨(settleFrom (refit t.entries e) (Lined.lines source) e.start).1, snapshot⟩ source
      ⟨e.start, (settleFrom (refit t.entries e) (Lined.lines source) e.start).2⟩ := by
  have hstart := (Edit.fits_iff.mp hfits).1
  have hstop := stop_lt_length ht hfits
  have hlines := length_lines_of_fits ht hfits hcount
  obtain ⟨mode, hmode⟩ := exists_refit_start ht hfits
  have htake := take_settleFrom_refit ht hfits (Lined.lines source)
  refine ⟨?_, ?_, ?_, fun j hj => getElem?_settleFrom hmode hj.1 hj.2⟩
  · rw [length_settleFrom, length_refit hstart hstop, ← hlines, Lined.count]
  · rw [← List.take_append_drop (e.start + 1) (settleFrom _ _ _).1, htake, drop_settleFrom hmode,
      List.mem_append, not_or]
    exact ⟨mt List.mem_of_mem_take ht.known,
      none_notMem_settle_refit hstart hstop hlines ht.known mode⟩
  · rw [← List.getElem?_take_of_lt (Nat.succ_pos e.start), htake,
      List.getElem?_take_of_lt (Nat.succ_pos e.start), ht.first]

/-- The scan reads all new lines, and no more than there are. -/
lemma settleFrom_bounds :
    e.start + e.count ≤ (settleFrom (refit t.entries e) (Lined.lines source) e.start).2 ∧
      (settleFrom (refit t.entries e) (Lined.lines source) e.start).2 ≤ Lined.count source := by
  have hstart := (Edit.fits_iff.mp hfits).1
  have hstop := stop_lt_length ht hfits
  have hlines := length_lines_of_fits ht hfits hcount
  obtain ⟨mode, hmode⟩ := exists_refit_start ht hfits
  rw [settleFrom_eq hmode]
  refine ⟨Nat.add_le_add_left (count_le_scanned_refit hstart hstop hlines mode) e.start, ?_⟩
  have hle := scanned_le mode ((Lined.lines source).drop e.start)
    ((refit t.entries e).drop (e.start + 1))
  rw [List.length_drop] at hle
  rw [Edit.removed] at hlines
  simp only [Lined.count]
  omega

end Fits

/-- What a table that follows an edit of any text holds, if its entries were known: those up to the
first replaced line are as before, and the scan reads all new lines. -/
lemma covers_follow (ht : t.Whole) {t' : ModeTable} {notice : Notice}
    (h : t.follow source e = .ok (t', notice)) :
    t'.Covers source notice.lines ∧
      t'.entries.take (e.start + 1) = t.entries.take (e.start + 1) ∧
      notice.lines.start = e.start ∧ e.start + e.count ≤ notice.lines.stop ∧
      notice.lines.stop ≤ Lined.count source := by
  rcases refused_or_fits t source e with ⟨reason, hrefused⟩ | ⟨hfits, hcount⟩
  · exact nomatch (follow_of_refused hrefused).symm.trans h
  · rw [follow_of_fits hfits hcount] at h
    obtain ⟨rfl, rfl⟩ := Prod.mk.inj (Except.ok.inj h)
    rw [Notice.lines_ofLines]
    exact ⟨covers_settleFrom ht hfits hcount _, take_settleFrom_refit ht hfits _, rfl,
      settleFrom_bounds ht hfits hcount⟩

end Calls

/-! ## Entry by entry -/

/-- A program on a table.  It stops, with nothing to show, where it reaches past the entries. -/
abbrev Upkeep := StateT ModeTable Option

namespace Upkeep

/-- Reads an entry, which must be there. -/
def entryAt (i : Nat) : Upkeep (Option Mode) := do
  let t ← get
  liftM t.entries[i]?

/-- Writes an entry, which must be there. -/
def setEntry (i : Nat) (mode : Mode) : Upkeep Unit := do
  let t ← get
  if i < t.entries.length then set { t with entries := t.entries.set i (some mode) } else failure

/-- Puts entries in the place of those from `start` up to `stop`, which must be there. -/
def replaceEntries (start stop : Nat) (new : List (Option Mode)) : Upkeep Unit := do
  let t ← get
  if start ≤ stop ∧ stop ≤ t.entries.length then
    set { t with entries := t.entries.take start ++ new ++ t.entries.drop stop }
  else failure

/-- The number of lines: there must be an entry to take off. -/
def countLines : Upkeep Nat := do
  let t ← get
  if t.entries.length = 0 then failure else return t.entries.length - 1

/-- Makes the next snapshot the current one. -/
def stamp : Upkeep Unit := modify fun t => { t with snapshot := t.snapshot.next }

/-- Makes room for the new lines of an edit.  An insertion leaves the displaced line its entry. -/
def makeRoom (e : Edit) : Upkeep Unit :=
  if e.count = 0 then replaceEntries (e.start + 1) (e.stop + 1) []
  else if e.start = e.stop then do
    let recorded ← entryAt e.start
    replaceEntries (e.start + 1) (e.start + 1) (List.replicate (e.count - 1) none ++ [recorded])
  else replaceEntries (e.start + 1) e.stop (List.replicate (e.count - 1) none)

/-- Scans lines, of which the first has the given number and begins in the given mode, until one
leaves the mode on record after it.  Gives the number of the line after the last one scanned. -/
def scan (mode : Mode) (line : Nat) : List String → Upkeep Nat
  | [] => pure line
  | text :: later => do
    let recorded ← entryAt (line + 1)
    if recorded = some (mode.exit text) then return line + 1
    else
      setEntry (line + 1) (mode.exit text)
      scan (mode.exit text) (line + 1) later

section

variable {σ : Type} [Lined σ]

/-- Scans the text from a line on. -/
def scanFrom (source : σ) (start : Nat) : Upkeep Nat := do
  let t ← get
  scan ((t.entry? start).getD .normal) start ((Lined.lines source).drop start)

/-- Forgets every entry and scans the whole text. -/
def rescan (source : σ) : Upkeep Notice := do
  modify fun t => { t with entries := List.replicate (Lined.count source + 1) none }
  setEntry 0 .normal
  stamp
  let stop ← scanFrom source 0
  return Notice.ofLines source ⟨0, stop⟩

/-- Follows an edit of the text, or refuses it. -/
def follow (source : σ) (e : Edit) : Upkeep (Except EditError Notice) := do
  let lineCount ← countLines
  if !e.fits lineCount then return .error (.outOfRange e.start e.stop lineCount)
  else
    let expected := lineCount - e.removed + e.count
    if expected ≠ Lined.count source then
      return .error (.countMismatch (Offset.cap expected) (Lined.count source))
    else
      makeRoom e
      stamp
      let stop ← if e.start < Lined.count source then scanFrom source e.start else pure e.start
      return .ok (Notice.ofLines source ⟨e.start, stop⟩)

end

/-! ### What the programs do -/

lemma run_entryAt {t : ModeTable} {i : Nat} {entry : Option Mode} (h : t.entries[i]? = some entry) :
    (entryAt i).run t = some (entry, t) := by
  simp [entryAt, h]

lemma run_setEntry {t : ModeTable} {i : Nat} (h : i < t.entries.length) (mode : Mode) :
    (setEntry i mode).run t = some ((), { t with entries := t.entries.set i (some mode) }) := by
  simp [setEntry, h]

lemma run_replaceEntries {t : ModeTable} {start stop : Nat} (hstart : start ≤ stop)
    (hstop : stop ≤ t.entries.length) (new : List (Option Mode)) :
    (replaceEntries start stop new).run t =
      some ((), { t with entries := t.entries.take start ++ new ++ t.entries.drop stop }) := by
  simp [replaceEntries, hstart, hstop]

lemma run_countLines {t : ModeTable} (h : 0 < t.entries.length) :
    countLines.run t = some (t.lineCount, t) := by
  have hne : t.entries ≠ [] := List.ne_nil_of_length_pos h
  simp [countLines, hne, lineCount]

lemma run_get (t : ModeTable) : (get : Upkeep ModeTable).run t = some (t, t) := rfl

lemma run_modify (f : ModeTable → ModeTable) (t : ModeTable) :
    (modify f : Upkeep Unit).run t = some ((), f t) := rfl

lemma run_bind_of_some {α β : Type} {m : Upkeep α} {t t' : ModeTable} {a : α}
    (h : m.run t = some (a, t')) (f : α → Upkeep β) : (m >>= f).run t = (f a).run t' := by
  rw [StateT.run_bind, h]
  rfl

lemma run_makeRoom {t : ModeTable} {e : Edit} (hstart : e.start ≤ e.stop)
    (hstop : e.stop < t.entries.length) :
    (makeRoom e).run t = some ((), { t with entries := refit t.entries e }) := by
  cases hcount : e.count with
  | zero =>
      rw [makeRoom, if_pos hcount, run_replaceEntries (by omega) hstop, List.append_nil]
      simp only [refit, hcount]
  | succ new =>
      rw [makeRoom, if_neg (by omega)]
      by_cases heq : e.start = e.stop
      · have hlt : e.start < t.entries.length := heq ▸ hstop
        rw [if_pos heq, run_bind_of_some (run_entryAt (List.getElem?_eq_getElem hlt)),
          run_replaceEntries (Nat.le_refl _) hlt]
        simp only [refit, hcount, Nat.add_sub_cancel, List.append_assoc, List.singleton_append,
          ← List.drop_eq_getElem_cons hlt, ← heq]
      · rw [if_neg heq, run_replaceEntries (by omega) (by omega)]
        simp only [refit, hcount, Nat.add_sub_cancel]

/-- **A scan stays among the entries**, as long as there is one after each line, and does what
settling does. -/
lemma run_scan (mode : Mode) {t : ModeTable} {line : Nat} {lines : List String}
    (h : line + lines.length < t.entries.length) :
    (scan mode line lines).run t =
      some (line + (settle mode lines (t.entries.drop (line + 1))).2,
        { t with entries :=
          t.entries.take (line + 1) ++ (settle mode lines (t.entries.drop (line + 1))).1 }) := by
  induction lines generalizing mode line t with
  | nil =>
      rw [scan, settle]
      · simp
      · simp
  | cons text later ih =>
      rw [List.length_cons] at h
      have hlt : line + 1 < t.entries.length := by omega
      rw [scan, run_bind_of_some (run_entryAt (List.getElem?_eq_getElem hlt)),
        List.drop_eq_getElem_cons hlt, settle]
      by_cases hstop : t.entries[line + 1] = some (mode.exit text)
      · rw [if_pos hstop, if_pos hstop, ← List.drop_eq_getElem_cons hlt, List.take_append_drop]
        rfl
      · have hdrop : (t.entries.set (line + 1) (some (mode.exit text))).drop (line + 1 + 1) =
            t.entries.drop (line + 1 + 1) := List.drop_set_of_lt (Nat.lt_succ_self _)
        have htake : (t.entries.set (line + 1) (some (mode.exit text))).take (line + 1 + 1) =
            t.entries.take (line + 1) ++ [some (mode.exit text)] := by
          rw [List.take_succ_eq_append_getElem (by rwa [List.length_set]), List.getElem_set_self,
            List.take_set_of_le (Nat.le_refl _)]
        rw [if_neg hstop, if_neg hstop, run_bind_of_some (run_setEntry hlt _), ih]
        · simp only [hdrop, htake, List.append_assoc, List.singleton_append]
          congr 2
          omega
        · rw [List.length_set]
          omega

section

variable {σ : Type} [Lined σ] {source : σ}

lemma run_scanFrom {t : ModeTable} {start : Nat} (hstart : start ≤ Lined.count source)
    (h : Lined.count source < t.entries.length) :
    (scanFrom source start).run t =
      some ((settleFrom t.entries (Lined.lines source) start).2,
        { t with entries := (settleFrom t.entries (Lined.lines source) start).1 }) := by
  have hlt : start + ((Lined.lines source).drop start).length < t.entries.length := by
    rw [Lined.count] at hstart h
    rw [List.length_drop]
    omega
  rw [scanFrom, run_bind_of_some (run_get t), run_scan _ hlt]
  rfl

lemma run_rescan (t : ModeTable) (source : σ) :
    (rescan source).run t = some ((t.rescan source).2, (t.rescan source).1) := by
  have hset : (List.replicate (Lined.count source + 1) none).set 0 (some Mode.normal) =
      some .normal :: List.replicate (Lined.count source) none := rfl
  rw [rescan, run_bind_of_some (run_modify _ t), run_bind_of_some (run_setEntry (by simp) _), hset,
    stamp, run_bind_of_some (run_modify _ _),
    run_bind_of_some (run_scanFrom (Nat.zero_le _) (by simp))]
  rfl

/-- **A table in place follows an edit as the table does**, without reaching past its entries; an
edit that is refused leaves it as it was. -/
lemma run_follow {t : ModeTable} (h : 0 < t.entries.length) (source : σ) (e : Edit) :
    (follow source e).run t = some ((t.follow source e).map Prod.snd, t.told source e) := by
  rw [follow, run_bind_of_some (run_countLines h)]
  rcases refused_or_fits t source e with ⟨reason, hrefused⟩ | ⟨hfits, hcount⟩
  · rw [told_of_error (follow_of_refused hrefused), follow_of_refused hrefused]
    cases hrefused with
    | outOfRange hrange =>
        simp only [fits_eq_false hrange, Bool.not_false, if_true]
        rfl
    | countMismatch hrange hcount =>
        have hfits : e.fits t.lineCount = true := Edit.fits_iff.mpr hrange
        simp only [Edit.removed, hfits, Bool.not_true, Bool.false_eq_true, if_false, ne_eq, hcount,
          not_false_eq_true, if_true]
        rfl
  · obtain ⟨hstart, hstop⟩ := Edit.fits_iff.mp hfits
    rw [told, follow_of_fits hfits hcount]
    simp only [hfits, hcount, Bool.not_true, Bool.false_eq_true, if_false, ne_eq,
      not_true_eq_false]
    have hlength : t.entries.length = t.lineCount + 1 := by
      rw [lineCount]
      omega
    have hfit : Lined.count source < (refit t.entries e).length := by
      rw [length_refit hstart (by omega), ← hcount, Edit.removed]
      omega
    rw [run_bind_of_some (run_makeRoom hstart (by omega)), stamp,
      run_bind_of_some (run_modify _ _)]
    by_cases hlines : e.start < Lined.count source
    · rw [if_pos hlines, run_bind_of_some (run_scanFrom (Nat.le_of_lt hlines) hfit)]
      rfl
    · rw [if_neg hlines, settleFrom_of_le (Nat.le_of_not_lt hlines)]
      rfl

end

end Upkeep

/-! ## Any run of calls -/

/-- A call of a host on its table.  The text it shows may be any text, held in any way, and the
edit any edit. -/
inductive HostCall : Type 1
  | fresh {σ : Type} [Lined σ] (source : σ)
  | rescan {σ : Type} [Lined σ] (source : σ)
  | follow {σ : Type} [Lined σ] (source : σ) (e : Edit)

/-- The table after a call. -/
def afterCall (t : ModeTable) : HostCall → ModeTable
  | @HostCall.fresh _ _ source => ofSource source
  | @HostCall.rescan _ _ source => (t.rescan source).1
  | @HostCall.follow _ _ source e => t.told source e

namespace Upkeep

/-- A call on a table in place.  A fresh table has no entry to begin with. -/
def serve : HostCall → Upkeep Unit
  | @HostCall.fresh _ _ source => do
    set (⟨[], .zero⟩ : ModeTable)
    let _ ← rescan source
  | @HostCall.rescan _ _ source => do
    let _ ← rescan source
  | @HostCall.follow _ _ source e => do
    let _ ← follow source e

/-- Calls in a row on a table in place. -/
def serveAll : List HostCall → Upkeep Unit
  | [] => pure ()
  | call :: calls => do
    serve call
    serveAll calls

lemma run_serve_fresh {σ : Type} [Lined σ] (t : ModeTable) (source : σ) :
    (serve (.fresh source)).run t = some ((), ofSource source) := by
  have hset : (set (⟨[], .zero⟩ : ModeTable) : Upkeep Unit).run t = some ((), ⟨[], .zero⟩) := rfl
  rw [serve, run_bind_of_some hset, run_bind_of_some (run_rescan _ source)]
  rfl

lemma run_serve {t : ModeTable} (ht : t.Whole) (call : HostCall) :
    (serve call).run t = some ((), t.afterCall call) := by
  cases call with
  | fresh source => exact run_serve_fresh t source
  | rescan source =>
      rw [serve, run_bind_of_some (run_rescan t source)]
      rfl
  | follow source e =>
      rw [serve, run_bind_of_some (run_follow ht.length_pos source e)]
      rfl

end Upkeep

lemma Whole.afterCall {t : ModeTable} (ht : t.Whole) (call : HostCall) :
    (t.afterCall call).Whole := by
  cases call with
  | fresh source => exact (covers_rescan _ source).whole
  | rescan source => exact (covers_rescan t source).whole
  | follow source e =>
      cases hfollow : t.follow source e with
      | error reason =>
          rw [ModeTable.afterCall, told_of_error hfollow]
          exact ht
      | ok result =>
          rw [ModeTable.afterCall, told, hfollow]
          exact (covers_follow ht hfollow).1.whole

/-- Calls in a row never reach past the entries, and leave known entries. -/
lemma run_serveAll {t : ModeTable} (ht : t.Whole) (calls : List HostCall) :
    (Upkeep.serveAll calls).run t = some ((), calls.foldl afterCall t) ∧
      (calls.foldl afterCall t).Whole := by
  induction calls generalizing t with
  | nil => exact ⟨rfl, ht⟩
  | cons call calls ih =>
      rw [Upkeep.serveAll, Upkeep.run_bind_of_some (Upkeep.run_serve ht call)]
      exact ih (ht.afterCall call)

/-- **A table survives any host.**  After a fresh table was made and any calls in a row, each on
any text and with any edit, no call has reached past the entries, and no next call does.  The next
edit is refused exactly when its lines are inverted or not in the table, or else when the text has
another number of lines than it leads to; then the table is as before.  A call that is taken leaves
one entry more than the text has lines, none pending and the first with nothing open, and after
every line it reports the mode that this line leaves; an edit leaves the entries up to its first
line alone. -/
theorem covers_any_text_shown {σ₀ : Type} [Lined σ₀] (first : σ₀) (calls : List HostCall) :
    let t := calls.foldl afterCall (ofSource first)
    (Upkeep.serveAll (.fresh first :: calls)).run ⟨[], .zero⟩ = some ((), t) ∧
    ∀ {σ : Type} [Lined σ] (source : σ),
      (Upkeep.serve (.fresh source)).run t = some ((), ofSource source) ∧
      (ofSource source).Covers source ⟨0, Lined.count source⟩ ∧
      (Upkeep.rescan source).run t = some ((t.rescan source).2, (t.rescan source).1) ∧
      (t.rescan source).1.Covers source (t.rescan source).2.lines ∧
      (t.rescan source).2.lines = ⟨0, Lined.count source⟩ ∧
      ∀ e : Edit,
        (∀ reason, t.follow source e = .error reason ↔ t.Refused source e reason) ∧
        (∀ reason, t.follow source e = .error reason →
          (Upkeep.follow source e).run t = some (.error reason, t)) ∧
        (∀ t' notice, t.follow source e = .ok (t', notice) →
          (Upkeep.follow source e).run t = some (.ok notice, t') ∧
          t'.Covers source notice.lines ∧
          t'.entries.take (e.start + 1) = t.entries.take (e.start + 1) ∧
          notice.lines.start = e.start ∧ e.start + e.count ≤ notice.lines.stop ∧
          notice.lines.stop ≤ Lined.count source) := by
  intro t
  have hfirst : (ofSource first).Whole := (covers_rescan _ first).whole
  obtain ⟨hrun, ht⟩ := run_serveAll hfirst calls
  refine ⟨?_, fun source => ⟨Upkeep.run_serve_fresh t source, covers_rescan _ source,
    Upkeep.run_rescan t source, ?_, lines_rescan t source, fun e => ⟨?_, ?_, ?_⟩⟩⟩
  · rw [Upkeep.serveAll, Upkeep.run_bind_of_some (Upkeep.run_serve_fresh _ first), hrun]
  · rw [lines_rescan]
    exact covers_rescan t source
  · exact fun reason => follow_error_iff
  · intro reason herror
    rw [Upkeep.run_follow ht.length_pos, told_of_error herror, herror]
    rfl
  · intro t' notice hok
    refine ⟨?_, covers_follow ht hok⟩
    rw [Upkeep.run_follow ht.length_pos, told, hok]
    rfl

/-- The host inserts a line, and shows a text with a comment opened above it.  Its table is not
that of the text, and then it shows a third text: an edit past the table is refused, and one that
fits is followed. -/
theorem covers_any_text_shown_after_wrong_one :
    let first := ["a", "b"]
    let wrong := Buffer.ofText "/*\nx\ny"
    let shown := ["/*", "p", "/*", "q"]
    let t := [HostCall.follow wrong ⟨1, 1, 1⟩].foldl afterCall (ofSource first)
    t.entries ≠ (ofSource wrong).entries ∧
    (Upkeep.serveAll [.fresh first, .follow wrong ⟨1, 1, 1⟩]).run ⟨[], .zero⟩ = some ((), t) ∧
    (Upkeep.follow shown ⟨2, 4, 9⟩).run t = some (.error (.outOfRange 2 4 3), t) ∧
    ∃ t' notice, (Upkeep.follow shown ⟨1, 2, 2⟩).run t = some (.ok notice, t') ∧
      t'.Covers shown notice.lines ∧ t'.entries.take 2 = t.entries.take 2 ∧
      notice.lines.start = 1 ∧ 1 + 2 ≤ notice.lines.stop ∧ notice.lines.stop ≤ 4 := by
  intro first wrong shown t
  obtain ⟨hrun, hnext⟩ := covers_any_text_shown first [.follow wrong ⟨1, 1, 1⟩]
  obtain ⟨-, -, -, -, -, hedit⟩ := hnext shown
  have hcount : t.lineCount = 3 := by decide +kernel
  have hrefused : t.follow shown ⟨2, 4, 9⟩ = .error (.outOfRange 2 4 3) := by
    rw [follow_error_iff, ← hcount]
    exact .outOfRange (.inr (by rw [hcount]; decide))
  have hok : t.follow shown ⟨1, 2, 2⟩ = .ok _ :=
    follow_of_fits (by decide +kernel) (by decide +kernel)
  exact ⟨by decide +kernel, hrun, (hedit ⟨2, 4, 9⟩).2.1 _ hrefused, _, _,
    (hedit ⟨1, 2, 2⟩).2.2 _ _ hok⟩

end ModeTable
end PonyEditor
