import Mathlib.Tactic.SplitIfs
import PonyEditor.Edit

/-!
# Line numbers across edits

An edit gives every line it does not replace a number in the new text (`Edit.lineAfter?`), and so
does a row of edits, each made to what the one before left (`Edit.lineAfterAll?`).  A range of
lines that is carried along keeps exactly the lines it had (`mem_carryRange_iff`), gets all the new
lines or none (`mem_carryRange_iff_of_new`), and stays in the text (`carryRange_le`).  All this
holds for ranges and edits in any position to each other (`carryRange_exact`), as long as the lines
can be numbered: sums that pass the limit would stop there.
-/

namespace PonyEditor

instance : Membership Nat LineRange where
  mem r line := r.start ≤ line ∧ line < r.stop

lemma LineRange.mem_iff {r : LineRange} {line : Nat} :
    line ∈ r ↔ r.start ≤ line ∧ line < r.stop :=
  Iff.rfl

namespace Edit

/-- The line count after an edit that fits. -/
def countAfter (e : Edit) (lineCount : Nat) : Nat := lineCount - e.removed + e.count

/-- An edit that a text of `lineCount` lines can take: the lines it replaces are there, and those
after it can be numbered. -/
def Valid (e : Edit) (lineCount : Nat) : Prop :=
  e.start ≤ e.stop ∧ e.stop ≤ lineCount ∧ e.countAfter lineCount ≤ Offset.limit

instance (e : Edit) (lineCount : Nat) : Decidable (e.Valid lineCount) :=
  inferInstanceAs (Decidable (_ ∧ _))

/-- Edits that a text of `lineCount` lines can take one after the other. -/
def ValidAll : List Edit → Nat → Prop
  | [], _ => True
  | e :: es, lineCount => e.Valid lineCount ∧ ValidAll es (e.countAfter lineCount)

instance decidableValidAll :
    (es : List Edit) → (lineCount : Nat) → Decidable (ValidAll es lineCount)
  | [], _ => .isTrue trivial
  | e :: es, lineCount =>
    haveI := decidableValidAll es (e.countAfter lineCount)
    inferInstanceAs (Decidable (_ ∧ _))

/-- The line count after edits in a row. -/
def countAfterAll (es : List Edit) (lineCount : Nat) : Nat :=
  es.foldl (fun lineCount e => e.countAfter lineCount) lineCount

/-- The number of a line after the edit; `none` for a line that is replaced. -/
def lineAfter? (e : Edit) (line : Nat) : Option Nat :=
  if line < e.start then some line
  else if e.stop ≤ line then some (line - e.removed + e.count)
  else none

/-- An edit in order and within the text is valid exactly if there is a line count after it. -/
lemma countAfter?_eq_some_iff {e : Edit} {lineCount after : Nat} (hordered : e.start ≤ e.stop)
    (hwithin : e.stop ≤ lineCount) :
    e.countAfter? lineCount = some after ↔ e.Valid lineCount ∧ e.countAfter lineCount = after := by
  have hremoved : ¬ lineCount < e.removed := by
    rw [removed]
    omega
  rw [countAfter?, if_neg hremoved, ← countAfter]
  constructor
  · intro h
    split_ifs at h with hlimit
    exact ⟨⟨hordered, hwithin, Nat.le_of_not_lt hlimit⟩, Option.some.inj h⟩
  · rintro ⟨⟨-, -, hlimit⟩, rfl⟩
    rw [if_neg (Nat.not_lt_of_le hlimit)]

lemma lineAfter?_of_lt {e : Edit} {line : Nat} (h : line < e.start) :
    e.lineAfter? line = some line :=
  if_pos h

lemma lineAfter?_of_le {e : Edit} {line : Nat} (hordered : e.start ≤ e.stop)
    (h : e.stop ≤ line) : e.lineAfter? line = some (line - e.removed + e.count) := by
  rw [lineAfter?, if_neg (by omega), if_pos h]

/-- The number of a line after edits in a row; `none` for a line that one of them replaces. -/
def lineAfterAll? : List Edit → Nat → Option Nat
  | [], line => some line
  | e :: es, line => (e.lineAfter? line).bind (lineAfterAll? es)

/-- A range of lines after edits in a row. -/
def carryThrough (es : List Edit) (r : LineRange) : LineRange :=
  es.foldl (fun r e => e.carryRange r) r

section

variable {e : Edit} {lineCount : Nat} (hvalid : e.Valid lineCount)
include hvalid

/-- No boundary of lines in the text is brought down to the limit. -/
lemma carryBoundary_of_valid (inside : Nat) {line : Nat} (hline : line ≤ lineCount) :
    e.carryBoundary inside line =
      if line ≤ e.start then line
      else if e.stop ≤ line then line - e.removed + e.count
      else inside := by
  obtain ⟨hordered, hwithin, hlimit⟩ := hvalid
  have hle : line - e.removed + e.count ≤ Offset.limit := by
    rw [countAfter] at hlimit
    omega
  rw [carryBoundary, Offset.add_of_le hle]

lemma start_add_count_of_valid : Offset.add e.start e.count = e.start + e.count := by
  obtain ⟨hordered, hwithin, hlimit⟩ := hvalid
  rw [countAfter, removed] at hlimit
  exact Offset.add_of_le (by omega)

/-- A carried range is in order and within the text. -/
lemma carryRange_le {r : LineRange} (hstart : r.start ≤ lineCount) (hstop : r.stop ≤ lineCount) :
    (e.carryRange r).start ≤ (e.carryRange r).stop ∧
      (e.carryRange r).stop ≤ e.countAfter lineCount := by
  have hsum := start_add_count_of_valid hvalid
  simp only [carryRange, hsum, carryBoundary_of_valid hvalid _ hstart,
    carryBoundary_of_valid hvalid _ hstop]
  obtain ⟨hordered, hwithin, -⟩ := hvalid
  rw [countAfter, removed]
  refine ⟨Nat.le_max_right _ _, Nat.max_le.mpr ⟨?_, ?_⟩⟩
  · split_ifs <;> omega
  · split_ifs <;> omega

/-- **A carried range has exactly the lines it had**, of those that are not replaced. -/
lemma mem_carryRange_iff {r : LineRange} (hstart : r.start ≤ lineCount)
    (hstop : r.stop ≤ lineCount) {line line' : Nat} (hline : e.lineAfter? line = some line') :
    line' ∈ e.carryRange r ↔ line ∈ r := by
  have hsum := start_add_count_of_valid hvalid
  simp only [LineRange.mem_iff, carryRange, hsum, carryBoundary_of_valid hvalid _ hstart,
    carryBoundary_of_valid hvalid _ hstop]
  obtain ⟨hordered, -, -⟩ := hvalid
  simp only [lineAfter?, removed] at hline ⊢
  -- the line is before the edit or after it, and so is either end of the range, or among the
  -- replaced lines
  split_ifs at hline with hbefore hafter
  · obtain rfl := Option.some.inj hline
    split_ifs <;> omega
  · obtain rfl := Option.some.inj hline
    split_ifs <;> omega

/-- **The new lines are all in a carried range, or none of them is.**  They are in it exactly if the
range began before the end of the replaced lines, or no later than they do, and ended behind their
beginning. -/
lemma mem_carryRange_iff_of_new {r : LineRange} (hstart : r.start ≤ lineCount)
    (hstop : r.stop ≤ lineCount) {line : Nat} (hfirst : e.start ≤ line)
    (hlast : line < e.start + e.count) :
    line ∈ e.carryRange r ↔ (r.start ≤ e.start ∨ r.start < e.stop) ∧ e.start < r.stop := by
  have hsum := start_add_count_of_valid hvalid
  simp only [LineRange.mem_iff, carryRange, hsum, carryBoundary_of_valid hvalid _ hstart,
    carryBoundary_of_valid hvalid _ hstop]
  obtain ⟨hordered, -, -⟩ := hvalid
  rw [removed]
  split_ifs <;> omega

end

/-- **Ranges are carried exactly.**  Let an edit be in order and within the text, and let there be a
line count after it.  A range of lines of the text, in order or not, becomes one that is in order
and within the new text.  A line before the edit keeps its number, and one after it moves by what
the edit adds and removes; either is in the carried range exactly if it was in the range.  And if
the range had one of the replaced lines, it gets all the new ones. -/
theorem carryRange_exact {e : Edit} {lineCount after : Nat} (hordered : e.start ≤ e.stop)
    (hwithin : e.stop ≤ lineCount) (hafter : e.countAfter? lineCount = some after) {r : LineRange}
    (hstart : r.start ≤ lineCount) (hstop : r.stop ≤ lineCount) :
    (e.carryRange r).start ≤ (e.carryRange r).stop ∧ (e.carryRange r).stop ≤ after ∧
    (∀ line < e.start, line ∈ e.carryRange r ↔ line ∈ r) ∧
    (∀ line, e.stop ≤ line → (line - (e.stop - e.start) + e.count ∈ e.carryRange r ↔ line ∈ r)) ∧
    ((∃ line ∈ r, e.start ≤ line ∧ line < e.stop) →
      ∀ line, e.start ≤ line → line < e.start + e.count → line ∈ e.carryRange r) := by
  obtain ⟨hvalid, rfl⟩ := (countAfter?_eq_some_iff hordered hwithin).mp hafter
  obtain ⟨hin, hle⟩ := carryRange_le hvalid hstart hstop
  refine ⟨hin, hle, ?_, ?_, ?_⟩
  · intro line hline
    exact mem_carryRange_iff hvalid hstart hstop (lineAfter?_of_lt hline)
  · intro line hline
    exact mem_carryRange_iff hvalid hstart hstop (lineAfter?_of_le hordered hline)
  · rintro ⟨replaced, ⟨hfrom, hto⟩, hedit, hedit'⟩ line hfirst hlast
    apply (mem_carryRange_iff_of_new hvalid hstart hstop hfirst hlast).mpr
    exact ⟨.inr (Nat.lt_of_le_of_lt hfrom hedit'), Nat.lt_of_le_of_lt hedit hto⟩

/-- Two lines become three.  A range from the second of them on gets all three, the line behind them
moves by one, and the line in front stays out of it.  An inverted range stays without a line. -/
theorem carryRange_exact_across_end :
    countAfter? ⟨2, 4, 3⟩ 6 = some 7 ∧ carryRange ⟨2, 4, 3⟩ ⟨3, 5⟩ = ⟨2, 6⟩ ∧
    (1 ∈ carryRange ⟨2, 4, 3⟩ ⟨3, 5⟩ ↔ 1 ∈ LineRange.mk 3 5) ∧
    (5 ∈ carryRange ⟨2, 4, 3⟩ ⟨3, 5⟩ ↔ 4 ∈ LineRange.mk 3 5) ∧
    4 ∈ carryRange ⟨2, 4, 3⟩ ⟨3, 5⟩ ∧
    carryRange ⟨2, 4, 3⟩ ⟨5, 1⟩ = ⟨6, 6⟩ ∧
    (6 ∈ carryRange ⟨2, 4, 3⟩ ⟨5, 1⟩ ↔ 5 ∈ LineRange.mk 5 1) := by
  have hafter : countAfter? ⟨2, 4, 3⟩ 6 = some 7 := rfl
  obtain ⟨-, -, hbefore, hbehind, hnew⟩ :=
    carryRange_exact (by decide) (by decide) hafter (r := ⟨3, 5⟩) (by decide) (by decide)
  obtain ⟨-, -, -, hinverted, -⟩ :=
    carryRange_exact (by decide) (by decide) hafter (r := ⟨5, 1⟩) (by decide) (by decide)
  refine ⟨hafter, rfl, hbefore 1 (by decide), hbehind 4 (by decide), ?_, rfl,
    hinverted 5 (by decide)⟩
  exact hnew ⟨3, ⟨by decide, by decide⟩, by decide, by decide⟩ 4 (by decide) (by decide)

/-! ## Edits in a row -/

lemma carryThrough_le {es : List Edit} {lineCount : Nat} (hvalid : ValidAll es lineCount)
    {r : LineRange} (hr : r.start ≤ r.stop) (hstop : r.stop ≤ lineCount) :
    (carryThrough es r).start ≤ (carryThrough es r).stop ∧
      (carryThrough es r).stop ≤ countAfterAll es lineCount := by
  induction es generalizing r lineCount with
  | nil => exact ⟨hr, hstop⟩
  | cons e es ih =>
      obtain ⟨he, hes⟩ := hvalid
      obtain ⟨hordered, hwithin⟩ := carryRange_le he (Nat.le_trans hr hstop) hstop
      exact ih hes hordered hwithin

/-- A range carried through edits in a row has exactly the lines it had, of those that none of
them replaces. -/
lemma mem_carryThrough_iff {es : List Edit} {lineCount : Nat} (hvalid : ValidAll es lineCount)
    {r : LineRange} (hr : r.start ≤ r.stop) (hstop : r.stop ≤ lineCount) {line line' : Nat}
    (hline : lineAfterAll? es line = some line') :
    line' ∈ carryThrough es r ↔ line ∈ r := by
  induction es generalizing r lineCount line with
  | nil =>
      obtain rfl := Option.some.inj hline
      exact Iff.rfl
  | cons e es ih =>
      obtain ⟨he, hes⟩ := hvalid
      obtain ⟨next, hnext, hlater⟩ := Option.bind_eq_some_iff.mp hline
      obtain ⟨hordered, hwithin⟩ := carryRange_le he (Nat.le_trans hr hstop) hstop
      exact (ih hes hordered hwithin hlater).trans
        (mem_carryRange_iff he (Nat.le_trans hr hstop) hstop hnext)

end Edit
end PonyEditor
