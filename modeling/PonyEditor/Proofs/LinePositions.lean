import PonyEditor.Document
import PonyEditor.Proofs.ReadingBytes
import PonyEditor.Proofs.TokenOrder

/-!
# Lines of offsets

An offset of a text within the limit is in one line, and a place in a line is one offset.  The
lines of a text, each with the place after its last byte, divide the offsets up to the end of the
text (`exists_holds`, `Holds.eq`), so the line that halving finds is the one that holds the offset
(`lineAt?_eq_some_iff`).

The starts of the lines differ from each other.  A table of them can therefore be searched in any
way that finds an offset or the place where it belongs (`Starts.Finds`): the answer is always the
line that `Starts.lineOf?` gives (`Starts.lineOf?_of_finds`).
-/

namespace PonyEditor
namespace Text

variable {lines : List String}

/-! ## Bytes before a line -/

@[simp] lemma bytesBefore_zero (lines : List String) : bytesBefore lines 0 = 0 := rfl

lemma bytesBefore_cons_succ (line : String) (lines : List String) (i : Nat) :
    bytesBefore (line :: lines) (i + 1) = width line.toList + 1 + bytesBefore lines i := by
  have hsize : '\n'.utf8Size = 1 := rfl
  simp only [bytesBefore, List.take_succ_cons, terminated_cons, width_append, width_cons, hsize]
  omega

/-- A later line starts after the line feed that ends an earlier one. -/
lemma bytesBefore_lt {i j : Nat} (hij : i < j) (hi : i < lines.length) :
    bytesBefore lines i + width lines[i].toList < bytesBefore lines j := by
  induction lines generalizing i j with
  | nil => exact absurd hi (Nat.not_lt_zero i)
  | cons line lines ih =>
      obtain ⟨j, rfl⟩ := Nat.exists_eq_succ_of_ne_zero (Nat.ne_zero_of_lt hij)
      rw [Nat.succ_eq_add_one, bytesBefore_cons_succ]
      cases i with
      | zero => simp only [bytesBefore_zero, List.getElem_cons_zero]; omega
      | succ i =>
          have hrest := ih (Nat.lt_of_succ_lt_succ hij) (Nat.lt_of_succ_lt_succ hi)
          simp only [bytesBefore_cons_succ, List.getElem_cons_succ]
          omega

lemma width_unlines_cons (line : String) (h : lines ≠ []) :
    width (unlines (line :: lines)).toList =
      width line.toList + 1 + width (unlines lines).toList := by
  have hsize : '\n'.utf8Size = 1 := rfl
  rw [toList_unlines_cons line h, width_append, width_cons, hsize]
  omega

/-! ## The line that holds an offset -/

/-- The offset is at a byte of line `i`, or at the place after its last. -/
def Holds (lines : List String) (i offset : Nat) : Prop :=
  ∃ line, lines[i]? = some line ∧ bytesBefore lines i ≤ offset ∧
    offset ≤ bytesBefore lines i + width line.toList

lemma Holds.cons {i offset : Nat} (h : Holds lines i offset) (line : String) :
    Holds (line :: lines) (i + 1) (width line.toList + 1 + offset) := by
  obtain ⟨text, htext, hstart, hstop⟩ := h
  refine ⟨text, by simpa using htext, ?_, ?_⟩ <;> rw [bytesBefore_cons_succ] <;> omega

/-- **Every offset of a text is held by a line.** -/
lemma exists_holds (hne : lines ≠ []) {offset : Nat}
    (hoffset : offset ≤ width (unlines lines).toList) : ∃ i, Holds lines i offset := by
  induction lines generalizing offset with
  | nil => exact absurd rfl hne
  | cons line lines ih =>
      by_cases hfirst : offset ≤ width line.toList
      · exact ⟨0, line, rfl, Nat.zero_le _, by simpa using hfirst⟩
      · rcases List.eq_nil_or_concat lines with rfl | ⟨init, last, hlines⟩
        · exact absurd hoffset hfirst
        · have hrest : lines ≠ [] := by simp [hlines]
          rw [width_unlines_cons line hrest] at hoffset
          have hlater : offset - (width line.toList + 1) ≤ width (unlines lines).toList := by omega
          obtain ⟨i, hi⟩ := ih hrest hlater
          have hcons := hi.cons line
          rw [Nat.add_sub_cancel' (by omega)] at hcons
          exact ⟨i + 1, hcons⟩

lemma Holds.lt_length {i offset : Nat} (h : Holds lines i offset) : i < lines.length := by
  obtain ⟨line, hline, -⟩ := h
  exact (List.getElem?_eq_some_iff.mp hline).1

lemma Holds.lt_bytesBefore {i j offset : Nat} (h : Holds lines i offset) (hij : i < j) :
    offset < bytesBefore lines j := by
  obtain ⟨line, hline, -, hstop⟩ := h
  obtain ⟨hlt, rfl⟩ := List.getElem?_eq_some_iff.mp hline
  exact Nat.lt_of_le_of_lt hstop (bytesBefore_lt hij hlt)

lemma Holds.not_lt {i j offset : Nat} (hi : Holds lines i offset) (hj : Holds lines j offset) :
    ¬ i < j := by
  intro hij
  obtain ⟨-, -, hstart, -⟩ := hj
  exact Nat.not_lt.mpr hstart (hi.lt_bytesBefore hij)

/-- Only one line holds an offset. -/
lemma Holds.eq {i j offset : Nat} (hi : Holds lines i offset) (hj : Holds lines j offset) :
    i = j :=
  Nat.le_antisymm (Nat.not_lt.mp (hj.not_lt hi)) (Nat.not_lt.mp (hi.not_lt hj))

lemma Holds.le {i offset : Nat} (h : Holds lines i offset) :
    offset ≤ width (unlines lines).toList := by
  obtain ⟨line, hline, -, hstop⟩ := h
  obtain ⟨hlt, rfl⟩ := List.getElem?_eq_some_iff.mp hline
  exact Nat.le_trans hstop (bytesBefore_add_le hlt)

section Limit

variable (hlimit : width (unlines lines).toList ≤ Offset.limit)
include hlimit

lemma lineStart_eq {i : Nat} (hi : i < lines.length) : lineStart lines i = bytesBefore lines i :=
  Option.some.inj ((start?_of_lt hi).symm.trans (start?_eq_bytesBefore hi hlimit))

lemma lineLength_eq {i : Nat} (hi : i < lines.length) :
    lineLength lines[i] = width lines[i].toList := by
  have hle := bytesBefore_add_le hi
  exact Offset.cap_of_le (by omega)

lemma lineStop_eq {i : Nat} (hi : i < lines.length) :
    Offset.add (lineStart lines i) (lineLength lines[i]) =
      bytesBefore lines i + width lines[i].toList := by
  have hle := bytesBefore_add_le hi
  rw [lineStart_eq hlimit hi, lineLength_eq hlimit hi, Offset.add_of_le (by omega)]

/-- In a text within the limit no two lines start at one offset. -/
lemma lineStart_lt {i j : Nat} (hij : i < j) (hj : j < lines.length) :
    lineStart lines i < lineStart lines j := by
  have hi : i < lines.length := Nat.lt_trans hij hj
  have hlt := bytesBefore_lt hij hi
  rw [lineStart_eq hlimit hi, lineStart_eq hlimit hj]
  omega

lemma lineAt?_of_holds {i offset : Nat} (h : Holds lines i offset) :
    lineAt? lines offset = some i := by
  obtain ⟨line, hline, hstart, hstop⟩ := h
  obtain ⟨hi, rfl⟩ := List.getElem?_eq_some_iff.mp hline
  apply lineAt?_of_le hi
  · rwa [lineStart_eq hlimit hi]
  · rwa [lineStop_eq hlimit hi]
  · intro j hij hj
    have hafter := bytesBefore_lt hij hi
    rw [lineStart_eq hlimit hj]
    omega

omit hlimit in
lemma start?_eq_some_iff {i start : Nat} :
    start? lines i = some start ↔ i < lines.length ∧ lineStart lines i = start := by
  rw [start?, Option.ite_none_right_eq_some, Option.some.injEq]
  rfl

omit hlimit in
/-- A line that is found does not end before the offset. -/
lemma exists_of_lineAt? {i offset : Nat} (h : lineAt? lines offset = some i) :
    ∃ hi : i < lines.length, offset ≤ Offset.add (lineStart lines i) (lineLength lines[i]) := by
  simp only [lineAt?] at h
  split at h
  · cases h
  split at h
  · rename_i start hstart
    obtain ⟨hstop, hfound⟩ := Option.ite_none_right_eq_some.mp h
    obtain rfl := Option.some.inj hfound
    obtain ⟨hi, rfl⟩ := start?_eq_some_iff.mp hstart
    rw [List.getElem?_eq_getElem hi, Option.getD_some] at hstop
    exact ⟨hi, hstop⟩
  · cases h

/-- **The line found for an offset is the one that holds it.** -/
lemma lineAt?_eq_some_iff {i offset : Nat} :
    lineAt? lines offset = some i ↔ Holds lines i offset := by
  refine ⟨?_, lineAt?_of_holds hlimit⟩
  intro h
  obtain ⟨hi, hstop⟩ := exists_of_lineAt? h
  rw [lineStop_eq hlimit hi] at hstop
  have hne : lines ≠ [] := List.ne_nil_of_length_pos (Nat.zero_lt_of_lt hi)
  obtain ⟨j, hj⟩ := exists_holds hne (Nat.le_trans hstop (bytesBefore_add_le hi))
  have hij : i = j := Option.some.inj (h.symm.trans (lineAt?_of_holds hlimit hj))
  rwa [hij]

lemma lineAt?_eq_none_iff {offset : Nat} :
    lineAt? lines offset = none ↔ lines = [] ∨ width (unlines lines).toList < offset := by
  rw [Option.eq_none_iff_forall_ne_some]
  constructor
  · intro h
    by_cases hne : lines = []
    · exact .inl hne
    · refine .inr (Nat.lt_of_not_le fun hle => ?_)
      obtain ⟨i, hi⟩ := exists_holds hne hle
      exact h i (lineAt?_of_holds hlimit hi)
  · rintro hout i hsome
    have hholds := (lineAt?_eq_some_iff hlimit).mp hsome
    rcases hout with rfl | hpast
    · obtain ⟨line, hline, -, -⟩ := hholds
      cases hline
    · exact Nat.not_le.mpr hpast hholds.le

end Limit

end Text

/-! ## Searching the table of starts -/

namespace Starts

/-- What a search of the table for an offset may answer: the place of an entry that is the offset,
or the place at which the offset would be put in, before all greater entries and after all
others. -/
inductive Finds (t : Starts) (offset : Nat) : Except Nat Nat → Prop
  | entry {i : Nat} (hentry : t.get? i = some offset) : Finds t offset (.ok i)
  | gap {i : Nat} (hi : i ≤ t.size) (hbefore : ∀ j < i, ∀ start ∈ t.get? j, start < offset)
      (hafter : ∀ j ≥ i, ∀ start ∈ t.get? j, offset < start) : Finds t offset (.error i)

/-- The line for an answer: that of the entry, or that before the place to put the offset in. -/
def lineFound : Except Nat Nat → Option Nat
  | .ok i => some i
  | .error 0 => none
  | .error (i + 1) => some i

lemma get?_ofLines_of_lt {lines : List String} {i : Nat} (hi : i < lines.length) :
    (ofLines lines).get? i = some (Text.lineStart lines i) :=
  (get?_ofLines lines i).trans (Text.start?_of_lt hi)

lemma lineOf?_of_le {lines : List String} {i offset : Nat} (hi : i < lines.length)
    (hstart : Text.lineStart lines i ≤ offset)
    (hlater : ∀ j, i < j → j < lines.length → offset < Text.lineStart lines j) :
    (ofLines lines).lineOf? offset = some i := by
  have hle (j : Nat) (hj : j ≤ i) : Text.lineStart lines j ≤ offset :=
    Nat.le_trans (Text.lineStart_mono hj) hstart
  have hbisect :
      bisect (fun j => ((ofLines lines).get? j).any (· ≤ offset)) 0 lines.length = i := by
    apply bisect_eq (Nat.zero_le i) hi
    · intro j hj
      simp [get?_ofLines_of_lt (Nat.lt_of_le_of_lt hj hi), hle j hj]
    · intro j hij hj
      simp [get?_ofLines_of_lt hj, hlater j hij hj]
  have hfirst : ((ofLines lines).get? 0).any (· ≤ offset) = true := by
    simp [get?_ofLines_of_lt (Nat.zero_lt_of_lt hi), hle 0 (Nat.zero_le i)]
  rw [lineOf?, if_pos hfirst, size_ofLines, hbisect]

/-- **Every way of searching the table finds the same line.** -/
lemma lineOf?_of_finds {lines : List String}
    (hlimit : Text.width (Text.unlines lines).toList ≤ Offset.limit) {offset : Nat}
    {answer : Except Nat Nat} (h : (ofLines lines).Finds offset answer) :
    (ofLines lines).lineOf? offset = lineFound answer := by
  cases h with
  | @entry i hentry =>
      have hi : i < lines.length := by
        rw [← size_ofLines]
        exact (Array.getElem?_eq_some_iff.mp hentry).1
      obtain rfl := Option.some.inj ((get?_ofLines_of_lt hi).symm.trans hentry)
      exact lineOf?_of_le hi (Nat.le_refl _) fun j hij hj => Text.lineStart_lt hlimit hij hj
  | @gap i hi hbefore hafter =>
      rw [size_ofLines] at hi
      cases i with
      | zero =>
          -- the first line starts at zero, which no offset is before
          cases lines with
          | nil => rfl
          | cons line lines =>
              have hfirst : (ofLines (line :: lines)).get? 0 = some 0 :=
                get?_ofLines_of_lt (Nat.zero_lt_succ _)
              exact absurd (hafter 0 (Nat.le_refl 0) _ hfirst) (Nat.not_lt_zero offset)
      | succ i =>
          have hget : (ofLines lines).get? i = some (Text.lineStart lines i) :=
            get?_ofLines_of_lt hi
          refine lineOf?_of_le hi (Nat.le_of_lt (hbefore i (Nat.lt_succ_self i) _ hget)) ?_
          intro j hij hj
          exact hafter j hij _ (get?_ofLines_of_lt hj)

end Starts

/-! ## Places in lines -/

namespace Lined

variable {σ : Type} [Lined σ]

/-- Line `i` of the source holds the offset: it starts at or before it, and does not end before
it. -/
def HoldsOffset (source : σ) (i offset : Nat) : Prop :=
  ∃ start line, start? source i = some start ∧ line? source i = some line ∧
    start ≤ offset ∧ offset ≤ start + line.utf8ByteSize

lemma holdsOffset_iff {lines : List String}
    (hlimit : Text.width (Text.unlines lines).toList ≤ Offset.limit) {i offset : Nat} :
    HoldsOffset lines i offset ↔ Text.Holds lines i offset := by
  constructor
  · rintro ⟨start, line, hstart, hline, hbounds⟩
    obtain ⟨hi, -⟩ := List.getElem?_eq_some_iff.mp hline
    obtain rfl := Option.some.inj ((Text.start?_eq_bytesBefore hi hlimit).symm.trans hstart)
    rw [Text.utf8ByteSize_eq] at hbounds
    exact ⟨line, hline, hbounds⟩
  · rintro ⟨line, hline, hbounds⟩
    obtain ⟨hi, -⟩ := List.getElem?_eq_some_iff.mp hline
    rw [← Text.utf8ByteSize_eq] at hbounds
    exact ⟨_, line, Text.start?_eq_bytesBefore hi hlimit, hline, hbounds⟩

end Lined

/-- A list of lines answers as itself. -/
lemma Lined.exact_list (lines : List String) : Lined.Exact lines := ⟨fun _ => rfl, fun _ => rfl⟩

namespace View

variable {σ : Type} [Lined σ]

/-- Columns and offsets are in bijection.  The offset of a column is in the line of the column, as
many bytes after its start as the column says or the line has; and each offset is that of the
column it is at. -/
structure PlacesOffsets (v : View σ) : Prop where
  offsetAt? : ∀ i line column, v.line? i = some line →
    ∃ start offset, v.start? i = some start ∧ v.offsetAt? i column = some offset ∧
      v.lineAt? offset = some i ∧ start ≤ offset ∧ offset - start = min column line.utf8ByteSize
  lineAt? : ∀ offset i, v.lineAt? offset = some i →
    ∃ start, v.start? i = some start ∧ start ≤ offset ∧
      v.offsetAt? i (offset - start) = some offset

variable {v : View σ} (hv : Lined.Exact v.source)
  (hlimit : Text.width (Text.unlines (Lined.lines v.source)).toList ≤ Offset.limit)
include hv hlimit

lemma start?_eq {i : Nat} (hi : i < (Lined.lines v.source).length) :
    v.start? i = some (Text.bytesBefore (Lined.lines v.source) i) :=
  (hv.start? i).trans (Text.start?_eq_bytesBefore hi hlimit)

lemma lineAt?_eq_some_iff {i offset : Nat} :
    v.lineAt? offset = some i ↔ Text.Holds (Lined.lines v.source) i offset := by
  rw [lineAt?, hv.lineAt? offset]
  exact Text.lineAt?_eq_some_iff hlimit

lemma offsetAt?_eq {i : Nat} (hi : i < (Lined.lines v.source).length) (column : Nat) :
    v.offsetAt? i column = some (Text.bytesBefore (Lined.lines v.source) i +
      min column (Text.width (Lined.lines v.source)[i].toList)) := by
  have hle := Text.bytesBefore_add_le hi
  have hline : v.line? i = some (Lined.lines v.source)[i] := List.getElem?_eq_getElem hi
  simp only [offsetAt?, hline, start?_eq hv hlimit hi, Option.bind_eq_bind, Option.bind_some,
    Option.pure_def, Text.lineLength_eq hlimit hi, Option.some.injEq]
  exact Offset.add_of_le (by omega)

/-- **A view of a text within the limit places its offsets.** -/
lemma placesOffsets : v.PlacesOffsets where
  offsetAt? := by
    intro i line column hline
    obtain ⟨hi, rfl⟩ := List.getElem?_eq_some_iff.mp hline
    refine ⟨_, _, start?_eq hv hlimit hi, offsetAt?_eq hv hlimit hi column, ?_,
      Nat.le_add_right _ _, ?_⟩
    · exact (lineAt?_eq_some_iff hv hlimit).mpr ⟨_, hline, Nat.le_add_right _ _,
        Nat.add_le_add_left (Nat.min_le_right _ _) _⟩
    · rw [Nat.add_sub_cancel_left, Text.utf8ByteSize_eq]
  lineAt? := by
    intro offset i hfound
    obtain ⟨line, hline, hstart, hstop⟩ := (lineAt?_eq_some_iff hv hlimit).mp hfound
    obtain ⟨hi, rfl⟩ := List.getElem?_eq_some_iff.mp hline
    refine ⟨_, start?_eq hv hlimit hi, hstart, ?_⟩
    rw [offsetAt?_eq hv hlimit hi, Nat.min_eq_left (by omega), Nat.add_sub_cancel' hstart]

end View

namespace Document

/-- **Offsets and places in lines are in bijection.**  For lines whose text is within the limit, a
list of them and a buffer find the same line for every offset: the only one that starts at or
before it and does not end before it.  None is found exactly where there is no line, or the offset
is past the text.  Searching the table of starts in another way finds the same line.  Columns of
the list, and those of a document of the lines, are in bijection with the offsets. -/
theorem lineAt?_bijective (lines : List String)
    (hlimit : (Text.unlines lines).utf8ByteSize < Offset.limit) :
    (∀ offset, Lined.lineAt? lines offset = Lined.lineAt? (Buffer.ofLines lines) offset) ∧
    (∀ offset i, Lined.lineAt? lines offset = some i ↔ Lined.HoldsOffset lines i offset) ∧
    (∀ offset i j, Lined.HoldsOffset lines i offset → Lined.HoldsOffset lines j offset → i = j) ∧
    (∀ offset, Lined.lineAt? lines offset = none ↔
      lines = [] ∨ (Text.unlines lines).utf8ByteSize < offset) ∧
    (∀ offset answer, (Starts.ofLines lines).Finds offset answer →
      (Starts.ofLines lines).lineOf? offset = Starts.lineFound answer) ∧
    (∀ table, (⟨table, lines⟩ : View (List String)).PlacesOffsets) ∧
    (∀ d : Document, d.buffer = Buffer.ofLines lines → d.view.PlacesOffsets) := by
  rw [Text.utf8ByteSize_eq] at hlimit ⊢
  have hle := Nat.le_of_lt hlimit
  have hexact := Buffer.exact_ofLines lines
  refine ⟨fun offset => (hexact.lineAt? offset).symm, ?_, ?_, ?_, ?_, ?_, ?_⟩
  · intro offset i
    rw [Lined.holdsOffset_iff hle]
    exact Text.lineAt?_eq_some_iff hle
  · intro offset i j hi hj
    exact ((Lined.holdsOffset_iff hle).mp hi).eq ((Lined.holdsOffset_iff hle).mp hj)
  · intro offset
    exact Text.lineAt?_eq_none_iff hle
  · intro offset answer hanswer
    exact Starts.lineOf?_of_finds hle hanswer
  · intro table
    exact View.placesOffsets (Lined.exact_list lines) hle
  · intro d hbuffer
    obtain ⟨path, buffer, table, report⟩ := d
    obtain rfl : buffer = Buffer.ofLines lines := hbuffer
    exact View.placesOffsets hexact hle

/-- A line of one character with an empty line on either side: the place after its two bytes is
still in it, the next offset is in the last line, and the one after that is past the text. -/
theorem lineAt?_bijective_between_empty_lines :
    let lines := ["", "é", ""]
    let d := ofText "\né\n"
    (Text.unlines lines).utf8ByteSize < Offset.limit ∧
    Lined.lineAt? (Buffer.ofLines lines) 3 = some 1 ∧
    Lined.lineAt? lines 4 = some 2 ∧
    (∀ j, Lined.HoldsOffset lines j 4 → 2 = j) ∧
    Lined.lineAt? lines 5 = none ∧
    (Starts.ofLines lines).Finds 2 (.error 2) ∧
    (Starts.ofLines lines).lineOf? 2 = some 1 ∧
    (∃ start offset, d.view.start? 1 = some start ∧ d.offsetAt? 1 9 = some offset ∧
      d.view.lineAt? offset = some 1 ∧ start ≤ offset ∧ offset - start = 2) ∧
    (∃ start, d.view.start? 1 = some start ∧ start ≤ 3 ∧
      d.offsetAt? 1 (3 - start) = some 3) := by
  intro lines d
  have hlimit : (Text.unlines lines).utf8ByteSize < Offset.limit := by decide +kernel
  obtain ⟨hsame, hfound, honly, hnone, hsearch, -, hdocument⟩ := lineAt?_bijective lines hlimit
  have hthird : Lined.HoldsOffset lines 1 3 := ⟨1, "é", rfl, rfl, by decide, by decide⟩
  have hlast : Lined.HoldsOffset lines 2 4 := ⟨4, "", rfl, rfl, by decide, by decide⟩
  have hgap : (Starts.ofLines lines).Finds 2 (.error 2) := by
    refine .gap (by decide) ?_ ?_
    · decide
    · intro j hj start hstart
      obtain ⟨hlt, hentry⟩ := Array.getElem?_eq_some_iff.mp hstart
      have hsize : j < 3 := hlt
      obtain rfl : j = 2 := by omega
      obtain rfl : 4 = start := hentry
      decide
  obtain ⟨hplace, hback⟩ := hdocument d (by decide +kernel)
  have hthree : d.view.lineAt? 3 = some 1 := by decide +kernel
  refine ⟨hlimit, ?_, (hfound 4 2).mpr hlast, fun j hj => honly 4 2 j hlast hj, ?_, hgap,
    hsearch 2 _ hgap, hplace 1 "é" 9 rfl, hback 3 1 hthree⟩
  · rw [← hsame]
    exact (hfound 3 1).mpr hthird
  · exact (hnone 5).mpr (.inr (by decide +kernel))

end Document
end PonyEditor
