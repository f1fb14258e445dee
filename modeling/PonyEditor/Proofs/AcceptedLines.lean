import Mathlib.Data.Nat.Digits.Defs
import PonyEditor.Proofs.ByteOffsets
import PonyEditor.Proofs.DiagnosticLines
import PonyEditor.Proofs.ReadingBytes

/-!
# The lines that are diagnostics

Which lines of a compiler's output are read as diagnostics, and as which, in terms of the text
alone.  A line is split at an offset where a file name with its extension ends and a place and a
message follow (`Diagnostic.SplitAt`).  The reader looks at the first split of a line only.  It
takes the two numbers there if they are written in ASCII digits and name a line and a column that
there can be (`IsCount`), and gives the line up otherwise, whatever splits come after
(`first_split_decides`).

The reader finds a cut of characters, with the shortest stem; a split is an offset in bytes.  The
two are brought together by `splitAt_iff` and `Text.length_le_of_width_le`.
-/

namespace PonyEditor

namespace Text

/-! ## Cutting at an offset -/

/-- What is cut at an offset is put together again, and the offset is that of the cut. -/
lemma splitAt?_eq_some_iff {n : Nat} {cs before after : List Char} :
    splitAt? n cs = some (before, after) ↔ cs = before ++ after ∧ width before = n := by
  constructor
  · intro h
    fun_induction splitAt? n cs generalizing before after with
    | case1 cs =>
        obtain ⟨rfl, rfl⟩ := Prod.mk.inj (Option.some.inj h)
        exact ⟨rfl, rfl⟩
    | case2 => cases h
    | case3 => cases h
    | case4 n c cs hle ih =>
        obtain ⟨⟨rest, later⟩, hrest, heq⟩ := Option.map_eq_some_iff.mp h
        obtain ⟨rfl, rfl⟩ := Prod.mk.inj heq
        obtain ⟨rfl, hwidth⟩ := ih hrest
        refine ⟨rfl, ?_⟩
        rw [width_cons, hwidth]
        omega
  · rintro ⟨rfl, rfl⟩
    exact splitAt?_width_append before after

lemma eq_nil_of_width_eq_zero {cs : List Char} (h : width cs = 0) : cs = [] := by
  cases cs with
  | nil => rfl
  | cons c cs =>
      have hpos := c.utf8Size_pos
      rw [width_cons] at h
      omega

/-- A text is the slice up to an offset and the slice from there on. -/
lemma slice?_both_iff {text before after : String} {i : Nat} :
    slice? text 0 i = some before ∧ slice? text i text.utf8ByteSize = some after ↔
      text.toList = before.toList ++ after.toList ∧ width before.toList = i := by
  constructor
  · rintro ⟨hbefore, hafter⟩
    simp only [slice?, Nat.not_lt_zero, if_false, splitAt?, Option.bind_eq_bind, Option.bind_some,
      Nat.sub_zero, Option.bind_eq_some_iff, Prod.exists, Option.pure_def, Option.some.injEq]
      at hbefore
    obtain ⟨front, rest, hfront, rfl⟩ := hbefore
    obtain ⟨htext, hwidth⟩ := splitAt?_eq_some_iff.mp hfront
    rw [slice?] at hafter
    split at hafter
    · cases hafter
    · simp only [hfront, Option.bind_eq_bind, Option.bind_some, Option.bind_eq_some_iff,
        Prod.exists, Option.pure_def, Option.some.injEq] at hafter
      obtain ⟨inside, last, hinside, rfl⟩ := hafter
      obtain ⟨rfl, hlength⟩ := splitAt?_eq_some_iff.mp hinside
      -- the second slice goes to the end, so nothing comes after it
      have htotal : text.utf8ByteSize = width front + (width inside + width last) := by
        rw [utf8ByteSize_eq, htext, width_append, width_append]
      have hlast : last = [] := eq_nil_of_width_eq_zero (by omega)
      rw [String.toList_ofList, String.toList_ofList, htext, hlast, List.append_nil]
      exact ⟨rfl, hwidth⟩
  · rintro ⟨htext, rfl⟩
    have hfront : text.toList = [] ++ before.toList ++ after.toList := htext
    have hback : text.toList = before.toList ++ after.toList ++ [] := by rw [htext, List.append_nil]
    have hsize : text.utf8ByteSize = width before.toList + width after.toList := by
      rw [utf8ByteSize_eq, htext, width_append]
    refine ⟨?_, ?_⟩
    · simpa using slice?_append hfront
    · simpa [hsize] using slice?_append hback

/-- Of two beginnings of a text the one with fewer bytes has fewer characters. -/
lemma length_le_of_width_le {cs as bs : List Char} (has : as <+: cs) (hbs : bs <+: cs)
    (h : width as ≤ width bs) : as.length ≤ bs.length := by
  rcases List.prefix_or_prefix_of_prefix has hbs with hle | ⟨rest, rfl⟩
  · exact hle.length_le
  · rw [width_append] at h
    have hrest : rest = [] := eq_nil_of_width_eq_zero (by omega)
    rw [hrest, List.append_nil]

end Text

/-! ## Numbers -/

/-- The number that decimal digits stand for, by their places. -/
def Numeral.decimal (digits : String) : Nat :=
  Nat.ofDigits 10 (digits.toList.reverse.map fun c => c.toNat - '0'.toNat)

lemma Numeral.value_toList (digits : String) : value digits.toList = decimal digits := by
  rw [decimal, Nat.ofDigits_eq_foldr, List.foldr_map, List.foldr_reverse, value]
  simp only [Nat.cast_id, Nat.add_comm]

namespace Diagnostic

/-- A number of lines or columns counted from one: in ASCII digits, not zero, and within the limit.
Zeros may stand in front. -/
structure IsCount (digits : String) : Prop where
  ascii : ∀ c ∈ digits.toList, c.isDigit = true
  pos : 1 ≤ Numeral.decimal digits
  le_limit : Numeral.decimal digits ≤ Offset.limit

lemma fromOne?_of_isCount {digits : String} (h : IsCount digits) :
    fromOne? digits.toList = some (Numeral.decimal digits - 1) := by
  have hne : digits.toList ≠ [] := by
    intro hnil
    have hpos := h.pos
    rw [← Numeral.value_toList, hnil] at hpos
    exact absurd hpos (by decide)
  have hread : Numeral.read? digits.toList = some (Numeral.decimal digits - 1 + 1) := by
    rw [Numeral.read?, if_pos ⟨hne, List.all_eq_true.mpr h.ascii, by
      rw [Numeral.value_toList]; exact h.le_limit⟩, Numeral.value_toList, Nat.sub_add_cancel h.pos]
  rw [fromOne?, hread]

lemma isCount_of_fromOne? {digits : String} {n : Nat} (h : fromOne? digits.toList = some n) :
    IsCount digits := by
  rw [fromOne?] at h
  split at h
  · rename_i m hread
    rw [Numeral.read?] at hread
    split at hread
    · rename_i hdigits
      obtain ⟨-, hascii, hle⟩ := hdigits
      have hvalue := Option.some.inj hread
      rw [Numeral.value_toList] at hle hvalue
      exact ⟨List.all_eq_true.mp hascii, by omega, hle⟩
    · cases hread
  · cases h

/-! ## Splits -/

/-- What a line holds on both sides of a split. -/
structure Parts where
  file : String
  line : String
  column : String
  message : String
  deriving DecidableEq

/-- The line is split after `i` bytes.  Before the split stands a file name of some characters and
its extension.  After it stand a colon, the digits of a line, a colon, the digits of a column, a
colon and a blank, and the message.  No line feed is anywhere in the line. -/
structure SplitAt (text : String) (i : Nat) (p : Parts) : Prop where
  unbroken : '\n' ∉ text.toList
  before : Text.slice? text 0 i = some p.file
  after : Text.slice? text i text.utf8ByteSize =
    some (":" ++ p.line ++ ":" ++ p.column ++ ": " ++ p.message)
  file : ∃ stem, stem ≠ "" ∧ p.file = stem ++ ".pony"
  line : IsNumber p.line.toList
  column : IsNumber p.column.toList

/-- The parts that a stem and a tail after it make. -/
def Parts.ofCut (stem : List Char) (tail : Tail) : Parts :=
  ⟨String.ofList (stem ++ ".pony".toList), String.ofList tail.line, String.ofList tail.column,
    String.ofList tail.message⟩

/-- **A split is a cut**, at the end of the extension. -/
lemma splitAt_iff {text : String} {i : Nat} {p : Parts} :
    SplitAt text i p ↔ '\n' ∉ text.toList ∧ ∃ stem tail, Splits text.toList stem tail ∧
      Text.width (stem ++ ".pony".toList) = i ∧ p = .ofCut stem tail := by
  have hextension : ".pony".toList = ['.', 'p', 'o', 'n', 'y'] := rfl
  have hcolon : ":".toList = [':'] := rfl
  have hblank : ": ".toList = [':', ' '] := rfl
  constructor
  · rintro ⟨hunbroken, hbefore, hafter, ⟨stem, hstem, hfile⟩, hline, hcolumn⟩
    obtain ⟨htext, hwidth⟩ := Text.slice?_both_iff.mp ⟨hbefore, hafter⟩
    rw [hfile, String.toList_append] at htext hwidth
    refine ⟨hunbroken, stem.toList, ⟨p.line.toList, p.column.toList, p.message.toList⟩,
      ⟨?_, ⟨hline, hcolumn⟩, ?_⟩, hwidth, ?_⟩
    · exact fun hnil => hstem (String.toList_eq_nil_iff.mp hnil)
    · rw [htext]
      simp only [Tail.chars, Tail.place, String.toList_append, hextension, hcolon, hblank,
        List.append_assoc, List.cons_append, List.nil_append]
    · simp only [Parts.ofCut, String.ofList_toList, String.ofList_append, ← hfile]
  · rintro ⟨hunbroken, stem, tail, ⟨hstem, ⟨hline, hcolumn⟩, htext⟩, hwidth, rfl⟩
    have hslices : text.toList = (Parts.ofCut stem tail).file.toList ++
        (":" ++ (Parts.ofCut stem tail).line ++ ":" ++ (Parts.ofCut stem tail).column ++ ": " ++
          (Parts.ofCut stem tail).message).toList := by
      rw [htext]
      simp only [Parts.ofCut, Tail.chars, Tail.place, String.toList_append, String.toList_ofList,
        hextension, hcolon, hblank, List.append_assoc, List.cons_append, List.nil_append]
    have hend : Text.width (Parts.ofCut stem tail).file.toList = i := by
      simpa only [Parts.ofCut, String.toList_ofList] using hwidth
    obtain ⟨hbefore, hafter⟩ := Text.slice?_both_iff.mpr ⟨hslices, hend⟩
    refine ⟨hunbroken, hbefore, hafter, ⟨String.ofList stem, ?_, ?_⟩, ?_, ?_⟩
    · exact fun hnil => hstem (by simpa using congrArg String.toList hnil)
    · simp only [Parts.ofCut, String.ofList_append, String.ofList_toList]
    · simpa only [Parts.ofCut, String.toList_ofList] using hline
    · simpa only [Parts.ofCut, String.toList_ofList] using hcolumn

/-- The line is split there, and nowhere before. -/
structure FirstSplit (text : String) (i : Nat) (p : Parts) : Prop where
  splitAt : SplitAt text i p
  le : ∀ j other, SplitAt text j other → i ≤ j

/-- **The first split is the cut with the shortest stem.** -/
lemma firstSplit_iff {text : String} {i : Nat} {p : Parts} :
    FirstSplit text i p ↔ '\n' ∉ text.toList ∧ ∃ stem tail,
      split? text.toList = some (stem, tail) ∧ Text.width (stem ++ ".pony".toList) = i ∧
        p = .ofCut stem tail := by
  constructor
  · rintro ⟨hsplit, hle⟩
    obtain ⟨hunbroken, stem, tail, hsplits, rfl, rfl⟩ := splitAt_iff.mp hsplit
    refine ⟨hunbroken, stem, tail, split?_eq_some_iff.mpr ⟨hsplits, ?_⟩, rfl, rfl⟩
    intro stem' tail' hsplits'
    have hbytes := hle _ _ (splitAt_iff.mpr ⟨hunbroken, stem', tail', hsplits', rfl, rfl⟩)
    rw [Text.width_append, Text.width_append] at hbytes
    exact Text.length_le_of_width_le ⟨_, hsplits.eq.symm⟩ ⟨_, hsplits'.eq.symm⟩ (by omega)
  · rintro ⟨hunbroken, stem, tail, hsplit, rfl, rfl⟩
    obtain ⟨hsplits, hshortest⟩ := split?_eq_some_iff.mp hsplit
    refine ⟨splitAt_iff.mpr ⟨hunbroken, stem, tail, hsplits, rfl, rfl⟩, ?_⟩
    intro j other hother
    obtain ⟨-, stem', tail', hsplits', rfl, -⟩ := splitAt_iff.mp hother
    -- the shorter stem is the beginning of the longer one
    obtain ⟨more, rfl⟩ := List.prefix_of_prefix_length_le ⟨_, hsplits.eq.symm⟩
      ⟨_, hsplits'.eq.symm⟩ (hshortest stem' tail' hsplits')
    simp only [Text.width_append]
    omega

lemma read?_of_split? {text : String} (hunbroken : '\n' ∉ text.toList) {stem : List Char}
    {tail : Tail} (h : split? text.toList = some (stem, tail)) :
    read? text = (fromOne? tail.line).bind fun line => (fromOne? tail.column).bind fun column =>
      some ⟨(Parts.ofCut stem tail).file, line, column, (Parts.ofCut stem tail).message⟩ := by
  have hcontains : ¬ text.toList.contains '\n' = true := by simpa using hunbroken
  rw [read?, if_neg hcontains, h]
  rfl

/-- **The first split of a line decides.**  A line without a split is no diagnostic.  Any other line
has a first split, and the two numbers there have to be in ASCII digits and from one up to the
limit.  If they are, the line is the diagnostic at that place, counted from zero, of the file before
the split and with the message after it.  If one of them is not, the line is no diagnostic, even if
it has another split. -/
theorem first_split_decides (text : String) :
    ((∀ i p, ¬ SplitAt text i p) → read? text = none) ∧
    (∀ i p, SplitAt text i p → ∃ i p, FirstSplit text i p) ∧
    ∀ i p, FirstSplit text i p →
      (IsCount p.line ∧ IsCount p.column →
        read? text = some ⟨p.file, Numeral.decimal p.line - 1, Numeral.decimal p.column - 1,
          p.message⟩) ∧
      (¬ (IsCount p.line ∧ IsCount p.column) → read? text = none) := by
  refine ⟨?_, ?_, ?_⟩
  · intro hnone
    rw [read?]
    split
    · rfl
    · rename_i hcontains
      have hunbroken : '\n' ∉ text.toList := by simpa using hcontains
      rcases split?_spec text.toList with ⟨stem, tail, -, hsplits, -⟩ | ⟨hsplit, -⟩
      · exact absurd (splitAt_iff.mpr ⟨hunbroken, stem, tail, hsplits, rfl, rfl⟩) (hnone _ _)
      · rw [hsplit]
        rfl
  · intro i p hsplitAt
    obtain ⟨hunbroken, stem, tail, hsplits, -⟩ := splitAt_iff.mp hsplitAt
    rcases split?_spec text.toList with ⟨stem', tail', hsplit, -⟩ | ⟨-, hnone⟩
    · exact ⟨_, _, firstSplit_iff.mpr ⟨hunbroken, stem', tail', hsplit, rfl, rfl⟩⟩
    · exact absurd hsplits (hnone stem tail)
  · intro i p hfirst
    obtain ⟨hunbroken, stem, tail, hsplit, -, rfl⟩ := firstSplit_iff.mp hfirst
    rw [read?_of_split? hunbroken hsplit]
    have hline : (Parts.ofCut stem tail).line.toList = tail.line := String.toList_ofList
    have hcolumn : (Parts.ofCut stem tail).column.toList = tail.column := String.toList_ofList
    rw [← hline, ← hcolumn]
    refine ⟨?_, ?_⟩
    · rintro ⟨hcount, hcount'⟩
      rw [fromOne?_of_isCount hcount, fromOne?_of_isCount hcount']
      rfl
    · intro hcounts
      cases hn : fromOne? (Parts.ofCut stem tail).line.toList with
      | none => rfl
      | some n =>
          cases hm : fromOne? (Parts.ofCut stem tail).column.toList with
          | none => rfl
          | some m => exact absurd ⟨isCount_of_fromOne? hn, isCount_of_fromOne? hm⟩ hcounts

/-- A file name with no place in it though it has the extension twice, a line number of zero before
a place that could be read, and an extension with nothing before it. -/
theorem first_split_decides_against_later :
    FirstSplit "é.pony:1.pony:007:2: b.pony:1:1: m" 14
      ⟨"é.pony:1.pony", "007", "2", "b.pony:1:1: m"⟩ ∧
    IsCount "007" ∧ IsCount "2" ∧
    read? "é.pony:1.pony:007:2: b.pony:1:1: m" = some ⟨"é.pony:1.pony", 6, 1, "b.pony:1:1: m"⟩ ∧
    FirstSplit "a.pony:0:1: b.pony:2:3: m" 6 ⟨"a.pony", "0", "1", "b.pony:2:3: m"⟩ ∧
    SplitAt "a.pony:0:1: b.pony:2:3: m" 18 ⟨"a.pony:0:1: b.pony", "2", "3", "m"⟩ ∧
    ¬ (IsCount "0" ∧ IsCount "1") ∧
    read? "a.pony:0:1: b.pony:2:3: m" = none ∧
    (∀ i p, ¬ SplitAt ".pony:1:1: m" i p) ∧ read? ".pony:1:1: m" = none := by
  have hfirst : FirstSplit "é.pony:1.pony:007:2: b.pony:1:1: m" 14
      ⟨"é.pony:1.pony", "007", "2", "b.pony:1:1: m"⟩ :=
    firstSplit_iff.mpr ⟨by decide, "é.pony:1".toList, ⟨"007".toList, "2".toList,
      "b.pony:1:1: m".toList⟩, by decide +kernel, by decide +kernel, by decide +kernel⟩
  have hzero : FirstSplit "a.pony:0:1: b.pony:2:3: m" 6 ⟨"a.pony", "0", "1", "b.pony:2:3: m"⟩ :=
    firstSplit_iff.mpr ⟨by decide, ['a'], ⟨['0'], ['1'], "b.pony:2:3: m".toList⟩,
      by decide +kernel, by decide +kernel, by decide +kernel⟩
  have hlater : SplitAt "a.pony:0:1: b.pony:2:3: m" 18
      ⟨"a.pony:0:1: b.pony", "2", "3", "m"⟩ := by
    refine splitAt_iff.mpr ⟨by decide, "a.pony:0:1: b".toList, ⟨['2'], ['3'], ['m']⟩, ?_,
      by decide +kernel, by decide +kernel⟩
    exact ⟨by decide, ⟨⟨by decide, List.all_eq_true.mp (by decide)⟩,
      ⟨by decide, List.all_eq_true.mp (by decide)⟩⟩, by decide +kernel⟩
  have hnone : ∀ i p, ¬ SplitAt ".pony:1:1: m" i p := by
    intro i p h
    obtain ⟨-, stem, tail, hsplits, -⟩ := splitAt_iff.mp h
    rcases split?_spec ".pony:1:1: m".toList with ⟨stem', tail', hsplit, -⟩ | ⟨-, hnone⟩
    · exact absurd (hsplit.symm.trans (by decide +kernel : _ = none)) (Option.some_ne_none _)
    · exact hnone stem tail hsplits
  have hseven : IsCount "007" :=
    ⟨List.all_eq_true.mp (by decide), by decide +kernel, by decide +kernel⟩
  have htwo : IsCount "2" := ⟨List.all_eq_true.mp (by decide), by decide +kernel, by decide +kernel⟩
  have hnot : ¬ (IsCount "0" ∧ IsCount "1") :=
    fun h => absurd h.1.pos (by decide +kernel)
  refine ⟨hfirst, hseven, htwo, ?_, hzero, hlater, hnot, ?_, hnone, ?_⟩
  · rw [((first_split_decides _).2.2 14 _ hfirst).1 ⟨hseven, htwo⟩]
    decide +kernel
  · exact ((first_split_decides _).2.2 6 _ hzero).2 hnot
  · exact (first_split_decides _).1 hnone

end Diagnostic
end PonyEditor
