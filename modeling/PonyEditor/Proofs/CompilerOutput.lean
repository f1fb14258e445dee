import Mathlib.Data.List.Basic
import PonyEditor.Proofs.ByteOffsets
import PonyEditor.Proofs.DiagnosticLines

/-!
# Compiler output reads back

What the compiler writes for diagnostics is read back as those diagnostics, whatever other lines
stand between them and whichever way each line is ended.  Two things have to hold.  The lines come
out as they were put in, since none holds a line feed or ends in a carriage return
(`Text.outputLines_output`).  And each line is cut where its file name ends.  The message comes
after that, so it may hold anything, even another place; but a file name must not hold one, for the
reader takes the first.  A place cannot begin in the file name and end after it, because the name
ends in `.pony` and no place has a dot inside (`exists_splits_file`).  So a file name without a
place is all that is needed, and it is needed (`read?_render_iff`): an error that is misread is
missed in the whole output too, for no other line can stand in for it
(`filterMap_eq_filterMap_iff`).
-/

namespace PonyEditor
namespace Text

/-! ## Lines and their ends -/

/-- How a line of another program's output is ended. -/
inductive Ending where
  | lineFeed
  | returnLineFeed

/-- The characters of an end of line. -/
def Ending.chars : Ending → List Char
  | .lineFeed => ['\n']
  | .returnLineFeed => ['\r', '\n']

/-- The output that has the given lines, each with its end. -/
def output (lines : List (String × Ending)) : String :=
  String.ofList (lines.flatMap fun line => line.1.toList ++ line.2.chars)

/-- A line that can be told from its end: it holds no line feed, and its last character is no
carriage return. -/
def IsLine (line : String) : Prop :=
  '\n' ∉ line.toList ∧ line.toList.getLast? ≠ some '\r'

instance (line : String) : Decidable (IsLine line) := inferInstanceAs (Decidable (_ ∧ _))

lemma ended_cons (piece : List Char) {rest : List (List Char)} (h : rest ≠ []) :
    ended (piece :: rest) = dropReturn piece :: ended rest := by
  obtain ⟨next, rest, rfl⟩ := List.exists_cons_of_ne_nil h
  rfl

/-- The first line of an output, whichever way it is ended. -/
lemma ended_splitOn_append {line : String} (h : IsLine line) (ending : Ending) (rest : List Char) :
    ended (splitOn '\n' (line.toList ++ ending.chars ++ rest)) =
      line.toList :: ended (splitOn '\n' rest) := by
  obtain ⟨hfeed, hreturn⟩ := h
  cases ending with
  | lineFeed =>
      rw [Ending.chars, List.append_assoc, List.singleton_append, splitOn_append_sep hfeed,
        ended_cons _ (splitOn_ne_nil _ _), dropReturn, if_neg hreturn]
  | returnLineFeed =>
      have hpiece : '\n' ∉ line.toList ++ ['\r'] := by simpa using hfeed
      have hcut : line.toList ++ Ending.returnLineFeed.chars ++ rest =
          line.toList ++ ['\r'] ++ '\n' :: rest := by simp [Ending.chars]
      rw [hcut, splitOn_append_sep hpiece, ended_cons _ (splitOn_ne_nil _ _), dropReturn,
        if_pos List.getLast?_concat, List.dropLast_concat]

/-- **The lines of an output are those it was made of**, whichever way each is ended. -/
lemma outputLines_output {lines : List (String × Ending)} (h : ∀ line ∈ lines, IsLine line.1) :
    outputLines (output lines) = lines.map Prod.fst := by
  induction lines with
  | nil => rfl
  | cons line lines ih =>
      have hrest := ih fun l hl => h l (List.mem_cons_of_mem _ hl)
      rw [outputLines, output, String.toList_ofList] at hrest ⊢
      rw [List.flatMap_cons, ended_splitOn_append (h line List.mem_cons_self), List.map_cons,
        String.ofList_toList, hrest, List.map_cons]

lemma isDecimalDigit_of_isDigit {c : Char} (h : c.isDigit = true) : isDecimalDigit c = true := by
  obtain ⟨hlow, hhigh⟩ := Char.isDigit_iff_toNat.mp h
  have hzero : '0'.toNat = 0x30 := rfl
  have hnine : '9'.toNat = 0x39 := rfl
  refine List.any_eq_true.mpr ⟨0x30, List.mem_cons_self, ?_⟩
  simp only [Bool.and_eq_true, decide_eq_true_eq]
  omega

end Text

/-! ## Numbers -/

lemma Numeral.read?_toDigits {n : Nat} (h : n ≤ Offset.limit) :
    read? (Nat.toDigits 10 n) = some n := by
  have hvalue : value (Nat.toDigits 10 n) = n := Nat.ofDigitChars_toDigits (by decide) (by decide)
  have hdigits : (Nat.toDigits 10 n).all Char.isDigit = true :=
    List.all_eq_true.mpr fun c hc => Nat.isDigit_of_mem_toDigits (by decide) (by decide) hc
  rw [read?, if_pos ⟨Nat.toDigits_ne_nil, hdigits, by rwa [hvalue]⟩, hvalue]

namespace Diagnostic

lemma fromOne?_toDigits {n : Nat} (h : n < Offset.limit) :
    fromOne? (Nat.toDigits 10 (n + 1)) = some n := by
  rw [fromOne?, Numeral.read?_toDigits h]

lemma isNumber_toDigits (n : Nat) : IsNumber (Nat.toDigits 10 n) :=
  ⟨Nat.toDigits_ne_nil, fun _ hc => Text.isDecimalDigit_of_isDigit
    (Nat.isDigit_of_mem_toDigits (by decide) (by decide) hc)⟩

/-! ## Lines of diagnostics -/

/-- A diagnostic that is written on one line: its numbers can be read, its file has the extension,
and its line can be told from the end of line. -/
structure Writable (d : Diagnostic) : Prop where
  line : d.line < Offset.limit
  column : d.column < Offset.limit
  file : ∃ stem, stem ≠ [] ∧ d.file.toList = stem ++ ".pony".toList
  file_unbroken : '\n' ∉ d.file.toList
  message : Text.IsLine d.message

/-- Some way into a file name there is the extension, and after it colon, digits, colon, digits,
colon and blank, all of it inside the name. -/
def HoldsPlace (file : String) : Prop := ∃ stem tail, Splits file.toList stem tail

lemma holdsPlace_iff {file : String} : HoldsPlace file ↔ (split? file.toList).isSome = true := by
  rcases split?_spec file.toList with ⟨stem, tail, hsplit, hsplits, -⟩ | ⟨hsplit, hnone⟩
  · exact ⟨fun _ => by rw [hsplit]; rfl, fun _ => ⟨stem, tail, hsplits⟩⟩
  · refine ⟨fun ⟨stem, tail, h⟩ => absurd h (hnone stem tail), fun h => ?_⟩
    rw [hsplit] at h
    cases h

instance (file : String) : Decidable (HoldsPlace file) := decidable_of_iff _ holdsPlace_iff.symm

/-- What stands after the stem on the line of a diagnostic. -/
def tail (d : Diagnostic) : Tail :=
  ⟨Nat.toDigits 10 (d.line + 1), Nat.toDigits 10 (d.column + 1), d.message.toList⟩

lemma toList_render {d : Diagnostic} {stem : List Char}
    (hfile : d.file.toList = stem ++ ".pony".toList) : d.render.toList = stem ++ d.tail.chars := by
  have hextension : ".pony".toList = ['.', 'p', 'o', 'n', 'y'] := rfl
  have hcolon : ":".toList = [':'] := rfl
  have hblank : ": ".toList = [':', ' '] := rfl
  simp only [render, String.toList_append, hfile, hextension, hcolon, hblank, Nat.toString_eq_repr,
    Nat.toList_repr, tail, Tail.chars, Tail.place, List.append_assoc, List.cons_append,
    List.nil_append]

lemma splits_render {d : Diagnostic} {stem : List Char} (hne : stem ≠ [])
    (hfile : d.file.toList = stem ++ ".pony".toList) : Splits d.render.toList stem d.tail :=
  ⟨hne, ⟨isNumber_toDigits _, isNumber_toDigits _⟩, toList_render hfile⟩

lemma notMem_of_isNumber {digits : List Char} (h : IsNumber digits) {c : Char}
    (hc : Text.isDecimalDigit c = false) : c ∉ digits :=
  fun hmem => Bool.noConfusion (hc.symm.trans (h.2 c hmem))

/-- A place has no dot after its first character. -/
lemma dot_notMem_tail_place {t : Tail} (h : t.WellFormed) : '.' ∉ t.place.tail := by
  have hdot : Text.isDecimalDigit '.' = false := by decide
  have hline := notMem_of_isNumber h.line hdot
  have hcolumn := notMem_of_isNumber h.column hdot
  simp [Tail.place, hline, hcolumn]

/-- **A place that begins in a file name ends in it.** -/
lemma exists_splits_file {stem after s : List Char} {t : Tail}
    (h : Splits (stem ++ ".pony".toList ++ after) s t) (hlt : s.length < stem.length) :
    ∃ t', Splits (stem ++ ".pony".toList) s t' := by
  have hplace : s ++ t.place <+: stem ++ ".pony".toList ++ after :=
    ⟨t.message, by rw [h.eq, Tail.chars, List.append_assoc]⟩
  rcases List.prefix_or_prefix_of_prefix hplace (List.prefix_append _ after) with
    ⟨rest, hrest⟩ | hfile
  · refine ⟨⟨t.line, t.column, rest⟩, h.stem_ne, ⟨h.wellFormed.line, h.wellFormed.column⟩, ?_⟩
    rw [← hrest, List.append_assoc]
    rfl
  · -- the dot of the extension would stand inside the place
    have hstem : stem <+: s ++ t.place := (List.prefix_append _ _).trans hfile
    obtain ⟨u, rfl⟩ := List.prefix_of_prefix_length_le (List.prefix_append s t.place) hstem
      (Nat.le_of_lt hlt)
    obtain ⟨w, hw⟩ := hfile
    rw [List.append_assoc, List.append_assoc, List.append_cancel_left_eq] at hw
    have hne : u ≠ [] := by
      rintro rfl
      simp at hlt
    obtain ⟨first, u, rfl⟩ := List.exists_cons_of_ne_nil hne
    have htail : '.' ∈ t.place.tail := by
      rw [← hw]
      simp
    exact absurd htail (dot_notMem_tail_place h.wellFormed)

lemma isLine_render {d : Diagnostic} (h : d.Writable) : Text.IsLine d.render := by
  obtain ⟨stem, -, hfile⟩ := h.file
  have hfeed : Text.isDecimalDigit '\n' = false := by decide
  have hline := notMem_of_isNumber (isNumber_toDigits (d.line + 1)) hfeed
  have hcolumn := notMem_of_isNumber (isNumber_toDigits (d.column + 1)) hfeed
  have hstem : '\n' ∉ stem := fun hmem =>
    h.file_unbroken (hfile ▸ List.mem_append_left _ hmem)
  rw [Text.IsLine, toList_render hfile]
  constructor
  · simp [Tail.chars, Tail.place, tail, hstem, hline, hcolumn, h.message.1]
  · -- the blank before the message is no carriage return either
    have hplace : d.tail.place.getLast? = some ' ' := by
      rw [Tail.place, List.getLast?_append]
      rfl
    rw [Tail.chars, List.getLast?_append, List.getLast?_append, hplace]
    have hmessage := h.message.2
    cases hlast : d.message.toList.getLast? with
    | none => simp [tail, hlast]
    | some c =>
        rw [hlast] at hmessage
        rwa [tail, hlast, Option.some_or, Option.some_or]

lemma exists_toList_render (d : Diagnostic) :
    ∃ after, d.render.toList = d.file.toList ++ after := by
  simp only [render, String.toList_append, List.append_assoc]
  exact ⟨_, rfl⟩

/-! ## Reading them back -/

/-- A line that is cut somewhere is read as the cut says. -/
lemma read?_eq_some_iff_of_split? {line : String} (hfeed : '\n' ∉ line.toList) {stem : List Char}
    {t : Tail} (h : split? line.toList = some (stem, t)) {d : Diagnostic} :
    read? line = some d ↔
      d.file.toList = stem ++ ".pony".toList ∧ fromOne? t.line = some d.line ∧
        fromOne? t.column = some d.column ∧ d.message.toList = t.message := by
  have hcontains : ¬ line.toList.contains '\n' = true := by simpa using hfeed
  obtain ⟨file, l, column, message⟩ := d
  simp only [read?, if_neg hcontains, h, bind, Option.bind_some, Option.bind_eq_some_iff]
  constructor
  · rintro ⟨_, hline, _, hcolumn, hd⟩
    obtain ⟨rfl, rfl, rfl, rfl⟩ := Diagnostic.mk.inj (Option.some.inj hd)
    exact ⟨String.toList_ofList, hline, hcolumn, String.toList_ofList⟩
  · rintro ⟨hfile, hline, hcolumn, hmessage⟩
    refine ⟨l, hline, column, hcolumn, ?_⟩
    rw [← hfile, ← hmessage, String.ofList_toList, String.ofList_toList]
    rfl

lemma Tail.length_extension_lt (t : Tail) : ".pony".toList.length < t.chars.length := by
  have hextension : ".pony".toList = ['.', 'p', 'o', 'n', 'y'] := rfl
  simp only [hextension, chars, place, List.length_append, List.length_cons, List.length_nil]
  omega

lemma Splits.append {cs stem : List Char} {t : Tail} (h : Splits cs stem t) (after : List Char) :
    Splits (cs ++ after) stem ⟨t.line, t.column, t.message ++ after⟩ :=
  ⟨h.stem_ne, ⟨h.wellFormed.line, h.wellFormed.column⟩, by
    rw [h.eq, Tail.chars, Tail.chars, List.append_assoc, List.append_assoc]
    rfl⟩

/-- **A written line is read back exactly if its file name holds no place.** -/
lemma read?_render_iff {d : Diagnostic} (h : d.Writable) :
    read? d.render = some d ↔ ¬ HoldsPlace d.file := by
  obtain ⟨stem, hne, hfile⟩ := h.file
  obtain ⟨after, hafter⟩ := exists_toList_render d
  have hfeed := (isLine_render h).1
  have hsplits := splits_render hne hfile
  constructor
  · -- the reader would stop at the place in the file name, or before it
    rintro hread ⟨s, t, hplace⟩
    have hshorter : s.length < stem.length := by
      have hlength := congrArg List.length (hplace.eq.symm.trans hfile)
      have hextension := t.length_extension_lt
      rw [List.length_append, List.length_append] at hlength
      omega
    rcases split?_spec d.render.toList with ⟨s', t', hsplit, -, hleast⟩ | ⟨-, hnone⟩
    · have hstem : s' = stem := List.append_cancel_right
        (((read?_eq_some_iff_of_split? hfeed hsplit).mp hread).1.symm.trans hfile)
      have hle := hleast s _ (hafter ▸ hplace.append after)
      rw [hstem] at hle
      exact absurd hshorter (Nat.not_lt_of_le hle)
    · exact absurd hsplits (hnone _ _)
  · intro hfree
    have hsplit : split? d.render.toList = some (stem, d.tail) := by
      refine split?_eq_some_iff.mpr ⟨hsplits, fun s t hs => ?_⟩
      by_contra hlt
      rw [hafter, hfile] at hs
      obtain ⟨t', ht'⟩ := exists_splits_file hs (Nat.lt_of_not_le hlt)
      exact hfree ⟨s, t', hfile ▸ ht'⟩
    exact (read?_eq_some_iff_of_split? hfeed hsplit).mpr
      ⟨hfile, fromOne?_toDigits h.line, fromOne?_toDigits h.column, rfl⟩

/-! ## Whole outputs -/

/-- A line of compiler output: one that reports an error, or any other. -/
inductive OutputLine where
  | error (d : Diagnostic)
  | other (line : String)

namespace OutputLine

def text : OutputLine → String
  | error d => d.render
  | other line => line

def diagnostic? : OutputLine → Option Diagnostic
  | error d => some d
  | other _ => none

/-- What is asked of the lines: an error must be one that is written on a line, and any other line
must be no error. -/
def Proper : OutputLine → Prop
  | error d => d.Writable
  | other line => Text.IsLine line ∧ read? line = none

lemma isLine_text {line : OutputLine} (h : line.Proper) : Text.IsLine line.text := by
  cases line with
  | error d => exact isLine_render h
  | other line => exact h.1

lemma read?_text_of_diagnostic? {line : OutputLine} (h : line.Proper)
    (hnone : line.diagnostic? = none) : read? line.text = none := by
  cases line with
  | error d => cases hnone
  | other line => exact h.2

lemma read?_text_iff {line : OutputLine} (h : line.Proper) :
    read? line.text = line.diagnostic? ↔ ∀ d, line.diagnostic? = some d → ¬ HoldsPlace d.file := by
  cases line with
  | error d =>
      simp only [text, diagnostic?, Option.some.injEq, forall_eq']
      exact read?_render_iff h
  | other line =>
      refine ⟨fun _ d hd => ?_, fun _ => h.2⟩
      cases hd

end OutputLine

/-- The output with the given lines, each ended in its own way. -/
def written (lines : List (OutputLine × Text.Ending)) : String :=
  Text.output (lines.map fun line => (line.1.text, line.2))

/-- The errors among the lines, in order. -/
def reported (lines : List (OutputLine × Text.Ending)) : List Diagnostic :=
  lines.filterMap fun line => line.1.diagnostic?

lemma ofOutput_written {lines : List (OutputLine × Text.Ending)}
    (h : ∀ line ∈ lines, line.1.Proper) :
    ofOutput (written lines) = lines.filterMap fun line => read? line.1.text := by
  have hlines : ∀ line ∈ lines.map fun line => (line.1.text, line.2), Text.IsLine line.1 := by
    intro line hline
    obtain ⟨line, hmem, rfl⟩ := List.mem_map.mp hline
    exact OutputLine.isLine_text (h line hmem)
  rw [ofOutput, written, Text.outputLines_output hlines, List.map_map, List.filterMap_map]
  rfl

lemma length_filterMap_le {α β : Type} {f g : α → Option β} {xs : List α}
    (h : ∀ x ∈ xs, g x = none → f x = none) :
    (xs.filterMap f).length ≤ (xs.filterMap g).length := by
  rw [List.length_filterMap_eq_countP, List.length_filterMap_eq_countP]
  refine List.countP_mono_left fun x hx hf => ?_
  rw [Option.isSome_iff_ne_none] at hf ⊢
  exact fun hg => hf (h x hx hg)

/-- If `f` keeps nothing that `g` leaves out, the two give the same list only by agreeing
everywhere: nothing that is lost in one place can be made up for in another. -/
lemma filterMap_eq_filterMap_iff {α β : Type} {f g : α → Option β} {xs : List α}
    (h : ∀ x ∈ xs, g x = none → f x = none) :
    xs.filterMap f = xs.filterMap g ↔ ∀ x ∈ xs, f x = g x := by
  refine ⟨fun heq => ?_, List.filterMap_congr⟩
  induction xs with
  | nil => exact fun x hx => absurd hx List.not_mem_nil
  | cons x xs ih =>
      have htail : ∀ x ∈ xs, g x = none → f x = none :=
        fun x hx => h x (List.mem_cons_of_mem _ hx)
      have hhead := h x List.mem_cons_self
      cases hg : g x with
      | none =>
          rw [List.filterMap_cons_none hg, List.filterMap_cons_none (hhead hg)] at heq
          exact List.forall_mem_cons.mpr ⟨(hhead hg).trans hg.symm, ih htail heq⟩
      | some b =>
          cases hf : f x with
          | none =>
              rw [List.filterMap_cons_none hf, List.filterMap_cons_some hg] at heq
              have hle := length_filterMap_le htail
              rw [heq, List.length_cons] at hle
              exact absurd hle (Nat.not_succ_le_self _)
          | some c =>
              rw [List.filterMap_cons_some hf, List.filterMap_cons_some hg] at heq
              obtain ⟨rfl, hrest⟩ := List.cons.inj heq
              exact List.forall_mem_cons.mpr ⟨hf.trans hg.symm, ih htail hrest⟩

/-- **Compiler output reads back.**  Take any lines, each with a line feed or a carriage return and
a line feed after it, of which some report errors and the others are read as none.  Then the errors
that are read are those that were written, in order, exactly if no file name holds a place.  The
messages may hold what they like. -/
theorem compiler_output_reads_back_iff (lines : List (OutputLine × Text.Ending))
    (hlines : ∀ line ∈ lines, line.1.Proper) :
    ofOutput (written lines) = reported lines ↔ ∀ d ∈ reported lines, ¬ HoldsPlace d.file := by
  rw [ofOutput_written hlines, reported, filterMap_eq_filterMap_iff fun line hline =>
    OutputLine.read?_text_of_diagnostic? (hlines line hline)]
  constructor
  · intro hread d hd
    obtain ⟨line, hmem, hline⟩ := List.mem_filterMap.mp hd
    exact (OutputLine.read?_text_iff (hlines line hmem)).mp (hread line hmem) d hline
  · intro hfree line hmem
    exact (OutputLine.read?_text_iff (hlines line hmem)).mpr fun d hline =>
      hfree d (List.mem_filterMap.mpr ⟨line, hmem, hline⟩)

/-- A message that holds a place, and a file name that nearly does, between lines of other kinds.
With a file name that does, the error is not read back. -/
theorem compiler_output_reads_back_iff_near_place :
    let clear : List (OutputLine × Text.Ending) :=
      [(.error ⟨"src/main.pony", 0, 7, "see b.pony:3:4: there"⟩, .returnLineFeed),
        (.other "Building builtin -> /lib", .lineFeed),
        (.error ⟨"a.pony:1.pony", 4294967294, 0, ""⟩, .lineFeed), (.other "", .returnLineFeed)]
    let clouded : List (OutputLine × Text.Ending) :=
      [(.error ⟨"a.pony:1:2: b.pony", 0, 0, "x"⟩, .lineFeed)]
    (∀ line ∈ clear, line.1.Proper) ∧ ofOutput (written clear) = reported clear ∧
    (∀ line ∈ clouded, line.1.Proper) ∧ ofOutput (written clouded) ≠ reported clouded := by
  intro clear clouded
  have hclear : ∀ line ∈ clear, line.1.Proper := by
    simp only [clear, List.forall_mem_cons]
    refine ⟨⟨by decide, by decide, ⟨"src/main".toList, by decide, rfl⟩, by decide, by decide⟩,
      ⟨by decide, by decide +kernel⟩,
      ⟨by decide, by decide, ⟨"a.pony:1".toList, by decide, rfl⟩, by decide, by decide⟩,
      ⟨by decide, by decide +kernel⟩, ?_⟩
    exact fun line hline => absurd hline List.not_mem_nil
  have hclouded : ∀ line ∈ clouded, line.1.Proper := by
    simp only [clouded, List.forall_mem_singleton]
    exact ⟨by decide, by decide, ⟨"a.pony:1:2: b".toList, by decide, rfl⟩, by decide, by decide⟩
  refine ⟨hclear, (compiler_output_reads_back_iff clear hclear).mpr ?_, hclouded, fun h => ?_⟩
  · decide +kernel
  · exact absurd ((compiler_output_reads_back_iff clouded hclouded).mp h) (by decide +kernel)

end Diagnostic
end PonyEditor
