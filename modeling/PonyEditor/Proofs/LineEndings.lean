import Mathlib.Data.List.Forall2
import PonyEditor.Proofs.DocumentRuns
import PonyEditor.Proofs.JoinedLines

/-!
# Carriage returns at the ends of lines

A carriage return is inert, so it changes nothing in front of it.  Only the last lexeme of a line
can meet one at the end of the line.  If it is closed, or is one that the character ends, it stays
as it is and the return is a blank of its own; if it is open, it takes the return in
(`read_endsAt`).  Either way the mode after the line is the same (`scan_concat_mark`).  Lines that
end in returns and lines that do not therefore lead to the same modes (`trail_of_mayReturn`).
-/

namespace PonyEditor

namespace Inert

variable {mark : Char} (h : Inert mark)
include h

lemma isWordStart : Extent.isWordStart mark = false := by
  have hword := h.word
  simp only [Extent.isWordRest, Char.isAlphanum, Bool.or_eq_false_iff] at hword
  rw [Extent.isWordStart, hword.1.1.1, hword.1.2, Bool.or_false]

lemma symbol?_eq_none : Vocabulary.symbol? [mark] = none := by
  rw [Option.eq_none_iff_forall_ne_some]
  rintro ⟨text, kind⟩ hsymbol
  obtain ⟨xs, rest, htext, -⟩ := ByteReader.exists_of_symbol? hsymbol
  have hmem := List.mem_of_find?_eq_some hsymbol
  exact h.symbol _ hmem (by simp [htext])

end Inert

/-! ## No construct is longer than the line -/

namespace Extent

variable (cs : List Char)

lemma exponent_le : exponent cs ≤ cs.length := by
  fun_cases exponent cs with
  | case1 c hletter ds =>
      have hle := run_le Char.isDigit ds
      simp only [List.length_cons]
      omega
  | case2 c hletter cs hsign =>
      have hle := run_le Char.isDigit cs
      simp only [List.length_cons]
      omega
  | case3 => exact Nat.zero_le _
  | case4 => exact Nat.zero_le _

lemma decimal_le : decimal cs ≤ cs.length := by
  have hwhole := run_le Char.isDigit cs
  have hpart := fraction_le (cs.drop (run Char.isDigit cs))
  have hrest :=
    exponent_le (cs.drop (run Char.isDigit cs + fraction (cs.drop (run Char.isDigit cs))))
  rw [List.length_drop] at hpart hrest
  rw [decimal]
  omega

lemma number_le : number cs ≤ cs.length := by
  fun_cases number cs with
  | case1 ds => exact Nat.add_le_add_right (run_le isHexDigit ds) 2
  | case2 ds => exact Nat.add_le_add_right (run_le isHexDigit ds) 2
  | case3 ds => exact Nat.add_le_add_right (run_le isBinaryDigit ds) 2
  | case4 ds => exact Nat.add_le_add_right (run_le isBinaryDigit ds) 2
  | case5 cs => exact decimal_le cs

lemma blockComment_le (depth : Nat) : (blockComment depth cs).1 ≤ cs.length := by
  fun_induction blockComment depth cs with
  | case1 => exact Nat.le_refl 0
  | case2 depth cs n mode heq ih =>
      rw [heq] at ih
      exact Nat.add_le_add_right ih 2
  | case3 depth cs hdepth => exact Nat.le_add_left 2 cs.length
  | case4 depth cs hdepth n mode heq ih =>
      rw [heq] at ih
      exact Nat.add_le_add_right ih 2
  | case5 depth c cs _ _ n mode heq ih =>
      rw [heq] at ih
      exact Nat.add_le_add_right ih 1

lemma tripleString_le : (tripleString cs).1 ≤ cs.length := by
  fun_induction tripleString cs with
  | case1 => exact Nat.le_refl 0
  | case2 cs => exact Nat.le_add_left 3 cs.length
  | case3 c cs _ n mode heq ih =>
      rw [heq] at ih
      exact Nat.add_le_add_right ih 1

/-! ## Constructs that end with the line -/

variable {cs}

/-- A block comment that is closed on the line does not see what comes after the line. -/
lemma blockComment_append_of_closed {depth : Nat} (hpos : 0 < depth)
    (hclosed : (blockComment depth cs).2 = .normal) (rest : List Char) :
    blockComment depth (cs ++ rest) = blockComment depth cs := by
  fun_induction blockComment depth cs with
  | case1 depth =>
      rw [Mode.ofDepth_of_pos hpos] at hclosed
      cases hclosed
  | case2 depth cs n mode heq ih =>
      have hdeeper : 0 < Mode.deepen depth := by
        rw [Mode.deepen]
        split <;> omega
      rw [heq] at ih
      simp only [List.cons_append, blockComment, ih hdeeper hclosed]
  | case3 depth cs hdepth => simp [blockComment, hdepth]
  | case4 depth cs hdepth n mode heq ih =>
      rw [heq] at ih
      simp only [List.cons_append, blockComment, if_neg hdepth, ih (by omega) hclosed]
  | case5 depth c cs hopen hclose n mode heq ih =>
      rw [heq] at ih
      rcases cs with _ | ⟨d, ds⟩
      · -- one character is no marker, and the comment is still open
        rw [blockComment, Mode.ofDepth_of_pos hpos] at heq
        cases heq
        cases hclosed
      · rw [List.cons_append, blockComment, ih hpos hclosed]
        · rintro es rfl hmarker
          obtain ⟨rfl, -⟩ := List.cons.inj hmarker
          exact hopen ds rfl rfl
        · rintro es rfl hmarker
          obtain ⟨rfl, -⟩ := List.cons.inj hmarker
          exact hclose ds rfl rfl

/-- A triple-quoted string that is closed on the line does not see what comes after the line. -/
lemma tripleString_append_of_closed (hclosed : (tripleString cs).2 = .normal) (rest : List Char) :
    tripleString (cs ++ rest) = tripleString cs := by
  fun_induction tripleString cs with
  | case1 => cases hclosed
  | case2 cs => rfl
  | case3 c cs hquotes n mode heq ih =>
      rw [heq] at ih
      rw [List.cons_append, tripleString, ih hclosed]
      rintro es rfl hmarker
      -- fewer than two characters after this one do not close the string
      rcases cs with _ | ⟨d, _ | ⟨e, ds⟩⟩
      · cases heq
        cases hclosed
      · have hopen : (tripleString [d]).2 = .tripleString := by simp [tripleString]
        rw [heq, hclosed] at hopen
        cases hopen
      · simp only [List.cons_append, List.cons.injEq] at hmarker
        obtain ⟨rfl, rfl, -⟩ := hmarker
        exact hquotes ds rfl rfl

lemma string_singleton {mark : Char} (hmark : mark ≠ '"') : string [mark] = 1 := by
  rw [string]
  · rfl
  · exact hmark
  · intro c ds _ heq
    cases heq

/-- A string that has all of the line is closed with it, or takes one more character in. -/
lemma string_concat {mark : Char} (hmark : mark ≠ '"') (hfull : cs.length ≤ string cs) :
    string (cs ++ [mark]) = cs.length ∨ string (cs ++ [mark]) = cs.length + 1 := by
  fun_induction string cs with
  | case1 =>
      exact .inr (string_singleton hmark)
  | case2 cs =>
      obtain rfl : cs = [] := List.eq_nil_of_length_eq_zero (by simpa using hfull)
      exact .inl rfl
  | case3 c cs ih =>
      simp only [List.length_cons, Nat.add_le_add_iff_right] at hfull
      simpa only [List.cons_append, string, List.length_cons, Nat.add_right_cancel_iff]
        using ih hfull
  | case4 c cs hquote hescape ih =>
      rcases cs with _ | ⟨d, ds⟩
      · right
        by_cases hbackslash : c = '\\'
        · subst hbackslash
          rfl
        · rw [List.cons_append, string, List.nil_append, string_singleton hmark]
          · rfl
          · exact hquote
          · exact fun _ _ heq => absurd heq hbackslash
      · simp only [List.length_cons, Nat.add_le_add_iff_right] at hfull ih
        rw [List.cons_append, string]
        · simpa only [List.length_cons, Nat.add_right_cancel_iff] using ih hfull
        · exact hquote
        · rintro e es rfl -
          exact hescape d ds rfl rfl

end Extent

/-! ## The last lexeme of a line -/

namespace Reading

/-- The lexeme has the line to its end.  With the mark behind the line it ends before the mark and
leaves nothing open, or takes the mark in. -/
inductive EndsAt (mark : Char) (read : List Char → Reading) (cs : List Char) : Prop
  | before (hmode : (read cs).mode = .normal)
      (happend : read (cs ++ [mark]) = ⟨(read cs).kind, cs.length, .normal⟩)
  | behind (happend : read (cs ++ [mark]) = ⟨(read cs).kind, cs.length + 1, (read cs).mode⟩)

lemma endsAt_of_eq {mark : Char} {read : List Char → Reading} {cs : List Char}
    (hmode : (read cs).mode = .normal) (hle : (read cs).more ≤ cs.length)
    (hfull : cs.length ≤ (read cs).more) (happend : read (cs ++ [mark]) = read cs) :
    EndsAt mark read cs := by
  refine .before hmode ?_
  rw [happend, ← hmode, Nat.le_antisymm hfull hle]

/-- A lexeme that is open at the end of the line takes the mark in. -/
lemma RunsOn.endsAt {mark : Char} {read : List Char → Reading} {cs : List Char}
    (h : RunsOn mark read cs) : EndsAt mark read cs := by
  have happend := h.append []
  rw [Mode.extent_nil] at happend
  exact .behind happend

variable {mark : Char} (h : Inert mark) (c : Char) {cs : List Char}
include h

lemma slash_endsAt (hfull : cs.length ≤ (slash cs).more) (hmode : (slash cs).mode = .normal) :
    EndsAt mark slash cs := by
  fun_cases slash cs with
  | case1 cs =>
      refine .behind ?_
      simp only [List.cons_append, slash, List.length_append, List.length_cons, List.length_nil]
  | case2 cs n mode heq =>
      simp only [slash, heq] at hmode
      have hclosed : (Extent.blockComment 1 cs).2 = .normal := by rw [heq, hmode]
      have hle := Extent.blockComment_le cs 1
      apply endsAt_of_eq
      · simp only [slash, hclosed]
      · exact Nat.add_le_add_right hle 1
      · exact hfull
      · simp only [List.cons_append, slash,
          Extent.blockComment_append_of_closed Nat.one_pos hclosed [mark]]
  | case3 cs hline hblock =>
      have hother : slash cs = ⟨.operator, 0, .normal⟩ := by rw [slash]; exacts [hline, hblock]
      rw [hother] at hfull
      obtain rfl : cs = [] := List.eq_nil_of_length_eq_zero (Nat.le_zero.mp hfull)
      refine .before rfl ?_
      rw [List.nil_append, slash]
      · rfl
      · exact fun _ heq => h.slash (List.cons.inj heq).1
      · exact fun _ heq => h.ne_star (List.cons.inj heq).1

lemma quote_endsAt (hfull : cs.length ≤ (quote cs).more) (hmode : (quote cs).mode = .normal) :
    EndsAt mark quote cs := by
  fun_cases quote cs with
  | case1 cs n mode heq =>
      simp only [quote, heq] at hmode
      have hclosed : (Extent.tripleString cs).2 = .normal := by rw [heq, hmode]
      have hle := Extent.tripleString_le cs
      apply endsAt_of_eq
      · simp only [quote, hclosed]
      · exact Nat.add_le_add_right hle 2
      · exact hfull
      · simp only [List.cons_append, quote,
          Extent.tripleString_append_of_closed hclosed [mark]]
  | case2 cs hquotes =>
      have hstring : quote cs = ⟨.string, Extent.string cs, .normal⟩ := by rw [quote]; exact hquotes
      have happend : quote (cs ++ [mark]) = ⟨.string, Extent.string (cs ++ [mark]), .normal⟩ := by
        rw [quote]
        intro ds heq
        obtain ⟨more, rfl⟩ := Extent.exists_of_append_eq cs [] h.quote h.quote heq
        exact hquotes more rfl
      rw [hstring] at hfull
      rcases Extent.string_concat h.quote hfull with hends | hgoes
      · exact .before hmode (by rw [happend, hends, hstring])
      · exact .behind (by rw [happend, hgoes, hstring])

omit h in
lemma symbol_more_le (cs : List Char) : (symbol c cs).more ≤ cs.length := by
  rw [symbol]
  split
  · rename_i text kind hsymbol
    obtain ⟨xs, rest, htext, rfl, -⟩ := ByteReader.exists_of_symbol? hsymbol
    have hlength : text.length = xs.length + 1 := by
      rw [← String.length_toList, htext, List.length_cons]
    simp only [List.length_append]
    omega
  · exact Nat.zero_le _

/-- A lexeme that leaves nothing open, at the end of the line. -/
lemma plain_endsAt (hfull : cs.length ≤ (plain c cs).more) (hmode : (plain c cs).mode = .normal) :
    EndsAt mark (plain c) cs := by
  by_cases hslash : (c == '/') = true
  · have hplain : plain c = slash := funext fun cs => by rw [plain, if_pos hslash]
    rw [hplain] at hfull hmode ⊢
    exact slash_endsAt h hfull hmode
  by_cases hquote : (c == '"') = true
  · have hplain : plain c = quote :=
      funext fun cs => by rw [plain, if_neg hslash, if_pos hquote]
    rw [hplain] at hfull hmode ⊢
    exact quote_endsAt h hfull hmode
  refine endsAt_of_eq hmode ?_ hfull (plain_append_of_ne h c hslash hquote cs [])
  rw [plain_of_ne c hslash hquote]
  split
  · have hle := Extent.number_le (c :: cs)
    exact Nat.sub_le_of_le_add hle
  split
  · exact (List.takeWhile_prefix _).length_le
  · exact symbol_more_le c cs

end Reading

namespace Mode

lemma extent_le {mode : Mode} (hmode : mode ≠ normal) (cs : List Char) :
    (mode.extent cs).1 ≤ cs.length := by
  cases mode with
  | normal => exact absurd rfl hmode
  | tripleString => exact Extent.tripleString_le cs
  | blockComment depth pos => exact Extent.blockComment_le cs depth

/-- What is open before a line and closed on it does not see what comes after the line. -/
lemma extent_append_of_closed {mode : Mode} (hmode : mode ≠ normal) {cs : List Char}
    (hclosed : (mode.extent cs).2 = normal) (rest : List Char) :
    mode.extent (cs ++ rest) = mode.extent cs := by
  cases mode with
  | normal => exact absurd rfl hmode
  | tripleString => exact Extent.tripleString_append_of_closed hclosed rest
  | blockComment depth pos => exact Extent.blockComment_append_of_closed pos hclosed rest

section Inert

variable {mark : Char} (h : Inert mark) (mode : Mode)
include h

/-- **The last lexeme of a line ends before an inert character behind the line, or takes it in.** -/
lemma read_endsAt (c : Char) {cs : List Char} (hfull : cs.length ≤ (mode.read c cs).more) :
    Reading.EndsAt mark (mode.read c) cs := by
  by_cases hopen : (mode.read c cs).mode = normal
  · rcases eq_or_ne mode normal with rfl | hmode
    · exact Reading.plain_endsAt h c hfull hopen
    · have hle := extent_le hmode (c :: cs)
      have hclosed : (mode.extent (c :: cs)).2 = normal := by rwa [read_of_ne_normal hmode] at hopen
      refine Reading.endsAt_of_eq hopen ?_ hfull ?_
      · rw [read_of_ne_normal hmode]
        exact Nat.sub_le_of_le_add hle
      · rw [read_of_ne_normal hmode, read_of_ne_normal hmode, ← List.cons_append,
          extent_append_of_closed hmode hclosed]
  · exact (read_runsOn h mode c hopen).endsAt

/-- With nothing open an inert character is a blank. -/
lemma scan_singleton_mark : normal.scan [mark] = ([⟨.blank, [mark]⟩], normal) := by
  have hread : normal.read mark [] = ⟨.blank, 0, normal⟩ := by
    rw [read, Reading.plain_of_ne mark (by simpa using h.slash) (by simpa using h.quote),
      h.isDigit, h.isWordStart, Reading.symbol, h.symbol?_eq_none]
    rfl
  rw [scan_cons, hread, List.drop_nil, scan_nil, List.take_nil]

/-- **An inert character behind a line** is a blank of its own, or belongs to the last lexeme.  The
mode after it is the one after the line. -/
lemma scan_concat_mark {cs : List Char} (hne : cs ≠ [] ∨ mode = normal) :
    mode.scan (cs ++ [mark]) = ((mode.scan cs).1 ++ [⟨.blank, [mark]⟩], mode.after cs) ∨
      ∃ init last, (mode.scan cs).1 = init ++ [last] ∧
        mode.scan (cs ++ [mark]) =
          (init ++ [⟨last.kind, last.text ++ [mark]⟩], mode.after cs) := by
  fun_induction after mode cs
  case case1 mode =>
    obtain rfl : mode = normal := by simpa using hne
    left
    rw [List.nil_append, scan_singleton_mark h, scan_nil]
    rfl
  case case2 mode c cs r ih =>
    by_cases hlt : r.more < cs.length
    · -- the lexeme ends before the end of the line, and the others are scanned as before
      have hread := read_append_of_lt h mode c hlt []
      have hrest : cs.drop r.more ≠ [] := by
        rw [Ne, List.drop_eq_nil_iff]
        omega
      rw [List.cons_append, scan_cons, hread, scan_cons,
        List.take_append_of_le_length (Nat.le_of_lt hlt),
        List.drop_append_of_le_length (Nat.le_of_lt hlt)]
      rcases ih (.inl hrest) with hscan | ⟨init, last, hlexemes, hscan⟩
      · left
        rw [hscan]
        rfl
      · right
        refine ⟨⟨r.kind, c :: cs.take r.more⟩ :: init, last, ?_, ?_⟩
        · rw [hlexemes, List.cons_append]
        · rw [hscan]
          rfl
    · -- the lexeme is the last one
      have hfull := Nat.le_of_not_lt hlt
      have hnil : cs.drop r.more = [] := List.drop_eq_nil_of_le hfull
      have hlast : (mode.scan (c :: cs)).1 = [⟨r.kind, c :: cs⟩] := by
        rw [scan_cons, hnil, scan_nil, List.take_of_length_le hfull]
      rw [hnil, after_nil, hlast, List.cons_append, scan_cons]
      cases read_endsAt h mode c hfull with
      | before hmode happend =>
          left
          have hmode : r.mode = normal := hmode
          rw [happend, List.take_left, List.drop_left, scan_singleton_mark h, hmode]
          rfl
      | behind happend =>
          right
          have hlength : cs.length + 1 = (cs ++ [mark]).length := by simp
          refine ⟨[], ⟨r.kind, c :: cs⟩, rfl, ?_⟩
          rw [happend, hlength, List.take_length, List.drop_length, scan_nil]
          rfl

/-- What is open goes on over a line that has only an inert character. -/
lemma scan_singleton_of_ne_normal (hmode : mode ≠ normal) :
    mode.scan [mark] = ([⟨mode.openKind, [mark]⟩], mode) := by
  have hextent := extent_cons_mark h hmode []
  rw [extent_nil] at hextent
  rw [scan_cons, read_of_ne_normal hmode, hextent, List.drop_nil, scan_nil, List.take_nil]

/-- **An inert character behind a line does not change the mode after it.** -/
lemma after_concat_mark (cs : List Char) : mode.after (cs ++ [mark]) = mode.after cs := by
  by_cases hne : cs ≠ [] ∨ mode = normal
  · rcases scan_concat_mark h mode hne with hscan | ⟨init, last, -, hscan⟩
    · rw [← scan_snd, hscan]
    · rw [← scan_snd, hscan]
  · obtain ⟨hnil, hmode⟩ := not_or.mp hne
    obtain rfl := not_not.mp hnil
    rw [List.nil_append, ← scan_snd, scan_singleton_of_ne_normal h mode hmode, after_nil]

end Inert

end Mode

/-! ## Lines with and without returns -/

namespace Text

/-- The line as it is, or with a carriage return behind it. -/
def MayReturn (line line' : String) : Prop := line' = line ∨ line' = line ++ "\r"

/-- The lines with a carriage return behind each but the last. -/
def addReturns (lines : List String) : List String :=
  lines.dropLast.map (· ++ "\r") ++ lines.getLast?.toList

lemma addReturns_cons (line : String) {lines : List String} (h : lines ≠ []) :
    addReturns (line :: lines) = (line ++ "\r") :: addReturns lines := by
  rw [addReturns, List.dropLast_cons_of_ne_nil h, List.getLast?_cons_of_ne_nil h]
  rfl

lemma mayReturn_addReturns (lines : List String) :
    List.Forall₂ MayReturn lines (addReturns lines) := by
  induction lines with
  | nil => exact .nil
  | cons line lines ih =>
      by_cases hlast : lines = []
      · subst hlast
        exact .cons (.inl rfl) .nil
      · rw [addReturns_cons line hlast]
        exact .cons (.inr rfl) ih

/-- The characters with a carriage return before every line feed. -/
def returned (cs : List Char) : List Char :=
  cs.flatMap fun c => if c = '\n' then ['\r', '\n'] else [c]

/-- The text with a carriage return before every line feed. -/
def withReturns (text : String) : String := String.ofList (returned text.toList)

lemma returned_of_notMem {cs : List Char} (h : '\n' ∉ cs) : returned cs = cs := by
  induction cs with
  | nil => rfl
  | cons c cs ih =>
      obtain ⟨hc, hcs⟩ := not_or.mp (mt List.mem_cons.mpr h)
      rw [returned, List.flatMap_cons, if_neg (Ne.symm hc)]
      exact congrArg (c :: ·) (ih hcs)

lemma returned_append_newline {piece : List Char} (h : '\n' ∉ piece) (rest : List Char) :
    returned (piece ++ '\n' :: rest) = (piece ++ ['\r']) ++ '\n' :: returned rest := by
  have hpiece := returned_of_notMem h
  rw [returned] at hpiece
  rw [returned, List.flatMap_append, hpiece, List.append_assoc]
  rfl

/-- A carriage return before every line feed is one behind every piece but the last. -/
lemma map_splitOn_returned (cs : List Char) :
    (splitOn '\n' (returned cs)).map String.ofList =
      addReturns ((splitOn '\n' cs).map String.ofList) := by
  by_cases hfeed : '\n' ∈ cs
  · obtain ⟨piece, rest, hcs, hpiece⟩ := List.eq_append_cons_of_mem hfeed
    have hreturn : '\n' ∉ piece ++ ['\r'] := by simp [hpiece]
    have hne : (splitOn '\n' rest).map String.ofList ≠ [] := by simpa using splitOn_ne_nil '\n' rest
    rw [hcs, returned_append_newline hpiece, splitOn_append_sep hreturn, splitOn_append_sep hpiece,
      List.map_cons, List.map_cons, map_splitOn_returned rest, addReturns_cons _ hne,
      String.ofList_append]
  · rw [returned_of_notMem hfeed, splitOn_of_notMem hfeed]
    rfl
termination_by cs.length
decreasing_by rw [hcs, List.length_append, List.length_cons]; omega

lemma lines_withReturns (text : String) : lines (withReturns text) = addReturns (lines text) := by
  rw [lines, withReturns, String.toList_ofList]
  exact map_splitOn_returned text.toList

end Text

/-- **Lines lead to the same modes with returns and without.** -/
lemma ModeTable.trail_of_mayReturn (mode : Mode) {lines lines' : List String}
    (h : List.Forall₂ Text.MayReturn lines lines') : trail mode lines' = trail mode lines := by
  induction h generalizing mode with
  | nil => rfl
  | @cons line line' lines lines' hline _ ih =>
      have hexit : mode.exit line' = mode.exit line := by
        rcases hline with rfl | rfl
        · rfl
        · rw [Mode.exit, String.toList_append]
          exact Mode.after_concat_mark inert_return mode line.toList
      rw [trail_cons, trail_cons, hexit, ih]

namespace Document

lemma InStep.entries_of_mayReturn {d : Document} (hd : d.InStep) {lines : List String}
    (hlines : List.Forall₂ Text.MayReturn d.buffer.lines lines) :
    (ModeTable.ofSource lines).entries = d.table.entries := by
  rw [ModeTable.entries_ofSource, hd.entries]
  exact ModeTable.trail_of_mayReturn .normal hlines

lemma reload_spec (d : Document) (text : String) :
    (d.reload text).1.buffer.lines = Text.lines text ∧
      (d.reload text).1.table.entries = ModeTable.trail .normal (Text.lines text) :=
  ⟨rfl, ModeTable.entries_rescan d.table (Buffer.ofText text)⟩

/-- A document that takes its own text with returns has the lines with returns, and its modes. -/
lemma InStep.reload_withReturns {d : Document} (hd : d.InStep) (hpos : 0 < d.lineCount) :
    (d.reload (Text.withReturns d.text)).1.buffer.lines = Text.addReturns d.buffer.lines ∧
      (d.reload (Text.withReturns d.text)).1.table.entries = d.table.entries := by
  have hsplit : Text.lines d.text = d.buffer.lines :=
    Text.lines_unlines (List.ne_nil_of_length_pos hpos) hd.unbroken
  have hreload := d.reload_spec (Text.withReturns d.text)
  rw [Text.lines_withReturns, hsplit] at hreload
  have hmodes := ModeTable.trail_of_mayReturn .normal (Text.mayReturn_addReturns d.buffer.lines)
  exact ⟨hreload.1, hreload.2.trans (hmodes.trans hd.entries.symm)⟩

/-- **Line endings do not change what a line means.**  A carriage return behind a line leaves the
mode after it as it is.  The lexemes are those of the line and a blank of one byte, or those of the
line with the last one a byte longer; only of a line without characters that begins in the middle of
something is there no lexeme before, and the return is the next piece of that.  So lines with and
without returns lead to the same modes, and the modes of a document stay when all its line feeds
become carriage return and line feed. -/
theorem line_endings_keep_meaning :
    (∀ (mode : Mode) (line : String),
      mode.exit (line ++ "\r") = mode.exit line ∧
      (line ≠ "" ∨ mode = .normal →
        mode.lexemes (line ++ "\r") = mode.lexemes line ++ [⟨.blank, ['\r']⟩] ∨
        ∃ init last longer, mode.lexemes line = init ++ [last] ∧
          mode.lexemes (line ++ "\r") = init ++ [longer] ∧ longer.kind = last.kind ∧
          longer.text = last.text ++ ['\r'] ∧ longer.width = last.width + 1) ∧
      (line = "" → mode ≠ .normal → mode.lexemes (line ++ "\r") =
        [⟨if mode = .tripleString then .string else .comment, ['\r']⟩])) ∧
    ∀ (text : String) (calls : List Call),
      let d := (ofText text).run calls
      (∀ lines, List.Forall₂ Text.MayReturn d.buffer.lines lines →
        (ModeTable.ofSource lines).entries = d.table.entries) ∧
      (0 < d.lineCount →
        (d.reload (Text.withReturns d.text)).1.buffer.lines = Text.addReturns d.buffer.lines ∧
        (d.reload (Text.withReturns d.text)).1.table.entries = d.table.entries) := by
  constructor
  · intro mode line
    have htext : (line ++ "\r").toList = line.toList ++ ['\r'] := String.toList_append
    refine ⟨?_, ?_, ?_⟩
    · rw [Mode.exit, htext]
      exact Mode.after_concat_mark inert_return mode line.toList
    · intro hne
      have hne : line.toList ≠ [] ∨ mode = .normal := hne.imp_left (mt String.toList_eq_nil_iff.mp)
      simp only [Mode.lexemes, htext]
      rcases Mode.scan_concat_mark inert_return mode hne with hscan | ⟨init, last, hlast, hscan⟩
      · exact .inl (congrArg Prod.fst hscan)
      · refine .inr ⟨init, last, ⟨last.kind, last.text ++ ['\r']⟩, hlast, congrArg Prod.fst hscan,
          rfl, rfl, ?_⟩
        rw [Lexeme.width, Text.width_append]
        rfl
    · rintro rfl hmode
      rw [Mode.lexemes, htext, ← Mode.openKind_eq]
      exact congrArg Prod.fst (Mode.scan_singleton_of_ne_normal inert_return mode hmode)
  · intro text calls d
    have hd : d.InStep := (run_spec (inStep_ofText text) calls).1
    exact ⟨fun lines hlines => hd.entries_of_mayReturn hlines, hd.reload_withReturns⟩

/-- A string that is not closed and ends in a backslash takes the return in.  In a comment that is
put over three lines, the middle one without characters, all lines but the last get a return. -/
theorem line_endings_keep_meaning_of_open_string :
    let d := (ofText "/* x\n*/\ny").run [.replace ⟨1, 1, [""]⟩]
    ("\"a\\" ≠ "" ∨ Mode.normal = .normal) ∧
    Mode.normal.exit ("\"a\\" ++ "\r") = .normal ∧
    (∃ longer, Mode.normal.lexemes ("\"a\\" ++ "\r") = [longer] ∧ longer.kind = .string ∧
      longer.width = 4) ∧
    Mode.tripleString.lexemes ("" ++ "\r") = [⟨.string, ['\r']⟩] ∧
    0 < d.lineCount ∧
    (d.reload (Text.withReturns d.text)).1.buffer.lines = ["/* x\r", "\r", "*/\r", "y"] ∧
    (d.reload (Text.withReturns d.text)).1.table.entries = d.table.entries ∧
    List.Forall₂ Text.MayReturn d.buffer.lines ["/* x", "\r", "*/", "y\r"] ∧
    (ModeTable.ofSource ["/* x", "\r", "*/", "y\r"]).entries = d.table.entries := by
  intro d
  obtain ⟨hline, hdocument⟩ := line_endings_keep_meaning
  have hspec := hdocument "/* x\n*/\ny" [.replace ⟨1, 1, [""]⟩]
  have hd : (ofText "/* x\n*/\ny").run [.replace ⟨1, 1, [""]⟩] = d := rfl
  rw [hd] at hspec
  obtain ⟨hmixed, hall⟩ := hspec
  obtain ⟨hexit, hlexemes, -⟩ := hline .normal "\"a\\"
  obtain ⟨-, -, hempty⟩ := hline .tripleString ""
  have hopen : Mode.normal.lexemes "\"a\\" = [⟨.string, ['"', 'a', '\\']⟩] := by decide +kernel
  have hlines : d.buffer.lines = ["/* x", "", "*/", "y"] := by decide +kernel
  have hpos : 0 < d.lineCount := by decide +kernel
  have hreturns : List.Forall₂ Text.MayReturn d.buffer.lines ["/* x", "\r", "*/", "y\r"] := by
    rw [hlines]
    have hsecond : Text.MayReturn "" "\r" := .inr (by decide)
    have hlast : Text.MayReturn "y" "y\r" := .inr (by decide)
    exact .cons (.inl rfl) (.cons hsecond (.cons (.inl rfl) (.cons hlast .nil)))
  have hadded : Text.addReturns d.buffer.lines = ["/* x\r", "\r", "*/\r", "y"] := by
    rw [hlines]
    decide +kernel
  refine ⟨.inr rfl, hexit.trans (by decide +kernel), ?_, hempty rfl (by decide), hpos,
    (hall hpos).1.trans hadded, (hall hpos).2, hreturns, hmixed _ hreturns⟩
  rcases hlexemes (.inr rfl) with hblank | ⟨init, last, longer, hlast, hlonger, hkind, -, hwidth⟩
  · exact absurd hblank (by decide +kernel)
  · rw [hopen] at hlast
    have hsplit : [] ++ [(⟨.string, ['"', 'a', '\\']⟩ : Lexeme)] = init ++ [last] := hlast
    obtain ⟨rfl, hsame⟩ := List.append_inj' hsplit rfl
    obtain rfl := (List.cons.inj hsame).1
    exact ⟨longer, hlonger, hkind, hwidth⟩

end Document
end PonyEditor
