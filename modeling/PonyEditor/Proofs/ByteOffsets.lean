import Mathlib.Tactic.SplitIfs
import PonyEditor.ModeTable
import PonyEditor.Text.Buffer

/-!
# Where the bytes of a line are

A text and its lines hold the same, as long as there is a line and none holds a line feed
(`lines_unlines`).  The offset of a line is the number of bytes before it (`bytesBefore`), every
earlier line counted with its line feed.  The table of starts has these offsets for every text
within the limit (`start?_eq_bytesBefore`), and rebuilding it from a changed line on gives the
table of the new lines, within the limit or not (`rebuild_ofLines`, `rebuild_eq_full_rebuild`).

The span of a notice cuts exactly its lines out of the text (`span_ofLines_of_lt`).
-/

namespace PonyEditor
namespace Text

/-! ## Texts and lines -/

lemma splitOn_of_notMem {sep : Char} {piece : List Char} (h : sep ∉ piece) :
    splitOn sep piece = [piece] := by
  induction piece with
  | nil => rfl
  | cons c cs ih =>
      obtain ⟨hc, hcs⟩ := not_or.mp (mt List.mem_cons.mpr h)
      rw [splitOn, if_neg (Ne.symm hc), ih hcs]

lemma splitOn_append_sep {sep : Char} {piece : List Char} (h : sep ∉ piece) (rest : List Char) :
    splitOn sep (piece ++ sep :: rest) = piece :: splitOn sep rest := by
  induction piece with
  | nil => simp [splitOn]
  | cons c cs ih =>
      obtain ⟨hc, hcs⟩ := not_or.mp (mt List.mem_cons.mpr h)
      rw [List.cons_append, splitOn, if_neg (Ne.symm hc), ih hcs]

/-- The characters of lines that are each followed by a line feed. -/
def terminated (lines : List String) : List Char :=
  lines.flatMap fun line => line.toList ++ ['\n']

@[simp] lemma terminated_nil : terminated [] = [] := rfl

@[simp] lemma terminated_cons (line : String) (lines : List String) :
    terminated (line :: lines) = line.toList ++ '\n' :: terminated lines := by
  simp [terminated]

@[simp] lemma terminated_append (xs ys : List String) :
    terminated (xs ++ ys) = terminated xs ++ terminated ys := by
  simp [terminated]

lemma toList_unlines_cons (line : String) {rest : List String} (h : rest ≠ []) :
    (unlines (line :: rest)).toList = line.toList ++ '\n' :: (unlines rest).toList := by
  obtain ⟨next, rest, rfl⟩ := List.exists_cons_of_ne_nil h
  simp [unlines]

/-- Every line but the last is followed by a line feed. -/
lemma toList_unlines_append (xs : List String) {ys : List String} (h : ys ≠ []) :
    (unlines (xs ++ ys)).toList = terminated xs ++ (unlines ys).toList := by
  induction xs with
  | nil => rfl
  | cons line xs ih =>
      rw [List.cons_append, toList_unlines_cons line (by simp [h]), ih, terminated_cons,
        List.append_assoc, List.cons_append]

lemma toList_unlines_concat (init : List String) (last : String) :
    (unlines (init ++ [last])).toList = terminated init ++ last.toList :=
  toList_unlines_append init (List.cons_ne_nil last [])

lemma terminated_eq {ys : List String} (h : ys ≠ []) :
    terminated ys = (unlines ys).toList ++ ['\n'] := by
  rcases List.eq_nil_or_concat ys with rfl | ⟨init, last, rfl⟩
  · exact absurd rfl h
  · rw [List.concat_eq_append, toList_unlines_concat]
    simp

/-- **Splitting undoes joining**: a text has the lines it was made of. -/
lemma lines_unlines {ls : List String} (hne : ls ≠ []) (h : ∀ line ∈ ls, '\n' ∉ line.toList) :
    lines (unlines ls) = ls := by
  induction ls with
  | nil => exact absurd rfl hne
  | cons line rest ih =>
      have hline := h line List.mem_cons_self
      rcases rest with _ | ⟨next, rest⟩
      · simp [lines, unlines, splitOn_of_notMem hline]
      · have hrest := ih (List.cons_ne_nil _ _) fun l hl => h l (List.mem_cons_of_mem _ hl)
        rw [lines, toList_unlines_cons line (List.cons_ne_nil _ _), splitOn_append_sep hline,
          List.map_cons, String.ofList_toList]
        exact congrArg (line :: ·) hrest

lemma newline_notMem_of_mem_lines {text line : String} (h : line ∈ lines text) :
    '\n' ∉ line.toList := by
  obtain ⟨piece, hpiece, rfl⟩ := List.mem_map.mp h
  rw [String.toList_ofList]
  exact sep_notMem_of_mem_splitOn hpiece

/-- The lines of a text make it up again. -/
lemma unlines_lines (text : String) : unlines (lines text) = text := by
  apply String.toList_inj.mp
  rw [lines]
  generalize text.toList = cs
  fun_induction splitOn '\n' cs with
  | case1 => rfl
  | case2 cs ih =>
      rw [List.map_cons, toList_unlines_cons _ (by simp [splitOn_ne_nil]), ih]
      rfl
  | case3 c cs hc hnil => exact absurd hnil (splitOn_ne_nil _ _)
  | case4 c cs hc piece pieces hpieces ih =>
      rw [hpieces, List.map_cons] at ih
      rw [List.map_cons]
      cases pieces with
      | nil =>
          have hpiece : (String.ofList piece).toList = cs := ih
          rw [String.toList_ofList] at hpiece
          simp [unlines, hpiece]
      | cons next pieces =>
          rw [toList_unlines_cons _ (by simp), String.toList_ofList] at ih ⊢
          rw [← ih]
          rfl

/-! ## Starts of lines -/

/-- The number of bytes before a line. -/
def bytesBefore (lines : List String) (i : Nat) : Nat := width (terminated (lines.take i))

/-- Below the limit, the start of a line is the number of bytes before it. -/
lemma foldl_nextStart {start : Nat} {lines : List String}
    (h : start + width (terminated lines) ≤ Offset.limit) :
    lines.foldl nextStart start = start + width (terminated lines) := by
  induction lines generalizing start with
  | nil => rfl
  | cons line lines ih =>
      have hsize : '\n'.utf8Size = 1 := rfl
      simp only [terminated_cons, width_append, width_cons, hsize] at h
      have hlength : lineLength line = width line.toList := Offset.cap_of_le (by omega)
      have hnext : nextStart start line = start + width line.toList + 1 := by
        rw [nextStart, hlength, Offset.add_of_le (show start + width line.toList ≤ _ by omega),
          Offset.add_of_le (by omega)]
      rw [List.foldl_cons, hnext, ih (by omega)]
      simp only [terminated_cons, width_append, width_cons, hsize]
      omega

/-- Lines of a text, joined, with what comes before and after them. -/
lemma exists_toList_unlines (xs : List String) {ys : List String} (hys : ys ≠ [])
    (zs : List String) :
    ∃ after, (unlines (xs ++ ys ++ zs)).toList =
      terminated xs ++ (unlines ys).toList ++ after := by
  rcases zs with _ | ⟨z, zs⟩
  · exact ⟨[], by rw [List.append_nil, toList_unlines_append xs hys, List.append_nil]⟩
  · refine ⟨'\n' :: (unlines (z :: zs)).toList, ?_⟩
    rw [toList_unlines_append _ (List.cons_ne_nil _ _), terminated_append, terminated_eq hys]
    simp

/-- A line ends within the text. -/
lemma bytesBefore_add_le {lines : List String} {i : Nat} (hi : i < lines.length) :
    bytesBefore lines i + width lines[i].toList ≤ width (unlines lines).toList := by
  obtain ⟨after, htext⟩ := exists_toList_unlines (lines.take i) (List.cons_ne_nil lines[i] [])
    (lines.drop (i + 1))
  rw [List.append_assoc, List.singleton_append, ← List.drop_eq_getElem_cons hi,
    List.take_append_drop] at htext
  rw [htext, width_append, width_append, bytesBefore]
  exact Nat.le_add_right _ _

/-- **In a text within the limit a line starts after the bytes before it.** -/
lemma start?_eq_bytesBefore {lines : List String} {i : Nat} (hi : i < lines.length)
    (hlimit : width (unlines lines).toList ≤ Offset.limit) :
    start? lines i = some (bytesBefore lines i) := by
  have hle := bytesBefore_add_le hi
  rw [start?, if_pos hi, foldl_nextStart (by rw [bytesBefore] at hle; omega), Nat.zero_add,
    bytesBefore]

end Text

namespace Starts

/-- A start is decided by the lines before it, never by its own. -/
lemma offsetsFrom_singleton (start : Nat) (line : String) : offsetsFrom start [line] = [start] :=
  rfl

lemma offsetsFrom_append (start : Nat) (xs ys : List String) :
    offsetsFrom start (xs ++ ys) =
      offsetsFrom start xs ++ offsetsFrom (xs.foldl Text.nextStart start) ys := by
  induction xs generalizing start with
  | nil => rfl
  | cons line xs ih => simp [offsetsFrom, ih]

lemma take_offsetsFrom (start : Nat) (lines : List String) (n : Nat) :
    (offsetsFrom start lines).take n = offsetsFrom start (lines.take n) := by
  induction lines generalizing start n with
  | nil => simp [offsetsFrom]
  | cons line lines ih =>
      cases n with
      | zero => rfl
      | succ n => simp [offsetsFrom, ih]

lemma size_ofLines (lines : List String) : (ofLines lines).size = lines.length := by
  simp [size, ofLines]

/-- The table answers what adding up would. -/
lemma get?_ofLines (lines : List String) (i : Nat) :
    (ofLines lines).get? i = Text.start? lines i := by
  rw [get?, ofLines, List.getElem?_toArray, Text.start?]
  split_ifs with hi
  · have hdrop : lines.drop i = lines[i] :: lines.drop (i + 1) := List.drop_eq_getElem_cons hi
    have htable := offsetsFrom_append 0 (lines.take i) (lines.drop i)
    rw [List.take_append_drop] at htable
    have hle : (offsetsFrom 0 (lines.take i)).length ≤ i := by
      rw [length_offsetsFrom]
      exact List.length_take_le i lines
    rw [htable, List.getElem?_append_right hle, length_offsetsFrom, hdrop]
    simp [offsetsFrom, Nat.min_eq_left (Nat.le_of_lt hi)]
  · exact List.getElem?_eq_none (by rw [length_offsetsFrom]; omega)

/-- **Rebuilding gives the table of the new lines**, if they agree with the old ones on every line
whose end decides a start that is kept. -/
lemma rebuild_ofLines {old new : List String} {first : Nat}
    (hagree : ∀ i, i + 1 < min (min first new.length) old.length → old[i]? = new[i]?) :
    (ofLines old).rebuild new first = ofLines new := by
  have hsize : (ofLines old).offsets.size = old.length := size_ofLines old
  rw [rebuild, hsize]
  generalize hkept : min (min first new.length) old.length = kept at hagree
  cases kept with
  | zero => simp [ofLines]
  | succ last =>
      have hold : last < old.length := by omega
      have hnew : last < new.length := by omega
      -- the starts kept are decided by the lines before `last`, on which both agree
      have htake : old.take last = new.take last := by
        apply List.ext_getElem?
        intro i
        rw [List.getElem?_take, List.getElem?_take]
        split_ifs with hi
        · exact hagree i (by omega)
        · rfl
      have hstart : (ofLines old).offsets[last]? =
          some ((new.take last).foldl Text.nextStart 0) := by
        have hget := get?_ofLines old last
        rw [Text.start?, if_pos hold, htake] at hget
        exact hget
      have hnext : (new.take (last + 1)).foldl Text.nextStart 0 =
          Text.nextStart ((new.take last).foldl Text.nextStart 0) new[last] := by
        rw [List.take_succ_eq_append_getElem hnew, List.foldl_append]
        rfl
      have hkeep : (offsetsFrom 0 old).take (last + 1) = offsetsFrom 0 (new.take (last + 1)) := by
        rw [take_offsetsFrom, List.take_succ_eq_append_getElem hold,
          List.take_succ_eq_append_getElem hnew, offsetsFrom_append, offsetsFrom_append, htake,
          offsetsFrom_singleton, offsetsFrom_singleton]
      have hsplit := offsetsFrom_append 0 (new.take (last + 1)) (new.drop (last + 1))
      rw [List.take_append_drop] at hsplit
      simp only [hstart, List.getElem?_eq_getElem hnew, Option.getD_some, ← hnext]
      rw [ofLines, ofLines, hsplit, ← hkeep]
      simp

/-- Rebuilding from the first line on keeps nothing of the table there was. -/
lemma rebuild_zero (t : Starts) (lines : List String) : t.rebuild lines 0 = ofLines lines := by
  simp [rebuild, ofLines]

/-- The starts before the line that a table is rebuilt from are those it had, whatever they are. -/
lemma take_offsets_rebuild (t : Starts) (lines : List String) (first : Nat) :
    let kept := min (min first lines.length) t.offsets.size
    (t.rebuild lines first).offsets.take kept = t.offsets.take kept := by
  intro kept
  have hlength : (t.offsets.toList.take kept).length = kept := by
    rw [List.length_take]
    exact Nat.min_eq_left (Nat.min_le_right _ _)
  apply Array.toList_inj.mp
  simp only [rebuild, Array.take_eq_extract, Array.toList_extract, Array.toList_append,
    List.extract_eq_take_drop, List.drop_zero, Nat.sub_zero]
  rw [List.take_append_of_le_length (Nat.le_of_eq hlength.symm), List.take_take, Nat.min_self]

/-- **A table rebuilt in part is the table rebuilt in full.**  As many starts are kept as lie before
the given line, as there are new lines, and as the table of the old lines has.  If the old and the
new lines agree before the last line whose start is kept, the rebuilt table is that of the new
lines, and so is any table rebuilt from the first line on.  It has the starts that adding up the
lengths of the new lines gives, those at the limit included, and the starts kept are the ones the
table had. -/
theorem rebuild_eq_full_rebuild {old new : List String} {first kept : Nat}
    (hkept : kept = min (min first new.length) old.length)
    (hagree : ∀ i < kept - 1, old[i]? = new[i]?) :
    (ofLines old).rebuild new first = ofLines new ∧
    (∀ t : Starts, t.rebuild new 0 = ofLines new) ∧
    (∀ i, ((ofLines old).rebuild new first).get? i = Text.start? new i) ∧
    ((ofLines old).rebuild new first).offsets.take kept = (ofLines old).offsets.take kept := by
  subst hkept
  have hrebuild : (ofLines old).rebuild new first = ofLines new :=
    rebuild_ofLines fun i hi => hagree i (Nat.lt_sub_of_add_lt hi)
  have hsize : (ofLines old).offsets.size = old.length := size_ofLines old
  have hstarts := take_offsets_rebuild (ofLines old) new first
  rw [hsize] at hstarts
  refine ⟨hrebuild, fun t => t.rebuild_zero new, fun i => ?_, hstarts⟩
  rw [hrebuild, get?_ofLines]

/-- Lines are cut off behind one that changes, and its start is kept.  Then a table that is too
short is asked to keep more than it has, and its one start stays, though its one line changes. -/
theorem rebuild_eq_full_rebuild_behind_change :
    (∀ i < 2 - 1, ["é", "b", "ccc"][i]? = ["é", "bb"][i]?) ∧
    (ofLines ["é", "b", "ccc"]).rebuild ["é", "bb"] 7 = ofLines ["é", "bb"] ∧
    ((ofLines ["é", "b", "ccc"]).rebuild ["é", "bb"] 7).offsets.take 2 =
      (ofLines ["é", "b", "ccc"]).offsets.take 2 ∧
    (ofLines ["é", "bb"]).offsets = #[0, 3] ∧
    (∀ i < 1 - 1, ["a"][i]? = ["xy", "", "c"][i]?) ∧
    (ofLines ["a"]).rebuild ["xy", "", "c"] 2 = ofLines ["xy", "", "c"] ∧
    (ofLines ["xy", "", "c"]).offsets = #[0, 3, 4] := by
  have hagree : ∀ i < 2 - 1, ["é", "b", "ccc"][i]? = ["é", "bb"][i]? := by decide
  have hnothing : ∀ i < 1 - 1, ["a"][i]? = ["xy", "", "c"][i]? := nofun
  have hcut : 2 = min (min 7 ["é", "bb"].length) ["é", "b", "ccc"].length := rfl
  have hshort : 1 = min (min 2 ["xy", "", "c"].length) ["a"].length := rfl
  obtain ⟨hshorter, -, -, hkept⟩ := rebuild_eq_full_rebuild hcut hagree
  obtain ⟨hlonger, -⟩ := rebuild_eq_full_rebuild hshort hnothing
  exact ⟨hagree, hshorter, hkept, by decide +kernel, hnothing, hlonger, by decide +kernel⟩

end Starts

namespace Buffer

/-- A buffer whose table is that of its lines still has it after a replacement. -/
lemma replace_ofLines (old : List String) (start stop : Nat) (new : List String) :
    (ofLines old).replace start stop new = ofLines (old.take start ++ new ++ old.drop stop) := by
  have hstarts : (Starts.ofLines old).rebuild (old.take start ++ new ++ old.drop stop) start =
      Starts.ofLines (old.take start ++ new ++ old.drop stop) := by
    apply Starts.rebuild_ofLines
    intro i hi
    have hstart : i < start := by omega
    rw [List.append_assoc, List.getElem?_append_left (by simp; omega),
      List.getElem?_take_of_lt hstart]
  simp only [replace, ofLines, hstarts]

end Buffer

/-! ## Spans of notices -/

namespace Text

lemma slice?_append {text : String} {before inside after : List Char}
    (h : text.toList = before ++ inside ++ after) :
    slice? text (width before) (width before + width inside) = some (String.ofList inside) := by
  have hbefore := splitAt?_width_append before (inside ++ after)
  have hinside := splitAt?_width_append inside after
  rw [slice?, if_neg (by omega), h, List.append_assoc, hbefore]
  simp [hinside]

lemma take_append_drop_take {lines : List String} {start stop : Nat} (h : start ≤ stop) :
    lines.take start ++ (lines.take stop).drop start = lines.take stop := by
  have hsplit := List.take_append_drop start (lines.take stop)
  rwa [List.take_take, Nat.min_eq_left h] at hsplit

/-- The lines from `start` up to `last` end where the last of them does. -/
lemma bytesBefore_add_unlines {lines : List String} {start last : Nat} (hstart : start ≤ last)
    (hlast : last < lines.length) :
    bytesBefore lines start + width (unlines ((lines.take (last + 1)).drop start)).toList =
      bytesBefore lines last + width lines[last].toList := by
  have hdrop : (lines.take (last + 1)).drop start =
      (lines.take last).drop start ++ [lines[last]] := by
    rw [List.take_succ_eq_append_getElem hlast, List.drop_append_of_le_length (by simp; omega)]
  have hwidth := congrArg (fun before => width (terminated before))
    (take_append_drop_take hstart : lines.take start ++ _ = _)
  simp only [terminated_append, width_append] at hwidth
  rw [hdrop, toList_unlines_concat, width_append, bytesBefore, bytesBefore]
  omega

end Text

namespace Notice

variable {lines : List String}

/-- In a text within the limit, the end of a line is where its bytes end. -/
lemma stop?_eq {i : Nat} (hi : i < lines.length)
    (hlimit : Text.width (Text.unlines lines).toList ≤ Offset.limit) :
    Lined.stop? (Buffer.ofLines lines) i =
      some (Text.bytesBefore lines i + Text.width lines[i].toList) := by
  have hle := Text.bytesBefore_add_le hi
  have hstart : Lined.start? (Buffer.ofLines lines) i = some (Text.bytesBefore lines i) :=
    (Starts.get?_ofLines lines i).trans (Text.start?_eq_bytesBefore hi hlimit)
  have hline : Lined.line (Buffer.ofLines lines) i = lines[i] := by
    rw [Lined.line, Lined.line?]
    exact congrArg (Option.getD · "") (List.getElem?_eq_getElem hi)
  have hlength : Text.lineLength lines[i] = Text.width lines[i].toList :=
    Offset.cap_of_le (by omega)
  rw [Lined.stop?, hstart, hline, hlength, Option.map_some, Offset.add_of_le (by omega)]

lemma endOfText?_getD (hlimit : Text.width (Text.unlines lines).toList ≤ Offset.limit) :
    (endOfText? (Buffer.ofLines lines)).getD 0 = Text.width (Text.unlines lines).toList := by
  rcases List.eq_nil_or_concat lines with rfl | ⟨init, last, rfl⟩
  · rfl
  · have hcount : Lined.count (Buffer.ofLines (init.concat last)) = init.length + 1 :=
      List.length_concat
    have hlast : init.length < (init.concat last).length := by simp
    simp only [endOfText?, hcount, stop?_eq hlast hlimit, Option.getD_some, Text.bytesBefore]
    simp [List.concat_eq_append, Text.toList_unlines_concat]

/-- **The span of a notice for some lines cuts them out of the text**: it starts after the bytes
before them, and what it holds is those lines, joined. -/
lemma span_ofLines_of_lt {r : LineRange} (hr : r.start < r.stop) (hstop : r.stop ≤ lines.length)
    (hlimit : Text.width (Text.unlines lines).toList ≤ Offset.limit) :
    (ofLines (Buffer.ofLines lines) r).span.start = Text.bytesBefore lines r.start ∧
      Text.slice? (Text.unlines lines) (ofLines (Buffer.ofLines lines) r).span.start
          (ofLines (Buffer.ofLines lines) r).span.stop =
        some (Text.unlines ((lines.take r.stop).drop r.start)) := by
  obtain ⟨start, stop⟩ := r
  obtain ⟨last, rfl⟩ : ∃ last, stop = last + 1 := ⟨stop - 1, by simp only at hr; omega⟩
  simp only at hr hstop
  have hstart : Lined.start? (Buffer.ofLines lines) start = some (Text.bytesBefore lines start) :=
    (Starts.get?_ofLines lines start).trans (Text.start?_eq_bytesBefore (by omega) hlimit)
  have hspan : (ofLines (Buffer.ofLines lines) ⟨start, last + 1⟩).span =
      ⟨Text.bytesBefore lines start, Text.bytesBefore lines start +
        Text.width (Text.unlines ((lines.take (last + 1)).drop start)).toList⟩ := by
    have hempty : ¬ (LineRange.isEmpty ⟨start, last + 1⟩ = true) := by
      simp [LineRange.isEmpty]
      omega
    rw [ofLines, if_neg hempty, hstart, Nat.add_sub_cancel, stop?_eq hstop hlimit,
      Text.bytesBefore_add_unlines (by omega) hstop]
    rfl
  rw [hspan]
  refine ⟨rfl, ?_⟩
  have hne : (lines.take (last + 1)).drop start ≠ [] :=
    List.ne_nil_of_length_pos (by simp; omega)
  obtain ⟨after, htext⟩ := Text.exists_toList_unlines (lines.take start) hne
    (lines.drop (last + 1))
  rw [Text.take_append_drop_take (by omega), List.take_append_drop] at htext
  have hslice := Text.slice?_append htext
  rwa [String.ofList_toList] at hslice

/-- The span of a notice for no line is the point where the line would start, or the end of the
text. -/
lemma span_ofLines_of_le {r : LineRange} (hr : r.stop ≤ r.start)
    (hlimit : Text.width (Text.unlines lines).toList ≤ Offset.limit) :
    (ofLines (Buffer.ofLines lines) r).span = Span.point
      (if r.start < lines.length then Text.bytesBefore lines r.start
        else Text.width (Text.unlines lines).toList) := by
  have hempty : r.isEmpty = true := by simpa [LineRange.isEmpty] using hr
  have hget : Lined.start? (Buffer.ofLines lines) r.start = Text.start? lines r.start :=
    Starts.get?_ofLines lines r.start
  rw [ofLines, if_pos hempty, hget]
  split_ifs with hstart
  · rw [Text.start?_eq_bytesBefore hstart hlimit]
    rfl
  · have hnone : Text.start? lines r.start = none := by rw [Text.start?, if_neg hstart]
    rw [hnone, Option.none_or, endOfText?_getD hlimit]

end Notice
end PonyEditor
