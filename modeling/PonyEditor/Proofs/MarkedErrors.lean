import PonyEditor.Command.Answer
import PonyEditor.Command.Folder
import PonyEditor.Proofs.CompilerOutput
import PonyEditor.Proofs.TokenSlices

/-!
# Errors where the compiler put them

A compiler reports an error by line and column, counted from one.  The command that lists the
errors of a file reads them, counted from zero, takes a column past the end of its line to that end,
turns the place into an offset and the offset into a span to mark; for the listing it finds the line
of that offset again and counts its column from one.  Within the limit of offsets none of these
steps moves the error: the span marked begins at the column reported (`View.exists_marks`), and the
place printed is that place (`Command.place_eq`).

What is printed for an error has no line feed in it, since the text of the span is escaped
(`Text.newline_notMem_escaped`) and a message is part of a line
(`Diagnostic.newline_notMem_message`).  So one line stands for one error.
-/

namespace PonyEditor

/-! ## Spans to mark -/

namespace View

variable {σ : Type} [Lined σ]

/-- A span marks a column of line `i`, which is `line`.  It begins at the column, or at the end of
the line if that comes first.  A token of the line that begins there is marked as a whole, and else
one byte.  The span has a byte, and none of the next line. -/
structure Marks (v : View σ) (i column : Nat) (line : String) (span : Span) : Prop where
  start : span.start = Text.bytesBefore (Lined.lines v.source) i + min column line.utf8ByteSize
  token : ∀ t ∈ v.tokensOf i, t.span.start = span.start → span = t.span
  byte : (∀ t ∈ v.tokensOf i, t.span.start ≠ span.start) → span.stop = span.start + 1
  nonempty : span.start < span.stop
  inside : span.stop ≤ Text.bytesBefore (Lined.lines v.source) (i + 1)

lemma spanAt?_eq_none {v : View σ} {i : Nat} (hi : v.lineCount ≤ i) (column : Nat) :
    v.spanAt? i column = none := by
  have hline : v.line? i = none := List.getElem?_eq_none hi
  simp [spanAt?, offsetAt?, hline]

variable {v : View σ} (hv : Lined.Exact v.source)
  (hlimit : Text.width (Text.unlines (Lined.lines v.source)).toList < Offset.limit)
include hv hlimit

/-- Tokens of a line that begin at one offset are one token. -/
lemma eq_of_start_eq {i : Nat} {s t : Token} (hs : s ∈ v.tokensOf i) (ht : t ∈ v.tokensOf i)
    (hstart : s.span.start = t.span.start) : s = t := by
  have hle := Nat.le_of_lt hlimit
  have htiles := tiles_tokensOf hv hle (lt_lineCount_of_mem_tokensOf hs)
  have hs' := (tokenAt?_eq_some_iff hv).mpr
    ⟨hs, Span.contains_iff.mpr ⟨Nat.le_refl _, htiles.nonempty hs⟩⟩
  have ht' := (tokenAt?_eq_some_iff hv).mpr
    ⟨ht, Span.contains_iff.mpr ⟨Nat.le_refl _, htiles.nonempty ht⟩⟩
  rw [hstart, ht'] at hs'
  exact (Prod.mk.inj (Option.some.inj hs')).2.symm

/-- **Every column of every line has a span that marks it.** -/
lemma exists_marks {i : Nat} {line : String} (hline : v.line? i = some line) (column : Nat) :
    ∃ span, v.spanAt? i column = some span ∧ v.Marks i column line span := by
  have hle := Nat.le_of_lt hlimit
  obtain ⟨hi, rfl⟩ := List.getElem?_eq_some_iff.mp hline
  have hend := Text.bytesBefore_add_le hi
  have hnext := Text.bytesBefore_lt (Nat.lt_add_one i) hi
  have hoffset := offsetAt?_eq hv hle hi column
  rw [← Text.utf8ByteSize_eq] at hoffset hend hnext
  generalize hstart : Text.bytesBefore (Lined.lines v.source) i +
    min column (Lined.lines v.source)[i].utf8ByteSize = offset at hoffset
  simp only [spanAt?, hoffset, Option.bind_eq_bind, Option.bind_some]
  cases hfind : (v.tokensOf i).find? fun t => t.span.start == offset with
  | some t =>
      have ht : t ∈ v.tokensOf i := List.mem_of_find?_eq_some hfind
      have hbegins : t.span.start = offset := by
        simpa using List.find?_some (p := fun t : Token => t.span.start == offset) hfind
      have htiles := tiles_tokensOf hv hle hi
      obtain ⟨-, -, hstop⟩ := htiles.inOrder.bounds ht
      rw [← Text.utf8ByteSize_eq] at hstop
      refine ⟨t.span, rfl, hbegins.trans hstart.symm, ?_, ?_, htiles.nonempty ht, by omega⟩
      · intro s hs hsame
        rw [eq_of_start_eq hv hlimit hs ht hsame]
      · intro hnone
        exact absurd rfl (hnone t ht)
  | none =>
      have hnone : ∀ t ∈ v.tokensOf i, t.span.start ≠ offset := by
        simpa using List.find?_eq_none.mp hfind
      have hstop : (Span.ofLength offset 1).stop = offset + 1 := Offset.add_of_le (by omega)
      refine ⟨Span.ofLength offset 1, rfl, hstart.symm, ?_, fun _ => hstop, ?_, ?_⟩
      · intro t ht hsame
        exact absurd hsame (hnone t ht)
      · rw [hstop]
        exact Nat.lt_add_one offset
      · rw [hstop]
        omega

end View

/-! ## Text on one line -/

namespace Text

lemma newline_notMem_toDigits {base : Nat} (hbase : 1 < base) (hle : base ≤ 16) (n : Nat) :
    '\n' ∉ Nat.toDigits base n := by
  have hdigit : ∀ d < 16, '\n' ≠ Nat.digitChar d := by decide
  induction n using Nat.strong_induction_on with
  | _ n ih =>
      rw [Nat.toDigits_eq_if hbase]
      split
      next hlt => simp [hdigit n (by omega)]
      next hge =>
        have hlast : n % base < base := Nat.mod_lt n (by omega)
        have hfront : n / base < n := Nat.div_lt_self (by omega) hbase
        simp [hdigit (n % base) (by omega), ih (n / base) hfront]

lemma newline_notMem_escapeChar (leading : Bool) (c : Char) : '\n' ∉ escapeChar leading c := by
  have hcode : '\n' ∉ codeEscape c := by
    simp only [codeEscape, List.mem_append, not_or]
    exact ⟨⟨by decide, newline_notMem_toDigits (by decide) (by decide) _⟩, by decide⟩
  rw [escapeChar]
  split_ifs with hnull htab hreturn hfeed hquoted hextender hunprintable
  · decide
  · decide
  · decide
  · decide
  · simpa using Ne.symm hfeed
  · exact hcode
  · exact hcode
  · simpa using Ne.symm hfeed

/-- Escaped text is on one line. -/
lemma newline_notMem_escaped (text : String) : '\n' ∉ (escaped text).toList := by
  rw [escaped]
  split
  · decide
  · rw [String.toList_ofList, List.mem_append, List.mem_flatMap, not_or]
    refine ⟨newline_notMem_escapeChar _ _, ?_⟩
    rintro ⟨c, -, hc⟩
    exact newline_notMem_escapeChar _ _ hc

end Text

/-- The message of a diagnostic that was read is part of a line. -/
lemma Diagnostic.newline_notMem_message {output : String} {d : Diagnostic}
    (h : d ∈ ofOutput output) : '\n' ∉ d.message.toList := by
  obtain ⟨line, -, hread⟩ := List.mem_filterMap.mp h
  have hfeed : '\n' ∉ line.toList := by
    intro hfeed
    rw [read?, if_pos (by simpa using hfeed)] at hread
    cases hread
  cases hsplit : split? line.toList with
  | none =>
      rw [read?, if_neg (by simpa using hfeed), hsplit] at hread
      cases hread
  | some found =>
      obtain ⟨stem, tail⟩ := found
      obtain ⟨-, -, -, hmessage⟩ := (read?_eq_some_iff_of_split? hfeed hsplit).mp hread
      obtain ⟨⟨-, -, hline⟩, -⟩ := split?_eq_some_iff.mp hsplit
      rw [hline, Tail.chars, List.mem_append, List.mem_append, not_or, not_or] at hfeed
      rw [hmessage]
      exact hfeed.2.2

/-! ## The listing -/

namespace Command

/-- An offset is printed as the line that holds it and the byte of the line that it is at. -/
lemma place_eq {d : Document} (hd : d.InStep)
    (hlimit : Text.width (Text.unlines d.buffer.lines).toList < Offset.limit) {i offset : Nat}
    (h : Text.Holds d.buffer.lines i offset) :
    place d offset =
      toString (i + 1) ++ ":" ++ toString (offset - Text.bytesBefore d.buffer.lines i + 1) := by
  have hle := Nat.le_of_lt hlimit
  have hline : d.buffer.lineAt? offset = some i :=
    (View.lineAt?_eq_some_iff (v := d.view) hd.exact hle).mpr h
  have hstart : d.buffer.starts.get? i = some (Text.bytesBefore d.buffer.lines i) :=
    View.start?_eq (v := d.view) hd.exact hle h.lt_length
  simp only [place, hline, hstart, Option.getD_some]

/-- **A span is printed where the column is that it marks.** -/
lemma place_of_marks {d : Document} (hd : d.InStep)
    (hlimit : Text.width (Text.unlines d.buffer.lines).toList < Offset.limit) {i column : Nat}
    {line : String} (hline : d.buffer.lines[i]? = some line) {span : Span}
    (hmarks : d.view.Marks i column line span) :
    place d span.start =
      toString (i + 1) ++ ":" ++ toString (min (column + 1) (line.utf8ByteSize + 1)) := by
  have hstart : span.start =
      Text.bytesBefore d.buffer.lines i + min column line.utf8ByteSize := hmarks.start
  have hsize := Text.utf8ByteSize_eq line
  have hholds : Text.Holds d.buffer.lines i span.start := ⟨line, hline, by omega, by omega⟩
  rw [place_eq hd hlimit hholds, hstart, Nat.add_sub_cancel_left, Nat.add_min_add_right]

/-- What is printed for a diagnostic in a text, which has its line: the place it reports, with the
column taken to the end of the line if it is past it, and the length and the text of the span that
marks the place, and the message. -/
def Prints (text : String) (d : Diagnostic) (printed : String) : Prop :=
  ∃ line span, (Text.lines text)[d.line]? = some line ∧
    (Document.ofText text).view.Marks d.line d.column line span ∧
    printed = toString (d.line + 1) ++ ":" ++
      toString (min (d.column + 1) (line.utf8ByteSize + 1)) ++ " " ++ toString span.length ++
      " " ++ excerpt text span ++ ": " ++ d.message

lemma Prints.newline_notMem {text printed output : String} {d : Diagnostic}
    (h : Prints text d printed) (hd : d ∈ Diagnostic.ofOutput output) :
    '\n' ∉ printed.toList := by
  obtain ⟨line, span, -, -, rfl⟩ := h
  have hnumber (n : Nat) : '\n' ∉ Nat.toDigits 10 n :=
    Text.newline_notMem_toDigits (by decide) (by decide) n
  simp [hnumber, Text.newline_notMem_escaped, excerpt, Diagnostic.newline_notMem_message hd]

lemma forall₂_filterMap {α β γ : Type} {f : α → Option β} {g : β → γ} {p : α → Bool}
    {R : α → γ → Prop} {xs : List α}
    (hsome : ∀ x ∈ xs, p x = true → ∃ b, f x = some b ∧ R x (g b))
    (hnone : ∀ x ∈ xs, p x = false → f x = none) :
    List.Forall₂ R (xs.filter p) ((xs.filterMap f).map g) := by
  induction xs with
  | nil => exact .nil
  | cons x xs ih =>
      have hrest := ih (fun y hy => hsome y (List.mem_cons_of_mem x hy))
        fun y hy => hnone y (List.mem_cons_of_mem x hy)
      cases hp : p x with
      | true =>
          obtain ⟨b, hb, hR⟩ := hsome x List.mem_cons_self hp
          rw [List.filter_cons_of_pos hp, List.filterMap_cons_some hb]
          exact .cons hR hrest
      | false =>
          rw [List.filter_cons_of_neg (by simp [hp]),
            List.filterMap_cons_none (hnone x List.mem_cons_self hp)]
          exact hrest

/-- **Each diagnostic whose line is in the text is printed, in order, where it reports.** -/
lemma exists_underlineListing_eq {text : String} (hlimit : text.utf8ByteSize < Offset.limit)
    (ds : List Diagnostic) :
    ∃ lines, underlineListing text ds = lines ++ [toString lines.length ++ " errors"] ∧
      List.Forall₂ (Prints text) (ds.filter fun d => d.line < (Text.lines text).length) lines := by
  let shown := (Document.ofText text).setReport ⟨ds⟩
  have hd : shown.InStep := (Document.call_spec (Document.inStep_ofText text) (.setReport ⟨ds⟩)).1
  have hlimit' : Text.width (Text.unlines shown.buffer.lines).toList < Offset.limit := by
    rw [Text.utf8ByteSize_eq, ← Text.unlines_lines text] at hlimit
    exact hlimit
  refine ⟨_, rfl, forall₂_filterMap ?_ ?_⟩
  · intro d _ hline
    have hget := List.getElem?_eq_getElem (of_decide_eq_true hline)
    obtain ⟨span, hspan, hmarks⟩ :=
      View.exists_marks (v := shown.view) hd.exact hlimit' hget d.column
    refine ⟨⟨span, d.message⟩, congrArg (Option.map _) hspan, _, span, hget, hmarks, ?_⟩
    rw [place_of_marks hd hlimit' hget hmarks]
  · intro d _ hline
    have hnone := View.spanAt?_eq_none (v := shown.view)
      (Nat.le_of_not_lt (of_decide_eq_false hline)) d.column
    exact congrArg (Option.map _) hnone

/-! ## The command -/

section

variable (disk : Disk Id)

lemma inFile_run (file : String) (ds : List Diagnostic) :
    (inFile disk file ds).run =
      ds.filter fun d => (pathKey disk d.file).run = (pathKey disk file).run := by
  simp only [inFile, Id.run_bind, List.idRun_mapM, Id.run_pure, List.filter_map, List.map_map]
  exact List.map_id _

/-- The answer to a command line that asks for the errors of a file. -/
lemma answer_underlines {args : List String} {file output text out : String}
    (hrequest : Request.ofArgs args = .ok (.underlines file output))
    (htext : disk.read file = .ok text) (hout : disk.read output = .ok out) :
    (answer disk args).run =
      { out := printed (underlineListing text
          ((Diagnostic.ofOutput out).filter fun d =>
            (pathKey disk d.file).run = (pathKey disk file).run)) } := by
  rw [← inFile_run]
  simp only [answer, hrequest, Request.lines, fetch, htext, hout]
  rfl

end

/-- **Errors are marked where the compiler put them.**  For a file whose text is within the limit
and any compiler output, the command that lists the errors of the file succeeds.  It prints a line
for each diagnostic of the output that is in the file, by the paths that tell files apart, and whose
line the file has, in the order of the output; then it prints how many they are.  Each is printed
with the place it reports, and the span that marks that place (`Prints`). -/
theorem errors_marked_where_reported (disk : Disk Id) (args : List String)
    {file output text out : String}
    (hrequest : Request.ofArgs args = .ok (.underlines file output))
    (htext : disk.read file = .ok text) (hout : disk.read output = .ok out)
    (hlimit : text.utf8ByteSize < Offset.limit) :
    let shown := (Diagnostic.ofOutput out).filter fun d =>
      (pathKey disk d.file).run = (pathKey disk file).run ∧ d.line < (Text.lines text).length
    ∃ lines, (answer disk args).run =
        { out := printed (lines ++ [toString shown.length ++ " errors"]), err := "", status := 0 } ∧
      List.Forall₂ (Prints text) shown lines ∧ ∀ line ∈ lines, '\n' ∉ line.toList := by
  intro shown
  obtain ⟨lines, hlisting, hprints⟩ := exists_underlineListing_eq hlimit
    ((Diagnostic.ofOutput out).filter fun d =>
      (pathKey disk d.file).run = (pathKey disk file).run)
  have hshown : List.Forall₂ (Prints text) shown lines := by
    rw [List.filter_filter] at hprints
    simpa [shown, Bool.and_comm] using hprints
  refine ⟨lines, ?_, hshown, ?_⟩
  · rw [answer_underlines disk hrequest htext hout, hlisting, hshown.length_eq]
  · intro line hline
    obtain ⟨k, hk, rfl⟩ := List.getElem_of_mem hline
    have hk' : k < shown.length := by rwa [hshown.length_eq]
    have hread : shown[k] ∈ Diagnostic.ofOutput out := (List.mem_filter.mp (List.getElem_mem hk')).1
    exact (hshown.get hk' hk).newline_notMem hread

/-- A folder with a file of one line and what follows its line feed.  Of four errors one is in a
file that is not there and one on a line that is not there.  The file of the first is written with a
slash too many, and it is at a word, which is marked; the column of the other is past the end of the
empty last line. -/
theorem errors_marked_where_reported_past_line_end :
    let text := "actor A\n"
    let log := "p//a.pony:1:1: bad\nb.pony:1:1: bad\np/a.pony:2:9: end\np/a.pony:3:1: end\n"
    let folder := (({} : Folder).addFile "p/a.pony" text.toUTF8).addFile "log" log.toUTF8
    ∃ lines, (answer folder.disk ["squiggles", "p/a.pony", "log"]).run =
        { out := printed (lines ++ ["2 errors"]) } ∧
      printed (lines ++ ["2 errors"]) = "1:1 5 actor: bad\n2:1 1 : end\n2 errors\n" ∧
      List.Forall₂ (Prints text)
        [⟨"p//a.pony", 0, 0, "bad"⟩, ⟨"p/a.pony", 1, 8, "end"⟩] lines := by
  intro text log folder
  have hrequest : Request.ofArgs ["squiggles", "p/a.pony", "log"] =
      .ok (.underlines "p/a.pony" "log") := by decide +kernel
  have hread (path text : String) (h : (folder.read path).toOption = some text) :
      folder.disk.read path = .ok text := by
    change folder.read path = .ok text
    cases hresult : folder.read path with
    | error reason =>
        rw [hresult] at h
        cases h
    | ok read =>
        rw [hresult] at h
        exact congrArg Except.ok (Option.some.inj h)
  have htext := hread "p/a.pony" text (by decide +kernel)
  have hout := hread "log" log (by decide +kernel)
  have hshown : ((Diagnostic.ofOutput log).filter fun d =>
      (pathKey folder.disk d.file).run = (pathKey folder.disk "p/a.pony").run ∧
        d.line < (Text.lines text).length) =
      [⟨"p//a.pony", 0, 0, "bad"⟩, ⟨"p/a.pony", 1, 8, "end"⟩] := by decide +kernel
  have hprinted : (answer folder.disk ["squiggles", "p/a.pony", "log"]).run =
      { out := "1:1 5 actor: bad\n2:1 1 : end\n2 errors\n" } := by decide +kernel
  obtain ⟨lines, hanswer, hprints, -⟩ :=
    errors_marked_where_reported folder.disk _ hrequest htext hout (by decide +kernel)
  rw [hshown] at hanswer hprints
  exact ⟨lines, hanswer, congrArg Answer.out (hanswer.symm.trans hprinted), hprints⟩

end Command
end PonyEditor
