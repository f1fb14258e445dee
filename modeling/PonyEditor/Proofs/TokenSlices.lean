import Mathlib.Data.List.Forall2
import PonyEditor.Proofs.DocumentRuns
import PonyEditor.Proofs.LinePositions

/-!
# What the spans of tokens hold

In a text within the limit the tokens of a line lie side by side from its start to its end
(`Token.Tiles`), and the span of each cuts the characters of its lexeme out of the text
(`Token.Cuts`).  What the spans of the lines hold is therefore the whole text but for the line feeds
(`mapM_joinSlices?`), and an offset is in a token exactly where there is a byte that is no line feed
(`exists_tokenAt?_iff`).
-/

namespace PonyEditor

/-! ## Bytes at an offset -/

namespace Text

variable {lines : List String}

/-- A line in its text, with what comes before it and after it: nothing, or a line feed. -/
lemma exists_toList_unlines_at {i : Nat} (hi : i < lines.length) :
    ∃ after, (unlines lines).toList = terminated (lines.take i) ++ lines[i].toList ++ after ∧
      (after = [] ∨ ∃ rest, after = '\n' :: rest) := by
  have hsplit : lines = lines.take i ++ lines[i] :: lines.drop (i + 1) := by
    rw [← List.drop_eq_getElem_cons hi, List.take_append_drop]
  have htext : (unlines lines).toList =
      terminated (lines.take i) ++ (unlines (lines[i] :: lines.drop (i + 1))).toList := by
    conv => lhs; rw [hsplit]
    exact toList_unlines_append _ (List.cons_ne_nil _ _)
  rw [htext]
  by_cases hlast : lines.drop (i + 1) = []
  · exact ⟨[], by rw [hlast, unlines, List.append_nil], .inl rfl⟩
  · refine ⟨'\n' :: (unlines (lines.drop (i + 1))).toList, ?_, .inr ⟨_, rfl⟩⟩
    rw [toList_unlines_cons _ hlast, List.append_assoc]

lemma newline_notMem_encode {cs : List Char} (h : '\n' ∉ cs) : '\n'.toUInt8 ∉ encode cs := by
  intro hmem
  obtain ⟨c, hc, hbyte⟩ := List.mem_flatMap.mp hmem
  have hjudge : ('\n'.toUInt8 == '\n'.toUInt8) = (c == '\n') :=
    ByteReader.judges_eq '\n' (by decide) c _ hbyte
  rw [beq_self_eq_true] at hjudge
  obtain rfl := beq_iff_eq.mp hjudge.symm
  exact h hc

/-- No byte of a line is a line feed. -/
lemma getElem?_encode_of_lt {i offset : Nat} (hi : i < lines.length)
    (hunbroken : '\n' ∉ lines[i].toList) (hstart : bytesBefore lines i ≤ offset)
    (hstop : offset < bytesBefore lines i + width lines[i].toList) :
    (encode (unlines lines).toList)[offset]? ≠ some '\n'.toUInt8 := by
  obtain ⟨after, htext, -⟩ := exists_toList_unlines_at hi
  have hbefore : (encode (terminated (lines.take i))).length = bytesBefore lines i :=
    length_encode _
  have hinside : offset - bytesBefore lines i < (encode lines[i].toList).length := by
    rw [length_encode]
    omega
  rw [htext, encode_append, encode_append, List.append_assoc,
    List.getElem?_append_right (by omega), hbefore, List.getElem?_append_left hinside]
  exact fun hbyte => newline_notMem_encode hunbroken (List.mem_of_getElem? hbyte)

/-- After the last byte of a line there is a line feed or the end of the text. -/
lemma getElem?_encode_of_eq {i : Nat} (hi : i < lines.length)
    (hinside : bytesBefore lines i + width lines[i].toList < width (unlines lines).toList) :
    (encode (unlines lines).toList)[bytesBefore lines i + width lines[i].toList]? =
      some '\n'.toUInt8 := by
  obtain ⟨after, htext, hafter⟩ := exists_toList_unlines_at hi
  have hbefore : (encode (terminated (lines.take i) ++ lines[i].toList)).length =
      bytesBefore lines i + width lines[i].toList := by
    rw [length_encode, width_append, bytesBefore]
  rcases hafter with rfl | ⟨rest, rfl⟩
  · rw [htext, List.append_nil, width_append, bytesBefore] at hinside
    exact absurd hinside (Nat.lt_irrefl _)
  · rw [htext, encode_append, List.getElem?_append_right (by omega), hbefore, Nat.sub_self,
      encode_cons_of_lt (by decide)]
    rfl

lemma isValid_width {text : String} {before after : List Char}
    (h : text.toList = before ++ after) : String.Pos.Raw.IsValid text ⟨width before⟩ := by
  refine String.Pos.Raw.isValid_iff_exists_append.mpr
    ⟨String.ofList before, String.ofList after, ?_, ?_⟩
  · rw [← String.ofList_append, ← h, String.ofList_toList]
  · rw [String.rawEndPos, utf8ByteSize_eq, String.toList_ofList]

end Text

/-! ## Tokens side by side -/

namespace Token

/-- The spans lie side by side from `start` to `stop`, and each has a byte. -/
def Tiles : Nat → Nat → List Token → Prop
  | start, stop, [] => start = stop
  | start, stop, t :: ts =>
    t.span.start = start ∧ start < t.span.stop ∧ Tiles t.span.stop stop ts

namespace Tiles

variable {start stop : Nat} {ts : List Token}

lemma inOrder (h : Tiles start stop ts) : InOrder start stop ts := by
  induction ts generalizing start with
  | nil => exact Nat.le_of_eq h
  | cons t ts ih =>
      obtain ⟨rfl, hbyte, hrest⟩ := h
      exact ⟨Nat.le_refl _, Nat.le_of_lt hbyte, ih hrest⟩

lemma nonempty (h : Tiles start stop ts) {t : Token} (ht : t ∈ ts) :
    t.span.start < t.span.stop := by
  induction ts generalizing start with
  | nil => cases ht
  | cons s ts ih =>
      obtain ⟨hstart, hbyte, hrest⟩ := h
      rcases List.mem_cons.mp ht with rfl | ht
      · rwa [hstart]
      · exact ih hrest ht

/-- No offset is left out. -/
lemma exists_contains (h : Tiles start stop ts) {offset : Nat} (hstart : start ≤ offset)
    (hstop : offset < stop) : ∃ t ∈ ts, t.span.contains offset = true := by
  induction ts generalizing start with
  | nil =>
      obtain rfl : start = stop := h
      exact absurd hstart (Nat.not_le.mpr hstop)
  | cons t ts ih =>
      obtain ⟨rfl, -, hrest⟩ := h
      rcases Nat.lt_or_ge offset t.span.stop with hlt | hge
      · exact ⟨t, List.mem_cons_self, Span.contains_iff.mpr ⟨hstart, hlt⟩⟩
      · obtain ⟨s, hs, hcontains⟩ := ih hrest hge
        exact ⟨s, List.mem_cons_of_mem t hs, hcontains⟩

end Tiles

lemma ofLexemes_cons_of_le {start : Nat} {l : Lexeme} (h : start + l.width ≤ Offset.limit)
    (ls : List Lexeme) :
    ofLexemes start (l :: ls) =
      ⟨l.kind, ⟨start, start + l.width⟩⟩ :: ofLexemes (start + l.width) ls := by
  simp only [ofLexemes, Span.ofLength, Offset.add_of_le h]

/-- Lexemes that end within the limit give tokens side by side. -/
lemma tiles_ofLexemes {start : Nat} {ls : List Lexeme} (hpos : ∀ l ∈ ls, 0 < l.width)
    (hlimit : start + Lexeme.totalWidth ls ≤ Offset.limit) :
    Tiles start (start + Lexeme.totalWidth ls) (ofLexemes start ls) := by
  induction ls generalizing start with
  | nil => rfl
  | cons l ls ih =>
      rw [Lexeme.totalWidth, ← Nat.add_assoc] at hlimit ⊢
      rw [ofLexemes_cons_of_le (by omega)]
      refine ⟨rfl, Nat.lt_add_of_pos_right (hpos l List.mem_cons_self), ?_⟩
      exact ih (fun l hl => hpos l (List.mem_cons_of_mem _ hl)) hlimit

/-- The token is that of the lexeme, for a line that starts at `start` of the text: it has the kind
of the lexeme, begins and ends between two characters, and what it cuts out of the text is what it
cuts out of the line, the characters of the lexeme. -/
structure Cuts (text line : String) (start : Nat) (t : Token) (l : Lexeme) : Prop where
  kind : t.kind = l.kind
  start_isValid : String.Pos.Raw.IsValid text ⟨t.span.start⟩
  stop_isValid : String.Pos.Raw.IsValid text ⟨t.span.stop⟩
  slice_text : Text.slice? text t.span.start t.span.stop = some (String.ofList l.text)
  slice_line : Text.slice? line (t.span.start - start) (t.span.stop - start) =
    some (String.ofList l.text)

lemma cuts_of_append {text line : String} {before inner rest after : List Char} {l : Lexeme}
    (htext : text.toList = before ++ line.toList ++ after)
    (hline : line.toList = inner ++ l.text ++ rest) :
    Cuts text line (Text.width before)
      ⟨l.kind, ⟨Text.width before + Text.width inner,
        Text.width before + Text.width inner + l.width⟩⟩ l := by
  have hsplit : text.toList = (before ++ inner) ++ l.text ++ (rest ++ after) := by
    rw [htext, hline]
    simp only [List.append_assoc]
  rw [← Text.width_append]
  refine ⟨rfl, ?_, ?_, Text.slice?_append hsplit, ?_⟩
  · exact Text.isValid_width (hsplit.trans (List.append_assoc _ _ _))
  · have hvalid := Text.isValid_width hsplit
    rwa [Text.width_append _ l.text] at hvalid
  · have hslice := Text.slice?_append hline
    rwa [Text.width_append, Nat.add_assoc, Nat.add_sub_cancel_left, Nat.add_sub_cancel_left]

/-- **The tokens of a line cut its lexemes out of the text.** -/
lemma cuts_ofLexemes {text line : String} {before inner after : List Char} {ls : List Lexeme}
    (htext : text.toList = before ++ line.toList ++ after)
    (hline : line.toList = inner ++ ls.flatMap Lexeme.text)
    (hlimit : Text.width before + Text.width line.toList ≤ Offset.limit) :
    List.Forall₂ (Cuts text line (Text.width before))
      (ofLexemes (Text.width before + Text.width inner) ls) ls := by
  -- `inner` is what has been cut off the line, and grows by the lexeme at the front
  induction ls generalizing inner with
  | nil => exact .nil
  | cons l ls ih =>
      rw [List.flatMap_cons, ← List.append_assoc] at hline
      have hwidth : Text.width inner + l.width ≤ Text.width line.toList := by
        rw [hline, Text.width_append, Text.width_append, Lexeme.width]
        omega
      have hnext := ih hline
      rw [Text.width_append, ← Nat.add_assoc] at hnext
      rw [ofLexemes_cons_of_le (by omega)]
      exact .cons (cuts_of_append htext hline) hnext

end Token

/-! ## Putting slices together -/

lemma mapM_of_forall₂ {α β : Type} {f : α → Option β} {xs : List α} {ys : List β}
    (h : List.Forall₂ (fun x y => f x = some y) xs ys) : xs.mapM f = some ys := by
  induction h with
  | nil => rfl
  | cons hxy _ ih => simp [List.mapM_cons, hxy, ih]

/-- What the tokens cut out of the text, put together; `none` if one of them cuts a character. -/
def Text.joinSlices? (text : String) (tokens : List Token) : Option String :=
  (tokens.mapM fun t => slice? text t.span.start t.span.stop).map String.join

lemma Text.joinSlices?_of_cuts {text line : String} {start : Nat} {tokens : List Token}
    {ls : List Lexeme} (h : List.Forall₂ (Token.Cuts text line start) tokens ls) :
    joinSlices? text tokens = some (String.ofList (ls.flatMap Lexeme.text)) := by
  have hslices : List.Forall₂ (fun t s => slice? text t.span.start t.span.stop = some s) tokens
      (ls.map fun l => String.ofList l.text) :=
    List.forall₂_map_right_iff.mpr (h.imp fun t l hcuts => hcuts.slice_text)
  rw [joinSlices?, mapM_of_forall₂ hslices, Option.map_some]
  apply congrArg some
  apply String.toList_inj.mp
  rw [String.toList_join, String.toList_ofList, List.flatMap_map]
  simp only [String.toList_ofList]

/-! ## The tokens of a text -/

namespace View

variable {σ : Type} [Lined σ] {v : View σ} (hv : Lined.Exact v.source)
  (hlimit : Text.width (Text.unlines (Lined.lines v.source)).toList ≤ Offset.limit)
include hv hlimit

lemma tokensOf_eq {i : Nat} (hi : i < (Lined.lines v.source).length) :
    v.tokensOf i = Token.ofLexemes (Text.bytesBefore (Lined.lines v.source) i)
      ((v.mode i).lexemes (Lined.lines v.source)[i]) := by
  rw [tokensOf_of_lt hv hi, Text.lineStart_eq hlimit hi]

lemma tiles_tokensOf {i : Nat} (hi : i < (Lined.lines v.source).length) :
    Token.Tiles (Text.bytesBefore (Lined.lines v.source) i)
      (Text.bytesBefore (Lined.lines v.source) i + Text.width (Lined.lines v.source)[i].toList)
      (v.tokensOf i) := by
  have hle := Nat.le_trans (Text.bytesBefore_add_le hi) hlimit
  rw [tokensOf_eq hv hlimit hi]
  rw [← Mode.totalWidth_lexemes (v.mode i)] at hle ⊢
  exact Token.tiles_ofLexemes (fun l hl => Mode.width_pos_of_mem_scan hl) hle

lemma cuts_tokensOf {i : Nat} (hi : i < (Lined.lines v.source).length) :
    List.Forall₂ (Token.Cuts (Text.unlines (Lined.lines v.source)) (Lined.lines v.source)[i]
        (Text.bytesBefore (Lined.lines v.source) i))
      (v.tokensOf i) ((v.mode i).lexemes (Lined.lines v.source)[i]) := by
  obtain ⟨after, htext, -⟩ := Text.exists_toList_unlines_at hi
  have hle := Text.bytesBefore_add_le hi
  have hline : (Lined.lines v.source)[i].toList =
      [] ++ ((v.mode i).lexemes (Lined.lines v.source)[i]).flatMap Lexeme.text :=
    (Mode.flatMap_text_scan _ _).symm
  rw [tokensOf_eq hv hlimit hi]
  exact Token.cuts_ofLexemes htext hline (Nat.le_trans hle hlimit)

/-- The slices of a line are the line. -/
lemma joinSlices?_tokensOf {i : Nat} (hi : i < (Lined.lines v.source).length) :
    Text.joinSlices? (Text.unlines (Lined.lines v.source)) (v.tokensOf i) =
      some (Lined.lines v.source)[i] := by
  rw [Text.joinSlices?_of_cuts (cuts_tokensOf hv hlimit hi), Mode.lexemes,
    Mode.flatMap_text_scan, String.ofList_toList]

/-- **The slices of all lines are the lines of the text.** -/
lemma mapM_joinSlices? :
    (List.range v.lineCount).mapM
        (fun i => Text.joinSlices? (Text.unlines (Lined.lines v.source)) (v.tokensOf i)) =
      some (Lined.lines v.source) := by
  apply mapM_of_forall₂
  refine List.forall₂_iff_get.mpr ⟨List.length_range, fun i hrange hi => ?_⟩
  simpa using joinSlices?_tokensOf hv hlimit hi

/-! ## The token at an offset -/

/-- The line of a token is the one that holds the offsets in it. -/
lemma holds_of_contains {i offset : Nat} {t : Token} (ht : t ∈ v.tokensOf i)
    (hoffset : t.span.contains offset = true) :
    ∃ hi : i < (Lined.lines v.source).length,
      Text.bytesBefore (Lined.lines v.source) i ≤ offset ∧
      offset < Text.bytesBefore (Lined.lines v.source) i +
        Text.width (Lined.lines v.source)[i].toList := by
  have hi : i < (Lined.lines v.source).length := lt_lineCount_of_mem_tokensOf ht
  obtain ⟨hstart, -, hstop⟩ := (tiles_tokensOf hv hlimit hi).inOrder.bounds ht
  obtain ⟨hle, hlt⟩ := Span.contains_iff.mp hoffset
  exact ⟨hi, Nat.le_trans hstart hle, Nat.lt_of_lt_of_le hlt hstop⟩

/-- **An offset is in a token exactly where there is a byte that is no line feed.** -/
lemma exists_tokenAt?_iff (hunbroken : ∀ line ∈ Lined.lines v.source, '\n' ∉ line.toList)
    {offset : Nat} :
    (∃ i t, v.tokenAt? offset = some (i, t)) ↔
      offset < Text.width (Text.unlines (Lined.lines v.source)).toList ∧
      (Text.encode (Text.unlines (Lined.lines v.source)).toList)[offset]? ≠
        some '\n'.toUInt8 := by
  constructor
  · rintro ⟨i, t, h⟩
    obtain ⟨ht, hoffset⟩ := mem_tokensOf_of_tokenAt? h
    obtain ⟨hi, hstart, hstop⟩ := holds_of_contains hv hlimit ht hoffset
    refine ⟨Nat.lt_of_lt_of_le hstop (Text.bytesBefore_add_le hi), ?_⟩
    exact Text.getElem?_encode_of_lt hi (hunbroken _ (List.getElem_mem hi)) hstart hstop
  · rintro ⟨hlt, hbyte⟩
    have hne : Lined.lines v.source ≠ [] := by
      intro hnil
      rw [hnil] at hlt
      exact absurd hlt (Nat.not_lt_zero offset)
    obtain ⟨i, line, hline, hstart, hstop⟩ := Text.exists_holds hne (Nat.le_of_lt hlt)
    obtain ⟨hi, rfl⟩ := List.getElem?_eq_some_iff.mp hline
    rcases Nat.lt_or_eq_of_le hstop with hinside | rfl
    · obtain ⟨t, ht, hoffset⟩ := (tiles_tokensOf hv hlimit hi).exists_contains hstart hinside
      exact ⟨i, t, (tokenAt?_eq_some_iff hv).mpr ⟨ht, hoffset⟩⟩
    · -- the end of a line is not the end of the text, so a line feed is there
      exact absurd (Text.getElem?_encode_of_eq hi hlt) hbyte

end View

namespace Document

/-- **The spans of tokens address the text.**  After every run, as long as the text is within the
limit: the tokens of a line lie side by side from its start to its end, each with a byte; each cuts
its own part of the line out of the text, between characters; and what they cut out, line by line,
is the text.  A token is found exactly at the offsets of bytes that are no line feeds, and it is the
only one of the document that the offset is in. -/
theorem tokens_slice_text (text : String) (calls : List Call)
    (hlimit : ((ofText text).run calls).text.utf8ByteSize < Offset.limit) :
    let d := (ofText text).run calls
    (∀ i line, d.buffer.lines[i]? = some line →
      ∃ start, d.view.start? i = some start ∧
        Token.Tiles start (start + line.utf8ByteSize) (d.view.tokensOf i) ∧
        List.Forall₂ (Token.Cuts d.text line start) (d.view.tokensOf i)
          ((d.view.mode i).lexemes line) ∧
        Text.joinSlices? d.text (d.view.tokensOf i) = some line) ∧
    ((List.range d.lineCount).mapM fun i =>
      Text.joinSlices? d.text (d.view.tokensOf i)).map Text.unlines = some d.text ∧
    (∀ offset, (∃ i t, d.view.tokenAt? offset = some (i, t)) ↔
      offset < d.text.utf8ByteSize ∧ d.text.toUTF8.toList[offset]? ≠ some '\n'.toUInt8) ∧
    (∀ offset i t, d.view.tokenAt? offset = some (i, t) →
      t ∈ d.view.tokensOf i ∧ t.span.contains offset = true ∧
      ∀ j s, s ∈ d.view.tokensOf j → s.span.contains offset = true → j = i ∧ s = t) := by
  intro d
  have hd : d.InStep := (run_spec (inStep_ofText text) calls).1
  have hv := hd.exact
  have hle : Text.width (Text.unlines (Lined.lines d.view.source)).toList ≤ Offset.limit := by
    rw [Text.utf8ByteSize_eq] at hlimit
    exact Nat.le_of_lt hlimit
  refine ⟨?_, ?_, ?_, ?_⟩
  · intro i line hline
    obtain ⟨hi, rfl⟩ := List.getElem?_eq_some_iff.mp hline
    refine ⟨_, View.start?_eq hv hle hi, ?_, View.cuts_tokensOf hv hle hi,
      View.joinSlices?_tokensOf hv hle hi⟩
    rw [Text.utf8ByteSize_eq]
    exact View.tiles_tokensOf hv hle hi
  · exact congrArg (Option.map Text.unlines) (View.mapM_joinSlices? hv hle)
  · intro offset
    rw [Text.utf8ByteSize_eq, Text.toList_toUTF8]
    exact View.exists_tokenAt?_iff hv hle hd.unbroken
  · intro offset i t hfound
    obtain ⟨ht, hoffset⟩ := View.mem_tokensOf_of_tokenAt? hfound
    refine ⟨ht, hoffset, fun j s hs hcontains => ?_⟩
    have hsame := (View.tokenAt?_eq_some_iff hv).mpr ⟨hs, hcontains⟩
    exact Prod.mk.inj (Option.some.inj (hsame.symm.trans hfound))

/-- A line put in by a change, with a character of two bytes and a comment that goes on after it. -/
theorem tokens_slice_text_of_wide_character :
    let d := (ofText "a\nb").run [.replace ⟨1, 2, ["é/*", "*/"]⟩]
    d.text.utf8ByteSize < Offset.limit ∧ d.buffer.lines[1]? = some "é/*" ∧
    (∃ start, d.view.start? 1 = some start ∧
      Token.Tiles start (start + "é/*".utf8ByteSize) (d.view.tokensOf 1) ∧
      Text.joinSlices? d.text (d.view.tokensOf 1) = some "é/*") ∧
    ((List.range d.lineCount).mapM fun i =>
      Text.joinSlices? d.text (d.view.tokensOf i)).map Text.unlines = some "a\né/*\n*/" ∧
    d.view.tokenAt? 3 = some (1, ⟨.blank, ⟨2, 4⟩⟩) ∧
    (∀ j s, s ∈ d.view.tokensOf j → s.span.contains 3 = true → j = 1 ∧ s = ⟨.blank, ⟨2, 4⟩⟩) ∧
    ¬ ∃ i t, d.view.tokenAt? 6 = some (i, t) := by
  intro d
  have hlimit : d.text.utf8ByteSize < Offset.limit := by decide +kernel
  have hline : d.buffer.lines[1]? = some "é/*" := by decide +kernel
  have htext : d.text = "a\né/*\n*/" := by decide +kernel
  have hwide : d.view.tokenAt? 3 = some (1, ⟨.blank, ⟨2, 4⟩⟩) := by decide +kernel
  have hfeed : d.text.toUTF8.toList[6]? = some '\n'.toUInt8 := by decide +kernel
  obtain ⟨hlines, hjoined, hfound, honly⟩ := tokens_slice_text "a\nb" _ hlimit
  obtain ⟨start, hstart, htiles, -, hslices⟩ := hlines 1 _ hline
  exact ⟨hlimit, hline, ⟨start, hstart, htiles, hslices⟩, hjoined.trans (congrArg some htext),
    hwide, (honly 3 1 _ hwide).2.2, fun hexists => ((hfound 6).mp hexists).2 hfeed⟩

end Document
end PonyEditor
