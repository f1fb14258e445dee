import Mathlib.Data.List.Find
import Mathlib.Tactic.Lemma
import PonyEditor.Proofs.ByteExtents
import PonyEditor.Proofs.ByteOffsets
import PonyEditor.Proofs.LexemeWidths

/-!
# Scanning bytes is scanning characters

The token that a scanner of bytes cuts off is the lexeme of the characters (`At.cut`), and at its
end the reader stands before a character again.  So a scanner of bytes, asked for tokens until it
has none, yields the lexemes of the line (`run_of_at`).  It loses nothing: every token has a byte,
all of them together are the line, and each ends where a character does (`lexemes_lossless`).
-/

namespace PonyEditor

/-- The token is the lexeme that begins at a character of the line, before these. -/
structure Cut.Agrees (cut : Cut) (line : String) (reading : Reading) (cs : List Char) : Prop where
  kind : cut.kind = reading.kind
  mode : cut.mode = reading.mode
  stop : cut.stop.At line (cs.drop reading.more)

namespace ByteReader

variable {r : ByteReader} {line : String} {cs : List Char}

/-! ## Words -/

/-- The bytes between two readers are those of the characters between them. -/
lemma At.slice {stop : ByteReader} {xs : List Char} (h : r.At line (xs ++ cs))
    (hstop : stop.At line cs) : r.slice r.pos stop.pos = String.ofList xs := by
  have hpos : stop.pos = r.pos + Text.width xs := by
    have hbefore := h.pos_add
    have hafter := hstop.pos_add
    rw [Text.width_append] at hbefore
    omega
  obtain ⟨read, hline, rfl⟩ := h
  rw [← List.append_assoc] at hline
  rw [hpos, ByteReader.slice, Text.slice?_append hline]
  rfl

lemma lt_of_isWordStart {c : Char} (h : Extent.isWordStart c = true) : c.toNat < 128 := by
  rcases Nat.lt_or_ge c.toNat 128 with hlt | hge
  · exact hlt
  · rw [isWordStart_of_ge hge] at h
    cases h

/-- The kind of a name of the line, by the bytes it begins with.  The second byte may be past the
word, but a capital letter never is. -/
lemma At.wordKind {c : Char} (h : r.At line (c :: cs)) (hc : Extent.isWordStart c = true) :
    Reading.wordKind (c :: cs.takeWhile Extent.isWordRest) =
      match Vocabulary.word? (String.ofList (c :: cs.takeWhile Extent.isWordRest)) with
      | some kind => kind
      | none =>
        if isUpperByte (r.peek 0) || (r.peek 0 == '_'.toUInt8 && isUpperByte (r.peek 1)) then
          .typeName
        else .valueName := by
  have hupper : isUpperByte (r.peek 0) = c.isUpper := h.judge judges_upper
  have hunder : (r.peek 0 == '_'.toUInt8) = (c == '_') := h.judge (judges_eq '_' (by decide))
  rw [hupper, hunder]
  cases hword : Vocabulary.word? (String.ofList (c :: cs.takeWhile Extent.isWordRest)) with
  | some kind =>
      unfold Reading.wordKind
      rw [hword]
  | none =>
      by_cases hc : c = '_'
      · subst hc
        have hlone : Vocabulary.word? (String.ofList ['_']) = some .dontCare := by decide +kernel
        cases cs with
        | nil => exact nomatch hlone.symm.trans hword
        | cons d cs =>
            by_cases hd : Extent.isWordRest d = true
            · have hsecond : isUpperByte (r.peek 1) = d.isUpper := by
                have hjudge := (h.advance_one (by decide)).judge judges_upper
                rwa [peek_advance] at hjudge
              rw [List.takeWhile_cons_of_pos hd] at hword ⊢
              unfold Reading.wordKind
              rw [hword, hsecond]
              rfl
            · rw [List.takeWhile_cons_of_neg hd] at hword
              exact nomatch hlone.symm.trans hword
      · unfold Reading.wordKind
        simp only [hword, beq_eq_false_iff_ne.mpr hc, Bool.false_and, Bool.or_false]
        split
        · rename_i heq
          exact absurd (List.cons.inj heq).1 hc
        · rename_i heq
          rw [(List.cons.inj heq).1]
        · rename_i heq
          exact nomatch heq

lemma At.word {c : Char} (h : r.At line (c :: cs)) (hc : Extent.isWordStart c = true) :
    r.word.Agrees line (Reading.word c cs) cs := by
  have hnext : (r.advance 1).At line cs := h.advance_one (lt_of_isWordStart hc)
  have hstop := hnext.skipWhile judges_word
  have hsplit : r.At line ((c :: cs.takeWhile Extent.isWordRest) ++
      cs.dropWhile Extent.isWordRest) := by
    rw [List.cons_append, List.takeWhile_append_dropWhile]
    exact h
  refine ⟨?_, rfl, ?_⟩
  · simp only [ByteReader.word, Reading.word, hsplit.slice hstop]
    exact (h.wordKind hc).symm
  · simp only [ByteReader.word, Reading.word, drop_length_takeWhile]
    exact hstop

/-! ## Symbols -/

/-- Symbols are ASCII, and begin with a byte that lets the table be looked at. -/
lemma symbols_spec {entry : String × Kind} (h : entry ∈ Vocabulary.symbols) :
    (entry.1.toList.map Char.toUInt8).head?.any isSymbolByte = true ∧
      ∀ c ∈ entry.1.toList, c.toNat < 128 := by
  have htable : (Vocabulary.symbols.all fun entry =>
      (entry.1.toList.map Char.toUInt8).head?.any isSymbolByte &&
        entry.1.toList.all fun c => c.toNat < 128) = true := by
    decide +kernel
  have hentry := List.all_eq_true.mp htable entry h
  rw [Bool.and_eq_true, List.all_eq_true] at hentry
  exact ⟨hentry.1, fun c hc => of_decide_eq_true (hentry.2 c hc)⟩

/-- ASCII characters open a line exactly when their bytes do. -/
lemma isPrefixOf_encode {xs : List Char} (hxs : ∀ c ∈ xs, c.toNat < 128) (cs : List Char) :
    (Text.encode xs).isPrefixOf (Text.encode cs) = xs.isPrefixOf cs := by
  induction xs generalizing cs with
  | nil => rfl
  | cons x xs ih =>
      have hx : x.toNat < 128 := hxs x List.mem_cons_self
      have hrest : ∀ c ∈ xs, c.toNat < 128 := fun c hc => hxs c (List.mem_cons_of_mem _ hc)
      rw [Text.encode_cons_of_lt hx]
      cases cs with
      | nil => rfl
      | cons c cs =>
          by_cases hc : c = x
          · subst hc
            rw [Text.encode_cons_of_lt hx, List.isPrefixOf_cons_cons_self,
              List.isPrefixOf_cons_cons_self]
            exact ih hrest cs
          · obtain ⟨b, bs, hb, -⟩ := exists_charWidth_eq c
            have hne : (x.toUInt8 == b) = false := by
              have hjudge : (b == x.toUInt8) = (c == x) := judges_eq x hx c b (by simp [hb])
              rw [BEq.comm, hjudge, beq_eq_false_iff_ne.mpr hc]
            rw [Text.encode_cons, hb, List.cons_append, List.isPrefixOf_cons_cons, hne,
              List.isPrefixOf_cons_cons, beq_eq_false_iff_ne.mpr (Ne.symm hc), Bool.false_and,
              Bool.false_and]

lemma At.symbol?_eq (h : r.At line cs) : r.symbol? = Vocabulary.symbol? cs := by
  apply List.find?_congr
  intro entry hentry
  rw [h.rest, Text.toList_toUTF8]
  exact isPrefixOf_encode (symbols_spec hentry).2 cs

/-- A symbol that opens some characters begins with the first of them. -/
lemma exists_of_symbol? {c : Char} {text : String} {kind : Kind}
    (h : Vocabulary.symbol? (c :: cs) = some (text, kind)) :
    ∃ xs rest, text.toList = c :: xs ∧ cs = xs ++ rest ∧ c.toNat < 128 ∧
      isSymbolByte c.toUInt8 = true := by
  obtain ⟨hbyte, hascii⟩ := symbols_spec (List.mem_of_find?_eq_some h)
  have hprefix : text.toList.isPrefixOf (c :: cs) = true := by
    simpa using List.find?_some h
  obtain ⟨rest, hrest⟩ := List.isPrefixOf_iff_prefix.mp hprefix
  cases htext : text.toList with
  | nil =>
      rw [htext] at hbyte
      exact nomatch hbyte
  | cons d xs =>
      rw [htext] at hrest hbyte hascii
      obtain ⟨rfl, rfl⟩ := List.cons.inj hrest
      exact ⟨xs, rest, rfl, rfl, hascii d List.mem_cons_self, hbyte⟩

lemma At.symbol {c : Char} (h : r.At line (c :: cs)) :
    r.symbol.Agrees line (Reading.symbol c cs) cs := by
  rw [ByteReader.symbol, Reading.symbol, h.symbol?_eq]
  cases hsymbol : Vocabulary.symbol? (c :: cs) with
  | none => exact ⟨rfl, rfl, h.advanceChar⟩
  | some entry =>
      obtain ⟨text, kind⟩ := entry
      obtain ⟨xs, rest, htext, rfl, -, -⟩ := exists_of_symbol? hsymbol
      have hlength : text.length - 1 = xs.length := by
        rw [← String.length_toList, htext, List.length_cons, Nat.add_sub_cancel]
      refine ⟨rfl, rfl, ?_⟩
      show (r.advance text.toUTF8.toList.length).At line ((xs ++ rest).drop (text.length - 1))
      rw [hlength, List.drop_left, Text.toList_toUTF8, Text.length_encode, htext]
      exact h.advance

/-- Where the table is not looked at, it has nothing. -/
lemma At.symbol_of_not_isSymbolByte {c : Char} (h : r.At line (c :: cs))
    (hbyte : isSymbolByte (r.peek 0) = false) : r.symbol = ⟨.blank, r.advanceChar, .normal⟩ := by
  rw [ByteReader.symbol, h.symbol?_eq]
  cases hsymbol : Vocabulary.symbol? (c :: cs) with
  | none => rfl
  | some entry =>
      obtain ⟨xs, rest, -, -, hascii, hfirst⟩ := exists_of_symbol? hsymbol
      rw [h.peek_of_lt hascii, hfirst] at hbyte
      exact nomatch hbyte

/-! ## One token -/

lemma At.slash (h : r.At line ('/' :: cs)) : r.slash.Agrees line (Reading.slash cs) cs := by
  have hnext : (r.advance 1).At line cs := h.advance_one (by decide)
  have hslash := hnext.peek_iff '/' (by decide)
  have hstar := hnext.peek_iff '*' (by decide)
  simp only [ByteReader.slash]
  by_cases hline : (r.advance 1).peek 0 = '/'.toUInt8
  · obtain ⟨rest, rfl⟩ := hslash.mp hline
    rw [if_pos hline]
    refine ⟨rfl, rfl, ?_⟩
    simp only [Reading.slash, List.drop_succ_cons, List.drop_length]
    exact hnext.toEnd
  · rw [if_neg hline]
    by_cases hblock : (r.advance 1).peek 0 = '*'.toUInt8
    · obtain ⟨rest, rfl⟩ := hstar.mp hblock
      rw [if_pos hblock]
      obtain ⟨hstop, hmode⟩ := (hnext.advance_one (by decide)).blockComment 1
      exact ⟨rfl, hmode, hstop⟩
    · rw [if_neg hblock, Reading.slash]
      · exact ⟨rfl, rfl, hnext⟩
      · exact fun rest hrest => hline (hslash.mpr ⟨rest, hrest⟩)
      · exact fun rest hrest => hblock (hstar.mpr ⟨rest, hrest⟩)

lemma At.quote (h : r.At line ('"' :: cs)) : r.quote.Agrees line (Reading.quote cs) cs := by
  have hnext : (r.advance 1).At line cs := h.advance_one (by decide)
  have hquotes := hnext.peek_two_iff '"' '"' (by decide) (by decide)
  rw [peek_advance, peek_advance] at hquotes
  rw [ByteReader.quote]
  by_cases htriple : r.peek 1 = '"'.toUInt8 ∧ r.peek 2 = '"'.toUInt8
  · obtain ⟨rest, rfl⟩ := hquotes.mp htriple
    rw [if_pos htriple]
    have hbody : (r.advance 3).At line rest := by
      rw [← advance_advance r 1 2]
      exact hnext.advance_two (by decide) (by decide)
    obtain ⟨hstop, hmode⟩ := hbody.tripleString
    exact ⟨rfl, hmode, hstop⟩
  · rw [if_neg htriple, Reading.quote]
    · exact ⟨rfl, rfl, hnext.string⟩
    · exact fun rest hrest => htriple (hquotes.mpr ⟨rest, hrest⟩)

/-- A construct counted from its first character, which it has. -/
lemma drop_sub_one {n : Nat} (hn : 0 < n) (c : Char) (cs : List Char) :
    cs.drop (n - 1) = (c :: cs).drop n := by
  obtain ⟨m, rfl⟩ : ∃ m, n = m + 1 := ⟨n - 1, by omega⟩
  rfl

lemma number_pos {c : Char} (hc : c.isDigit = true) (cs : List Char) :
    0 < Extent.number (c :: cs) := by
  unfold Extent.number
  split
  · omega
  · omega
  · omega
  · omega
  · have hrun : 0 < Extent.run Char.isDigit (c :: cs) := by simp [Extent.run, hc]
    rw [Extent.decimal]
    omega

lemma At.plain {c : Char} (h : r.At line (c :: cs)) :
    r.plain.Agrees line (Reading.plain c cs) cs := by
  have hpeek := h.peek_cons_iff '/' (by decide)
  have hpeek' := h.peek_cons_iff '"' (by decide)
  rw [ByteReader.plain, Reading.plain]
  by_cases hslash : c = '/'
  · subst hslash
    rw [if_pos (hpeek.mpr rfl), if_pos (beq_self_eq_true _)]
    exact h.slash
  rw [if_neg fun hbyte => hslash (hpeek.mp hbyte),
    if_neg fun heq => hslash (beq_iff_eq.mp heq)]
  by_cases hquote : c = '"'
  · subst hquote
    rw [if_pos (hpeek'.mpr rfl), if_pos (beq_self_eq_true _)]
    exact h.quote
  rw [if_neg fun hbyte => hquote (hpeek'.mp hbyte),
    if_neg fun heq => hquote (beq_iff_eq.mp heq)]
  have hdecimal := h.judge judges_decimal
  by_cases hdigit : c.isDigit = true
  · rw [hdigit, decide_eq_true_eq] at hdecimal
    rw [if_pos hdecimal, if_pos hdigit]
    refine ⟨rfl, rfl, ?_⟩
    rw [drop_sub_one (number_pos hdigit cs)]
    exact h.number
  rw [Bool.eq_false_iff.mpr hdigit, decide_eq_false_iff_not] at hdecimal
  rw [if_neg hdecimal, if_neg hdigit, h.judge judges_wordStart]
  by_cases hword : Extent.isWordStart c = true
  · rw [if_pos hword, if_pos hword]
    exact h.word hword
  rw [if_neg hword, if_neg hword]
  by_cases hbyte : isSymbolByte (r.peek 0) = true
  · rw [if_pos hbyte]
    exact h.symbol
  · rw [if_neg hbyte, ← h.symbol_of_not_isSymbolByte (Bool.eq_false_iff.mpr hbyte)]
    exact h.symbol

lemma tripleString_pos (c : Char) (cs : List Char) : 0 < (Extent.tripleString (c :: cs)).1 := by
  unfold Extent.tripleString
  split <;> simp_all

lemma blockComment_pos (depth : Nat) (c : Char) (cs : List Char) :
    0 < (Extent.blockComment depth (c :: cs)).1 := by
  unfold Extent.blockComment
  split <;> (try split) <;> simp_all

/-- **The token of the bytes is the lexeme of the characters.** -/
lemma At.cut {c : Char} (h : r.At line (c :: cs)) (mode : Mode) :
    (r.cut mode).Agrees line (mode.read c cs) cs := by
  cases mode with
  | normal => exact h.plain
  | tripleString =>
      obtain ⟨hstop, hmode⟩ := h.tripleString
      rw [← drop_sub_one (tripleString_pos c cs)] at hstop
      exact ⟨rfl, hmode, hstop⟩
  | blockComment depth pos =>
      obtain ⟨hstop, hmode⟩ := h.blockComment depth
      rw [afterComment, ← drop_sub_one (blockComment_pos depth c cs)] at hstop
      exact ⟨rfl, hmode, hstop⟩

end ByteReader

/-! ## All tokens -/

namespace ByteScanner

variable {line : String} {cs : List Char}

/-- One step: the scanner yields the kind and the width of the lexeme. -/
lemma next?_of_at {r : ByteReader} {c : Char} (h : r.At line (c :: cs)) (mode : Mode) :
    ∃ stop : ByteReader, stop.At line (cs.drop (mode.read c cs).more) ∧
      next? ⟨r, mode⟩ = some (((mode.read c cs).kind,
        Text.width (c :: cs.take (mode.read c cs).more)), ⟨stop, (mode.read c cs).mode⟩) := by
  obtain ⟨hkind, hmode, hstop⟩ := h.cut mode
  have hend : ¬ r.atEnd = true := fun hend => nomatch h.atEnd_iff.mp hend
  have hwidth : (r.cut mode).stop.pos - r.pos =
      Text.width (c :: cs.take (mode.read c cs).more) := by
    have hbefore := h.pos_add
    have hafter := hstop.pos_add
    have hsplit := congrArg Text.width (List.take_append_drop (mode.read c cs).more cs)
    rw [Text.width_append] at hsplit
    rw [Text.width_cons] at hbefore ⊢
    omega
  refine ⟨(r.cut mode).stop, hstop, ?_⟩
  rw [next?, if_neg hend]
  simp only [hkind, hmode, hwidth]

/-- **The run of a scanner before some characters yields their lexemes.** -/
lemma run_of_at {r : ByteReader} (h : r.At line cs) (mode : Mode) :
    Run ⟨r, mode⟩ ((mode.scan cs).1.map fun l => (l.kind, l.width)) (mode.after cs) := by
  fun_induction Mode.after mode cs generalizing r
  case case1 mode =>
    have hend : next? ⟨r, mode⟩ = none := by rw [next?, if_pos (h.atEnd_iff.mpr rfl)]
    rw [Mode.scan_nil]
    exact Run.done hend
  case case2 mode c cs reading ih =>
    obtain ⟨stop, hstop, hnext⟩ := next?_of_at h mode
    rw [Mode.scan_cons]
    exact Run.step hnext (ih hstop)

end ByteScanner

namespace Mode

/-- **Scanning loses nothing.**  Asked for tokens until it has none, the scanner of the bytes of a
line yields its lexemes and ends in the mode after it, and there is no other way it can end.  Every
lexeme has a byte, their widths add up to the bytes of the line, and every sum of widths on the way
is a position between two characters. -/
theorem lexemes_lossless (mode : Mode) (line : String) :
    (∀ tokens exit, ByteScanner.Run (.start line mode) tokens exit ↔
      tokens = (mode.lexemes line).map (fun l => (l.kind, l.width)) ∧ exit = mode.exit line) ∧
    (∀ l ∈ mode.lexemes line, 1 ≤ l.width) ∧
    Lexeme.totalWidth (mode.lexemes line) = line.utf8ByteSize ∧
    ∀ k, String.Pos.Raw.IsValid line ⟨Lexeme.totalWidth ((mode.lexemes line).take k)⟩ := by
  have hrun := ByteScanner.run_of_at (ByteReader.at_start line) mode
  refine ⟨?_, fun l hl => width_pos_of_mem_scan hl, ?_, ?_⟩
  · intro tokens exit
    constructor
    · intro h
      exact h.unique hrun
    · rintro ⟨rfl, rfl⟩
      exact hrun
  · rw [totalWidth_lexemes, Text.utf8ByteSize_eq]
  · intro k
    apply String.Pos.Raw.isValid_iff_exists_append.mpr
    refine ⟨String.ofList (((mode.lexemes line).take k).flatMap Lexeme.text),
      String.ofList (((mode.lexemes line).drop k).flatMap Lexeme.text), ?_, ?_⟩
    · rw [← String.ofList_append, ← toList_eq_take_append, String.ofList_toList]
    · rw [String.rawEndPos, Text.utf8ByteSize_eq, String.toList_ofList, Lexeme.totalWidth_eq]

/-- A string with an escaped character of two bytes, a character that begins nothing, a NUL, and a
comment that is not closed. -/
theorem lexemes_lossless_past_nul :
    ByteScanner.Run (.start "\"\\é\"λ\x00/* *" .normal)
      [(.string, 5), (.blank, 2), (.blank, 1), (.comment, 4)] (.blockComment 1 Nat.one_pos) ∧
    1 ≤ Lexeme.width ⟨.blank, ['λ']⟩ ∧
    Lexeme.totalWidth (normal.lexemes "\"\\é\"λ\x00/* *") =
      "\"\\é\"λ\x00/* *".utf8ByteSize ∧
    String.Pos.Raw.IsValid "\"\\é\"λ\x00/* *" ⟨7⟩ := by
  obtain ⟨hrun, hwidth, htotal, hvalid⟩ := lexemes_lossless .normal "\"\\é\"λ\x00/* *"
  refine ⟨(hrun _ _).mpr (by decide +kernel), hwidth _ (by decide +kernel), htotal, ?_⟩
  have hseven : Lexeme.totalWidth ((normal.lexemes "\"\\é\"λ\x00/* *").take 2) = 7 := by
    decide +kernel
  exact hseven ▸ hvalid 2

end Mode
end PonyEditor
