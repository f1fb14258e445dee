import Mathlib.Tactic.Lemma
import PonyEditor.Proofs.ByteOffsets
import PonyEditor.Proofs.LongestMatches

/-!
# Spellings

Three tables are written down each for itself and have to agree on how a kind is spelled: the record
of the kind, the words by their length, and the symbols.  They do (`mem_words_iff`,
`spelling?_of_mem_symbols`), and a word that stands among those of another length, or begins with a
byte that is not asked for, would not be found (`word?_eq_some_iff`).

So a token whose kind has only one spelling is spelled that way, in every mode and on every line
(`Mode.text_eq_of_spelling?`): words are looked up whole, symbols are taken where they stand, and no
other token is of such a kind.
-/

namespace PonyEditor

namespace Vocabulary

/-! ## Words -/

/-- **The words are those the kinds are spelled by**: the spelled reserved words and the underscore,
and beside them the six capabilities and the two truth values. -/
lemma mem_words_iff {text : String} {kind : Kind} :
    (text, kind) ∈ words ↔
      ((kind.isKeyword = true ∨ kind = .dontCare) ∧ kind.spelling? = some text) ∨
      (kind = .capability ∧ text ∈ ["iso", "trn", "val", "ref", "box", "tag"]) ∨
      (kind = .boolean ∧ text ∈ ["true", "false"]) := by
  constructor
  · intro h
    have htable : (words.all fun entry =>
        ((entry.2.isKeyword || entry.2 == .dontCare) && entry.2.spelling? == some entry.1) ||
        (entry.2 == .capability && ["iso", "trn", "val", "ref", "box", "tag"].contains entry.1) ||
        (entry.2 == .boolean && ["true", "false"].contains entry.1)) = true := by
      decide +kernel
    simpa [or_assoc] using List.all_eq_true.mp htable (text, kind) h
  · rintro (⟨hreserved, hspelling⟩ | ⟨rfl, htext⟩ | ⟨rfl, htext⟩)
    · have htable : (Kind.all.all fun kind => !(kind.isKeyword || kind == .dontCare) ||
          kind.spelling?.all fun text => words.contains (text, kind)) = true := by
        decide +kernel
      have hkind := List.all_eq_true.mp htable kind (Kind.mem_all kind)
      have hword : (kind.isKeyword || kind == .dontCare) = true := by simpa using hreserved
      rw [hspelling, hword] at hkind
      exact List.contains_iff_mem.mp hkind
    · have htable : (["iso", "trn", "val", "ref", "box", "tag"].all fun text =>
          words.contains (text, .capability)) = true := by
        decide +kernel
      exact List.contains_iff_mem.mp (List.all_eq_true.mp htable text htext)
    · have htable : (["true", "false"].all fun text => words.contains (text, .boolean)) = true := by
        decide +kernel
      exact List.contains_iff_mem.mp (List.all_eq_true.mp htable text htext)

/-- A word of the table whose kind has a spelling is that spelling. -/
lemma eq_of_mem_words {text s : String} {kind : Kind} (h : (text, kind) ∈ words)
    (hs : kind.spelling? = some s) : text = s := by
  rcases mem_words_iff.mp h with ⟨-, hspelling⟩ | ⟨rfl, -⟩ | ⟨rfl, -⟩
  · exact Option.some.inj (hspelling.symm.trans hs)
  · cases hs
  · cases hs

/-! ## Symbols -/

/-- A symbol is the spelling of its kind, or an operator. -/
lemma spelling?_of_mem_symbols {entry : String × Kind} (h : entry ∈ symbols) :
    entry.2 = .operator ∨ entry.2.spelling? = some entry.1 := by
  have htable : (symbols.all fun entry =>
      entry.2 == .operator || entry.2.spelling? == some entry.1) = true := by
    decide +kernel
  simpa using List.all_eq_true.mp htable entry h

end Vocabulary

/-! ## Tokens -/

namespace Reading

variable {c : Char} {cs : List Char} {s : String}

lemma eq_of_spelling?_wordKind {word : List Char} (h : (wordKind word).spelling? = some s) :
    word = s.toList := by
  by_cases hword : ∃ kind, (String.ofList word, kind) ∈ Vocabulary.words
  · obtain ⟨kind, hmem⟩ := hword
    rw [wordKind_of_mem hmem] at h
    rw [← Vocabulary.eq_of_mem_words hmem h, String.toList_ofList]
  · -- names have no spelling of their own
    obtain ⟨htype, hvalue⟩ := wordKind_of_notMem (not_exists.mp hword)
    by_cases hcapital : StartsCapital word
    · rw [htype hcapital] at h
      cases h
    · rw [hvalue hcapital] at h
      cases h

lemma eq_of_spelling?_symbol (h : (symbol c cs).kind.spelling? = some s) :
    c :: cs.take (symbol c cs).more = s.toList := by
  cases hsymbol : Vocabulary.symbol? (c :: cs) with
  | none =>
      rw [symbol, hsymbol] at h
      cases h
  | some entry =>
      obtain ⟨text, kind⟩ := entry
      obtain ⟨rest, later, htext, rfl, -, -⟩ := ByteReader.exists_of_symbol? hsymbol
      have hread : symbol c (rest ++ later) = ⟨kind, text.length - 1, .normal⟩ := by
        rw [symbol, hsymbol]
      rw [hread] at h ⊢
      rcases Vocabulary.spelling?_of_mem_symbols (List.mem_of_find?_eq_some hsymbol) with
        (rfl : kind = _) | hspelling
      · cases h
      · obtain rfl : text = s := Option.some.inj (hspelling.symm.trans h)
        have hlength : text.length - 1 = rest.length := by
          rw [← String.length_toList, htext, List.length_cons, Nat.add_sub_cancel]
        rw [htext, hlength, List.take_left]

lemma spelling?_slash (cs : List Char) : (slash cs).kind.spelling? = none := by
  rw [slash.eq_def]
  split <;> rfl

lemma spelling?_quote (cs : List Char) : (quote cs).kind.spelling? = none := by
  rw [quote.eq_def]
  split <;> rfl

end Reading

namespace Mode

variable {s : String}

/-- **What is read as a kind with a spelling is that spelling.**  Only words and symbols are of such
a kind. -/
lemma eq_of_spelling?_read {mode : Mode} {c : Char} {cs : List Char}
    (h : (mode.read c cs).kind.spelling? = some s) :
    c :: cs.take (mode.read c cs).more = s.toList := by
  cases mode with
  | tripleString => cases h
  | blockComment depth hpos => cases h
  | normal =>
      by_cases hslash : c = '/'
      · subst hslash
        rw [read_slash, Reading.spelling?_slash] at h
        cases h
      · by_cases hquote : c = '"'
        · subst hquote
          rw [read_quote, Reading.spelling?_quote] at h
          cases h
        · rw [read_of_ne hslash hquote] at h ⊢
          split at h
          · cases h
          · split at h
            · rename_i hdigit hstart
              rw [if_neg hdigit, if_pos hstart]
              exact (congrArg (c :: ·) (Extent.take_run _ cs)).trans
                (Reading.eq_of_spelling?_wordKind h)
            · rename_i hdigit hstart
              rw [if_neg hdigit, if_neg hstart]
              exact Reading.eq_of_spelling?_symbol h

lemma text_eq_of_spelling? {mode : Mode} {cs : List Char} {l : Lexeme}
    (hl : l ∈ (mode.scan cs).1) (hs : l.kind.spelling? = some s) : l.text = s.toList := by
  fun_induction after mode cs with
  | case1 mode =>
      rw [scan_nil] at hl
      cases hl
  | case2 mode c cs r ih =>
      rw [scan_cons] at hl
      rcases List.mem_cons.mp hl with rfl | hl
      · exact eq_of_spelling?_read hs
      · exact ih hl

/-- A spelling alone on a line is one token of its kind. -/
lemma lexemes_of_spelling? {kind : Kind} (h : kind.spelling? = some s) :
    normal.lexemes s = [⟨kind, s.toList⟩] := by
  have htable : (Kind.all.all fun kind => kind.spelling?.all fun s =>
      normal.lexemes s == [⟨kind, s.toList⟩]) = true := by
    decide +kernel
  have hkind := List.all_eq_true.mp htable kind (Kind.mem_all kind)
  rw [h] at hkind
  exact beq_iff_eq.mp hkind

/-- **A kind with a spelling is always spelled that way.**  On every line, in whatever mode it
begins, the bytes of a token whose kind has a spelling are that spelling; and the spelling alone is
one token of that kind.  A text is a word of a kind exactly if the kind is a reserved word or the
underscore and spelled so, or the text is one of the six capabilities or of the two truth
values. -/
theorem spelled_kinds_keep_spelling :
    (∀ (mode : Mode) (line : String) (before : List Lexeme) (l : Lexeme) (after : List Lexeme),
      mode.lexemes line = before ++ l :: after → ∀ s, l.kind.spelling? = some s →
        l.text = s.toList ∧
        Text.slice? line (Lexeme.totalWidth before) (Lexeme.totalWidth before + l.width) = some s) ∧
    (∀ kind s, kind.spelling? = some s → normal.lexemes s = [⟨kind, s.toList⟩]) ∧
    (∀ text kind, Vocabulary.word? text = some kind ↔
      ((kind.isKeyword = true ∨ kind = .dontCare) ∧ kind.spelling? = some text) ∨
      (kind = .capability ∧ text ∈ ["iso", "trn", "val", "ref", "box", "tag"]) ∨
      (kind = .boolean ∧ text ∈ ["true", "false"])) := by
  refine ⟨?_, fun _ _ => lexemes_of_spelling?,
    fun _ _ => Vocabulary.word?_eq_some_iff.trans Vocabulary.mem_words_iff⟩
  intro mode line before l after hlexemes s hs
  have hmem : l ∈ mode.lexemes line := by
    rw [hlexemes]
    exact List.mem_append_right before List.mem_cons_self
  have htext := text_eq_of_spelling? hmem hs
  have hline : line.toList =
      before.flatMap Lexeme.text ++ l.text ++ after.flatMap Lexeme.text := by
    rw [← flatMap_text_scan mode line.toList]
    change (mode.lexemes line).flatMap Lexeme.text = _
    rw [hlexemes, List.flatMap_append, List.flatMap_cons, List.append_assoc]
  refine ⟨htext, ?_⟩
  rw [Lexeme.totalWidth_eq, Lexeme.width, Text.slice?_append hline, htext, String.ofList_toList]

/-- Behind the end of a comment, a word that begins with a shorter one, an arrow that begins with a
shorter symbol, and the underscore. -/
theorem spelled_kinds_keep_spelling_behind_comment :
    (ofDepth 1).lexemes "é*/elseif=>_" =
      [⟨.comment, ['é', '*', '/']⟩, ⟨.kwElseif, "elseif".toList⟩, ⟨.doubleArrow, ['=', '>']⟩,
        ⟨.dontCare, ['_']⟩] ∧
    Kind.spelling? .kwElseif = some "elseif" ∧ Text.slice? "é*/elseif=>_" 4 10 = some "elseif" ∧
    Kind.spelling? .doubleArrow = some "=>" ∧ Text.slice? "é*/elseif=>_" 10 12 = some "=>" ∧
    normal.lexemes "elseif" = [⟨.kwElseif, "elseif".toList⟩] ∧
    Vocabulary.word? "trn" = some .capability := by
  have hlexemes : (ofDepth 1).lexemes "é*/elseif=>_" =
      [⟨.comment, ['é', '*', '/']⟩, ⟨.kwElseif, "elseif".toList⟩, ⟨.doubleArrow, ['=', '>']⟩,
        ⟨.dontCare, ['_']⟩] := by
    decide +kernel
  obtain ⟨htokens, halone, hwords⟩ := spelled_kinds_keep_spelling
  refine ⟨hlexemes, rfl, ?_, rfl, ?_, halone .kwElseif "elseif" rfl,
    (hwords "trn" .capability).mpr (.inr (.inl ⟨rfl, by decide⟩))⟩
  · exact (htokens _ _ [_] _ _ hlexemes "elseif" rfl).2
  · exact (htokens _ _ [_, _] _ _ hlexemes "=>" rfl).2

end Mode
end PonyEditor
