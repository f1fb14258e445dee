import Mathlib.Tactic.Lemma
import Mathlib.Tactic.SplitIfs
import PonyEditor.Proofs.ByteScanner

/-!
# Extents in bytes

A reader before some characters moves over a construct and stands before the characters after it:
numbers (`At.number`), block comments (`At.blockComment`), strings (`At.string`) and triple-quoted
strings (`At.tripleString`).  The loops that jump from mark to mark agree with those that take every
character in turn, because what is jumped over changes nothing (`afterComment_dropWhile`,
`afterString_dropWhile`).
-/

namespace PonyEditor

/-! ## Classes of bytes -/

namespace ByteReader

/-- A character beyond ASCII is above every ASCII character. -/
lemma not_le_of_ge {c : Char} (hc : 128 ≤ c.toNat) (mark : Char) (hmark : mark.toNat < 128) :
    ¬ c ≤ mark := by
  intro hle
  have hnat : c.toNat ≤ mark.toNat := UInt32.le_iff_toNat_le.mp hle
  omega

lemma isDigit_of_ge {c : Char} (hc : 128 ≤ c.toNat) : c.isDigit = false := by
  have hnot : ¬ c.val ≤ 57 := not_le_of_ge hc '9' (by decide)
  unfold Char.isDigit
  simp [hnot]

lemma isUpper_of_ge {c : Char} (hc : 128 ≤ c.toNat) : c.isUpper = false := by
  have hnot : ¬ c.val ≤ 90 := not_le_of_ge hc 'Z' (by decide)
  unfold Char.isUpper
  simp [hnot]

lemma isLower_of_ge {c : Char} (hc : 128 ≤ c.toNat) : c.isLower = false := by
  have hnot : ¬ c.val ≤ 122 := not_le_of_ge hc 'z' (by decide)
  unfold Char.isLower
  simp [hnot]

lemma isAlpha_of_ge {c : Char} (hc : 128 ≤ c.toNat) : c.isAlpha = false := by
  unfold Char.isAlpha
  rw [isUpper_of_ge hc, isLower_of_ge hc, Bool.false_or]

lemma beq_of_ge {c : Char} (hc : 128 ≤ c.toNat) (mark : Char) (hmark : mark.toNat < 128) :
    (c == mark) = false := by
  apply beq_eq_false_iff_ne.mpr
  rintro rfl
  omega

lemma isWordStart_of_ge {c : Char} (hc : 128 ≤ c.toNat) : Extent.isWordStart c = false := by
  rw [Extent.isWordStart, isAlpha_of_ge hc, beq_of_ge hc '_' (by decide)]
  rfl

lemma judges_decimal : Judges (fun b => digitValue b < 10) Char.isDigit :=
  judges_of_ascii (by decide) (by decide) fun _ => isDigit_of_ge

lemma judges_hex : Judges (fun b => digitValue b < 16) Extent.isHexDigit := by
  refine judges_of_ascii (by decide) (by decide) fun c hc => ?_
  simp [Extent.isHexDigit, isDigit_of_ge hc, not_le_of_ge hc 'f' (by decide),
    not_le_of_ge hc 'F' (by decide)]

lemma judges_binary : Judges (fun b => digitValue b < 2) Extent.isBinaryDigit := by
  refine judges_of_ascii (by decide) (by decide) fun c hc => ?_
  rw [Extent.isBinaryDigit, beq_of_ge hc '0' (by decide), beq_of_ge hc '1' (by decide),
    Bool.false_or]

lemma judges_upper : Judges isUpperByte Char.isUpper :=
  judges_of_ascii (by decide) (by decide) fun _ => isUpper_of_ge

lemma judges_wordStart : Judges isWordStartByte Extent.isWordStart :=
  judges_of_ascii (by decide) (by decide) fun _ => isWordStart_of_ge

lemma judges_word : Judges isWordByte Extent.isWordRest := by
  refine judges_of_ascii (by decide) (by decide) fun c hc => ?_
  rw [Extent.isWordRest, Char.isAlphanum, isAlpha_of_ge hc, isDigit_of_ge hc,
    beq_of_ge hc '_' (by decide), beq_of_ge hc '\x27' (by decide)]
  rfl

/-! ## Numbers -/

variable {r : ByteReader} {line : String} {cs : List Char}

lemma At.digits {base : Nat} {p : Char → Bool} (h : r.At line cs)
    (hjudges : Judges (fun b => digitValue b < base) p) :
    (r.digits base).At line (cs.drop (Extent.run p cs)) := by
  rw [Extent.run, drop_length_takeWhile]
  exact h.skipWhile hjudges

/-- A run is not empty when the first byte passes. -/
lemma At.run_ne_zero_iff {q : UInt8 → Bool} {p : Char → Bool} (h : r.At line cs)
    (hjudges : Judges q p) (hzero : q 0 = false) :
    Extent.run p cs ≠ 0 ↔ q (r.peek 0) = true := by
  cases cs with
  | nil => simp [Extent.run, h.peek_nil, hzero]
  | cons c cs =>
      rw [h.judge hjudges, Extent.run, List.takeWhile_cons]
      by_cases hc : p c = true <;> simp [hc]

lemma At.fraction (h : r.At line cs) : r.fraction.At line (cs.drop (Extent.fraction cs)) := by
  have hdot := h.peek_iff '.' (by decide)
  rw [ByteReader.fraction]
  by_cases hmark : r.peek 0 = '.'.toUInt8
  · obtain ⟨rest, rfl⟩ := hdot.mp hmark
    have hnext : (r.advance 1).At line rest := h.advance_one (by decide)
    have hdigit := hnext.run_ne_zero_iff judges_decimal (by decide)
    rw [peek_advance, decide_eq_true_eq] at hdigit
    by_cases hrun : Extent.run Char.isDigit rest = 0
    · rw [if_neg fun hand => hdigit.mpr hand.2 hrun, Extent.fraction, if_pos hrun]
      exact h
    · rw [if_pos ⟨hmark, hdigit.mp hrun⟩, Extent.fraction, if_neg hrun, List.drop_succ_cons]
      exact hnext.digits judges_decimal
  · have hzero : Extent.fraction cs = 0 := by
      rw [Extent.fraction]
      exact fun rest hrest => hmark (hdot.mpr ⟨rest, hrest⟩)
    rw [if_neg fun hand => hmark hand.1, hzero]
    exact h

/-- The characters after a minus sign, if there is one. -/
def afterSign : List Char → List Char
  | '-' :: cs => cs
  | cs => cs

lemma afterSign_of_ne {cs : List Char} (h : ∀ rest, cs = '-' :: rest → False) :
    afterSign cs = cs := by
  rw [afterSign]
  exact h

lemma At.sign (h : r.At line cs) : r.sign.At line (afterSign cs) := by
  have hminus := h.peek_iff '-' (by decide)
  rw [ByteReader.sign]
  by_cases hmark : r.peek 0 = '-'.toUInt8
  · obtain ⟨rest, rfl⟩ := hminus.mp hmark
    rw [if_pos hmark, afterSign]
    exact h.advance_one (by decide)
  · rw [if_neg hmark, afterSign_of_ne fun rest hrest => hmark (hminus.mpr ⟨rest, hrest⟩)]
    exact h

/-- The length of an exponent, its letter given. -/
lemma drop_exponent {letter : Char} (hletter : (letter == 'e' || letter == 'E') = true)
    (cs : List Char) : (letter :: cs).drop (Extent.exponent (letter :: cs)) =
      (afterSign cs).drop (Extent.run Char.isDigit (afterSign cs)) := by
  unfold Extent.exponent
  simp only [hletter, if_true]
  split
  · rfl
  · rename_i hminus
    rw [afterSign_of_ne hminus]
    rfl

lemma At.exponent (h : r.At line cs) : r.exponent.At line (cs.drop (Extent.exponent cs)) := by
  have hsmall := h.peek_iff 'e' (by decide)
  have hcapital := h.peek_iff 'E' (by decide)
  rw [ByteReader.exponent]
  by_cases hmark : r.peek 0 = 'e'.toUInt8 ∨ r.peek 0 = 'E'.toUInt8
  · rw [if_pos hmark]
    rw [hsmall, hcapital] at hmark
    rcases hmark with ⟨rest, rfl⟩ | ⟨rest, rfl⟩
    · rw [drop_exponent rfl]
      exact (h.advance_one (by decide)).sign.digits judges_decimal
    · rw [drop_exponent rfl]
      exact (h.advance_one (by decide)).sign.digits judges_decimal
  · rw [if_neg hmark]
    rw [hsmall, hcapital] at hmark
    cases cs with
    | nil => exact h
    | cons c cs =>
        have hletter : ¬ (c == 'e' || c == 'E') = true := by
          intro hc
          rcases (Bool.or_eq_true _ _).mp hc with hc | hc
          · exact hmark (.inl ⟨cs, congrArg (· :: cs) (beq_iff_eq.mp hc)⟩)
          · exact hmark (.inr ⟨cs, congrArg (· :: cs) (beq_iff_eq.mp hc)⟩)
        have hzero : Extent.exponent (c :: cs) = 0 := if_neg hletter
        rw [hzero]
        exact h

lemma At.decimal (h : r.At line cs) :
    (r.digits 10).fraction.exponent.At line (cs.drop (Extent.decimal cs)) := by
  have hwhole := h.digits judges_decimal
  have hpart := hwhole.fraction
  have hexponent := hpart.exponent
  simp only [List.drop_drop] at hexponent
  exact hexponent

lemma At.number (h : r.At line cs) : r.number.At line (cs.drop (Extent.number cs)) := by
  have hx := h.peek_two_iff '0' 'x' (by decide) (by decide)
  have hX := h.peek_two_iff '0' 'X' (by decide) (by decide)
  have hb := h.peek_two_iff '0' 'b' (by decide) (by decide)
  have hB := h.peek_two_iff '0' 'B' (by decide) (by decide)
  rw [ByteReader.number]
  by_cases hhex : r.peek 0 = '0'.toUInt8 ∧ (r.peek 1 = 'x'.toUInt8 ∨ r.peek 1 = 'X'.toUInt8)
  · rw [if_pos hhex]
    rw [and_or_left, hx, hX] at hhex
    rcases hhex with ⟨rest, rfl⟩ | ⟨rest, rfl⟩
    · exact (h.advance_two (by decide) (by decide)).digits judges_hex
    · exact (h.advance_two (by decide) (by decide)).digits judges_hex
  · rw [if_neg hhex]
    by_cases hbinary : r.peek 0 = '0'.toUInt8 ∧ (r.peek 1 = 'b'.toUInt8 ∨ r.peek 1 = 'B'.toUInt8)
    · rw [if_pos hbinary]
      rw [and_or_left, hb, hB] at hbinary
      rcases hbinary with ⟨rest, rfl⟩ | ⟨rest, rfl⟩
      · exact (h.advance_two (by decide) (by decide)).digits judges_binary
      · exact (h.advance_two (by decide) (by decide)).digits judges_binary
    · rw [if_neg hbinary]
      rw [and_or_left, hx, hX] at hhex
      rw [and_or_left, hb, hB] at hbinary
      rw [Extent.number]
      · exact h.decimal
      · exact fun rest hrest => hhex (.inl ⟨rest, hrest⟩)
      · exact fun rest hrest => hhex (.inr ⟨rest, hrest⟩)
      · exact fun rest hrest => hbinary (.inl ⟨rest, hrest⟩)
      · exact fun rest hrest => hbinary (.inr ⟨rest, hrest⟩)

/-! ## Block comments -/

lemma At.seek {q : UInt8 → Bool} {p : Char → Bool} (h : r.At line cs) (hjudges : Judges q p) :
    (r.seek q).1.At line (cs.dropWhile fun c => !p c) :=
  h.skipWhile hjudges.not

lemma isMark_of_dropWhile {p : Char → Bool} {c : Char} {rest : List Char}
    (h : cs.dropWhile (fun c => !p c) = c :: rest) : p c = true := by
  have hhead := List.head?_dropWhile_not (fun c => !p c) cs
  rw [h] at hhead
  simpa using hhead

/-- Whether a character is half a marker of a block comment. -/
def isCommentMark (c : Char) : Bool := c == '/' || c == '*'

lemma judges_commentMark : Judges (fun b => b == 47 || b == 42) isCommentMark :=
  (judges_eq '/' (by decide)).or (judges_eq '*' (by decide))

/-- The characters after a block comment, and the mode. -/
def afterComment (depth : Nat) (cs : List Char) : List Char × Mode :=
  (cs.drop (Extent.blockComment depth cs).1, (Extent.blockComment depth cs).2)

lemma afterComment_nil (depth : Nat) : afterComment depth [] = ([], Mode.ofDepth depth) := rfl

lemma afterComment_open (depth : Nat) (cs : List Char) :
    afterComment depth ('/' :: '*' :: cs) = afterComment (Mode.deepen depth) cs := rfl

lemma afterComment_close (depth : Nat) (cs : List Char) :
    afterComment depth ('*' :: '/' :: cs) =
      if depth ≤ 1 then (cs, .normal) else afterComment (depth - 1) cs := by
  rw [afterComment, Extent.blockComment]
  split_ifs with hdepth
  · rfl
  · rfl

lemma afterComment_cons (depth : Nat) {c : Char} {cs : List Char}
    (hopen : ∀ rest, c :: cs = '/' :: '*' :: rest → False)
    (hclose : ∀ rest, c :: cs = '*' :: '/' :: rest → False) :
    afterComment depth (c :: cs) = afterComment depth cs := by
  rw [afterComment, Extent.blockComment]
  · rfl
  · rintro rest rfl rfl
    exact hopen rest rfl
  · rintro rest rfl rfl
    exact hclose rest rfl

/-- Nothing but markers counts. -/
lemma afterComment_dropWhile (depth : Nat) (cs : List Char) :
    afterComment depth (cs.dropWhile fun c => !isCommentMark c) = afterComment depth cs := by
  induction cs with
  | nil => rfl
  | cons c cs ih =>
      by_cases hc : isCommentMark c = true
      · simp [hc]
      · rw [List.dropWhile_cons_of_pos (by simpa using hc), ih, afterComment_cons]
        · rintro rest heq
          obtain rfl := (List.cons.inj heq).1
          exact hc rfl
        · rintro rest heq
          obtain rfl := (List.cons.inj heq).1
          exact hc rfl

/-- The reader stops where the comment does. -/
lemma At.blockComment (h : r.At line cs) (depth : Nat) :
    (r.blockComment depth).1.At line (afterComment depth cs).1 ∧
      (r.blockComment depth).2 = (afterComment depth cs).2 := by
  fun_induction ByteReader.blockComment depth r generalizing cs
  case case1 depth r found hopen ih =>
    have hfound := h.seek judges_commentMark
    obtain ⟨rest, hrest⟩ := (hfound.peek_two_iff '/' '*' (by decide) (by decide)).mp hopen
    rw [← afterComment_dropWhile, hrest, afterComment_open]
    rw [hrest] at hfound
    exact ih (hfound.advance_two (by decide) (by decide))
  case case2 depth r found _ hclose hdepth =>
    have hfound := h.seek judges_commentMark
    obtain ⟨rest, hrest⟩ := (hfound.peek_two_iff '*' '/' (by decide) (by decide)).mp hclose
    rw [← afterComment_dropWhile, hrest, afterComment_close, if_pos hdepth]
    rw [hrest] at hfound
    exact ⟨hfound.advance_two (by decide) (by decide), rfl⟩
  case case3 depth r found _ hclose hdepth ih =>
    have hfound := h.seek judges_commentMark
    obtain ⟨rest, hrest⟩ := (hfound.peek_two_iff '*' '/' (by decide) (by decide)).mp hclose
    rw [← afterComment_dropWhile, hrest, afterComment_close, if_neg hdepth]
    rw [hrest] at hfound
    exact ih (hfound.advance_two (by decide) (by decide))
  case case4 depth r found _ _ hend =>
    -- NUL is no mark, so it can only be the end that reads as one
    have hfound := h.seek judges_commentMark
    have hnil : cs.dropWhile (fun c => !isCommentMark c) = [] := by
      cases hrest : cs.dropWhile (fun c => !isCommentMark c) with
      | nil => rfl
      | cons c rest =>
          rw [hrest] at hfound
          have hmark := hfound.judge judges_commentMark
          have hzero : (r.seek fun b => b == 47 || b == 42).1.peek 0 = 0 := hend
          rw [isMark_of_dropWhile hrest, hzero] at hmark
          exact nomatch hmark
    rw [← afterComment_dropWhile, hnil, afterComment_nil]
    rw [hnil] at hfound
    exact ⟨hfound, rfl⟩
  case case5 depth r found hopen hclose hend ih =>
    have hfound := h.seek judges_commentMark
    rw [← afterComment_dropWhile]
    cases hrest : cs.dropWhile (fun c => !isCommentMark c) with
    | nil =>
        rw [hrest] at hfound
        exact absurd (hfound.peek_nil 0) hend
    | cons c rest =>
        rw [hrest] at hfound
        have hascii : c.toNat < 128 := by
          have hmark := isMark_of_dropWhile hrest
          rcases (Bool.or_eq_true _ _).mp hmark with hc | hc <;>
            (rw [beq_iff_eq.mp hc]; decide)
        rw [afterComment_cons]
        · exact ih (hfound.advance_one hascii)
        · intro later hlater
          exact hopen ((hfound.peek_two_iff '/' '*' (by decide) (by decide)).mpr ⟨later, hlater⟩)
        · intro later hlater
          exact hclose ((hfound.peek_two_iff '*' '/' (by decide) (by decide)).mpr ⟨later, hlater⟩)

/-! ## Strings -/

/-- Whether a character ends a string or takes the next one along. -/
def isStringMark (c : Char) : Bool := c == '"' || c == '\\'

lemma judges_stringMark : Judges (fun b => b == 34 || b == 92) isStringMark :=
  (judges_eq '"' (by decide)).or (judges_eq '\\' (by decide))

/-- The characters after a string. -/
def afterString (cs : List Char) : List Char := cs.drop (Extent.string cs)

lemma afterString_nil : afterString [] = [] := rfl

lemma afterString_quote (cs : List Char) : afterString ('"' :: cs) = cs := rfl

lemma afterString_escape (c : Char) (cs : List Char) :
    afterString ('\\' :: c :: cs) = afterString cs := rfl

lemma afterString_cons {c : Char} {cs : List Char} (hquote : c ≠ '"')
    (hescape : c = '\\' → cs = []) : afterString (c :: cs) = afterString cs := by
  rw [afterString, Extent.string]
  · rfl
  · exact hquote
  · rintro d rest rfl rfl
    exact nomatch hescape rfl

lemma afterString_dropWhile (cs : List Char) :
    afterString (cs.dropWhile fun c => !isStringMark c) = afterString cs := by
  induction cs with
  | nil => rfl
  | cons c cs ih =>
      by_cases hc : isStringMark c = true
      · simp [hc]
      · rw [List.dropWhile_cons_of_pos (by simpa using hc), ih, afterString_cons]
        · rintro rfl
          exact hc rfl
        · rintro rfl
          exact absurd rfl hc

/-- The reader stops where the string does. -/
lemma At.string (h : r.At line cs) : r.string.At line (afterString cs) := by
  fun_induction ByteReader.string r generalizing cs
  case case1 r found hquote =>
    have hfound := h.seek judges_stringMark
    obtain ⟨rest, hrest⟩ := (hfound.peek_iff '"' (by decide)).mp hquote
    rw [← afterString_dropWhile, hrest, afterString_quote]
    rw [hrest] at hfound
    exact hfound.advance_one (by decide)
  case case2 r found hquote hescape ih =>
    have hfound := h.seek judges_stringMark
    obtain ⟨rest, hrest⟩ := (hfound.peek_iff '\\' (by decide)).mp hescape
    rw [hrest] at hfound
    have hnext : (found.1.advance 1).At line rest := hfound.advance_one (by decide)
    rw [← afterString_dropWhile, hrest]
    cases rest with
    | nil =>
        -- there is no character to take along, and the reader stays at the end
        rw [afterString_cons (by decide) fun _ => rfl]
        exact ih (hnext.advance_nil _)
    | cons c rest =>
        rw [afterString_escape]
        exact ih hnext.advanceChar
  case case3 r found hquote hescape =>
    have hfound := h.seek judges_stringMark
    have hnil : cs.dropWhile (fun c => !isStringMark c) = [] := by
      cases hrest : cs.dropWhile (fun c => !isStringMark c) with
      | nil => rfl
      | cons c rest =>
          rcases (Bool.or_eq_true _ _).mp (isMark_of_dropWhile hrest) with hc | hc
          · rw [hrest, beq_iff_eq.mp hc] at hfound
            exact absurd ((hfound.peek_iff '"' (by decide)).mpr ⟨rest, rfl⟩) hquote
          · rw [hrest, beq_iff_eq.mp hc] at hfound
            exact absurd ((hfound.peek_iff '\\' (by decide)).mpr ⟨rest, rfl⟩) hescape
    rw [← afterString_dropWhile, hnil, afterString_nil]
    rw [hnil] at hfound
    exact hfound

/-! ## Triple-quoted strings -/

/-- Bytes that are no quote are passed over. -/
lemma tripleQuote?_append {bs : List UInt8} (h : ∀ b ∈ bs, b ≠ 34) (rest : List UInt8) :
    tripleQuote? (bs ++ rest) = (tripleQuote? rest).map (· + bs.length) := by
  induction bs with
  | nil => simp
  | cons b bs ih =>
      have hb : b ≠ 34 := h b List.mem_cons_self
      have hstep : tripleQuote? (b :: (bs ++ rest)) = (tripleQuote? (bs ++ rest)).map (· + 1) := by
        rw [tripleQuote?]
        rintro more rfl
        exact absurd rfl hb
      rw [List.cons_append, hstep, ih fun b' hb' => h b' (List.mem_cons_of_mem _ hb'),
        Option.map_map]
      congr 1

/-- A character that does not begin three quotes is passed over. -/
lemma tripleQuote?_encode_cons {c : Char} {cs : List Char}
    (htriple : ∀ rest, c = '"' → cs = '"' :: '"' :: rest → False) :
    tripleQuote? (Text.encode (c :: cs)) =
      (tripleQuote? (Text.encode cs)).map (· + c.utf8Size) := by
  rw [Text.encode_cons]
  by_cases hc : c = '"'
  · subst hc
    have hbytes : String.utf8EncodeChar '"' ++ Text.encode cs = 34 :: Text.encode cs := rfl
    rw [hbytes, tripleQuote?]
    · rfl
    · intro more _ hmore
      obtain ⟨rest, rfl, hrest⟩ := encode_eq_cons '"' hmore (by decide)
      obtain ⟨later, rfl, -⟩ := encode_eq_cons '"' hrest (by decide)
      exact htriple later rfl rfl
  · rw [tripleQuote?_append, String.length_utf8EncodeChar]
    rintro b hb rfl
    have hjudge := judges_eq '"' (by decide) c 34 hb
    exact hc (beq_iff_eq.mp hjudge.symm)

/-- The bytes of three quotes are found where the characters are, or neither is. -/
lemma tripleQuote?_encode (cs : List Char) :
    (∃ n, Extent.tripleString cs = (n, .normal) ∧
      tripleQuote? (Text.encode cs) = some (Text.width (cs.take n))) ∨
    (Extent.tripleString cs = (cs.length, .tripleString) ∧
      tripleQuote? (Text.encode cs) = none) := by
  fun_induction Extent.tripleString cs with
  | case1 => exact .inr ⟨rfl, rfl⟩
  | case2 rest => exact .inl ⟨3, rfl, rfl⟩
  | case3 c cs htriple n mode hrest ih =>
      rw [tripleQuote?_encode_cons htriple]
      rcases ih with ⟨n', hn, hquote⟩ | ⟨hlength, hquote⟩
      · obtain ⟨rfl, rfl⟩ := Prod.mk.inj (hrest.symm.trans hn)
        refine .inl ⟨n + 1, rfl, ?_⟩
        rw [hquote, Option.map_some, List.take_succ_cons, Text.width_cons, Nat.add_comm]
      · obtain ⟨rfl, rfl⟩ := Prod.mk.inj (hrest.symm.trans hlength)
        refine .inr ⟨rfl, ?_⟩
        rw [hquote, Option.map_none]

/-- The reader stops where the string does, or at the end of the line. -/
lemma At.tripleString (h : r.At line cs) :
    r.tripleString.1.At line (cs.drop (Extent.tripleString cs).1) ∧
      r.tripleString.2 = (Extent.tripleString cs).2 := by
  rw [ByteReader.tripleString, skipTripleQuote, h.rest]
  rcases tripleQuote?_encode cs with ⟨n, hn, hquote⟩ | ⟨hlength, hquote⟩
  · rw [hquote, hn]
    refine ⟨?_, rfl⟩
    rw [← List.take_append_drop n cs] at h
    exact h.advance
  · rw [hquote, hlength]
    refine ⟨?_, rfl⟩
    rw [List.drop_length]
    exact h.toEnd

end ByteReader
end PonyEditor
