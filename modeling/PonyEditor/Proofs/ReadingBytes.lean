import Mathlib.Tactic.Lemma
import PonyEditor.Text.ByteReader
import PonyEditor.Token.Extent

/-!
# Reading characters byte by byte

What code that looks at single bytes sees of a line of characters.  A reader stands before some
characters of the line (`ByteReader.At`): then the bytes from its position on are theirs, and as
long as it moves over whole characters it stands before characters again.

An ASCII character is one byte, and no byte of any other character is ASCII.  So a test for ASCII
bytes answers for a byte as a test for characters does for the character it belongs to (`Judges`),
and skipping bytes that pass one is skipping characters that pass the other (`At.skipWhile`).
-/

namespace PonyEditor

/-! ## Bytes of characters -/

lemma toList_loop_eq (bytes : ByteArray) (i : Nat) (read : List UInt8) :
    ByteArray.toList.loop bytes i read = read.reverse ++ bytes.data.toList.drop i := by
  fun_induction ByteArray.toList.loop bytes i read with
  | case1 i read h ih =>
      have hi : i < bytes.data.toList.length := by simpa using h
      rw [ih, List.drop_eq_getElem_cons hi]
      simp [ByteArray.get!, h]
  | case2 i read h =>
      rw [List.drop_eq_nil_of_le (by simpa using Nat.le_of_not_lt h)]
      simp

lemma drop_length_takeWhile {α : Type} (p : α → Bool) (xs : List α) :
    xs.drop (xs.takeWhile p).length = xs.dropWhile p := by
  induction xs with
  | nil => rfl
  | cons x xs ih => by_cases hx : p x = true <;> simp [hx, ih]

namespace Text

/-- The UTF-8 bytes of characters. -/
def encode (cs : List Char) : List UInt8 := cs.flatMap String.utf8EncodeChar

@[simp] lemma encode_nil : encode [] = [] := rfl

@[simp] lemma encode_cons (c : Char) (cs : List Char) :
    encode (c :: cs) = String.utf8EncodeChar c ++ encode cs := rfl

@[simp] lemma encode_append (xs ys : List Char) : encode (xs ++ ys) = encode xs ++ encode ys :=
  List.flatMap_append

@[simp] lemma length_encode (cs : List Char) : (encode cs).length = width cs := by
  induction cs with
  | nil => rfl
  | cons c cs ih => simp [ih, String.length_utf8EncodeChar]

lemma toList_toUTF8 (text : String) : text.toUTF8.toList = encode text.toList := by
  have hdata : text.toUTF8 = (encode text.toList).toByteArray := by
    rw [String.toUTF8_eq_toByteArray]
    conv => lhs; rw [← String.ofList_toList (s := text)]
    rfl
  rw [hdata, ByteArray.toList, toList_loop_eq]
  simp

lemma utf8ByteSize_eq (text : String) : text.utf8ByteSize = width text.toList := by
  rw [← length_encode, ← toList_toUTF8, ByteArray.toList, toList_loop_eq]
  simp

lemma encodeChar_of_lt {c : Char} (h : c.toNat < 128) :
    String.utf8EncodeChar c = [c.toUInt8] := by
  have hle : c.val.toNat ≤ 127 := Nat.le_of_lt_succ h
  rw [String.utf8EncodeChar.eq_1, if_pos hle]
  rfl

lemma encode_cons_of_lt {c : Char} (h : c.toNat < 128) (cs : List Char) :
    encode (c :: cs) = c.toUInt8 :: encode cs := by
  rw [encode_cons, encodeChar_of_lt h]
  rfl

/-- No byte of a character beyond ASCII is an ASCII byte. -/
lemma le_of_mem_encodeChar {c : Char} (h : 128 ≤ c.toNat) {b : UInt8}
    (hb : b ∈ String.utf8EncodeChar c) : 128 ≤ b.toNat := by
  have hval : ¬ c.val.toNat ≤ 127 := Nat.not_le.mpr h
  rw [String.utf8EncodeChar.eq_1, if_neg hval] at hb
  split at hb
  · simp only [List.mem_cons, List.not_mem_nil, or_false] at hb
    rcases hb with rfl | rfl <;> (rw [UInt8.toNat_ofNat']; omega)
  · split at hb
    · simp only [List.mem_cons, List.not_mem_nil, or_false] at hb
      rcases hb with rfl | rfl | rfl <;> (rw [UInt8.toNat_ofNat']; omega)
    · simp only [List.mem_cons, List.not_mem_nil, or_false] at hb
      rcases hb with rfl | rfl | rfl | rfl <;> (rw [UInt8.toNat_ofNat']; omega)

end Text

namespace ByteReader

/-! ## Leading bytes -/

/-- The leading byte of a character announces how many there are. -/
lemma exists_charWidth_eq (c : Char) :
    ∃ b bs, String.utf8EncodeChar c = b :: bs ∧ charWidth b = c.utf8Size := by
  have hone : ∀ n < 128, charWidth (UInt8.ofNat n) = 1 := by decide
  have htwo : ∀ n < 32, charWidth (UInt8.ofNat (n + 192)) = 2 := by decide
  have hthree : ∀ n < 16, charWidth (UInt8.ofNat (n + 224)) = 3 := by decide
  have hfour : ∀ n < 8, charWidth (UInt8.ofNat (n + 240)) = 4 := by decide
  rw [← String.length_utf8EncodeChar c, String.utf8EncodeChar.eq_1]
  split
  · exact ⟨_, _, rfl, hone _ (by omega)⟩
  · split
    · exact ⟨_, _, rfl, htwo _ (Nat.mod_lt _ (by decide))⟩
    · split
      · exact ⟨_, _, rfl, hthree _ (Nat.mod_lt _ (by decide))⟩
      · exact ⟨_, _, rfl, hfour _ (Nat.mod_lt _ (by decide))⟩

/-! ## Tests of bytes and of characters -/

/-- The test gives every byte of a character the answer that the other gives the character. -/
def Judges (q : UInt8 → Bool) (p : Char → Bool) : Prop :=
  ∀ c, ∀ b ∈ String.utf8EncodeChar c, q b = p c

/-- Tests that only ASCII passes, and that agree there. -/
lemma judges_of_ascii {q : UInt8 → Bool} {p : Char → Bool}
    (hascii : ∀ n < 128, q (UInt8.ofNat n) = p (Char.ofNat n))
    (hbyte : ∀ n < 128, q (UInt8.ofNat (n + 128)) = false)
    (hchar : ∀ c, 128 ≤ c.toNat → p c = false) : Judges q p := by
  intro c b hb
  rcases Nat.lt_or_ge c.toNat 128 with hlt | hge
  · rw [Text.encodeChar_of_lt hlt] at hb
    have hcode : c.toUInt8 = UInt8.ofNat c.toNat := rfl
    rw [List.mem_singleton.mp hb, hcode, hascii _ hlt, Char.ofNat_toNat]
  · have hle := Text.le_of_mem_encodeChar hge hb
    have hlt := b.toNat_lt
    have hhigh := hbyte (b.toNat - 128) (by omega)
    rw [Nat.sub_add_cancel hle, UInt8.ofNat_toNat] at hhigh
    rw [hhigh, hchar c hge]

lemma Judges.not {q : UInt8 → Bool} {p : Char → Bool} (h : Judges q p) :
    Judges (fun b => !q b) (fun c => !p c) :=
  fun c b hb => congrArg (! ·) (h c b hb)

lemma Judges.or {q q' : UInt8 → Bool} {p p' : Char → Bool} (h : Judges q p) (h' : Judges q' p') :
    Judges (fun b => q b || q' b) (fun c => p c || p' c) := by
  intro c b hb
  simp only [h c b hb, h' c b hb]

/-- A byte is that of an ASCII character exactly when it belongs to that character. -/
lemma judges_eq (mark : Char) (hmark : mark.toNat < 128) :
    Judges (· == mark.toUInt8) (· == mark) := by
  have hnat : ∀ c : Char, c.toNat < 128 → c.toUInt8.toNat = c.toNat := by
    intro c hc
    have hlt : c.toNat < 256 := by omega
    exact Nat.mod_eq_of_lt hlt
  intro c b hb
  rcases Nat.lt_or_ge c.toNat 128 with hlt | hge
  · rw [Text.encodeChar_of_lt hlt] at hb
    rw [List.mem_singleton.mp hb, Bool.eq_iff_iff, beq_iff_eq, beq_iff_eq]
    constructor
    · intro heq
      have hcode := congrArg UInt8.toNat heq
      rw [hnat c hlt, hnat mark hmark] at hcode
      exact Char.toNat_inj.mp hcode
    · rintro rfl
      rfl
  · have hbyte : b ≠ mark.toUInt8 := by
      rintro rfl
      have hle := Text.le_of_mem_encodeChar hge hb
      rw [hnat mark hmark] at hle
      omega
    have hchar : c ≠ mark := by
      rintro rfl
      omega
    exact (beq_eq_false_iff_ne.mpr hbyte).trans (beq_eq_false_iff_ne.mpr hchar).symm

/-- The first of some bytes is that of an ASCII character exactly when the first character is. -/
lemma encode_eq_cons (mark : Char) {cs : List Char} {bs : List UInt8}
    (h : Text.encode cs = mark.toUInt8 :: bs) (hmark : mark.toNat < 128) :
    ∃ rest, cs = mark :: rest ∧ Text.encode rest = bs := by
  cases cs with
  | nil => exact nomatch h
  | cons c cs =>
      obtain ⟨b, more, hbytes, -⟩ := exists_charWidth_eq c
      rw [Text.encode_cons, hbytes, List.cons_append] at h
      have hb : b = mark.toUInt8 := (List.cons.inj h).1
      have hc : c = mark := by
        have hjudge : (b == mark.toUInt8) = (c == mark) :=
          judges_eq mark hmark c b (by simp [hbytes])
        rw [hb, beq_self_eq_true] at hjudge
        exact (beq_iff_eq.mp hjudge.symm)
      subst hc
      rw [Text.encodeChar_of_lt hmark] at hbytes
      obtain rfl : more = [] := (List.cons.inj hbytes).2.symm
      exact ⟨cs, rfl, (List.cons.inj h).2⟩

lemma takeWhile_encode {q : UInt8 → Bool} {p : Char → Bool} (h : Judges q p) (cs : List Char) :
    (Text.encode cs).takeWhile q = Text.encode (cs.takeWhile p) := by
  induction cs with
  | nil => rfl
  | cons c cs ih =>
      rw [Text.encode_cons, List.takeWhile_cons]
      by_cases hc : p c = true
      · have hall : ∀ b ∈ String.utf8EncodeChar c, q b = true := fun b hb => (h c b hb).trans hc
        rw [if_pos hc, List.takeWhile_append_of_pos hall, ih, Text.encode_cons]
      · obtain ⟨b, bs, hbytes, -⟩ := exists_charWidth_eq c
        have hb : ¬ q b = true := by
          rw [h c b (by simp [hbytes])]
          exact hc
        rw [if_neg hc, hbytes, List.cons_append, List.takeWhile_cons, if_neg hb]
        rfl

/-! ## Standing before characters -/

/-- The reader is on the line, before these characters of it. -/
def At (r : ByteReader) (line : String) (cs : List Char) : Prop :=
  ∃ read, line.toList = read ++ cs ∧ r = ⟨line, Text.width read⟩

variable {r : ByteReader} {line : String} {cs : List Char}

lemma at_start (line : String) : At ⟨line, 0⟩ line line.toList := ⟨[], rfl, rfl⟩

lemma length_eq (r : ByteReader) : r.length = Text.width r.text.toList := by
  rw [length, bytes, Text.toList_toUTF8, Text.length_encode]

lemma At.rest (h : r.At line cs) : r.rest = Text.encode cs := by
  obtain ⟨read, hline, rfl⟩ := h
  rw [ByteReader.rest, bytes, Text.toList_toUTF8, hline, Text.encode_append,
    ← Text.length_encode, List.drop_left]

/-- The position is that of the characters, counted from the end. -/
lemma At.pos_add (h : r.At line cs) : r.pos + Text.width cs = Text.width line.toList := by
  obtain ⟨read, hline, rfl⟩ := h
  rw [hline, Text.width_append]

lemma At.atEnd_iff (h : r.At line cs) : r.atEnd = true ↔ cs = [] := by
  have hpos := h.pos_add
  have hlength : r.length = Text.width line.toList := by
    obtain ⟨read, hline, rfl⟩ := h
    exact length_eq _
  rw [atEnd, decide_eq_true_eq, hlength]
  cases cs with
  | nil =>
      rw [Text.width_nil] at hpos
      simp only [iff_true]
      omega
  | cons c cs =>
      have hsize := c.utf8Size_pos
      rw [Text.width_cons] at hpos
      simp only [reduceCtorEq, iff_false]
      omega

lemma At.advance {xs : List Char} (h : r.At line (xs ++ cs)) :
    (r.advance (Text.width xs)).At line cs := by
  obtain ⟨read, hline, rfl⟩ := h
  refine ⟨read ++ xs, by simp [hline], ?_⟩
  have hle : Text.width read + Text.width xs ≤ Text.width line.toList := by
    rw [hline]
    simp only [Text.width_append]
    omega
  rw [ByteReader.advance, length_eq, Nat.min_eq_left hle, Text.width_append]

lemma At.toEnd (h : r.At line cs) : r.toEnd.At line [] := by
  obtain ⟨read, hline, rfl⟩ := h
  refine ⟨line.toList, by simp, ?_⟩
  rw [ByteReader.toEnd, length_eq]

/-- Moving on at the end stays there. -/
lemma At.advance_nil (h : r.At line []) (n : Nat) : (r.advance n).At line [] := by
  obtain ⟨read, hline, rfl⟩ := h
  rw [List.append_nil] at hline
  refine ⟨read, by simp [hline], ?_⟩
  rw [ByteReader.advance, length_eq, hline, Nat.min_eq_right (Nat.le_add_right _ _)]

lemma At.advanceChar {c : Char} (h : r.At line (c :: cs)) : r.advanceChar.At line cs := by
  obtain ⟨b, bs, hbytes, hwidth⟩ := exists_charWidth_eq c
  have hpeek : r.peek 0 = b := by
    rw [peek, h.rest, Text.encode_cons, hbytes]
    rfl
  have hadvance : r.advanceChar = r.advance (Text.width [c]) := by
    rw [ByteReader.advanceChar, hpeek, hwidth, Text.width_cons, Text.width_nil, Nat.add_zero]
  have hsplit : r.At line ([c] ++ cs) := h
  rw [hadvance]
  exact hsplit.advance

/-- One byte on is one ASCII character on. -/
lemma At.advance_one {c : Char} (h : r.At line (c :: cs)) (hc : c.toNat < 128) :
    (r.advance 1).At line cs := by
  have hsize : Text.width [c] = 1 := by
    rw [← Text.length_encode, Text.encode_cons_of_lt hc]
    rfl
  have hsplit : r.At line ([c] ++ cs) := h
  rw [← hsize]
  exact hsplit.advance

lemma At.skipWhile {q : UInt8 → Bool} {p : Char → Bool} (h : r.At line cs) (hjudges : Judges q p) :
    (r.skipWhile q).At line (cs.dropWhile p) := by
  rw [ByteReader.skipWhile, h.rest, takeWhile_encode hjudges, Text.length_encode]
  rw [← List.takeWhile_append_dropWhile (p := p) (l := cs)] at h
  exact h.advance

/-! ## Looking at bytes -/

@[simp] lemma rest_advance (r : ByteReader) (n : Nat) : (r.advance n).rest = r.rest.drop n := by
  rw [ByteReader.rest, ByteReader.rest, List.drop_drop]
  show r.bytes.drop (min (r.pos + n) r.bytes.length) = _
  rcases Nat.le_total (r.pos + n) r.bytes.length with hle | hge
  · rw [Nat.min_eq_left hle]
  · rw [Nat.min_eq_right hge, List.drop_length, List.drop_eq_nil_of_le hge]

lemma peek_advance (r : ByteReader) (n k : Nat) : (r.advance n).peek k = r.peek (n + k) := by
  rw [peek, peek, rest_advance, List.getElem?_drop]

lemma At.peek_nil (h : r.At line []) (n : Nat) : r.peek n = 0 := by
  rw [peek, h.rest]
  rfl

/-- The byte at the reader passes a test when the character does. -/
lemma At.judge {q : UInt8 → Bool} {p : Char → Bool} {c : Char} (h : r.At line (c :: cs))
    (hjudges : Judges q p) : q (r.peek 0) = p c := by
  obtain ⟨b, bs, hbytes, -⟩ := exists_charWidth_eq c
  have hpeek : r.peek 0 = b := by
    rw [peek, h.rest, Text.encode_cons, hbytes]
    rfl
  rw [hpeek]
  exact hjudges c b (by simp [hbytes])

lemma At.peek_of_lt {c : Char} (h : r.At line (c :: cs)) (hc : c.toNat < 128) :
    r.peek 0 = c.toUInt8 := by
  rw [peek, h.rest, Text.encode_cons_of_lt hc]
  rfl

/-! ### Marks -/

/-- An ASCII character other than NUL, which a byte past the end also reads as. -/
def IsMark (c : Char) : Prop := 0 < c.toNat ∧ c.toNat < 128

instance (c : Char) : Decidable (IsMark c) := inferInstanceAs (Decidable (_ ∧ _))

lemma IsMark.toUInt8_ne_zero {mark : Char} (h : IsMark mark) : mark.toUInt8 ≠ 0 := by
  obtain ⟨hpos, hlt⟩ := h
  intro hzero
  have hnat : mark.toNat % 256 = 0 := congrArg UInt8.toNat hzero
  omega

/-- The byte at the reader is that of a mark exactly when the mark is the next character. -/
lemma At.peek_iff (h : r.At line cs) (mark : Char) (hmark : IsMark mark) :
    r.peek 0 = mark.toUInt8 ↔ ∃ rest, cs = mark :: rest := by
  rw [peek, h.rest]
  constructor
  · intro hpeek
    cases hbytes : Text.encode cs with
    | nil =>
        rw [hbytes] at hpeek
        exact absurd hpeek.symm hmark.toUInt8_ne_zero
    | cons b bs =>
        rw [hbytes] at hpeek
        obtain rfl : b = mark.toUInt8 := hpeek
        obtain ⟨rest, hrest, -⟩ := encode_eq_cons mark hbytes hmark.2
        exact ⟨rest, hrest⟩
  · rintro ⟨rest, rfl⟩
    rw [← h.rest]
    exact h.peek_of_lt hmark.2

lemma At.peek_cons_iff {c : Char} (h : r.At line (c :: cs)) (mark : Char) (hmark : IsMark mark) :
    r.peek 0 = mark.toUInt8 ↔ c = mark := by
  rw [h.peek_iff mark hmark]
  constructor
  · rintro ⟨rest, hrest⟩
    exact (List.cons.inj hrest).1
  · rintro rfl
    exact ⟨cs, rfl⟩

lemma At.peek_two_iff (h : r.At line cs) (mark mark' : Char)
    (hmark : IsMark mark) (hmark' : IsMark mark') :
    r.peek 0 = mark.toUInt8 ∧ r.peek 1 = mark'.toUInt8 ↔ ∃ rest, cs = mark :: mark' :: rest := by
  rw [h.peek_iff mark hmark]
  constructor
  · rintro ⟨⟨rest, rfl⟩, hsecond⟩
    have hnext := peek_advance r 1 0
    rw [hsecond, (h.advance_one hmark.2).peek_iff mark' hmark'] at hnext
    obtain ⟨rest', rfl⟩ := hnext
    exact ⟨rest', rfl⟩
  · rintro ⟨rest, rfl⟩
    refine ⟨⟨_, rfl⟩, ?_⟩
    have hnext := peek_advance r 1 0
    rwa [((h.advance_one hmark.2).peek_iff mark' hmark').mpr ⟨rest, rfl⟩, eq_comm] at hnext

lemma advance_advance (r : ByteReader) (m n : Nat) :
    (r.advance m).advance n = r.advance (m + n) := by
  simp only [ByteReader.advance, length_eq]
  congr 1
  omega

lemma At.advance_two {c d : Char} (h : r.At line (c :: d :: cs))
    (hc : c.toNat < 128) (hd : d.toNat < 128) :
    (r.advance 2).At line cs := by
  rw [← advance_advance r 1 1]
  exact (h.advance_one hc).advance_one hd

end ByteReader
end PonyEditor
