import Mathlib.Tactic.Lemma
import PonyEditor.Proofs.ReadingBytes
import PonyEditor.Token.Lexeme

/-!
# A scanner of bytes

The scanner as it works on a line in memory: a reader moves over the bytes, looks at one, two or
three of them, jumps to the next byte of some kind, and takes the distance it has moved for the
length of a token.  It knows nothing of characters but the width that a leading byte announces.  A
byte past the end reads as NUL, and moves past the end stop there.

`ByteScanner.Run` is what a scanner yields when it is asked for tokens until it has none.
-/

namespace PonyEditor
namespace ByteReader

/-! ## Jumping to a byte -/

variable (r : ByteReader)

lemma rest_seek (p : UInt8 → Bool) : (r.seek p).1.rest = r.rest.dropWhile fun b => !p b := by
  rw [seek, skipWhile, rest_advance, drop_length_takeWhile]

/-- A byte other than NUL is there to be moved over. -/
lemma length_rest_advance_lt {r : ByteReader} (h : r.peek 0 ≠ 0) {n : Nat} (hn : 0 < n) :
    (r.advance n).rest.length < r.rest.length := by
  rw [rest_advance, List.length_drop]
  have hne : r.rest ≠ [] := by
    intro hnil
    rw [peek, hnil] at h
    exact h rfl
  have hpos := List.length_pos_iff.mpr hne
  omega

lemma length_rest_seek_le (p : UInt8 → Bool) : (r.seek p).1.rest.length ≤ r.rest.length := by
  rw [rest_seek]
  exact (List.dropWhile_sublist _).length_le

/-! ## Constructs that may run past the line -/

/-- Moves over the rest of a block comment of the given depth, from marker to marker. -/
def blockComment (depth : Nat) (r : ByteReader) : ByteReader × Mode :=
  let found := r.seekCommentMark
  if found.2 = '/'.toUInt8 ∧ found.1.peek 1 = '*'.toUInt8 then
    blockComment (Mode.deepen depth) (found.1.advance 2)
  else if found.2 = '*'.toUInt8 ∧ found.1.peek 1 = '/'.toUInt8 then
    if depth ≤ 1 then (found.1.advance 2, .normal)
    else blockComment (depth - 1) (found.1.advance 2)
  else if found.2 = 0 then (found.1, Mode.ofDepth depth)
  else blockComment depth (found.1.advance 1)
termination_by r.rest.length
decreasing_by
  all_goals
    refine Nat.lt_of_lt_of_le (length_rest_advance_lt ?_ (by decide)) (r.length_rest_seek_le _)
  · rename_i hopen
    exact fun hzero => absurd (hopen.1.symm.trans hzero) (by decide)
  · rename_i hclose _
    exact fun hzero => absurd (hclose.1.symm.trans hzero) (by decide)
  · assumption

/-- Moves over the rest of a triple-quoted string. -/
def tripleString : ByteReader × Mode :=
  match r.skipTripleQuote with
  | (stop, true) => (stop, .normal)
  | (stop, false) => (stop, .tripleString)

/-! ## Constructs of one line -/

/-- Moves over the rest of a string, from quote or backslash to the next. -/
def string (r : ByteReader) : ByteReader :=
  let found := r.seekStringMark
  if found.2 = '"'.toUInt8 then found.1.advance 1
  else if found.2 = '\\'.toUInt8 then string (found.1.advance 1).advanceChar
  else found.1
termination_by r.rest.length
decreasing_by
  rename_i hescape
  have hstep : (found.1.advance 1).rest.length < found.1.rest.length :=
    length_rest_advance_lt (fun hzero => absurd (hescape.symm.trans hzero) (by decide)) (by decide)
  have hseek := r.length_rest_seek_le fun b => b == 34 || b == 92
  have hchar : (found.1.advance 1).advanceChar.rest.length ≤ (found.1.advance 1).rest.length := by
    rw [advanceChar, rest_advance, List.length_drop]
    exact Nat.sub_le _ _
  exact Nat.lt_of_le_of_lt hchar (Nat.lt_of_lt_of_le hstep hseek)

/-- The value of a byte as a digit, letters from ten on; a byte that is no digit of any base has
one above them all. -/
def digitValue (b : UInt8) : Nat :=
  if 48 ≤ b && b ≤ 57 then (b - 48).toNat
  else if 97 ≤ b && b ≤ 122 then (b - 97).toNat + 10
  else if 65 ≤ b && b ≤ 90 then (b - 65).toNat + 10
  else Offset.limit

/-- Moves over digits of a base. -/
def digits (base : Nat) : ByteReader := r.skipWhile fun b => digitValue b < base

/-- Moves over a dot and digits, if a digit follows the dot. -/
def fraction : ByteReader :=
  if r.peek 0 = '.'.toUInt8 ∧ digitValue (r.peek 1) < 10 then (r.advance 1).digits 10 else r

/-- Moves over a minus sign, if there is one. -/
def sign : ByteReader := if r.peek 0 = '-'.toUInt8 then r.advance 1 else r

/-- Moves over an exponent, if there is one. -/
def exponent : ByteReader :=
  if r.peek 0 = 'e'.toUInt8 ∨ r.peek 0 = 'E'.toUInt8 then (r.advance 1).sign.digits 10 else r

/-- Moves over a number. -/
def number : ByteReader :=
  if r.peek 0 = '0'.toUInt8 ∧ (r.peek 1 = 'x'.toUInt8 ∨ r.peek 1 = 'X'.toUInt8) then
    (r.advance 2).digits 16
  else if r.peek 0 = '0'.toUInt8 ∧ (r.peek 1 = 'b'.toUInt8 ∨ r.peek 1 = 'B'.toUInt8) then
    (r.advance 2).digits 2
  else (r.digits 10).fraction.exponent

/-- Whether a byte is a capital letter. -/
def isUpperByte (b : UInt8) : Bool := 65 ≤ b && b ≤ 90

/-- Whether a word can begin with the byte. -/
def isWordStartByte (b : UInt8) : Bool := isUpperByte b || (97 ≤ b && b ≤ 122) || b == 95

/-- Whether a word can go on with the byte. -/
def isWordByte (b : UInt8) : Bool := isWordStartByte b || (48 ≤ b && b ≤ 57) || b == 39

/-- Whether the table of symbols is worth a look. -/
def isSymbolByte (b : UInt8) : Bool :=
  (33 ≤ b && b ≤ 46) || (58 ≤ b && b ≤ 64) || (91 ≤ b && b ≤ 94) || (123 ≤ b && b ≤ 126)

/-- The first symbol of the table whose bytes are next. -/
def symbol? : Option (String × Kind) :=
  Vocabulary.symbols.find? fun entry => entry.1.toUTF8.toList.isPrefixOf r.rest

end ByteReader

/-! ## One token -/

/-- The end of a token: its kind, the reader after it, and the mode it leaves. -/
structure Cut where
  kind : Kind
  stop : ByteReader
  mode : Mode

namespace ByteReader

variable (r : ByteReader)

/-- The token at a slash. -/
def slash : Cut :=
  let next := r.advance 1
  if next.peek 0 = '/'.toUInt8 then ⟨.comment, next.toEnd, .normal⟩
  else if next.peek 0 = '*'.toUInt8 then
    let body := (next.advance 1).blockComment 1
    ⟨.comment, body.1, body.2⟩
  else ⟨.operator, next, .normal⟩

/-- The token at a quote. -/
def quote : Cut :=
  if r.peek 1 = '"'.toUInt8 ∧ r.peek 2 = '"'.toUInt8 then
    let body := (r.advance 3).tripleString
    ⟨.string, body.1, body.2⟩
  else ⟨.string, (r.advance 1).string, .normal⟩

/-- The word at a letter or underscore: its text is looked up, and what the table does not have is
told by its first byte, or by its second after an underscore. -/
def word : Cut :=
  let stop := (r.advance 1).skipWhile isWordByte
  let kind :=
    match Vocabulary.word? (r.slice r.pos stop.pos) with
    | some kind => kind
    | none =>
      if isUpperByte (r.peek 0) || (r.peek 0 == '_'.toUInt8 && isUpperByte (r.peek 1)) then
        .typeName
      else .valueName
  ⟨kind, stop, .normal⟩

/-- The symbol at a byte, or a blank of one character. -/
def symbol : Cut :=
  match r.symbol? with
  | some (text, kind) => ⟨kind, r.advance text.toUTF8.toList.length, .normal⟩
  | none => ⟨.blank, r.advanceChar, .normal⟩

/-- The token at the reader, with nothing open. -/
def plain : Cut :=
  if r.peek 0 = '/'.toUInt8 then r.slash
  else if r.peek 0 = '"'.toUInt8 then r.quote
  else if digitValue (r.peek 0) < 10 then ⟨.number, r.number, .normal⟩
  else if isWordStartByte (r.peek 0) then r.word
  else if isSymbolByte (r.peek 0) then r.symbol
  else ⟨.blank, r.advanceChar, .normal⟩

/-- The token at the reader. -/
def cut (mode : Mode) : Cut :=
  match mode with
  | .normal => r.plain
  | .tripleString => ⟨.string, r.tripleString.1, r.tripleString.2⟩
  | .blockComment depth _ =>
    let body := r.blockComment depth
    ⟨.comment, body.1, body.2⟩

end ByteReader

/-- A place among the bytes of a line, between two tokens. -/
structure ByteScanner where
  reader : ByteReader
  mode : Mode

namespace ByteScanner

/-- The scanner at the start of a line that begins in `mode`. -/
def start (line : String) (mode : Mode) : ByteScanner := ⟨⟨line, 0⟩, mode⟩

/-- Takes one token, its kind and its length; `none` at the end of the line. -/
def next? (s : ByteScanner) : Option ((Kind × Nat) × ByteScanner) :=
  if s.reader.atEnd then none
  else
    let cut := s.reader.cut s.mode
    some ((cut.kind, cut.stop.pos - s.reader.pos), ⟨cut.stop, cut.mode⟩)

/-- The scanner yields these tokens, one for each time it is asked, then none, and ends in this
mode. -/
inductive Run : ByteScanner → List (Kind × Nat) → Mode → Prop
  | done {s : ByteScanner} : s.next? = none → Run s [] s.mode
  | step {s s' : ByteScanner} {token : Kind × Nat} {tokens : List (Kind × Nat)} {mode : Mode} :
      s.next? = some (token, s') → Run s' tokens mode → Run s (token :: tokens) mode

/-- A scanner has one run. -/
lemma Run.unique {s : ByteScanner} {tokens tokens' : List (Kind × Nat)} {mode mode' : Mode}
    (h : Run s tokens mode) (h' : Run s tokens' mode') : tokens = tokens' ∧ mode = mode' := by
  induction h generalizing tokens' mode' with
  | done hend =>
      cases h' with
      | done => exact ⟨rfl, rfl⟩
      | step hnext _ => exact nomatch hend.symm.trans hnext
  | step hnext _ ih =>
      cases h' with
      | done hend => exact nomatch hend.symm.trans hnext
      | step hnext' hrest =>
          obtain ⟨rfl, rfl⟩ := Prod.mk.inj (Option.some.inj (hnext.symm.trans hnext'))
          obtain ⟨rfl, rfl⟩ := ih hrest
          exact ⟨rfl, rfl⟩

end ByteScanner

end PonyEditor
