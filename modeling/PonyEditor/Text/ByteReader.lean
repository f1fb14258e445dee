import PonyEditor.Text.Bytes

/-!
# Reading bytes

A position among the UTF-8 bytes of a text, for code that looks at single bytes: a byte past the
end reads as zero, and no move passes the end.  A position may fall inside a character.
-/

namespace PonyEditor

/-- A position among the bytes of a text. -/
structure ByteReader where
  text : String
  pos : Nat := 0

namespace ByteReader

/-- The number of bytes the leading byte of a character announces; one for any other byte. -/
def charWidth (b : UInt8) : Nat :=
  if 0xC0 ≤ b && b ≤ 0xDF then 2
  else if 0xE0 ≤ b && b ≤ 0xEF then 3
  else if 0xF0 ≤ b && b ≤ 0xF7 then 4
  else 1

variable (r : ByteReader)

/-- All bytes of the text. -/
def bytes : List UInt8 := r.text.toUTF8.toList

/-- The number of bytes of the text. -/
def length : Nat := r.bytes.length

/-- The bytes from the position on. -/
def rest : List UInt8 := r.bytes.drop r.pos

/-- Whether no byte is left. -/
def atEnd : Bool := r.length ≤ r.pos

/-- The byte `n` after the position. -/
def peek (n : Nat) : UInt8 := r.rest[n]?.getD 0

/-- Moves `n` bytes on. -/
def advance (n : Nat) : ByteReader := { r with pos := min (r.pos + n) r.length }

/-- Moves on by the character that the byte at the position announces. -/
def advanceChar : ByteReader := r.advance (charWidth (r.peek 0))

/-- Moves to the end. -/
def toEnd : ByteReader := { r with pos := r.length }

/-- Moves past the bytes that satisfy `p`. -/
def skipWhile (p : UInt8 → Bool) : ByteReader := r.advance (r.rest.takeWhile p).length

/-- Moves to the next byte that satisfies `p` and gives it; at the end it gives zero. -/
def seek (p : UInt8 → Bool) : ByteReader × UInt8 :=
  let found := r.skipWhile fun b => !p b
  (found, found.peek 0)

/-- Moves to the next quote or backslash. -/
def seekStringMark : ByteReader × UInt8 := r.seek fun b => b == 34 || b == 92

/-- Moves to the next slash or star. -/
def seekCommentMark : ByteReader × UInt8 := r.seek fun b => b == 47 || b == 42

/-- The number of bytes up to the end of the first three quotes in a row. -/
def tripleQuote? : List UInt8 → Option Nat
  | [] => none
  | 34 :: 34 :: 34 :: _ => some 3
  | _ :: bs => (tripleQuote? bs).map (· + 1)

/-- Moves past the next three quotes in a row, or to the end if there are none; says which. -/
def skipTripleQuote : ByteReader × Bool :=
  match tripleQuote? r.rest with
  | some n => (r.advance n, true)
  | none => (r.toEnd, false)

/-- The text between two positions; empty if they are not positions of characters in order. -/
def slice (start stop : Nat) : String := (Text.slice? r.text start stop).getD ""

end ByteReader
end PonyEditor
