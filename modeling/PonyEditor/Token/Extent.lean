import PonyEditor.Token.Mode

/-!
# Extents

How many characters of a line belong to a token, counted from a given point of it.  Each function
takes the characters from that point on.  Delimiters are ASCII, so reading characters and reading
bytes find the same ends.
-/

namespace PonyEditor
namespace Extent

/-! ## Constructs that may run past the line -/

/-- The rest of a block comment of the given depth: its length, up to and with the marker that
closes the outermost comment, and the mode after it.  Markers are read from left to right and
share no character. -/
def blockComment : Nat → List Char → Nat × Mode
  | depth, [] => (0, Mode.ofDepth depth)
  | depth, '/' :: '*' :: cs =>
    let (n, mode) := blockComment (Mode.deepen depth) cs
    (n + 2, mode)
  | depth, '*' :: '/' :: cs =>
    if depth ≤ 1 then (2, .normal)
    else
      let (n, mode) := blockComment (depth - 1) cs
      (n + 2, mode)
  | depth, _ :: cs =>
    let (n, mode) := blockComment depth cs
    (n + 1, mode)

/-- The rest of a triple-quoted string: its length, up to and with the first three quotes in a
row, and the mode after it. -/
def tripleString : List Char → Nat × Mode
  | [] => (0, .tripleString)
  | '"' :: '"' :: '"' :: _ => (3, .normal)
  | _ :: cs =>
    let (n, mode) := tripleString cs
    (n + 1, mode)

/-! ## Constructs of one line -/

/-- The rest of a string after its opening quote: up to and with the closing one, or to the end of
the line.  A backslash takes the character after it along. -/
def string : List Char → Nat
  | [] => 0
  | '"' :: _ => 1
  | '\\' :: _ :: cs => string cs + 2
  | _ :: cs => string cs + 1

/-- Whether a character is a digit in base two. -/
def isBinaryDigit (c : Char) : Bool := c == '0' || c == '1'

/-- Whether a character is a digit in base sixteen. -/
def isHexDigit (c : Char) : Bool :=
  c.isDigit || ('a' ≤ c && c ≤ 'f') || ('A' ≤ c && c ≤ 'F')

/-- The length of the run of characters at the front that satisfy `p`. -/
def run (p : Char → Bool) (cs : List Char) : Nat := (cs.takeWhile p).length

/-- A fractional part: a dot with at least one digit after it. -/
def fraction : List Char → Nat
  | '.' :: cs => if run Char.isDigit cs = 0 then 0 else run Char.isDigit cs + 1
  | _ => 0

/-- An exponent: its letter, a minus sign or none, and any digits, none included. -/
def exponent : List Char → Nat
  | c :: cs =>
    if c == 'e' || c == 'E' then
      match cs with
      | '-' :: ds => run Char.isDigit ds + 2
      | ds => run Char.isDigit ds + 1
    else 0
  | [] => 0

/-- A decimal number: digits, then a fractional part and an exponent where they follow. -/
def decimal (cs : List Char) : Nat :=
  let whole := run Char.isDigit cs
  let part := fraction (cs.drop whole)
  whole + part + exponent (cs.drop (whole + part))

/-- A number, in the base its first two characters announce. -/
def number : List Char → Nat
  | '0' :: 'x' :: cs | '0' :: 'X' :: cs => run isHexDigit cs + 2
  | '0' :: 'b' :: cs | '0' :: 'B' :: cs => run isBinaryDigit cs + 2
  | cs => decimal cs

/-- Whether a word can begin with the character. -/
def isWordStart (c : Char) : Bool := c.isAlpha || c == '_'

/-- Whether a word can go on with the character. -/
def isWordRest (c : Char) : Bool := c.isAlphanum || c == '_' || c == '\x27'

end Extent
end PonyEditor
