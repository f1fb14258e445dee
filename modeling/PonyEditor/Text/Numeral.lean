import PonyEditor.Offset

/-!
# Numerals

Reading numbers in ASCII decimal digits, leading zeros allowed, up to the greatest offset.
-/

namespace PonyEditor
namespace Numeral

/-- The number the digits stand for. -/
def value (digits : List Char) : Nat :=
  digits.foldl (fun n c => 10 * n + (c.toNat - '0'.toNat)) 0

/-- Reads digits; `none` for no digit, for any other character, and past the limit. -/
def read? (cs : List Char) : Option Nat :=
  if cs ≠ [] ∧ cs.all Char.isDigit ∧ value cs ≤ Offset.limit then some (value cs) else none

/-- Reads a number given by the user, who may put a plus sign before it. -/
def readArgument? (text : String) : Option Nat :=
  match text.toList with
  | '+' :: cs => read? cs
  | cs => read? cs

end Numeral
end PonyEditor
