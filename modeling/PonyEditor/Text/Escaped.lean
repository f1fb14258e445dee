import PonyEditor.Text.Extender
import PonyEditor.Text.Unprintable

/-!
# Escaped text

Text on one line of a listing: what does not print is written by its code, and so is a character
at the very front that would be drawn onto whatever stands before the text.
-/

namespace PonyEditor
namespace Text

/-- A character by its code in base sixteen. -/
def codeEscape (c : Char) : List Char :=
  "\\u\x7b".toList ++ Nat.toDigits 16 c.toNat ++ ['\x7d']

/-- A character in a listing.  `leading` says that it stands at the front of the text. -/
def escapeChar (leading : Bool) (c : Char) : List Char :=
  if c = '\x00' then ['\\', '0']
  else if c = '\t' then ['\\', 't']
  else if c = '\r' then ['\\', 'r']
  else if c = '\n' then ['\\', 'n']
  else if c = '\\' || c = '"' || c = '\x27' then ['\\', c]
  else if leading && isExtender c then codeEscape c
  else if isUnprintable c then codeEscape c
  else [c]

/-- The text as it stands in a listing. -/
def escaped (text : String) : String :=
  match text.toList with
  | [] => ""
  | c :: cs => String.ofList (escapeChar true c ++ cs.flatMap (escapeChar false))

end Text
end PonyEditor
