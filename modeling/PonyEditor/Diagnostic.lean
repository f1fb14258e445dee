import PonyEditor.Text.DecimalDigit
import PonyEditor.Text.Lines
import PonyEditor.Text.Numeral

/-!
# Diagnostics

An error the compiler reports at a place of a file.  The compiler writes one on a line of its own,
`<file>:<line>:<column>: <message>`, with lines and columns counted from one.  The file is the
shortest text that ends in `.pony` and is followed by such numbers; a line of any other shape is
no diagnostic.
-/

namespace PonyEditor

/-- An error at a place of a file.  Line and column count from zero. -/
structure Diagnostic where
  file : String
  line : Nat
  column : Nat
  message : String
  deriving DecidableEq, Repr

namespace Diagnostic

/-- The line the compiler writes for a diagnostic. -/
def render (d : Diagnostic) : String :=
  d.file ++ ":" ++ toString (d.line + 1) ++ ":" ++ toString (d.column + 1) ++ ": " ++ d.message

/-! ## Reading -/

/-- The characters after `lead`, if they begin with it. -/
def afterLead? (lead cs : List Char) : Option (List Char) :=
  if lead.isPrefixOf cs then some (cs.drop lead.length) else none

/-- The decimal digits at the front, of any script and at least one, and the characters after. -/
def digits? (cs : List Char) : Option (List Char × List Char) :=
  match cs.takeWhile Text.isDecimalDigit with
  | [] => none
  | digits => some (digits, cs.dropWhile Text.isDecimalDigit)

/-- What follows the stem of a file name: the digits of the line, those of the column, and the
message. -/
structure Tail where
  line : List Char
  column : List Char
  message : List Char
  deriving DecidableEq, Repr

/-- Reads what follows the stem of a file name, to the end of the line. -/
def Tail.read? (cs : List Char) : Option Tail := do
  let cs ← afterLead? ".pony:".toList cs
  let (line, cs) ← digits? cs
  let cs ← afterLead? ":".toList cs
  let (column, cs) ← digits? cs
  let message ← afterLead? ": ".toList cs
  return ⟨line, column, message⟩

/-- The shortest stem, of at least one character, that a tail follows. -/
def split? : List Char → Option (List Char × Tail)
  | [] => none
  | c :: cs =>
    match Tail.read? cs with
    | some tail => some ([c], tail)
    | none => (split? cs).map fun (stem, tail) => (c :: stem, tail)

/-- A number counted from one, as a number counted from zero. -/
def fromOne? (digits : List Char) : Option Nat :=
  match Numeral.read? digits with
  | some (n + 1) => some n
  | _ => none

/-- Reads a line of compiler output.  Only the shortest stem counts: if its numbers are zero, too
great or not in ASCII digits, the line is no diagnostic. -/
def read? (line : String) : Option Diagnostic :=
  if line.toList.contains '\n' then none
  else do
    let (stem, tail) ← split? line.toList
    let line ← fromOne? tail.line
    let column ← fromOne? tail.column
    return ⟨String.ofList (stem ++ ".pony".toList), line, column, String.ofList tail.message⟩

/-- The diagnostics of a compiler run; other lines of its output are passed over. -/
def ofOutput (output : String) : List Diagnostic := (Text.outputLines output).filterMap read?

end Diagnostic
end PonyEditor
