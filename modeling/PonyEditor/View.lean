import PonyEditor.ModeTable
import PonyEditor.Token.Walk

/-!
# Tokens of a document

A view joins a text and its table of modes.  Tokens are not stored: each question scans the lines
it needs, each from the mode recorded for it.  A line without a recorded mode is scanned as if
nothing were open.
-/

namespace PonyEditor

/-- A text with the modes of its lines. -/
structure View (σ : Type) where
  table : ModeTable
  source : σ

/-- The view of a text at a snapshot, which must be the current one. -/
def ModeTable.view {σ : Type} (t : ModeTable) (source : σ) (snapshot : Snapshot) :
    Except QueryError (View σ) :=
  if snapshot = t.snapshot then .ok ⟨t, source⟩
  else .error (.staleSnapshot snapshot t.snapshot)

namespace View

variable {σ : Type} [Lined σ]

/-- The view of a text with its own table. -/
def ofSource (source : σ) : View σ := ⟨.ofSource source, source⟩

/-- The number of lines. -/
def lineCount (v : View σ) : Nat := Lined.count v.source

/-- The text of a line. -/
def line? (v : View σ) (line : Nat) : Option String := Lined.line? v.source line

/-- The offset of the first byte of a line. -/
def start? (v : View σ) (line : Nat) : Option Nat := Lined.start? v.source line

/-- The line that an offset is in. -/
def lineAt? (v : View σ) (offset : Nat) : Option Nat := Lined.lineAt? v.source offset

/-- The mode a line is scanned from. -/
def mode (v : View σ) (line : Nat) : Mode := (v.table.entry? line).getD .normal

/-- The walk over the tokens of a line, blanks included. -/
def walk (v : View σ) (line : Nat) : LineWalk :=
  match v.line? line, v.start? line with
  | some text, some start => .ofLine text (v.mode line) start
  | _, _ => .empty

/-- The tokens of a line, blanks included. -/
def tokensOf (v : View σ) (line : Nat) : List Token := (v.walk line).toList

/-- The tokens of the whole text, blanks included. -/
def tokens (v : View σ) : List Token := (List.range v.lineCount).flatMap v.tokensOf

/-- The token that an offset is in, with its line.  Line feeds and the end of the text are in no
token. -/
def tokenAt? (v : View σ) (offset : Nat) : Option (Nat × Token) := do
  let line ← v.lineAt? offset
  let token ← (v.tokensOf line).find? fun t => t.span.contains offset
  return (line, token)

/-- The offset of a column of a line; a column past the end of the line is taken to its end. -/
def offsetAt? (v : View σ) (line column : Nat) : Option Nat := do
  let text ← v.line? line
  let start ← v.start? line
  return Offset.add start (min column (Text.lineLength text))

/-- The span to mark for a position: the token that begins there, or one byte. -/
def spanAt? (v : View σ) (line column : Nat) : Option Span := do
  let offset ← v.offsetAt? line column
  match (v.tokensOf line).find? fun t => t.span.start == offset with
  | some token => return token.span
  | none => return Span.ofLength offset 1

end View
end PonyEditor
