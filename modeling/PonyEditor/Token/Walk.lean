import PonyEditor.Span
import PonyEditor.Token.Lexeme

/-!
# Tokens of a line

A token is a kind with its place in the document.  Lexemes of a line that starts at a known offset
become tokens by adding up their widths.  `LineWalk` takes the tokens of one line from both ends:
spans at the front are counted up from the start of the line, spans at the back down from its end.
-/

namespace PonyEditor

/-- A kind at a place of the document. -/
structure Token where
  kind : Kind
  span : Span
  deriving DecidableEq, Repr

/-- The tokens of consecutive lexemes, the first of them at `start`. -/
def Token.ofLexemes (start : Nat) : List Lexeme → List Token
  | [] => []
  | l :: ls =>
    let span := Span.ofLength start l.width
    ⟨l.kind, span⟩ :: ofLexemes span.stop ls

/-- The tokens of a line that are still to be taken. -/
structure LineWalk where
  /-- The text of the whole line. -/
  text : String
  /-- The lexemes not taken yet. -/
  left : List Lexeme
  /-- The offset where they begin. -/
  front : Nat
  /-- The offset where they end. -/
  back : Nat

namespace LineWalk

/-- The walk over a line that begins at `start`, in `mode`. -/
def ofLine (text : String) (mode : Mode) (start : Nat) : LineWalk :=
  ⟨text, mode.lexemes text, start, Offset.add start (Text.lineLength text)⟩

/-- The walk over no line. -/
def empty : LineWalk := ⟨"", [], 0, 0⟩

/-- The number of tokens left. -/
def length (w : LineWalk) : Nat := w.left.length

/-- Takes the first token. -/
def first? (w : LineWalk) : Option (Token × LineWalk) :=
  match w.left with
  | [] => none
  | l :: left =>
    let span := Span.ofLength w.front l.width
    some (⟨l.kind, span⟩, { w with left, front := span.stop })

/-- Takes the last token. -/
def last? (w : LineWalk) : Option (Token × LineWalk) :=
  match w.left.getLast? with
  | none => none
  | some l =>
    let span : Span := ⟨w.back - l.width, w.back⟩
    some (⟨l.kind, span⟩, { w with left := w.left.dropLast, back := span.start })

/-- The tokens left, from front to back. -/
def toList (w : LineWalk) : List Token := Token.ofLexemes w.front w.left

theorem length_lt_of_last? {w w' : LineWalk} {t : Token} (h : w.last? = some (t, w')) :
    w'.length < w.length := by
  cases hlast : w.left.getLast? with
  | none => simp [last?, hlast] at h
  | some l =>
      simp only [last?, hlast, Option.some.injEq, Prod.mk.injEq] at h
      obtain ⟨-, rfl⟩ := h
      have hpos : 0 < w.left.length := List.length_pos_of_mem (List.mem_of_getLast? hlast)
      simp only [length, List.length_dropLast]
      omega

/-- The tokens left, from back to front. -/
def fromBack (w : LineWalk) : List Token :=
  match h : w.last? with
  | none => []
  | some (t, w') =>
    have := length_lt_of_last? h
    t :: w'.fromBack
  termination_by w.length

end LineWalk
end PonyEditor
