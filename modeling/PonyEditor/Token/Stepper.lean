import PonyEditor.Token.Lexeme

/-!
# Scanning step by step

A stepper stands somewhere in a line and takes one lexeme at a time.  It can be left at any step
and taken up again: what it still has to read is all it knows.
-/

namespace PonyEditor

/-- A place in a line, between two lexemes. -/
structure Stepper where
  /-- The bytes read so far. -/
  pos : Nat
  /-- The characters not yet read. -/
  rest : List Char
  mode : Mode

namespace Stepper

/-- The stepper at the start of a line that begins in `mode`. -/
def start (line : String) (mode : Mode) : Stepper := ⟨0, line.toList, mode⟩

/-- Reads one lexeme; `none` at the end of the line. -/
def next? (s : Stepper) : Option (Lexeme × Stepper) :=
  match s.rest with
  | [] => none
  | c :: cs =>
    let r := s.mode.read c cs
    let lexeme : Lexeme := ⟨r.kind, c :: cs.take r.more⟩
    some (lexeme, ⟨s.pos + lexeme.width, cs.drop r.more, r.mode⟩)

/-- Reads at most `n` lexemes; each is given with the stepper after it. -/
def steps : Nat → Stepper → List (Lexeme × Stepper)
  | 0, _ => []
  | n + 1, s =>
    match s.next? with
    | none => []
    | some (lexeme, s) => (lexeme, s) :: steps n s

/-- The mode after the rest of the line. -/
def finish (s : Stepper) : Mode := s.mode.after s.rest

/-- A step does not change where the line leads. -/
theorem finish_of_next? {s s' : Stepper} {lexeme : Lexeme} (h : s.next? = some (lexeme, s')) :
    s'.finish = s.finish := by
  obtain ⟨pos, rest, mode⟩ := s
  cases rest with
  | nil => simp [next?] at h
  | cons c cs =>
    simp only [next?, Option.some.injEq, Prod.mk.injEq] at h
    obtain ⟨-, rfl⟩ := h
    simp [finish, Mode.after_cons]

end Stepper
end PonyEditor
