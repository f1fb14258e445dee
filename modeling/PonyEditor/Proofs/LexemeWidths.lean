import Mathlib.Tactic.Lemma
import PonyEditor.Token.Lexeme

/-!
# Widths of lexemes

Each lexeme of a line has a byte, and together they have the bytes of the line.  Wherever one ends
a character of the line ends.
-/

namespace PonyEditor

namespace Lexeme

/-- The number of bytes of some lexemes together. -/
def totalWidth : List Lexeme → Nat
  | [] => 0
  | l :: ls => l.width + totalWidth ls

lemma totalWidth_eq (ls : List Lexeme) : totalWidth ls = Text.width (ls.flatMap text) := by
  induction ls with
  | nil => rfl
  | cons l ls ih => rw [totalWidth, ih, List.flatMap_cons, Text.width_append, width]

lemma totalWidth_append (xs ys : List Lexeme) :
    totalWidth (xs ++ ys) = totalWidth xs + totalWidth ys := by
  rw [totalWidth_eq, totalWidth_eq, totalWidth_eq, List.flatMap_append, Text.width_append]

end Lexeme

namespace Mode

lemma totalWidth_lexemes (mode : Mode) (line : String) :
    Lexeme.totalWidth (mode.lexemes line) = Text.width line.toList := by
  rw [Lexeme.totalWidth_eq, lexemes, flatMap_text_scan]

lemma width_pos_of_mem_scan {mode : Mode} {cs : List Char} {l : Lexeme}
    (h : l ∈ (mode.scan cs).1) : 0 < l.width := by
  fun_induction after mode cs with
  | case1 mode =>
      rw [scan_nil] at h
      cases h
  | case2 mode c cs r ih =>
      rw [scan_cons] at h
      rcases List.mem_cons.mp h with rfl | h
      · exact Nat.add_pos_left c.utf8Size_pos _
      · exact ih h

/-- The first lexemes of a line are characters of it, and the others are the rest. -/
lemma toList_eq_take_append (mode : Mode) (line : String) (k : Nat) :
    line.toList = ((mode.lexemes line).take k).flatMap Lexeme.text ++
      ((mode.lexemes line).drop k).flatMap Lexeme.text := by
  rw [← List.flatMap_append, List.take_append_drop, lexemes, flatMap_text_scan]

end Mode
end PonyEditor
