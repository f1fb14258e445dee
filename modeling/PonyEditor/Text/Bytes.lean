import PonyEditor.Offset

/-!
# Bytes of a text

Offsets count UTF-8 bytes, and texts are made of characters.  `Text.width` is the measure between
the two, and `Text.slice?` cuts a text at offsets, refusing one that falls inside a character.
-/

namespace PonyEditor
namespace Text

/-- The number of UTF-8 bytes the characters take. -/
def width : List Char → Nat
  | [] => 0
  | c :: cs => c.utf8Size + width cs

@[simp]
theorem width_nil : width [] = 0 := rfl

@[simp]
theorem width_cons (c : Char) (cs : List Char) : width (c :: cs) = c.utf8Size + width cs := rfl

@[simp]
theorem width_append (as bs : List Char) : width (as ++ bs) = width as + width bs := by
  induction as with
  | nil => simp
  | cons a as ih => simp [ih, Nat.add_assoc]

/-- The length of a line in bytes. -/
def lineLength (line : String) : Nat := Offset.cap (width line.toList)

/-- The characters of the first `n` bytes, and those after them; `none` where `n` falls inside a
character or past the end. -/
def splitAt? : Nat → List Char → Option (List Char × List Char)
  | 0, cs => some ([], cs)
  | _ + 1, [] => none
  | n + 1, c :: cs =>
    if n + 1 < c.utf8Size then none
    else (splitAt? (n + 1 - c.utf8Size) cs).map fun (before, after) => (c :: before, after)

theorem splitAt?_width_append (as bs : List Char) :
    splitAt? (width as) (as ++ bs) = some (as, bs) := by
  induction as with
  | nil => simp [splitAt?]
  | cons a as ih =>
    have hpos := a.utf8Size_pos
    obtain ⟨n, hn⟩ : ∃ n, width (a :: as) = n + 1 := ⟨width (a :: as) - 1, by simp; omega⟩
    have hsub : n + 1 - a.utf8Size = width as := by simp at hn; omega
    have hge : ¬ n + 1 < a.utf8Size := by simp at hn; omega
    rw [hn, List.cons_append, splitAt?, if_neg hge, hsub, ih]
    rfl

/-- The bytes from `start` up to `stop`; `none` for an inverted range, one past the end, or one
that cuts a character. -/
def slice? (text : String) (start stop : Nat) : Option String :=
  if stop < start then none
  else do
    let (_, rest) ← splitAt? start text.toList
    let (inside, _) ← splitAt? (stop - start) rest
    return String.ofList inside

end Text
end PonyEditor
