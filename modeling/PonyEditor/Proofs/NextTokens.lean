import Mathlib.Tactic.Lemma
import PonyEditor.Proofs.InertCharacters
import PonyEditor.Token.Stepper

/-!
# The next token

A line is scanned as a whole, step by step, and byte by byte.  `Mode.Takes` says of all three what
they do at one place: which characters are the next token, of which kind it is, and in which mode it
leaves the rest.  `Mode.takes_read` derives it from the one decision they share.
-/

namespace PonyEditor
namespace Mode

/-- In `mode`, before `text` and then `rest`, the next token is `text`.  It is of this kind and
leaves the rest to `exit`.  So it is for the scan of all these characters, for a stepper wherever in
a line it stands, and for a scanner of bytes at that place of any line. -/
structure Takes (mode : Mode) (kind : Kind) (text rest : List Char) (exit : Mode) : Prop where
  scan : mode.scan (text ++ rest) = (⟨kind, text⟩ :: (exit.scan rest).1, (exit.scan rest).2)
  next : ∀ pos, Stepper.next? ⟨pos, text ++ rest, mode⟩ =
    some (⟨kind, text⟩, ⟨pos + Text.width text, rest, exit⟩)
  bytes : ∀ (line : String) (r : ByteReader), r.At line (text ++ rest) →
    ∃ stop : ByteReader, stop.At line rest ∧
      ByteScanner.next? ⟨r, mode⟩ = some ((kind, Text.width text), ⟨stop, exit⟩)

/-- **What is read at a character is taken**, the character with it. -/
lemma takes_read (mode : Mode) (c : Char) (cs : List Char) :
    mode.Takes (mode.read c cs).kind (c :: cs.take (mode.read c cs).more)
      (cs.drop (mode.read c cs).more) (mode.read c cs).mode where
  scan := by
    rw [List.cons_append, List.take_append_drop, scan_cons]
  next := by
    intro pos
    rw [List.cons_append, List.take_append_drop]
    rfl
  bytes := by
    intro line r hat
    rw [List.cons_append, List.take_append_drop] at hat
    exact ByteScanner.next?_of_at hat mode

variable {mode exit : Mode} {kind : Kind} {c : Char} {text rest : List Char}

lemma Takes.of_read (h : mode.read c (text ++ rest) = ⟨kind, text.length, exit⟩) :
    mode.Takes kind (c :: text) rest exit := by
  have htakes := takes_read mode c (text ++ rest)
  rwa [h, List.take_left, List.drop_left] at htakes

/-- Before some characters there is one next token. -/
lemma Takes.unique {kind' : Kind} {text' rest' : List Char} {exit' : Mode}
    (h : mode.Takes kind text rest exit) (h' : mode.Takes kind' text' rest' exit')
    (heq : text ++ rest = text' ++ rest') :
    kind = kind' ∧ text = text' ∧ rest = rest' ∧ exit = exit' := by
  have hnext := h.next 0
  rw [heq, h'.next 0] at hnext
  simp only [Option.some.injEq, Prod.mk.injEq, Lexeme.mk.injEq, Stepper.mk.injEq] at hnext
  obtain ⟨⟨hkind, htext⟩, -, hrest, hexit⟩ := hnext
  exact ⟨hkind.symm, htext.symm, hrest.symm, hexit.symm⟩

lemma read_slash (cs : List Char) : normal.read '/' cs = Reading.slash cs := by
  rw [read, Reading.plain, if_pos (beq_self_eq_true _)]

lemma read_quote (cs : List Char) : normal.read '"' cs = Reading.quote cs := by
  rw [read, Reading.plain, if_neg (by decide), if_pos (beq_self_eq_true _)]

/-- What goes on from before takes as much as belongs to it. -/
lemma Takes.of_extent (hmode : mode ≠ normal) (hne : text ≠ [])
    (h : mode.extent (text ++ rest) = (text.length, exit)) :
    mode.Takes mode.openKind text rest exit := by
  obtain ⟨c, text, rfl⟩ := List.exists_cons_of_ne_nil hne
  apply of_read
  rw [read_of_ne_normal hmode, ← List.cons_append, h, List.length_cons, Nat.add_sub_cancel]

end Mode
end PonyEditor
