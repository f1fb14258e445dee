import Mathlib.Data.List.TakeWhile
import PonyEditor.Diagnostic

/-!
# Where a line of a compiler's output is cut

A diagnostic is read off a line by cutting it where a file name ends and a place follows.  A cut is
told by what stands on either side of it, without saying how it is found (`Diagnostic.Splits`): a
stem, and after it `.pony`, two numbers in decimal digits of any script, and the message.  The
reader takes digits as far as they go, and since a colon follows each number there is one way only
to read a tail (`Tail.read?_eq_some_iff`).  Of the cuts it takes the one with the shortest stem
(`split?_spec`, `split?_eq_some_iff`).
-/

namespace PonyEditor
namespace Diagnostic

/-- Digits and nothing else, and at least one. -/
def IsNumber (digits : List Char) : Prop :=
  digits ≠ [] ∧ ∀ c ∈ digits, Text.isDecimalDigit c = true

namespace Tail

/-- The characters from the end of the stem to the message. -/
def place (t : Tail) : List Char :=
  ['.', 'p', 'o', 'n', 'y', ':'] ++ t.line ++ [':'] ++ t.column ++ [':', ' ']

/-- The characters that a tail is read from. -/
def chars (t : Tail) : List Char := t.place ++ t.message

/-- Line and column are numbers. -/
structure WellFormed (t : Tail) : Prop where
  line : IsNumber t.line
  column : IsNumber t.column

end Tail

/-! ## Reading a tail -/

lemma afterLead?_eq_some_iff {lead cs rest : List Char} :
    afterLead? lead cs = some rest ↔ cs = lead ++ rest := by
  rw [afterLead?]
  constructor
  · intro h
    split at h
    · rename_i hlead
      obtain ⟨after, rfl⟩ := List.isPrefixOf_iff_prefix.mp hlead
      rw [List.drop_left] at h
      rw [Option.some.inj h]
    · cases h
  · rintro rfl
    rw [if_pos (List.isPrefixOf_iff_prefix.mpr (List.prefix_append _ _)), List.drop_left]

lemma isNumber_of_digits? {cs digits rest : List Char} (h : digits? cs = some (digits, rest)) :
    IsNumber digits ∧ cs = digits ++ rest := by
  rw [digits?] at h
  split at h
  · cases h
  · rename_i hne
    obtain ⟨rfl, rfl⟩ := Prod.mk.inj (Option.some.inj h)
    exact ⟨⟨hne, fun c hc => List.mem_takeWhile_imp hc⟩, List.takeWhile_append_dropWhile.symm⟩

/-- Digits are read up to the first character that is none. -/
lemma digits?_of_isNumber {digits : List Char} (h : IsNumber digits) {c : Char}
    (hc : Text.isDecimalDigit c = false) (rest : List Char) :
    digits? (digits ++ c :: rest) = some (digits, c :: rest) := by
  have htake : (digits ++ c :: rest).takeWhile Text.isDecimalDigit = digits := by
    rw [List.takeWhile_append_of_pos h.2, List.takeWhile_cons_of_neg (by simp [hc]),
      List.append_nil]
  have hdrop : (digits ++ c :: rest).dropWhile Text.isDecimalDigit = c :: rest := by
    rw [List.dropWhile_append_of_pos h.2, List.dropWhile_cons_of_neg (by simp [hc])]
  rw [digits?, htake, hdrop]
  split
  · exact absurd rfl h.1
  · rfl

namespace Tail

/-- **There is one way to read a tail**, and it is read where there is one. -/
lemma read?_eq_some_iff {cs : List Char} {t : Tail} :
    read? cs = some t ↔ t.WellFormed ∧ cs = t.chars := by
  have hextension : ".pony:".toList = ['.', 'p', 'o', 'n', 'y', ':'] := rfl
  have hcolon : ":".toList = [':'] := rfl
  have hblank : ": ".toList = [':', ' '] := rfl
  simp only [read?, hextension, hcolon, hblank, bind, Option.bind_eq_some_iff,
    afterLead?_eq_some_iff, Prod.exists]
  constructor
  · rintro ⟨_, rfl, line, _, hline, _, rfl, column, _, hcolumn, message, rfl, ht⟩
    obtain rfl := Option.some.inj ht
    obtain ⟨hnumber, rfl⟩ := isNumber_of_digits? hline
    obtain ⟨hnumber', rfl⟩ := isNumber_of_digits? hcolumn
    refine ⟨⟨hnumber, hnumber'⟩, ?_⟩
    simp only [chars, place, List.append_assoc]
  · -- a colon follows each number, so the digits end where the number does
    rintro ⟨⟨hline, hcolumn⟩, rfl⟩
    have hdigit : Text.isDecimalDigit ':' = false := by decide
    refine ⟨t.line ++ [':'] ++ t.column ++ [':', ' '] ++ t.message, ?_, t.line,
      [':'] ++ (t.column ++ [':', ' '] ++ t.message), ?_, t.column ++ [':', ' '] ++ t.message,
      rfl, t.column, [':', ' '] ++ t.message, ?_, t.message, rfl, rfl⟩
    · simp only [chars, place, List.append_assoc]
    · simpa using digits?_of_isNumber hline hdigit _
    · simpa using digits?_of_isNumber hcolumn hdigit _

end Tail

/-! ## Cuts -/

/-- The characters are a stem of at least one, and a tail after it. -/
structure Splits (cs stem : List Char) (tail : Tail) : Prop where
  stem_ne : stem ≠ []
  wellFormed : tail.WellFormed
  eq : cs = stem ++ tail.chars

lemma not_splits_nil {stem : List Char} {tail : Tail} : ¬ Splits [] stem tail :=
  fun h => h.stem_ne (List.append_eq_nil_iff.mp h.eq.symm).1

lemma splits_cons_iff {c : Char} {cs stem : List Char} {tail : Tail} :
    Splits (c :: cs) stem tail ↔
      (stem = [c] ∧ Tail.read? cs = some tail) ∨
        ∃ rest, stem = c :: rest ∧ Splits cs rest tail := by
  constructor
  · rintro ⟨hne, htail, heq⟩
    obtain ⟨first, rest, rfl⟩ := List.exists_cons_of_ne_nil hne
    obtain ⟨rfl, rfl⟩ := List.cons.inj heq
    by_cases hrest : rest = []
    · subst hrest
      exact .inl ⟨rfl, Tail.read?_eq_some_iff.mpr ⟨htail, rfl⟩⟩
    · exact .inr ⟨rest, rfl, hrest, htail, rfl⟩
  · rintro (⟨rfl, hread⟩ | ⟨rest, rfl, -, htail, rfl⟩)
    · obtain ⟨htail, rfl⟩ := Tail.read?_eq_some_iff.mp hread
      exact ⟨List.cons_ne_nil _ _, htail, rfl⟩
    · exact ⟨List.cons_ne_nil _ _, htail, rfl⟩

/-- Where a line is cut decides both sides. -/
lemma Splits.unique {cs stem stem' : List Char} {tail tail' : Tail} (h : Splits cs stem tail)
    (h' : Splits cs stem' tail') (hlength : stem.length = stem'.length) :
    stem = stem' ∧ tail = tail' := by
  obtain ⟨hstem, hchars⟩ := List.append_inj (h.eq.symm.trans h'.eq) hlength
  have hread := Tail.read?_eq_some_iff.mpr ⟨h.wellFormed, hchars.symm⟩
  have hread' := Tail.read?_eq_some_iff.mpr ⟨h'.wellFormed, rfl⟩
  exact ⟨hstem, Option.some.inj (hread.symm.trans hread')⟩

/-- **The reader finds the cut with the shortest stem**, or there is none. -/
lemma split?_spec (cs : List Char) :
    (∃ stem tail, split? cs = some (stem, tail) ∧ Splits cs stem tail ∧
      ∀ stem' tail', Splits cs stem' tail' → stem.length ≤ stem'.length) ∨
    (split? cs = none ∧ ∀ stem tail, ¬ Splits cs stem tail) := by
  induction cs with
  | nil => exact .inr ⟨rfl, fun _ _ => not_splits_nil⟩
  | cons c cs ih =>
      cases hread : Tail.read? cs with
      | some tail =>
          refine .inl ⟨[c], tail, by rw [split?, hread], splits_cons_iff.mpr (.inl ⟨rfl, hread⟩),
            fun stem' tail' h => ?_⟩
          exact List.length_pos_iff.mpr h.stem_ne
      | none =>
          rcases ih with ⟨stem, tail, hsplit, hsplits, hleast⟩ | ⟨hsplit, hnone⟩
          · refine .inl ⟨c :: stem, tail, by rw [split?, hread, hsplit]; rfl,
              splits_cons_iff.mpr (.inr ⟨stem, rfl, hsplits⟩), fun stem' tail' h => ?_⟩
            rcases splits_cons_iff.mp h with ⟨-, hread'⟩ | ⟨rest, rfl, hrest⟩
            · exact nomatch hread.symm.trans hread'
            · exact Nat.succ_le_succ (hleast rest tail' hrest)
          · refine .inr ⟨by rw [split?, hread, hsplit]; rfl, fun stem tail h => ?_⟩
            rcases splits_cons_iff.mp h with ⟨-, hread'⟩ | ⟨rest, -, hrest⟩
            · exact nomatch hread.symm.trans hread'
            · exact hnone rest tail hrest

lemma split?_eq_some_iff {cs stem : List Char} {tail : Tail} :
    split? cs = some (stem, tail) ↔ Splits cs stem tail ∧
      ∀ stem' tail', Splits cs stem' tail' → stem.length ≤ stem'.length := by
  rcases split?_spec cs with ⟨found, rest, hsplit, hsplits, hleast⟩ | ⟨hsplit, hnone⟩
  · constructor
    · intro h
      obtain ⟨rfl, rfl⟩ := Prod.mk.inj (Option.some.inj (hsplit.symm.trans h))
      exact ⟨hsplits, hleast⟩
    · rintro ⟨h, hleast'⟩
      have hlength := Nat.le_antisymm (hleast stem tail h) (hleast' found rest hsplits)
      obtain ⟨rfl, rfl⟩ := hsplits.unique h hlength
      exact hsplit
  · constructor
    · intro h
      exact nomatch hsplit.symm.trans h
    · rintro ⟨h, -⟩
      exact absurd h (hnone stem tail)

end Diagnostic
end PonyEditor
