import PonyEditor.Proofs.InertCharacters

/-!
# Lines joined into one

A comment or a triple-quoted string that runs over a line break is read in two parts, one on each
line.  Read as one line, with the line feed for a character of it, the two lines have the same
lexemes, except that the two parts are one (`lexemes_joined`): nothing on the first line sees the
line feed, and behind it what is open goes on from the mode that the first line leaves.
-/

namespace PonyEditor

namespace Lexeme

/-- The characters of the first lexeme, if there is one. -/
def firstText (ls : List Lexeme) : List Char := (ls.head?.map text).getD []

/-- The characters of the last lexeme, if there is one. -/
def lastText (ls : List Lexeme) : List Char := (ls.getLast?.map text).getD []

lemma width_firstText (ls : List Lexeme) :
    Text.width (firstText ls) = (ls.head?.map width).getD 0 := by
  cases ls with
  | nil => rfl
  | cons l ls => rfl

lemma width_lastText (ls : List Lexeme) :
    Text.width (lastText ls) = (ls.getLast?.map width).getD 0 := by
  rw [lastText]
  cases ls.getLast? with
  | none => rfl
  | some l => rfl

end Lexeme

namespace Mode

lemma scan_eq_nil_iff {mode : Mode} {cs : List Char} : (mode.scan cs).1 = [] ↔ cs = [] := by
  cases cs with
  | nil => simp [scan_nil]
  | cons c cs => simp [scan_cons]

lemma lexemes_eq_nil_iff {mode : Mode} {line : String} : mode.lexemes line = [] ↔ line = "" := by
  rw [lexemes, scan_eq_nil_iff, String.toList_eq_nil_iff]

/-- The first lexeme of a line that begins in the middle of something is the rest of it. -/
lemma scan_of_ne_normal {mode : Mode} (hmode : mode ≠ normal) (cs : List Char) :
    Lexeme.firstText (mode.scan cs).1 = cs.take (mode.extent cs).1 ∧
      (mode.scan cs).1.tail = ((mode.extent cs).2.scan (cs.drop (mode.extent cs).1)).1 ∧
      mode.after cs = (mode.extent cs).2.after (cs.drop (mode.extent cs).1) := by
  cases cs with
  | nil => simp [scan_nil, Lexeme.firstText]
  | cons c cs =>
      obtain ⟨n, hn⟩ := Nat.exists_eq_succ_of_ne_zero (Nat.ne_of_gt (extent_pos hmode c cs))
      rw [scan_cons, after_cons, read_of_ne_normal hmode, hn]
      exact ⟨rfl, rfl, rfl⟩

section Inert

variable {mark : Char} (h : Inert mark)
include h

/-- **Characters joined by an inert one**, when something is open between them: the lexemes before
it, the two parts of it with the character between them, and the lexemes after it. -/
lemma scan_joined (mode : Mode) (as bs : List Char) (hopen : mode.after as ≠ normal) :
    mode.scan (as ++ mark :: bs) =
      ((mode.scan as).1.dropLast ++
        ⟨(mode.after as).openKind,
          Lexeme.lastText (mode.scan as).1 ++ mark :: bs.take ((mode.after as).extent bs).1⟩ ::
        (((mode.after as).extent bs).2.scan (bs.drop ((mode.after as).extent bs).1)).1,
        ((mode.after as).extent bs).2.after (bs.drop ((mode.after as).extent bs).1)) := by
  fun_induction after mode as
  case case1 mode =>
    rw [List.nil_append, scan_cons, scan_nil, read_of_ne_normal hopen, extent_cons_mark h hopen,
      Nat.add_sub_cancel_left, scan_snd]
    rfl
  case case2 mode c cs r ih =>
    by_cases hlt : r.more < cs.length
    · -- the lexeme ends on the line, and what is open is among those after it
      have hread := read_append_of_lt h mode c hlt bs
      have hne : (r.mode.scan (cs.drop r.more)).1 ≠ [] := by
        rw [Ne, scan_eq_nil_iff, List.drop_eq_nil_iff]
        omega
      have hlast : Lexeme.lastText (mode.scan (c :: cs)).1 =
          Lexeme.lastText (r.mode.scan (cs.drop r.more)).1 := by
        rw [scan_cons, Lexeme.lastText, List.getLast?_cons_of_ne_nil hne, Lexeme.lastText]
      rw [hlast, List.cons_append, scan_cons, hread, scan_cons,
        List.dropLast_cons_of_ne_nil hne, List.drop_append_of_le_length (Nat.le_of_lt hlt),
        List.take_append_of_le_length (Nat.le_of_lt hlt), ih hopen]
      rfl
    · -- the lexeme is what is open
      have hnil : cs.drop r.more = [] := List.drop_eq_nil_of_le (Nat.le_of_not_lt hlt)
      rw [hnil, after_nil] at hopen ⊢
      obtain ⟨hkind, happend⟩ := read_runsOn h mode c hopen
      have hlast : (mode.scan (c :: cs)).1 = [⟨r.kind, c :: cs⟩] := by
        rw [scan_cons, hnil, scan_nil, List.take_of_length_le (Nat.le_of_not_lt hlt)]
      have htake : (cs ++ mark :: bs).take (cs.length + 1 + (r.mode.extent bs).1) =
          cs ++ mark :: bs.take (r.mode.extent bs).1 := by
        rw [Nat.add_assoc, List.take_length_add_append, Nat.add_comm 1, List.take_succ_cons]
      have hdrop : (cs ++ mark :: bs).drop (cs.length + 1 + (r.mode.extent bs).1) =
          bs.drop (r.mode.extent bs).1 := by
        rw [Nat.add_assoc, List.drop_length_add_append, Nat.add_comm 1, List.drop_succ_cons]
      rw [hlast, List.cons_append, scan_cons, happend bs, hkind, htake, hdrop, scan_snd]
      rfl

end Inert

lemma openKind_eq (mode : Mode) :
    mode.openKind = if mode = .tripleString then .string else .comment := by
  cases mode with
  | normal => rfl
  | tripleString => rfl
  | blockComment depth pos => rfl

/-- **What runs over a line break is read in one line as it is in two**: the lexemes before it, the
lexemes after it and the mode at the end are the same.  Its own part is the last lexeme of the first
line, the line feed and the first lexeme of the second line; of a line without characters there is
no lexeme, and nothing is added. -/
theorem lexemes_joined (mode : Mode) (a b : String)
    (hopen : (mode.exit a).isContinuation = true) :
    mode.exit (a ++ "\n" ++ b) = (mode.exit a).exit b ∧
      (∃ joined : Lexeme,
        mode.lexemes (a ++ "\n" ++ b) =
          (mode.lexemes a).dropLast ++ joined :: ((mode.exit a).lexemes b).tail ∧
        joined.kind = (if mode.exit a = .tripleString then .string else .comment) ∧
        joined.text = Lexeme.lastText (mode.lexemes a) ++
          '\n' :: Lexeme.firstText ((mode.exit a).lexemes b) ∧
        joined.width = ((mode.lexemes a).getLast?.map Lexeme.width).getD 0 + 1 +
          (((mode.exit a).lexemes b).head?.map Lexeme.width).getD 0) ∧
      (mode.lexemes a = [] ↔ a = "") ∧ ((mode.exit a).lexemes b = [] ↔ b = "") := by
  have hne : mode.after a.toList ≠ normal := bne_iff_ne.mp hopen
  have htext : (a ++ "\n" ++ b).toList = a.toList ++ '\n' :: b.toList := by
    rw [String.toList_append, String.toList_append, List.append_assoc]
    rfl
  have hscan := scan_joined inert_newline mode a.toList b.toList hne
  obtain ⟨hfirst, htail, hafter⟩ := scan_of_ne_normal hne b.toList
  rw [← hfirst, ← htail, ← hafter, ← htext] at hscan
  refine ⟨?_, ⟨_, congrArg Prod.fst hscan, ?_, rfl, ?_⟩, lexemes_eq_nil_iff, lexemes_eq_nil_iff⟩
  · rw [exit, ← scan_snd, hscan]
    rfl
  · exact openKind_eq (mode.exit a)
  · rw [Lexeme.width, Text.width_append, Text.width_cons, Lexeme.width_lastText,
      Lexeme.width_firstText, Nat.add_assoc]
    rfl

/-- Half a marker on each side of the line break, inside two comments. -/
theorem lexemes_joined_between_half_markers :
    (normal.exit "x/*/* *").isContinuation = true ∧
    normal.exit "x/*/* *\n/ */*/y" = .normal ∧
    ∃ joined : Lexeme, normal.lexemes "x/*/* *\n/ */*/y" =
      [⟨.valueName, ['x']⟩, joined, ⟨.valueName, ['y']⟩] ∧
      joined.kind = .comment ∧ joined.width = 6 + 1 + 6 := by
  have hopen : normal.exit "x/*/* *" = .blockComment 2 Nat.two_pos := by decide +kernel
  obtain ⟨hexit, ⟨joined, hlexemes, hkind, -, hwidth⟩, -⟩ :=
    lexemes_joined .normal "x/*/* *" "/ */*/y" (by rw [hopen]; rfl)
  have hfirst : normal.lexemes "x/*/* *" =
      [⟨.valueName, ['x']⟩, ⟨.comment, "/*/* *".toList⟩] := by decide +kernel
  have hsecond : (blockComment 2 Nat.two_pos).lexemes "/ */*/y" =
      [⟨.comment, "/ */*/".toList⟩, ⟨.valueName, ['y']⟩] := by decide +kernel
  rw [hopen, hfirst, hsecond] at hlexemes hwidth
  rw [hopen] at hexit hkind
  exact ⟨by rw [hopen]; rfl, hexit.trans (by decide +kernel), joined, hlexemes, hkind, hwidth⟩

end Mode
end PonyEditor
