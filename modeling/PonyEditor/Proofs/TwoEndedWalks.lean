import Mathlib.Tactic.Lemma
import PonyEditor.Proofs.ByteOffsets
import PonyEditor.Proofs.TokenSlices

/-!
# Walks from both ends

A walk over the tokens of a line gives its first or its last token, whichever it is asked for.  The
spans at the front are counted up from the start of the line, those at the back down from its end.
The two counts belong to one list of tokens as long as the bytes between them are those of the
lexemes that are left (`LineWalk.Exact`), and each step keeps that.  So every token of the line is
given once, in whatever order the two ends are asked (`walk_takes_each_token_once`).
-/

namespace PonyEditor

/-- Lexemes behind others begin where those end. -/
lemma Token.ofLexemes_append {start : Nat} {xs : List Lexeme}
    (hlimit : start + Lexeme.totalWidth xs ≤ Offset.limit) (ys : List Lexeme) :
    ofLexemes start (xs ++ ys) =
      ofLexemes start xs ++ ofLexemes (start + Lexeme.totalWidth xs) ys := by
  induction xs generalizing start with
  | nil => rfl
  | cons x xs ih =>
      rw [Lexeme.totalWidth, ← Nat.add_assoc] at hlimit
      rw [List.cons_append, ofLexemes_cons_of_le (by omega), ofLexemes_cons_of_le (by omega),
        ih hlimit, List.cons_append, Lexeme.totalWidth, Nat.add_assoc]

namespace LineWalk

/-! ## Asking both ends -/

/-- The walk gives these tokens, one for each time it is asked for the first, and then none. -/
inductive Gives : LineWalk → List Token → Prop
  | none {w : LineWalk} : w.first? = none → Gives w []
  | first {w w' : LineWalk} {t : Token} {ts : List Token} :
      w.first? = some (t, w') → Gives w' ts → Gives w (t :: ts)

/-- An end of a walk. -/
inductive End where
  | front
  | back

/-- A walk, the tokens its front has given, in order, and those its back has given, in reverse
order. -/
structure Progress where
  front : List Token
  walk : LineWalk
  back : List Token

namespace Progress

/-- Nothing has been asked yet. -/
def start (w : LineWalk) : Progress := ⟨[], w, []⟩

/-- Asks one end.  A walk that has no token stays as it is. -/
def ask (s : Progress) : End → Progress
  | .front =>
    match s.walk.first? with
    | none => s
    | some (t, w) => ⟨s.front ++ [t], w, s.back⟩
  | .back =>
    match s.walk.last? with
    | none => s
    | some (t, w) => ⟨s.front, w, t :: s.back⟩

/-- Asks the ends, one after the other. -/
def askAll (s : Progress) (ends : List End) : Progress := ends.foldl ask s

end Progress

/-! ## One step -/

/-- The bytes from the front to the back are those of the lexemes between them. -/
structure Exact (w : LineWalk) : Prop where
  back_eq : w.back = w.front + Lexeme.totalWidth w.left
  back_le : w.back ≤ Offset.limit

variable {w w' : LineWalk} {t : Token}

lemma first?_eq_none_iff : w.first? = none ↔ w.length = 0 := by
  rw [length, List.length_eq_zero_iff]
  cases hleft : w.left with
  | nil => simp [first?, hleft]
  | cons l left => simp [first?, hleft]

lemma last?_eq_none_iff : w.last? = none ↔ w.length = 0 := by
  rw [length, List.length_eq_zero_iff, ← List.getLast?_eq_none_iff]
  cases hleft : w.left.getLast? with
  | none => simp [last?, hleft]
  | some l => simp [last?, hleft]

/-- What the front gives is the first of the tokens left, within the limit or not. -/
lemma toList_of_first? (h : w.first? = some (t, w')) : w.toList = t :: w'.toList := by
  obtain ⟨text, left, front, back⟩ := w
  cases left with
  | nil => cases h
  | cons l left =>
      cases h
      rfl

lemma Exact.of_first? (hw : w.Exact) (h : w.first? = some (t, w')) : w'.Exact := by
  obtain ⟨text, left, front, back⟩ := w
  obtain ⟨hback : back = _, hlimit : back ≤ _⟩ := hw
  cases left with
  | nil => cases h
  | cons l left =>
      cases h
      simp only [Lexeme.totalWidth, ← Nat.add_assoc] at hback
      have hfront : Offset.add front l.width = front + l.width := Offset.add_of_le (by omega)
      exact ⟨hback.trans (congrArg (· + _) hfront.symm), hlimit⟩

/-- **The two counts agree.**  Counted down from the back, the last token lies where counting up
from the front puts it. -/
lemma Exact.of_last? (hw : w.Exact) (h : w.last? = some (t, w')) :
    w'.Exact ∧ w.toList = w'.toList ++ [t] := by
  obtain ⟨text, left, front, back⟩ := w
  obtain ⟨hback : back = _, hlimit : back ≤ _⟩ := hw
  rcases List.eq_nil_or_concat' left with rfl | ⟨left, l, rfl⟩
  · cases h
  · simp only [last?, List.getLast?_concat, List.dropLast_concat, Option.some.injEq,
      Prod.mk.injEq] at h
    obtain ⟨rfl, rfl⟩ := h
    simp only [Lexeme.totalWidth_append, Lexeme.totalWidth, Nat.add_zero, ← Nat.add_assoc] at hback
    have hstart : back - l.width = front + Lexeme.totalWidth left := by omega
    refine ⟨⟨hstart, Nat.le_trans (Nat.sub_le _ _) hlimit⟩, ?_⟩
    simp only [toList]
    rw [Token.ofLexemes_append (by omega), Token.ofLexemes_cons_of_le (by omega), hstart, hback]
    rfl

/-- **Asked for the last token again and again, the walk gives its tokens in reverse order.** -/
lemma Exact.fromBack_eq (hw : w.Exact) : w.fromBack = w.toList.reverse := by
  fun_induction fromBack w with
  | case1 w hnone =>
      rw [last?_eq_none_iff, length, List.length_eq_zero_iff] at hnone
      rw [toList, hnone, Token.ofLexemes, List.reverse_nil]
  | case2 w t w' hlast _ ih =>
      obtain ⟨hw', htokens⟩ := hw.of_last? hlast
      rw [ih hw', htokens, List.reverse_append, List.reverse_singleton, List.singleton_append]

/-- A walk gives its tokens, and no other list. -/
lemma gives_iff {ts : List Token} : w.Gives ts ↔ ts = w.toList := by
  constructor
  · intro h
    induction h with
    | none hnone =>
        rw [first?_eq_none_iff, length, List.length_eq_zero_iff] at hnone
        rw [toList, hnone, Token.ofLexemes]
    | first hfirst _ ih => rw [toList_of_first? hfirst, ih]
  · rintro rfl
    obtain ⟨text, left, front, back⟩ := w
    induction left generalizing front with
    | nil => exact .none rfl
    | cons l left ih => exact .first rfl (ih _)

lemma length_toList (w : LineWalk) : w.toList.length = w.length := by
  obtain ⟨text, left, front, back⟩ := w
  induction left generalizing front with
  | nil => rfl
  | cons l left ih => exact congrArg (· + 1) (ih _)

/-! ## Whole runs -/

namespace Progress

/-- All the tokens, in the order of the text. -/
def tokens (s : Progress) : List Token := s.front ++ s.walk.toList ++ s.back

/-- **Asking an end loses no token and doubles none.** -/
lemma tokens_ask {s : Progress} (hs : s.walk.Exact) (e : End) :
    (s.ask e).walk.Exact ∧ (s.ask e).tokens = s.tokens := by
  cases e with
  | front =>
      simp only [ask]
      split
      case h_1 => exact ⟨hs, rfl⟩
      case h_2 t w h =>
        refine ⟨hs.of_first? h, ?_⟩
        simp only [tokens, toList_of_first? h, List.append_assoc, List.cons_append, List.nil_append]
  | back =>
      simp only [ask]
      split
      case h_1 => exact ⟨hs, rfl⟩
      case h_2 t w h =>
        obtain ⟨hexact, htoList⟩ := hs.of_last? h
        refine ⟨hexact, ?_⟩
        simp only [tokens, htoList, List.append_assoc, List.singleton_append]

lemma tokens_askAll {s : Progress} (hs : s.walk.Exact) (ends : List End) :
    (s.askAll ends).walk.Exact ∧ (s.askAll ends).tokens = s.tokens := by
  induction ends generalizing s with
  | nil => exact ⟨hs, rfl⟩
  | cons e ends ih =>
      obtain ⟨hexact, htokens⟩ := tokens_ask hs e
      obtain ⟨hexact', htokens'⟩ := ih hexact
      exact ⟨hexact', htokens'.trans htokens⟩

end Progress

lemma exact_ofLine {text : String} (mode : Mode) {start : Nat}
    (hlimit : start + text.utf8ByteSize ≤ Offset.limit) : (ofLine text mode start).Exact := by
  rw [Text.utf8ByteSize_eq] at hlimit
  have hback : Offset.add start (Text.lineLength text) = start + Text.width text.toList := by
    rw [Text.lineLength, Offset.cap_of_le (by omega), Offset.add_of_le hlimit]
  refine ⟨?_, ?_⟩
  · simp only [ofLine, Mode.totalWidth_lexemes, hback]
  · simp only [ofLine, hback]
    exact hlimit

/-- **Any mix of the two ends walks the line once.**  In a line that ends within the limit, asking
the front alone gives the tokens of the line.  However the two ends have been asked, what the front
has given, what is left and what the back has given are those tokens.  The length is the number of
tokens left, and an end has none to give exactly when it is zero. -/
theorem walk_takes_each_token_once (text : String) (mode : Mode) (start : Nat)
    (hlimit : start + text.utf8ByteSize ≤ Offset.limit) :
    let w := ofLine text mode start
    let all := Token.ofLexemes start (mode.lexemes text)
    (∀ tokens, w.Gives tokens ↔ tokens = all) ∧
      ∀ ends : List End,
        let s := (Progress.start w).askAll ends
        ∃ unread, (∀ tokens, s.walk.Gives tokens ↔ tokens = unread) ∧
          s.front ++ unread ++ s.back = all ∧
          s.walk.length = unread.length ∧
          (s.walk.length = 0 ↔ s.walk.first? = none) ∧
          (s.walk.length = 0 ↔ s.walk.last? = none) := by
  intro w all
  refine ⟨fun _ => gives_iff, fun ends => ?_⟩
  obtain ⟨-, htokens⟩ := Progress.tokens_askAll (s := .start w) (exact_ofLine mode hlimit) ends
  exact ⟨_, fun _ => gives_iff, htokens.trans (List.append_nil _), (length_toList _).symm,
    first?_eq_none_iff.symm, last?_eq_none_iff.symm⟩

/-- Behind a comment that ends on the line, up to the last offset there is: the ends meet at a
character of two bytes, and asking on changes nothing. -/
theorem walk_takes_each_token_once_up_to_limit :
    let w := ofLine "*/é(" (.ofDepth 1) 4294967290
    let s := (Progress.start w).askAll [.back, .front, .back, .back, .front]
    4294967290 + "*/é(".utf8ByteSize = Offset.limit ∧
      s.front = [⟨.comment, ⟨4294967290, 4294967292⟩⟩] ∧
      s.back = [⟨.blank, ⟨4294967292, 4294967294⟩⟩, ⟨.lparen, ⟨4294967294, 4294967295⟩⟩] ∧
      w.Gives (s.front ++ s.back) ∧
      s.walk.first? = none ∧ s.walk.last? = none := by
  intro w s
  have hlimit : 4294967290 + "*/é(".utf8ByteSize = Offset.limit := by decide +kernel
  obtain ⟨hgives, hmix⟩ :=
    walk_takes_each_token_once "*/é(" (.ofDepth 1) 4294967290 (Nat.le_of_eq hlimit)
  obtain ⟨unread, -, hall, hlength, hfirst, hlast⟩ := hmix [.back, .front, .back, .back, .front]
  have hzero : s.walk.length = 0 := by decide +kernel
  obtain rfl : unread = [] := List.length_eq_zero_iff.mp (hlength.symm.trans hzero)
  refine ⟨hlimit, by decide +kernel, by decide +kernel, ?_, hfirst.mp hzero, hlast.mp hzero⟩
  rw [List.append_nil] at hall
  exact (hgives _).mpr hall

end LineWalk
end PonyEditor
