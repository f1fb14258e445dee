import Mathlib.Data.Nat.Find
import Mathlib.Tactic.Lemma
import PonyEditor.Proofs.NextTokens

/-!
# Where strings end

The inside of a string is read from left to right as units.  A backslash and the character behind it
are one unit, so a quote there does not end the string, and neither does a backslash there make an
escape of what comes next.  The string ends with the first quote that is a unit of its own.  A
triple-quoted string knows no escapes and ends with the first three quotes in a row, wherever they
begin.  Without such an end a string has the rest of the line; only a triple-quoted one goes on in
the next (`strings_end_where_closed`).
-/

namespace PonyEditor

/-! ## Units of a string -/

/-- A unit of the inside of a string. -/
inductive StringUnit where
  /-- A backslash and the character it takes along. -/
  | escape (c : Char)
  /-- Any other character, or a backslash with nothing behind it. -/
  | plain (c : Char)
  deriving DecidableEq

namespace StringUnit

/-- The characters of a unit. -/
def text : StringUnit → List Char
  | escape c => ['\\', c]
  | plain c => [c]

/-- The characters of some units. -/
def textOf (us : List StringUnit) : List Char := us.flatMap text

/-- The units of a text, from left to right. -/
def ofText : List Char → List StringUnit
  | [] => []
  | '\\' :: c :: cs => escape c :: ofText cs
  | c :: cs => plain c :: ofText cs

lemma textOf_ofText (cs : List Char) : textOf (ofText cs) = cs := by
  fun_induction ofText cs with
  | case1 => rfl
  | case2 c cs ih => exact congrArg (['\\', c] ++ ·) ih
  | case3 c cs _ ih => exact congrArg ([c] ++ ·) ih

lemma textOf_cons (u : StringUnit) (us : List StringUnit) :
    textOf (u :: us) = u.text ++ textOf us :=
  List.flatMap_cons

lemma textOf_append (us vs : List StringUnit) : textOf (us ++ vs) = textOf us ++ textOf vs :=
  List.flatMap_append

lemma string_escape (c : Char) (cs : List Char) :
    Extent.string ('\\' :: c :: cs) = Extent.string cs + 2 := by
  rw [Extent.string]

lemma string_plain {c : Char} {cs : List Char} (hquote : c ≠ '"')
    (hescape : ∀ d ds, c = '\\' → cs = d :: ds → False) :
    Extent.string (c :: cs) = Extent.string cs + 1 := by
  rw [Extent.string]
  · exact hquote
  · exact hescape

/-- **A string that is closed** ends with its first quote that is no part of an escape. -/
lemma string_of_closed {cs : List Char} {before after : List StringUnit}
    (hsplit : ofText cs = before ++ plain '"' :: after) (hfirst : plain '"' ∉ before) :
    Extent.string cs = (textOf before).length + 1 := by
  fun_induction ofText cs generalizing before with
  | case1 => cases before <;> cases hsplit
  | case2 c cs ih =>
      rcases List.cons_eq_append_iff.mp hsplit with ⟨-, heq⟩ | ⟨before, rfl, heq⟩
      · cases (List.cons.inj heq).1
      · have hrest := ih heq fun hmem => hfirst (List.mem_cons_of_mem _ hmem)
        rw [string_escape, hrest, textOf_cons]
        rfl
  | case3 c cs hescape ih =>
      rcases List.cons_eq_append_iff.mp hsplit with ⟨rfl, heq⟩ | ⟨before, rfl, heq⟩
      · cases (List.cons.inj heq).1
        rfl
      · have hquote : c ≠ '"' := by
          rintro rfl
          exact hfirst List.mem_cons_self
        have hrest := ih heq fun hmem => hfirst (List.mem_cons_of_mem _ hmem)
        rw [string_plain hquote hescape, hrest, textOf_cons]
        rfl

/-- **A string that is not closed** has the rest of the line. -/
lemma string_of_open {cs : List Char} (hopen : plain '"' ∉ ofText cs) :
    Extent.string cs = cs.length := by
  fun_induction ofText cs with
  | case1 => rfl
  | case2 c cs ih =>
      rw [string_escape, ih fun hmem => hopen (List.mem_cons_of_mem _ hmem)]
      rfl
  | case3 c cs hescape ih =>
      have hquote : c ≠ '"' := by
        rintro rfl
        exact hopen List.mem_cons_self
      rw [string_plain hquote hescape, ih fun hmem => hopen (List.mem_cons_of_mem _ hmem)]
      rfl

end StringUnit

/-! ## Three quotes in a row -/

namespace Text

/-- What opens and closes a triple-quoted string. -/
def threeQuotes : List Char := ['"', '"', '"']

/-- Three quotes stand between `before` and `after`, and nowhere in the text do they begin
earlier. -/
structure FirstQuotes (cs before after : List Char) : Prop where
  split : cs = before ++ threeQuotes ++ after
  first : ∀ before' after', cs = before' ++ threeQuotes ++ after' → before.length ≤ before'.length

lemma exists_firstQuotes {cs : List Char} (h : threeQuotes <:+: cs) :
    ∃ before after, FirstQuotes cs before after := by
  classical
  have hsome : ∃ n before after, before.length = n ∧ cs = before ++ threeQuotes ++ after := by
    obtain ⟨before, after, hsplit⟩ := h
    exact ⟨before.length, before, after, rfl, hsplit.symm⟩
  obtain ⟨before, after, hlength, hsplit⟩ := Nat.find_spec hsome
  refine ⟨before, after, hsplit, fun before' after' hsplit' => ?_⟩
  rw [hlength]
  exact Nat.find_min' hsome ⟨before', after', rfl, hsplit'⟩

lemma tripleString_cons {c : Char} {cs : List Char} (h : ¬ threeQuotes <+: c :: cs) :
    Extent.tripleString (c :: cs) =
      ((Extent.tripleString cs).1 + 1, (Extent.tripleString cs).2) := by
  rw [Extent.tripleString]
  rintro rest rfl rfl
  exact h ⟨rest, rfl⟩

/-- **A triple-quoted string that is closed** ends with the first three quotes. -/
lemma FirstQuotes.tripleString {cs before after : List Char} (h : FirstQuotes cs before after) :
    Extent.tripleString cs = (before.length + 3, .normal) := by
  obtain ⟨rfl, hfirst⟩ := h
  induction before with
  | nil => rfl
  | cons c before ih =>
      have hlater : ¬ threeQuotes <+: c :: (before ++ threeQuotes ++ after) := by
        rintro ⟨rest, hrest⟩
        exact absurd (hfirst [] rest hrest.symm) (Nat.not_succ_le_zero _)
      have hbody := ih fun before' after' heq =>
        Nat.le_of_succ_le_succ (hfirst (c :: before') after' (congrArg (c :: ·) heq))
      rw [List.cons_append, List.cons_append, tripleString_cons hlater, hbody]
      rfl

/-- **A triple-quoted string that is not closed** has the rest of the line and goes on. -/
lemma tripleString_of_open {cs : List Char} (h : ¬ threeQuotes <:+: cs) :
    Extent.tripleString cs = (cs.length, .tripleString) := by
  induction cs with
  | nil => rfl
  | cons c cs ih =>
      have hhere : ¬ threeQuotes <+: c :: cs := fun hprefix => h hprefix.isInfix
      rw [tripleString_cons hhere, ih fun hinfix => h (List.infix_cons hinfix)]
      rfl

end Text

/-! ## Tokens -/

namespace Mode

open StringUnit Text

/-- What stands behind `lead` is read as the inside of a triple-quoted string: all of it where one
goes on, or what follows the three quotes that open one. -/
inductive ReadsTripleString : Mode → List Char → Prop
  | inside : ReadsTripleString .tripleString []
  | opened : ReadsTripleString .normal threeQuotes

variable {mode exit : Mode} {lead text rest : List Char}

/-- The token is the lead and as much behind it as belongs to the string. -/
lemma ReadsTripleString.takes (h : mode.ReadsTripleString lead) (hne : lead ++ text ≠ [])
    (hbody : Extent.tripleString (text ++ rest) = (text.length, exit)) :
    mode.Takes .string (lead ++ text) rest exit := by
  cases h with
  | inside => exact Takes.of_extent nofun hne hbody
  | opened =>
      have hread : normal.read '"' ('"' :: '"' :: text ++ rest) =
          ⟨.string, ('"' :: '"' :: text).length, exit⟩ := by
        rw [read_quote, List.cons_append, List.cons_append, Reading.quote, hbody]
        rfl
      exact Takes.of_read hread

/-- A quote takes as much behind it as belongs to the string. -/
lemma takes_string (hlone : ∀ later, text ++ rest ≠ '"' :: '"' :: later)
    (hbody : Extent.string (text ++ rest) = text.length) :
    normal.Takes .string ('"' :: text) rest .normal := by
  apply Takes.of_read
  rw [read_quote, Reading.quote, hbody]
  exact fun later heq => hlone later heq

/-- **Strings end where they are closed.**  Behind a quote that two more do not follow, the text is
read as units, and they are all of it.  There is a first quote among them, and the token ends with
it, or there is none, and the token has the rest of the line; nothing is open behind it.  Behind
three quotes, or where a triple-quoted string goes on from the line before, there are three quotes
that begin before any others, and the token ends with them and leaves nothing open, or there are no
three quotes, and the token has the rest of the line and goes on in the next. -/
theorem strings_end_where_closed :
    (∀ body : List Char, (∀ later, body ≠ '"' :: '"' :: later) →
      textOf (ofText body) = body ∧
      (plain '"' ∉ ofText body ∨
        ∃ before after, ofText body = before ++ plain '"' :: after ∧ plain '"' ∉ before) ∧
      (∀ before after, ofText body = before ++ plain '"' :: after → plain '"' ∉ before →
        normal.Takes .string ('"' :: (textOf before ++ ['"'])) (textOf after) .normal) ∧
      (plain '"' ∉ ofText body → normal.Takes .string ('"' :: body) [] .normal)) ∧
    ∀ (mode : Mode) (lead body : List Char), mode.ReadsTripleString lead → lead ++ body ≠ [] →
      (¬ threeQuotes <:+: body ∨ ∃ before after, FirstQuotes body before after) ∧
      (∀ before after, FirstQuotes body before after →
        mode.Takes .string (lead ++ (before ++ threeQuotes)) after .normal) ∧
      (¬ threeQuotes <:+: body → mode.Takes .string (lead ++ body) [] .tripleString) := by
  constructor
  · intro body hlone
    have htext := textOf_ofText body
    refine ⟨htext, ?_, ?_, ?_⟩
    · by_cases hquote : plain '"' ∈ ofText body
      · exact .inr (List.eq_append_cons_of_mem hquote)
      · exact .inl hquote
    · intro before after hsplit hfirst
      have hcut : textOf before ++ ['"'] ++ textOf after = body := by
        rw [← htext, hsplit, textOf_append, textOf_cons, List.append_assoc]
        rfl
      apply takes_string
      · rwa [hcut]
      · rw [hcut, string_of_closed hsplit hfirst, List.length_append]
        rfl
    · intro hopen
      apply takes_string
      · rwa [List.append_nil]
      · rw [List.append_nil, string_of_open hopen]
  · intro mode lead body hmode hne
    refine ⟨?_, ?_, ?_⟩
    · by_cases hquotes : threeQuotes <:+: body
      · exact .inr (exists_firstQuotes hquotes)
      · exact .inl hquotes
    · intro before after hfirst
      apply hmode.takes
      · simp [threeQuotes]
      · rw [← hfirst.split, hfirst.tripleString, List.length_append]
        rfl
    · intro hopen
      apply hmode.takes hne
      rw [List.append_nil, tripleString_of_open hopen]

/-- A backslash, a quote and a character of two bytes, all escaped, are passed over.  Of four quotes
in a row the first three close a triple-quoted string, and two do not. -/
theorem strings_end_where_closed_past_escapes :
    (∀ later, "\\\\\\\"\\é\" b".toList ≠ '"' :: '"' :: later) ∧
    normal.Takes .string "\"\\\\\\\"\\é\"".toList " b".toList .normal ∧
    ReadsTripleString .normal threeQuotes ∧
    FirstQuotes "x\"\"\"\"".toList ['x'] ['"'] ∧
    normal.Takes .string "\"\"\"x\"\"\"".toList ['"'] .normal ∧
    ReadsTripleString .tripleString [] ∧
    ¬ threeQuotes <:+: ['"', '"'] ∧
    tripleString.Takes .string ['"', '"'] [] .tripleString := by
  obtain ⟨hstring, htriple⟩ := strings_end_where_closed
  have hlone : ∀ later, "\\\\\\\"\\é\" b".toList ≠ '"' :: '"' :: later := by
    intro later heq
    have hhead : "\\\\\\\"\\é\" b".toList.head? = some '"' := congrArg List.head? heq
    exact absurd hhead (by decide +kernel)
  have hfirst : FirstQuotes "x\"\"\"\"".toList ['x'] ['"'] := by
    refine ⟨by decide +kernel, ?_⟩
    rintro (_ | ⟨c, before⟩) after heq
    · have hhead : "x\"\"\"\"".toList.head? = some '"' := congrArg List.head? heq
      exact absurd hhead (by decide +kernel)
    · exact Nat.le_add_left 1 _
  have hnone : ¬ threeQuotes <:+: ['"', '"'] := by decide
  obtain ⟨-, -, hclosed, -⟩ := hstring _ hlone
  obtain ⟨-, htripleClosed, -⟩ := htriple .normal threeQuotes _ .opened nofun
  obtain ⟨-, -, htripleOpen⟩ := htriple .tripleString [] ['"', '"'] .inside nofun
  refine ⟨hlone, ?_, .opened, hfirst, htripleClosed _ _ hfirst, .inside, hnone, htripleOpen hnone⟩
  exact hclosed [escape '\\', escape '"', escape 'é'] [plain ' ', plain 'b'] (by decide +kernel)
    (by decide +kernel)

end Mode
end PonyEditor
