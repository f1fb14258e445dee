import Mathlib.Computability.Language
import Mathlib.Data.List.TakeWhile
import Mathlib.Tactic.Lemma
import PonyEditor.Proofs.NextTokens

/-!
# Longest matches

The tokens that stay on their line, as a grammar: numbers and words are regular languages
(`Grammar.number`, `Grammar.word`), symbols a table.  Of the texts of the language that the line
goes on with, the token is the longest.  The scanner never looks for it: it takes digits while there
are digits, looks one or two characters ahead, and tries the symbols in a fixed order.  That this
comes to the same is `plain_tokens_are_longest_matches`.
-/

namespace PonyEditor

open scoped Computability

namespace Grammar

/-! ## Languages -/

/-- The texts of one character that has the property. -/
def oneOf (p : Char → Prop) : Language Char := {text | ∃ c, p c ∧ text = [c]}

/-- One character between two others, both included. -/
def range (first last : Char) : Language Char := oneOf fun c => first ≤ c ∧ c ≤ last

/-- This one character. -/
def only (c : Char) : Language Char := oneOf (· = c)

/-- The text or none. -/
def optional (l : Language Char) : Language Char := 1 + l

def digit : Language Char := range '0' '9'

def hexDigit : Language Char := digit + range 'a' 'f' + range 'A' 'F'

def binaryDigit : Language Char := only '0' + only '1'

/-- Digits, at least one of them. -/
def digits : Language Char := digit * digit∗

/-- A number in base sixteen; its digits may be missing. -/
def hexadecimal : Language Char := only '0' * (only 'x' + only 'X') * hexDigit∗

/-- A number in base two; its digits may be missing. -/
def binary : Language Char := only '0' * (only 'b' + only 'B') * binaryDigit∗

def fraction : Language Char := only '.' * digits

/-- The exponent of a number; its digits may be missing. -/
def exponent : Language Char := (only 'e' + only 'E') * optional (only '-') * digit∗

def decimal : Language Char := digits * optional fraction * optional exponent

def number : Language Char := hexadecimal + binary + decimal

def capital : Language Char := range 'A' 'Z'

/-- A letter or an underscore. -/
def wordStart : Language Char := capital + range 'a' 'z' + only '_'

def word : Language Char := wordStart * (wordStart + digit + only '\x27')∗

/-- The text is of the language, and no longer one is that the characters begin with. -/
structure Longest (l : Language Char) (text rest : List Char) : Prop where
  mem : text ∈ l
  longest : ∀ other ∈ l, other <+: text ++ rest → other.length ≤ text.length

/-! ## Characters of a language -/

variable {p q : Char → Prop} {l : Language Char} {text : List Char}

lemma mem_oneOf {c : Char} : [c] ∈ oneOf p ↔ p c := by
  constructor
  · rintro ⟨d, hd, heq⟩
    rwa [(List.cons.inj heq).1]
  · exact fun hc => ⟨c, hc, rfl⟩

lemma oneOf_add_oneOf (p q : Char → Prop) : oneOf p + oneOf q = oneOf fun c => p c ∨ q c := by
  ext text
  constructor
  · rintro (⟨c, hc, htext⟩ | ⟨c, hc, htext⟩)
    · exact ⟨c, .inl hc, htext⟩
    · exact ⟨c, .inr hc, htext⟩
  · rintro ⟨c, hc | hc, htext⟩
    · exact .inl ⟨c, hc, htext⟩
    · exact .inr ⟨c, hc, htext⟩

lemma mem_oneOf_mul : text ∈ oneOf p * l ↔ ∃ c rest, p c ∧ rest ∈ l ∧ text = c :: rest := by
  rw [Language.mem_mul]
  constructor
  · rintro ⟨_, ⟨c, hc, rfl⟩, rest, hrest, rfl⟩
    exact ⟨c, rest, hc, hrest, rfl⟩
  · rintro ⟨c, rest, hc, hrest, rfl⟩
    exact ⟨[c], ⟨c, hc, rfl⟩, rest, hrest, rfl⟩

lemma mem_oneOf_kstar : text ∈ (oneOf p)∗ ↔ ∀ c ∈ text, p c := by
  rw [Language.mem_kstar]
  constructor
  · rintro ⟨pieces, rfl, hpieces⟩ c hc
    obtain ⟨piece, hpiece, hmem⟩ := List.mem_flatten.mp hc
    obtain ⟨d, hd, rfl⟩ := hpieces piece hpiece
    rwa [List.mem_singleton.mp hmem]
  · intro hall
    refine ⟨text.map fun c => [c], ?_, ?_⟩
    · rw [← List.flatMap_def, List.flatMap_singleton']
    · intro piece hpiece
      obtain ⟨c, hc, rfl⟩ := List.mem_map.mp hpiece
      exact ⟨c, hall c hc, rfl⟩

lemma mem_optional : text ∈ optional l ↔ text = [] ∨ text ∈ l := Iff.rfl

/-! ### The classes the scanner tests -/

lemma isDigit_iff (c : Char) : c.isDigit = true ↔ '0' ≤ c ∧ c ≤ '9' := by
  unfold Char.isDigit
  rw [Bool.and_eq_true, decide_eq_true_eq, decide_eq_true_eq]
  exact Iff.rfl

lemma isUpper_iff (c : Char) : c.isUpper = true ↔ 'A' ≤ c ∧ c ≤ 'Z' := by
  unfold Char.isUpper
  rw [decide_eq_true_eq]
  exact Iff.rfl

lemma isLower_iff (c : Char) : c.isLower = true ↔ 'a' ≤ c ∧ c ≤ 'z' := by
  unfold Char.isLower
  rw [Bool.and_eq_true, decide_eq_true_eq, decide_eq_true_eq]
  exact Iff.rfl

lemma isWordStart_iff (c : Char) : Extent.isWordStart c = true ↔
    (('A' ≤ c ∧ c ≤ 'Z') ∨ ('a' ≤ c ∧ c ≤ 'z')) ∨ c = '_' := by
  unfold Extent.isWordStart Char.isAlpha
  rw [Bool.or_eq_true, Bool.or_eq_true, beq_iff_eq, isUpper_iff, isLower_iff]

/-- No word begins with a digit. -/
lemma not_isDigit_of_isWordStart {c : Char} (h : Extent.isWordStart c = true) :
    ¬ c.isDigit = true := by
  rw [isDigit_iff]
  rintro ⟨-, hle⟩
  rcases (isWordStart_iff c).mp h with (⟨hge, -⟩ | ⟨hge, -⟩) | rfl
  · exact absurd (Char.le_trans hge hle) (by decide)
  · exact absurd (Char.le_trans hge hle) (by decide)
  · exact absurd hle (by decide)

lemma oneOf_congr (h : ∀ c, p c ↔ q c) : oneOf p = oneOf q := by
  rw [funext fun c => propext (h c)]

lemma digit_eq : digit = oneOf fun c => c.isDigit = true :=
  oneOf_congr fun c => (isDigit_iff c).symm

lemma hexDigit_eq : hexDigit = oneOf fun c => Extent.isHexDigit c = true := by
  rw [hexDigit, digit, range, range, range, oneOf_add_oneOf, oneOf_add_oneOf]
  apply oneOf_congr
  intro c
  simp only [Extent.isHexDigit, Bool.or_eq_true, Bool.and_eq_true, decide_eq_true_eq, isDigit_iff]

lemma binaryDigit_eq : binaryDigit = oneOf fun c => Extent.isBinaryDigit c = true := by
  rw [binaryDigit, only, only, oneOf_add_oneOf]
  apply oneOf_congr
  intro c
  rw [Extent.isBinaryDigit, Bool.or_eq_true, beq_iff_eq, beq_iff_eq]

lemma wordStart_eq : wordStart = oneOf fun c => Extent.isWordStart c = true := by
  rw [wordStart, capital, range, range, only, oneOf_add_oneOf, oneOf_add_oneOf]
  exact oneOf_congr fun c => (isWordStart_iff c).symm

lemma wordRest_eq : wordStart + digit + only '\x27' =
    oneOf fun c => Extent.isWordRest c = true := by
  rw [wordStart_eq, digit_eq, only, oneOf_add_oneOf, oneOf_add_oneOf]
  apply oneOf_congr
  intro c
  unfold Extent.isWordRest Extent.isWordStart Char.isAlphanum
  simp only [Bool.or_eq_true, beq_iff_eq]
  tauto

/-! ### What the languages are -/

lemma mem_digits : text ∈ digits ↔ text ≠ [] ∧ ∀ c ∈ text, c.isDigit = true := by
  rw [digits, digit_eq, mem_oneOf_mul]
  constructor
  · rintro ⟨c, rest, hc, hrest, rfl⟩
    exact ⟨List.cons_ne_nil c rest, List.forall_mem_cons.mpr ⟨hc, mem_oneOf_kstar.mp hrest⟩⟩
  · rintro ⟨hne, hall⟩
    obtain ⟨c, rest, rfl⟩ := List.exists_cons_of_ne_nil hne
    obtain ⟨hc, hrest⟩ := List.forall_mem_cons.mp hall
    exact ⟨c, rest, hc, mem_oneOf_kstar.mpr hrest, rfl⟩

/-- A zero, one of two letters, and digits of the base they announce. -/
lemma mem_based {a b : Char} : text ∈ only '0' * (only a + only b) * (oneOf p)∗ ↔
    ∃ letter ds, (letter = a ∨ letter = b) ∧ (∀ c ∈ ds, p c) ∧ text = '0' :: letter :: ds := by
  rw [only, only, only, oneOf_add_oneOf, mul_assoc, mem_oneOf_mul]
  constructor
  · rintro ⟨_, rest, rfl, hrest, rfl⟩
    obtain ⟨letter, ds, hletter, hds, rfl⟩ := mem_oneOf_mul.mp hrest
    exact ⟨letter, ds, hletter, mem_oneOf_kstar.mp hds, rfl⟩
  · rintro ⟨letter, ds, hletter, hds, rfl⟩
    exact ⟨'0', letter :: ds, rfl,
      mem_oneOf_mul.mpr ⟨letter, ds, hletter, mem_oneOf_kstar.mpr hds, rfl⟩, rfl⟩

lemma mem_fraction : text ∈ fraction ↔ ∃ ds ∈ digits, text = '.' :: ds := by
  rw [fraction, only, mem_oneOf_mul]
  constructor
  · rintro ⟨_, ds, rfl, hds, rfl⟩
    exact ⟨ds, hds, rfl⟩
  · rintro ⟨ds, hds, rfl⟩
    exact ⟨'.', ds, rfl, hds, rfl⟩

lemma mem_exponent : text ∈ exponent ↔ ∃ letter sign ds, (letter = 'e' ∨ letter = 'E') ∧
    (sign = [] ∨ sign = ['-']) ∧ (∀ c ∈ ds, c.isDigit = true) ∧ text = letter :: (sign ++ ds) := by
  rw [exponent, only, only, oneOf_add_oneOf, mul_assoc, mem_oneOf_mul, digit_eq]
  constructor
  · rintro ⟨letter, rest, hletter, hrest, rfl⟩
    obtain ⟨sign, hsign, ds, hds, rfl⟩ := Language.mem_mul.mp hrest
    refine ⟨letter, sign, ds, hletter, ?_, mem_oneOf_kstar.mp hds, rfl⟩
    rcases mem_optional.mp hsign with hnone | ⟨c, rfl, hone⟩
    · exact .inl hnone
    · exact .inr hone
  · rintro ⟨letter, sign, ds, hletter, hsign, hds, rfl⟩
    have hoptional : sign ∈ optional (only '-') := hsign.imp_right fun h => ⟨'-', rfl, h⟩
    exact ⟨letter, sign ++ ds, hletter,
      Language.mem_mul.mpr ⟨sign, hoptional, ds, mem_oneOf_kstar.mpr hds, rfl⟩, rfl⟩

lemma mem_decimal : text ∈ decimal ↔ ∃ whole ∈ digits, ∃ part ∈ optional fraction,
    ∃ power ∈ optional exponent, text = whole ++ (part ++ power) := by
  rw [decimal, mul_assoc, Language.mem_mul]
  constructor
  · rintro ⟨whole, hwhole, rest, hrest, rfl⟩
    obtain ⟨part, hpart, power, hpower, rfl⟩ := Language.mem_mul.mp hrest
    exact ⟨whole, hwhole, part, hpart, power, hpower, rfl⟩
  · rintro ⟨whole, hwhole, part, hpart, power, hpower, rfl⟩
    exact ⟨whole, hwhole, part ++ power,
      Language.mem_mul.mpr ⟨part, hpart, power, hpower, rfl⟩, rfl⟩

lemma mem_word : text ∈ word ↔ ∃ c rest, Extent.isWordStart c = true ∧
    (∀ d ∈ rest, Extent.isWordRest d = true) ∧ text = c :: rest := by
  rw [word, wordRest_eq, wordStart_eq, mem_oneOf_mul]
  simp only [mem_oneOf_kstar]

end Grammar

/-! ## Runs of characters -/

namespace Extent

open Grammar

variable {p : Char → Bool} {cs ds tail : List Char}

lemma take_run (p : Char → Bool) (cs : List Char) : cs.take (run p cs) = cs.takeWhile p :=
  (List.prefix_iff_eq_take.mp (List.takeWhile_prefix p)).symm

lemma forall_mem_take_run (p : Char → Bool) (cs : List Char) :
    ∀ c ∈ cs.take (run p cs), p c = true := by
  rw [take_run]
  exact fun c hc => List.mem_takeWhile_imp hc

/-- A run goes at least as far as characters of the class do. -/
lemma length_le_run (hds : ∀ c ∈ ds, p c = true) (h : ds <+: cs) : ds.length ≤ run p cs := by
  obtain ⟨rest, rfl⟩ := h
  rw [run, List.takeWhile_append_of_pos hds, List.length_append]
  exact Nat.le_add_right _ _

/-- A run does not go past a character of another class. -/
lemma run_of_stop {c : Char} (hds : ∀ d ∈ ds, p d = true) (hc : p c = false)
    (h : ds ++ c :: tail <+: cs) : run p cs = ds.length ∧ c :: tail <+: cs.drop (run p cs) := by
  obtain ⟨rest, rfl⟩ := h
  have hrun : run p (ds ++ c :: tail ++ rest) = ds.length := by
    rw [run, List.append_assoc, List.takeWhile_append_of_pos hds, List.cons_append,
      List.takeWhile_cons_of_neg (by simp [hc]), List.append_nil]
  refine ⟨hrun, ?_⟩
  rw [hrun, List.append_assoc, List.drop_left]
  exact List.prefix_append _ _

/-- What begins with a character of another class can only follow a run that is whole. -/
lemma length_append_le {n : Nat} (hds : ∀ d ∈ ds, p d = true)
    (htail : ∀ c rest, tail = c :: rest → p c = false) (h : ds ++ tail <+: cs)
    (hn : tail <+: cs.drop (run p cs) → tail.length ≤ n) :
    (ds ++ tail).length ≤ run p cs + n := by
  rw [List.length_append]
  cases tail with
  | nil =>
      rw [List.append_nil] at h
      exact Nat.add_le_add (length_le_run hds h) (Nat.zero_le n)
  | cons c tail =>
      obtain ⟨hrun, hrest⟩ := run_of_stop hds (htail c tail rfl) h
      exact Nat.add_le_add hrun.ge (hn hrest)

/-! ## Exponents -/

lemma exponent_minus {letter : Char} (hletter : (letter == 'e' || letter == 'E') = true)
    (cs : List Char) : exponent (letter :: '-' :: cs) = run Char.isDigit cs + 2 := by
  simp [exponent, hletter]

lemma exponent_of_ne {letter : Char} (hletter : ¬ (letter == 'e' || letter == 'E') = true)
    (cs : List Char) : exponent (letter :: cs) = 0 := by
  simp [exponent, hletter]

/-- Without a sign the digits follow the letter at once. -/
lemma exponent_unsigned {letter : Char} (hletter : (letter == 'e' || letter == 'E') = true)
    {cs : List Char} (hsign : ∀ rest, cs ≠ '-' :: rest) :
    exponent (letter :: cs) = run Char.isDigit cs + 1 := by
  cases cs with
  | nil => simp [exponent, hletter, run]
  | cons c cs =>
      apply exponent_of_letter hletter
      rintro rfl
      exact hsign cs rfl

/-- With a sign or without, the digits that follow the letter at once are in the exponent. -/
lemma run_lt_exponent {letter : Char} (hletter : (letter == 'e' || letter == 'E') = true)
    (cs : List Char) : run Char.isDigit cs < exponent (letter :: cs) := by
  by_cases hsign : ∃ rest, cs = '-' :: rest
  · obtain ⟨rest, rfl⟩ := hsign
    have hnone : run Char.isDigit ('-' :: rest) = 0 := rfl
    rw [exponent_minus hletter, hnone]
    exact Nat.succ_pos _
  · rw [exponent_unsigned hletter fun rest heq => hsign ⟨rest, heq⟩]
    exact Nat.lt_succ_self _

lemma take_exponent_mem (cs : List Char) : cs.take (exponent cs) ∈ optional Grammar.exponent := by
  rw [mem_optional]
  cases cs with
  | nil => exact .inl rfl
  | cons letter cs =>
      by_cases hletter : (letter == 'e' || letter == 'E') = true
      · have hletters : letter = 'e' ∨ letter = 'E' := by simpa using hletter
        right
        rw [mem_exponent]
        by_cases hsign : ∃ rest, cs = '-' :: rest
        · obtain ⟨rest, rfl⟩ := hsign
          rw [exponent_minus hletter]
          exact ⟨letter, ['-'], _, hletters, .inr rfl, forall_mem_take_run Char.isDigit rest, rfl⟩
        · rw [exponent_unsigned hletter fun rest heq => hsign ⟨rest, heq⟩]
          exact ⟨letter, [], _, hletters, .inl rfl, forall_mem_take_run Char.isDigit cs, rfl⟩
      · rw [exponent_of_ne hletter]
        exact .inl rfl

lemma length_le_exponent (hds : ds ∈ optional Grammar.exponent) (h : ds <+: cs) :
    ds.length ≤ exponent cs := by
  rcases mem_optional.mp hds with rfl | hds
  · exact Nat.zero_le _
  · obtain ⟨letter, sign, ds, hletters, hsign, hall, rfl⟩ := mem_exponent.mp hds
    have hletter : (letter == 'e' || letter == 'E') = true := by simpa using hletters
    obtain ⟨rest, rfl⟩ := h
    have hrun := length_le_run hall (List.prefix_append ds rest)
    rcases hsign with rfl | rfl
    · rw [List.nil_append, List.length_cons, List.cons_append]
      exact Nat.lt_of_le_of_lt hrun (run_lt_exponent hletter (ds ++ rest))
    · rw [List.singleton_append, List.cons_append, List.cons_append, exponent_minus hletter]
      exact Nat.add_le_add_right hrun 2

/-! ## Numbers -/

lemma take_fraction_mem (cs : List Char) : cs.take (fraction cs) ∈ optional Grammar.fraction := by
  rw [mem_optional]
  cases cs with
  | nil => exact .inl rfl
  | cons c cs =>
      by_cases hc : c = '.'
      · subst hc
        by_cases hrun : run Char.isDigit cs = 0
        · rw [fraction, if_pos hrun]
          exact .inl rfl
        · rw [fraction, if_neg hrun]
          right
          rw [mem_fraction]
          have hne : cs.take (run Char.isDigit cs) ≠ [] := by
            rw [take_run]
            exact fun hnil => hrun (congrArg List.length hnil)
          exact ⟨_, mem_digits.mpr ⟨hne, forall_mem_take_run Char.isDigit cs⟩, rfl⟩
      · rw [fraction_of_ne hc]
        exact .inl rfl

lemma take_decimal_mem {c : Char} (hc : c.isDigit = true) (cs : List Char) :
    (c :: cs).take (decimal (c :: cs)) ∈ Grammar.decimal := by
  have hne : (c :: cs).take (run Char.isDigit (c :: cs)) ≠ [] := by
    rw [take_run, List.takeWhile_cons_of_pos hc]
    exact List.cons_ne_nil _ _
  rw [mem_decimal, decimal, List.take_add, List.take_add, List.append_assoc]
  exact ⟨_, mem_digits.mpr ⟨hne, forall_mem_take_run Char.isDigit _⟩, _, take_fraction_mem _, _,
    take_exponent_mem _, rfl⟩

/-- An exponent begins with its letter. -/
lemma letter_of_mem_exponent {c : Char} (hds : ds ∈ optional Grammar.exponent)
    (heq : ds = c :: tail) : c = 'e' ∨ c = 'E' := by
  rcases mem_optional.mp hds with rfl | hds
  · cases heq
  · obtain ⟨letter, sign, later, hletter, -, -, rfl⟩ := mem_exponent.mp hds
    rwa [← (List.cons.inj heq).1]

lemma not_isDigit_of_mem_exponent {c : Char} (hds : ds ∈ optional Grammar.exponent)
    (heq : ds = c :: tail) : c.isDigit = false := by
  rcases letter_of_mem_exponent hds heq with rfl | rfl
  · rfl
  · rfl

/-- A fraction and an exponent, one or both of which may be missing. -/
lemma length_le_fraction_add {part power : List Char} (hpart : part ∈ optional Grammar.fraction)
    (hpower : power ∈ optional Grammar.exponent) (h : part ++ power <+: cs) :
    (part ++ power).length ≤ fraction cs + exponent (cs.drop (fraction cs)) := by
  rcases mem_optional.mp hpart with rfl | hpart
  · -- the letter of an exponent is no dot
    have hnone : power ≠ [] → fraction cs = 0 := by
      intro hne
      obtain ⟨letter, power, rfl⟩ := List.exists_cons_of_ne_nil hne
      obtain ⟨rest, rfl⟩ := h
      apply fraction_of_ne
      rcases letter_of_mem_exponent hpower rfl with rfl | rfl <;> decide
    by_cases hne : power = []
    · subst hne
      exact Nat.zero_le _
    · rw [hnone hne, Nat.zero_add]
      exact length_le_exponent hpower h
  · obtain ⟨ds, hds, rfl⟩ := mem_fraction.mp hpart
    obtain ⟨hne, hdigits⟩ := mem_digits.mp hds
    obtain ⟨rest, rfl⟩ := h
    have hstarts : ds ++ power <+: ds ++ power ++ rest := List.prefix_append _ _
    have hsome : run Char.isDigit (ds ++ power ++ rest) ≠ 0 := by
      have hrun := length_le_run hdigits ((List.prefix_append ds power).trans hstarts)
      have hpos := List.length_pos_iff.mpr hne
      omega
    have hrest := length_append_le hdigits (fun c later => not_isDigit_of_mem_exponent hpower)
      hstarts (length_le_exponent hpower)
    rw [List.cons_append, List.cons_append, fraction, if_neg hsome, List.drop_succ_cons,
      List.length_cons]
    omega

/-- **No decimal number is longer** than the one that takes all digits, then a fraction and then an
exponent where they follow. -/
lemma length_le_decimal (hds : ds ∈ Grammar.decimal) (h : ds <+: cs) : ds.length ≤ decimal cs := by
  obtain ⟨whole, hwhole, part, hpart, power, hpower, rfl⟩ := mem_decimal.mp hds
  obtain ⟨-, hdigits⟩ := mem_digits.mp hwhole
  rw [decimal, Nat.add_assoc, ← List.drop_drop]
  apply length_append_le hdigits _ h (length_le_fraction_add hpart hpower)
  intro c later heq
  rcases mem_optional.mp hpart with rfl | hpart
  · exact not_isDigit_of_mem_exponent hpower heq
  · obtain ⟨ds, -, rfl⟩ := mem_fraction.mp hpart
    obtain ⟨rfl, -⟩ := List.cons.inj heq
    rfl

/-- A letter that announces a base ends a decimal number. -/
lemma decimal_of_letter {letter : Char} (hletter : letter ∈ ['x', 'X', 'b', 'B'])
    (cs : List Char) : decimal ('0' :: letter :: cs) = 1 := by
  have hends : ∀ letter ∈ ['x', 'X', 'b', 'B'], letter.isDigit = false ∧ letter ≠ '.' ∧
      ¬ (letter == 'e' || letter == 'E') = true := by
    simp
  obtain ⟨hdigit, hdot, hexponent⟩ := hends letter hletter
  have hrun : run Char.isDigit ('0' :: letter :: cs) = 1 := by
    simp [run, hdigit]
  rw [decimal, hrun]
  simp [fraction_of_ne hdot, exponent_of_ne hexponent]

/-- A number is in base sixteen or two where its second character says so, and decimal where it does
not. -/
lemma number_cases (cs : List Char) :
    (∃ letter rest, (letter = 'x' ∨ letter = 'X') ∧ cs = '0' :: letter :: rest ∧
      number cs = run isHexDigit rest + 2) ∨
    (∃ letter rest, (letter = 'b' ∨ letter = 'B') ∧ cs = '0' :: letter :: rest ∧
      number cs = run isBinaryDigit rest + 2) ∨
    number cs = decimal cs := by
  unfold number
  split
  · exact .inl ⟨'x', _, .inl rfl, rfl, rfl⟩
  · exact .inl ⟨'X', _, .inr rfl, rfl, rfl⟩
  · exact .inr (.inl ⟨'b', _, .inl rfl, rfl, rfl⟩)
  · exact .inr (.inl ⟨'B', _, .inr rfl, rfl, rfl⟩)
  · exact .inr (.inr rfl)

lemma decimal_le_number (cs : List Char) : decimal cs ≤ number cs := by
  rcases number_cases cs with
    ⟨letter, rest, hletter, rfl, hn⟩ | ⟨letter, rest, hletter, rfl, hn⟩ | hn
  · rw [hn, decimal_of_letter (by rcases hletter with rfl | rfl <;> decide)]
    exact Nat.succ_pos _
  · rw [hn, decimal_of_letter (by rcases hletter with rfl | rfl <;> decide)]
    exact Nat.succ_pos _
  · exact hn.ge

/-- A number that announces its base takes all the digits of the base. -/
lemma length_le_based {a b : Char} (ha : ∀ rest, number ('0' :: a :: rest) = run p rest + 2)
    (hb : ∀ rest, number ('0' :: b :: rest) = run p rest + 2)
    (hds : ds ∈ only '0' * (only a + only b) * (oneOf fun c => p c = true)∗) (h : ds <+: cs) :
    ds.length ≤ number cs := by
  obtain ⟨letter, ds, hletter, hall, rfl⟩ := mem_based.mp hds
  obtain ⟨rest, rfl⟩ := h
  have hn : number ('0' :: letter :: (ds ++ rest)) = run p (ds ++ rest) + 2 := by
    rcases hletter with rfl | rfl
    · exact ha _
    · exact hb _
  rw [List.cons_append, List.cons_append, hn]
  exact Nat.add_le_add_right (length_le_run hall (List.prefix_append ds rest)) 2

/-- **No number is longer** than the one that the first two characters announce. -/
lemma length_le_number (hds : ds ∈ Grammar.number) (h : ds <+: cs) : ds.length ≤ number cs := by
  rcases hds with (hds | hds) | hds
  · rw [hexadecimal, hexDigit_eq] at hds
    exact length_le_based (fun _ => rfl) (fun _ => rfl) hds h
  · rw [binary, binaryDigit_eq] at hds
    exact length_le_based (fun _ => rfl) (fun _ => rfl) hds h
  · exact Nat.le_trans (length_le_decimal hds h) (decimal_le_number cs)

lemma take_based_mem {a b letter : Char} (hletter : letter = a ∨ letter = b) (p : Char → Bool)
    (cs : List Char) : ('0' :: letter :: cs).take (run p cs + 2) ∈
      only '0' * (only a + only b) * (oneOf fun c => p c = true)∗ :=
  mem_based.mpr ⟨letter, cs.take (run p cs), hletter, forall_mem_take_run p cs, rfl⟩

lemma take_number_mem {c : Char} (hc : c.isDigit = true) (cs : List Char) :
    (c :: cs).take (number (c :: cs)) ∈ Grammar.number := by
  rw [Grammar.number, Language.mem_add, Language.mem_add, hexadecimal, hexDigit_eq, binary,
    binaryDigit_eq]
  rcases number_cases (c :: cs) with
    ⟨letter, rest, hletter, heq, hn⟩ | ⟨letter, rest, hletter, heq, hn⟩ | hn
  · rw [hn, heq]
    exact .inl (.inl (take_based_mem hletter isHexDigit rest))
  · rw [hn, heq]
    exact .inl (.inr (take_based_mem hletter isBinaryDigit rest))
  · rw [hn]
    exact .inr (take_decimal_mem hc cs)

lemma longest_number {c : Char} (hc : c.isDigit = true) (cs : List Char) :
    Longest Grammar.number ((c :: cs).take (number (c :: cs)))
      ((c :: cs).drop (number (c :: cs))) where
  mem := take_number_mem hc cs
  longest := by
    intro other hother hstarts
    rw [List.take_append_drop] at hstarts
    rw [List.length_take]
    exact Nat.le_min.mpr ⟨length_le_number hother hstarts, hstarts.length_le⟩

/-! ## Words -/

lemma longest_word {c : Char} (hc : isWordStart c = true) (cs : List Char) :
    Longest Grammar.word (c :: cs.takeWhile isWordRest) (cs.dropWhile isWordRest) where
  mem := mem_word.mpr ⟨c, _, hc, fun d hd => List.mem_takeWhile_imp hd, rfl⟩
  longest := by
    intro other hother hstarts
    obtain ⟨d, ds, -, hds, rfl⟩ := mem_word.mp hother
    rw [List.cons_append, List.takeWhile_append_dropWhile] at hstarts
    exact Nat.succ_le_succ (length_le_run hds (List.cons_prefix_cons.mp hstarts).2)

end Extent

namespace Vocabulary

/-- The words that have a kind of their own, of every length. -/
def words : List (String × Kind) := (List.range 19).flatMap wordsOfLength

/-- **A word is found by its length and its first byte**: the table has it, and what is asked before
texts are compared lets every word of the table pass. -/
lemma word?_eq_some_iff {text : String} {kind : Kind} :
    word? text = some kind ↔ (text, kind) ∈ words := by
  constructor
  · intro h
    rw [word?] at h
    split at h
    · cases h
    · split at h
      · cases h
      · rename_i hguard
        have hlength : text.utf8ByteSize < 19 := by
          simp only [Bool.or_eq_true, decide_eq_true_eq, not_or] at hguard
          omega
        obtain ⟨before, after, htable, -⟩ := List.lookup_eq_some_iff.mp h
        refine List.mem_flatMap.mpr ⟨text.utf8ByteSize, List.mem_range.mpr hlength, ?_⟩
        rw [htable]
        exact List.mem_append_right before List.mem_cons_self
  · intro h
    have htable : (words.all fun entry => word? entry.1 == some entry.2) = true := by
      decide +kernel
    exact beq_iff_eq.mp (List.all_eq_true.mp htable (text, kind) h)

lemma word?_eq_none {text : String} (h : ∀ kind, (text, kind) ∉ words) : word? text = none := by
  apply Option.eq_none_iff_forall_not_mem.mpr
  intro kind hkind
  exact h kind (word?_eq_some_iff.mp hkind)

end Vocabulary

namespace Reading

open Grammar

/-- The text begins with a capital letter, or with an underscore and one. -/
def StartsCapital (text : List Char) : Prop :=
  ∃ c rest, [c] ∈ capital ∧ (text = c :: rest ∨ text = '_' :: c :: rest)

variable {text : List Char}

lemma wordKind_of_mem {kind : Kind} (h : (String.ofList text, kind) ∈ Vocabulary.words) :
    wordKind text = kind := by
  unfold wordKind
  rw [Vocabulary.word?_eq_some_iff.mpr h]

lemma mem_capital {c : Char} : [c] ∈ capital ↔ c.isUpper = true := by
  rw [capital, range, mem_oneOf, isUpper_iff]

lemma startsCapital_cons {c : Char} {cs : List Char} : StartsCapital (c :: cs) ↔
    c.isUpper = true ∨ c = '_' ∧ ∃ d ds, cs = d :: ds ∧ d.isUpper = true := by
  constructor
  · rintro ⟨d, ds, hd, heq | heq⟩
    · obtain ⟨rfl, rfl⟩ := List.cons.inj heq
      exact .inl (mem_capital.mp hd)
    · obtain ⟨rfl, rfl⟩ := List.cons.inj heq
      exact .inr ⟨rfl, d, ds, rfl, mem_capital.mp hd⟩
  · rintro (hc | ⟨rfl, d, ds, rfl, hd⟩)
    · exact ⟨c, cs, mem_capital.mpr hc, .inl rfl⟩
    · exact ⟨d, ds, mem_capital.mpr hd, .inr rfl⟩

/-- **A name is told by its first letter**, or by its second behind an underscore. -/
lemma wordKind_of_notMem (h : ∀ kind, (String.ofList text, kind) ∉ Vocabulary.words) :
    (StartsCapital text → wordKind text = .typeName) ∧
      (¬ StartsCapital text → wordKind text = .valueName) := by
  unfold wordKind
  rw [Vocabulary.word?_eq_none h]
  dsimp only
  split
  · rename_i d ds
    have hunder : ('_').isUpper = false := rfl
    have hcapital : StartsCapital ('_' :: d :: ds) ↔ d.isUpper = true := by
      simp [startsCapital_cons, hunder]
    rw [hcapital]
    exact ⟨fun hd => if_pos hd, fun hd => if_neg hd⟩
  · rename_i c cs hunder
    have hcapital : StartsCapital (c :: cs) ↔ c.isUpper = true := by
      rw [startsCapital_cons, or_iff_left]
      rintro ⟨rfl, d, ds, rfl, -⟩
      exact hunder d ds rfl rfl
    rw [hcapital]
    exact ⟨fun hc => if_pos hc, fun hc => if_neg hc⟩
  · refine ⟨?_, fun _ => rfl⟩
    rintro ⟨c, cs, -, heq | heq⟩ <;> cases heq

/-! ## Symbols -/

/-- In the table no symbol stands behind a shorter one, and none stands there twice. -/
lemma symbols_pairwise :
    Vocabulary.symbols.Pairwise fun e f => f.1.length ≤ e.1.length ∧ e.1 ≠ f.1 := by
  decide +kernel

/-- **The first symbol is the longest.** -/
lemma length_lt_of_symbol? {cs : List Char} {entry : String × Kind}
    (h : Vocabulary.symbol? cs = some entry) {other : String × Kind}
    (hother : other ∈ Vocabulary.symbols) (hstarts : other.1.toList <+: cs) (hne : other ≠ entry) :
    other.1.length < entry.1.length := by
  obtain ⟨hentry, before, after, hsplit, hbefore⟩ := List.find?_eq_some_iff_append.mp h
  have hpairwise := symbols_pairwise
  rw [hsplit] at hother hpairwise
  rcases List.mem_append.mp hother with hmem | hmem
  · have hskipped := hbefore other hmem
    rw [List.isPrefixOf_iff_prefix.mpr hstarts] at hskipped
    cases hskipped
  · have hbehind := (List.mem_cons.mp hmem).resolve_left hne
    obtain ⟨hle, htext⟩ :=
      List.rel_of_pairwise_cons (List.pairwise_append.mp hpairwise).2.1 hbehind
    apply Nat.lt_of_le_of_ne hle
    -- of the same length, both would be what the characters begin with
    intro hlength
    apply htext
    rw [← String.toList_inj]
    have hstarts' := List.isPrefixOf_iff_prefix.mp hentry
    rw [List.prefix_iff_eq_take.mp hstarts, List.prefix_iff_eq_take.mp hstarts',
      String.length_toList, String.length_toList, hlength]

end Reading

/-! ## Tokens -/

namespace Mode

open Grammar

variable {c : Char}

lemma read_of_ne (hslash : c ≠ '/') (hquote : c ≠ '"') (cs : List Char) :
    normal.read c cs =
      if c.isDigit then ⟨.number, Extent.number (c :: cs) - 1, .normal⟩
      else if Extent.isWordStart c then Reading.word c cs
      else Reading.symbol c cs :=
  Reading.plain_of_ne c (fun h => hslash (beq_iff_eq.mp h)) (fun h => hquote (beq_iff_eq.mp h)) cs

lemma ne_of_class (p : Char → Bool) {d : Char} (hc : p c = true) (hd : p d = false) : c ≠ d := by
  rintro rfl
  rw [hc] at hd
  cases hd

lemma takes_number (hc : c.isDigit = true) (cs : List Char) :
    normal.Takes .number ((c :: cs).take (Extent.number (c :: cs)))
      ((c :: cs).drop (Extent.number (c :: cs))) .normal := by
  obtain ⟨n, hn⟩ := Nat.exists_eq_add_one_of_ne_zero (ByteReader.number_pos hc cs).ne'
  have htakes := takes_read normal c cs
  rw [read_of_ne (ne_of_class Char.isDigit hc rfl) (ne_of_class Char.isDigit hc rfl), if_pos hc,
    hn] at htakes
  rw [hn]
  exact htakes

lemma takes_word (hc : Extent.isWordStart c = true) (cs : List Char) :
    normal.Takes (Reading.wordKind (c :: cs.takeWhile Extent.isWordRest))
      (c :: cs.takeWhile Extent.isWordRest) (cs.dropWhile Extent.isWordRest) .normal := by
  apply Takes.of_read
  rw [List.takeWhile_append_dropWhile, read_of_ne (ne_of_class Extent.isWordStart hc rfl)
    (ne_of_class Extent.isWordStart hc rfl), if_neg (not_isDigit_of_isWordStart hc), if_pos hc]
  rfl

lemma takes_symbol {cs : List Char} (hread : normal.read c cs = Reading.symbol c cs)
    {entry : String × Kind} (hentry : Vocabulary.symbol? (c :: cs) = some entry) :
    ∃ rest, entry.1.toList ++ rest = c :: cs ∧
      normal.Takes entry.2 entry.1.toList rest .normal := by
  obtain ⟨symbol, kind⟩ := entry
  obtain ⟨text, rest, hsymbol, rfl, -, -⟩ := ByteReader.exists_of_symbol? hentry
  have hlength : symbol.length - 1 = text.length := by
    rw [← String.length_toList, hsymbol, List.length_cons, Nat.add_sub_cancel]
  refine ⟨rest, by rw [hsymbol, List.cons_append], ?_⟩
  rw [hsymbol]
  apply Takes.of_read
  rw [hread, Reading.symbol, hentry, ← hlength]

/-- **Tokens that stay on their line are longest matches.**  At a digit stands the longest number.
At a letter or an underscore stands the longest word, which has the kind that the table has for it,
and without one is a type name or a value name by its first letter.  Two slashes begin a comment to
the end of the line, and one slash alone is an operator.  At any other character but a quote stands
the one symbol that is longer than every other the text begins with, or, where the text begins with
none, a blank of that character. -/
theorem plain_tokens_are_longest_matches (c : Char) (cs : List Char) :
    ([c] ∈ digit → ∃ text rest, text ++ rest = c :: cs ∧ Longest number text rest ∧
      normal.Takes .number text rest .normal) ∧
    ([c] ∈ wordStart → ∃ text rest kind, text ++ rest = c :: cs ∧ Longest word text rest ∧
      normal.Takes kind text rest .normal ∧
      (∀ reserved, (String.ofList text, reserved) ∈ Vocabulary.words → kind = reserved) ∧
      ((∀ reserved, (String.ofList text, reserved) ∉ Vocabulary.words) →
        (Reading.StartsCapital text → kind = .typeName) ∧
        (¬ Reading.StartsCapital text → kind = .valueName))) ∧
    (∀ later, c :: cs = '/' :: '/' :: later → normal.Takes .comment (c :: cs) [] .normal) ∧
    (c = '/' → (∀ later, cs ≠ '/' :: later) → (∀ later, cs ≠ '*' :: later) →
      normal.Takes .operator [c] cs .normal) ∧
    ([c] ∉ digit → [c] ∉ wordStart → c ≠ '/' → c ≠ '"' →
      (∃ entry ∈ Vocabulary.symbols, ∃ rest, entry.1.toList ++ rest = c :: cs ∧
        (∀ other ∈ Vocabulary.symbols, other.1.toList <+: c :: cs → other ≠ entry →
          other.1.length < entry.1.length) ∧
        normal.Takes entry.2 entry.1.toList rest .normal) ∨
      (∀ entry ∈ Vocabulary.symbols, ¬ entry.1.toList <+: c :: cs) ∧
        normal.Takes .blank [c] cs .normal) := by
  rw [digit_eq, wordStart_eq, mem_oneOf, mem_oneOf]
  refine ⟨?_, ?_, ?_, ?_, ?_⟩
  · intro hc
    exact ⟨_, _, List.take_append_drop _ _, Extent.longest_number hc cs, takes_number hc cs⟩
  · intro hc
    refine ⟨_, _, _, ?_, Extent.longest_word hc cs, takes_word hc cs,
      fun _ => Reading.wordKind_of_mem, Reading.wordKind_of_notMem⟩
    rw [List.cons_append, List.takeWhile_append_dropWhile]
  · rintro later heq
    obtain ⟨rfl, rfl⟩ := List.cons.inj heq
    apply Takes.of_read
    rw [read_slash, List.append_nil, Reading.slash, List.length_cons]
  · rintro rfl hslash hstar
    apply Takes.of_read
    rw [read_slash, Reading.slash]
    · rfl
    · exact hslash
    · exact hstar
  · intro hdigit hword hslash hquote
    have hread : normal.read c cs = Reading.symbol c cs := by
      rw [read_of_ne hslash hquote, if_neg hdigit, if_neg hword]
    cases hsymbol : Vocabulary.symbol? (c :: cs) with
    | some entry =>
        obtain ⟨rest, hsplit, htakes⟩ := takes_symbol hread hsymbol
        exact .inl ⟨entry, List.mem_of_find?_eq_some hsymbol, rest, hsplit,
          fun other hother hstarts hne => Reading.length_lt_of_symbol? hsymbol hother hstarts hne,
          htakes⟩
    | none =>
        refine .inr ⟨?_, ?_⟩
        · intro entry hentry hstarts
          exact List.find?_eq_none.mp hsymbol entry hentry
            (List.isPrefixOf_iff_prefix.mpr hstarts)
        · apply Takes.of_read
          rw [List.nil_append, hread, Reading.symbol, hsymbol]
          rfl

/-- A number in base sixteen ends before a letter that is no digit of it, a name begins with an
underscore and has a quote in it, and of four dots three are one symbol. -/
theorem plain_tokens_are_longest_matches_before_more :
    ['0'] ∈ digit ∧ Longest number ['0', 'x', '1', 'F'] ['g'] ∧
    normal.Takes .number ['0', 'x', '1', 'F'] ['g'] .normal ∧
    ['_'] ∈ wordStart ∧ Longest word ['_', 'F', '\x27'] ['+'] ∧
    normal.Takes .typeName ['_', 'F', '\x27'] ['+'] .normal ∧
    ['.'] ∉ digit ∧ ['.'] ∉ wordStart ∧
    (∀ other ∈ Vocabulary.symbols, other.1.toList <+: ['.', '.', '.', '.'] →
      other ≠ ("...", .ellipsis) → other.1.length < 3) ∧
    normal.Takes .ellipsis ['.', '.', '.'] ['.'] .normal := by
  have hdigit (c : Char) : [c] ∈ digit ↔ c.isDigit = true := by rw [digit_eq, mem_oneOf]
  have hstart (c : Char) : [c] ∈ wordStart ↔ Extent.isWordStart c = true := by
    rw [wordStart_eq, mem_oneOf]
  have hnumber : normal.Takes .number ['0', 'x', '1', 'F'] ['g'] .normal :=
    Takes.of_read (by decide +kernel)
  have hname : normal.Takes .typeName ['_', 'F', '\x27'] ['+'] .normal :=
    Takes.of_read (by decide +kernel)
  have hdots : normal.Takes .ellipsis ['.', '.', '.'] ['.'] .normal :=
    Takes.of_read (by decide +kernel)
  have hdot : ['.'] ∉ digit ∧ ['.'] ∉ wordStart := by
    rw [hdigit, hstart]
    decide
  obtain ⟨hnumbers, -⟩ := plain_tokens_are_longest_matches '0' ['x', '1', 'F', 'g']
  obtain ⟨-, hwords, -⟩ := plain_tokens_are_longest_matches '_' ['F', '\x27', '+']
  obtain ⟨-, -, -, -, hsymbols⟩ := plain_tokens_are_longest_matches '.' ['.', '.', '.']
  obtain ⟨_, _, hsplit, hlongest, htakes⟩ := hnumbers ((hdigit _).mpr rfl)
  obtain ⟨-, rfl, rfl, -⟩ := htakes.unique hnumber hsplit
  obtain ⟨_, _, _, hsplit', hlongest', htakes', -⟩ := hwords ((hstart _).mpr rfl)
  obtain ⟨-, rfl, rfl, -⟩ := htakes'.unique hname hsplit'
  refine ⟨(hdigit _).mpr rfl, hlongest, htakes, (hstart _).mpr rfl, hlongest', hname, hdot.1,
    hdot.2, ?_, hdots⟩
  rcases hsymbols hdot.1 hdot.2 (by decide) (by decide) with
    ⟨⟨symbol, kind⟩, -, rest, heq, hlonger, hsymbol⟩ | ⟨hnone, -⟩
  · obtain ⟨rfl, htext, -, -⟩ := hsymbol.unique hdots heq
    obtain rfl : symbol = "..." := String.toList_inj.mp htext
    exact hlonger
  · exact absurd ⟨['.'], rfl⟩ (hnone ("...", .ellipsis) (by decide +kernel))

end Mode
end PonyEditor
