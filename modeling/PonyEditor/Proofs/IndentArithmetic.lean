import Mathlib.Tactic.Lemma
import PonyEditor.Proofs.NearestLines
import PonyEditor.Proofs.Spellings

/-!
# Indents in 64 bits

The indent after a line is a sum of its own indent and of so many units as its tokens add levels.
Computed in numbers of 64 bits with a sign, no step of it leaves their range
(`Indent.inWords?_eq`), though a text has up to 2³² bytes and a unit can be as great.  The reason is
in the tokens: each that moves the indent is spelled with two bytes or more
(`Indent.two_le_width_of_indentEffect?`), and tokens share no byte, so there are less than 2³¹ of
them (`Indent.own_add_two_mul_effects_le`).  One byte for each would not be enough.
-/

namespace PonyEditor

namespace Indent

/-! ## Arithmetic in 64 bits -/

/-- The number has 64 bits with a sign. -/
def IsWord (n : Int) : Prop := Int64.minValue.toInt ≤ n ∧ n ≤ Int64.maxValue.toInt

instance (n : Int) : Decidable (IsWord n) := inferInstanceAs (Decidable (_ ∧ _))

/-- The number, if 64 bits can hold it. -/
def held? (n : Int) : Option Int := if IsWord n then some n else none

/-- Adds the levels of tokens to a count, one after the other. -/
def tally? (count : Int) : List Kind → Option Int
  | [] => some count
  | kind :: kinds => do
    let count ← held? (count + levels kind)
    tally? count kinds

/-- The indent after a line of these significant kinds, in 64 bits: `none` if there is no such kind,
or if some number on the way cannot be held. -/
def inWords? (own : Nat) (kinds : List Kind) (unit : Nat) : Option Nat :=
  match kinds with
  | [] => none
  | first :: rest => do
    let delta ← tally? (leadingLevels first) (first :: rest)
    let shift ← held? (delta * unit)
    let sum ← held? (own + shift)
    return Offset.cap (max sum 0).toNat

lemma isWord_of_natAbs_le {n : Int} (h : n.natAbs ≤ 9223372036854775807) : IsWord n := by
  have hmin : Int64.minValue.toInt = -9223372036854775808 := rfl
  have hmax : Int64.maxValue.toInt = 9223372036854775807 := rfl
  rw [IsWord, hmin, hmax]
  omega

lemma held?_of_natAbs_le {n : Int} (h : n.natAbs ≤ 9223372036854775807) : held? n = some n :=
  if_pos (isWord_of_natAbs_le h)

/-! ## Levels -/

/-- The number of kinds that have an effect on the indent. -/
def effects (kinds : List Kind) : Nat := kinds.countP fun kind => kind.indentEffect?.isSome

lemma effects_cons (kind : Kind) (kinds : List Kind) :
    effects (kind :: kinds) = effects [kind] + effects kinds := by
  rw [effects, effects, effects, List.countP_cons, List.countP_singleton, Nat.add_comm]

lemma natAbs_levels_le (kind : Kind) : (levels kind).natAbs ≤ effects [kind] := by
  rw [levels, effects, List.countP_singleton]
  cases kind.indentEffect? with
  | none => decide
  | some effect => cases effect <;> decide

/-- What the first token gives back and what it adds make one level at most, and none if it has no
effect. -/
lemma natAbs_leadingLevels_add_levels_le (kind : Kind) :
    (leadingLevels kind + levels kind).natAbs ≤ effects [kind] := by
  rw [leadingLevels, levels, effects, List.countP_singleton]
  cases kind.indentEffect? with
  | none => decide
  | some effect => cases effect <;> decide

lemma natAbs_total_le (kinds : List Kind) : (total kinds).natAbs ≤ effects kinds := by
  induction kinds with
  | nil => decide
  | cons kind kinds ih =>
      have hlevels := natAbs_levels_le kind
      rw [total, effects_cons]
      omega

/-- **A token adds or takes one level at most**, the first one included. -/
lemma natAbs_delta_le (kinds : List Kind) : (delta kinds).natAbs ≤ effects kinds := by
  cases kinds with
  | nil => decide
  | cons first rest =>
      have hfirst := natAbs_leadingLevels_add_levels_le first
      have hrest := natAbs_total_le rest
      rw [delta, total, effects_cons]
      omega

/-- A count that stays small is held at every step. -/
lemma tally?_eq {count : Int} {kinds : List Kind}
    (h : count.natAbs + effects kinds ≤ 9223372036854775807) :
    tally? count kinds = some (count + total kinds) := by
  induction kinds generalizing count with
  | nil => rw [tally?, total, Int.add_zero]
  | cons kind kinds ih =>
      have hlevels := natAbs_levels_le kind
      rw [effects_cons] at h
      have hrest : (count + levels kind).natAbs + effects kinds ≤ 9223372036854775807 := by omega
      rw [tally?, held?_of_natAbs_le (by omega), total, ← Int.add_assoc]
      exact ih hrest

/-- **Less than 2³¹ effects and a unit below 2³² leave room for the line's own indent.** -/
lemma natAbs_shift_le {own : Nat} {kinds : List Kind} {unit : Nat}
    (hbytes : own + 2 * effects kinds < Offset.limit) (hunit : unit ≤ Offset.limit) :
    own + (delta kinds * unit).natAbs ≤ 9223372036854775807 := by
  have hlimit : Offset.limit = 4294967295 := rfl
  rw [hlimit] at hbytes hunit
  have hdelta := natAbs_delta_le kinds
  have hproduct : (delta kinds * unit).natAbs ≤ 2147483647 * 4294967295 := by
    rw [Int.natAbs_mul, Int.natAbs_natCast]
    exact Nat.mul_le_mul (by omega) hunit
  omega

lemma after?_of_kinds_ne_nil {ls : List Lexeme} (h : kinds ls ≠ []) (unit : Nat) :
    after? ls unit = some (moved (own ls) (delta (kinds ls)) unit) := by
  rw [after?]
  split
  · contradiction
  · rename_i hkinds
    rw [hkinds]

/-- **No step leaves the range.** -/
lemma inWords?_eq {own : Nat} {kinds : List Kind} {unit : Nat} (hne : kinds ≠ [])
    (hbytes : own + 2 * effects kinds < Offset.limit) (hunit : unit ≤ Offset.limit) :
    inWords? own kinds unit = some (moved own (delta kinds) unit) := by
  have hshift := natAbs_shift_le hbytes hunit
  obtain ⟨first, rest, rfl⟩ := List.exists_cons_of_ne_nil hne
  have htally : tally? (leadingLevels first) (first :: rest) = some (delta (first :: rest)) := by
    have hlimit : Offset.limit = 4294967295 := rfl
    have hleading : (leadingLevels first).natAbs ≤ 1 := by
      rw [leadingLevels]
      split <;> decide
    rw [delta]
    exact tally?_eq (by omega)
  have hproduct := held?_of_natAbs_le (Nat.le_trans (Nat.le_add_left _ own) hshift)
  have hsum : held? (own + delta (first :: rest) * unit) =
      some (own + delta (first :: rest) * unit) :=
    held?_of_natAbs_le (by omega)
  have hcut (n : Int) : (max n 0).toNat = n.toNat := by omega
  simp only [inWords?, htally, hproduct, hsum, Option.bind_eq_bind, Option.bind_some,
    Option.pure_def, moved, hcut]

lemma natCast_moved (own : Nat) (delta : Int) (unit : Nat) :
    (moved own delta unit : Int) = max 0 (min (own + delta * unit) Offset.limit) := by
  rw [moved, Offset.cap]
  omega

/-! ## Bytes of a line -/

/-- The kinds that move the indent are spelled with two bytes or more. -/
lemma exists_spelling_of_indentEffect? {kind : Kind} (h : kind.indentEffect?.isSome = true) :
    ∃ s, kind.spelling? = some s ∧ 2 ≤ Text.width s.toList := by
  have htable : (Kind.all.all fun kind => !kind.indentEffect?.isSome ||
      kind.spelling?.any fun s => decide (2 ≤ Text.width s.toList)) = true := by
    decide +kernel
  have hkind := List.all_eq_true.mp htable kind (Kind.mem_all kind)
  rw [h, Bool.not_true, Bool.false_or, Option.any_eq_true] at hkind
  obtain ⟨s, hs, hwidth⟩ := hkind
  exact ⟨s, hs, of_decide_eq_true hwidth⟩

lemma two_le_width_of_indentEffect? {mode : Mode} {line : String} {l : Lexeme}
    (hl : l ∈ mode.lexemes line) (h : l.kind.indentEffect?.isSome = true) : 2 ≤ l.width := by
  obtain ⟨s, hs, hwidth⟩ := exists_spelling_of_indentEffect? h
  rwa [Lexeme.width, Mode.text_eq_of_spelling? hl hs]

lemma kinds_append (xs ys : List Lexeme) : kinds (xs ++ ys) = kinds xs ++ kinds ys := by
  rw [kinds, List.map_append, List.filter_append, kinds, kinds]

lemma kinds_cons_of_trivia {l : Lexeme} (h : l.kind.isTrivia = true) (ls : List Lexeme) :
    kinds (l :: ls) = kinds ls := by
  rw [kinds, List.map_cons, List.filter_cons_of_neg (by simp [h]), kinds]

lemma kinds_cons_of_not_trivia {l : Lexeme} (h : l.kind.isTrivia = false) (ls : List Lexeme) :
    kinds (l :: ls) = l.kind :: kinds ls := by
  rw [kinds, List.map_cons, List.filter_cons_of_pos (by simp [h]), kinds]

variable {ls : List Lexeme}

lemma two_mul_effects_le (h : ∀ l ∈ ls, l.kind.indentEffect?.isSome = true → 2 ≤ l.width) :
    2 * effects (kinds ls) ≤ Lexeme.totalWidth ls := by
  induction ls with
  | nil => decide
  | cons l ls ih =>
      obtain ⟨hl, hls⟩ := List.forall_mem_cons.mp h
      have hrest := ih hls
      rw [Lexeme.totalWidth]
      cases htrivia : l.kind.isTrivia with
      | true =>
          rw [kinds_cons_of_trivia htrivia]
          omega
      | false =>
          rw [kinds_cons_of_not_trivia htrivia, effects_cons, effects, List.countP_singleton]
          split
          · have hwidth := hl ‹_›
            omega
          · omega

/-- **Tokens share no byte**: those that move the indent have two each, behind the line's own
indent. -/
lemma own_add_two_mul_effects_le
    (h : ∀ l ∈ ls, l.kind.indentEffect?.isSome = true → 2 ≤ l.width) :
    own ls + 2 * effects (kinds ls) ≤ Lexeme.totalWidth ls := by
  induction ls with
  | nil => decide
  | cons l ls ih =>
      cases htrivia : l.kind.isTrivia with
      | true =>
          have hrest := ih (List.forall_mem_cons.mp h).2
          rw [own] at hrest ⊢
          rw [kinds_cons_of_trivia htrivia, List.takeWhile_cons, if_pos htrivia,
            Lexeme.totalWidth, Lexeme.totalWidth]
          omega
      | false =>
          have hnone : own (l :: ls) = 0 := by
            rw [own, List.takeWhile_cons, htrivia]
            rfl
          rw [hnone, Nat.zero_add]
          exact two_mul_effects_le h

/-! ## Counting tokens -/

/-- The number of lexemes that have the effect. -/
def count (effect : IndentEffect) (ls : List Lexeme) : Nat :=
  ls.countP fun l => l.kind.indentEffect? == some effect

lemma count_cons (effect : IndentEffect) (l : Lexeme) (ls : List Lexeme) :
    count effect (l :: ls) =
      count effect ls + if l.kind.indentEffect? == some effect then 1 else 0 :=
  List.countP_cons

/-- Blanks and comments do nothing to the indent. -/
lemma indentEffect?_of_trivia {kind : Kind} (h : kind.isTrivia = true) :
    kind.indentEffect? = none := by
  rw [Kind.isTrivia, Bool.or_eq_true, beq_iff_eq, beq_iff_eq] at h
  rcases h with rfl | rfl <;> rfl

lemma levels_eq (kind : Kind) :
    levels kind = ((if kind.indentEffect? == some .increase then 1 else 0 : Nat) : Int) -
      (if kind.indentEffect? == some .decrease then 1 else 0 : Nat) := by
  rw [levels]
  cases kind.indentEffect? with
  | none => decide
  | some effect => cases effect <;> decide

/-- The levels of a line are its increases less its decreases. -/
lemma total_kinds (ls : List Lexeme) :
    total (kinds ls) = (count .increase ls : Int) - count .decrease ls := by
  induction ls with
  | nil => decide
  | cons l ls ih =>
      rw [count_cons, count_cons]
      cases htrivia : l.kind.isTrivia with
      | true =>
          have hnone := indentEffect?_of_trivia htrivia
          rw [kinds_cons_of_trivia htrivia, ih, hnone]
          simp
      | false =>
          rw [kinds_cons_of_not_trivia htrivia, total, ih, levels_eq]
          omega

lemma leadingLevels_eq (kind : Kind) :
    leadingLevels kind =
      if kind.indentEffect? = some .decrease ∨ kind.indentEffect? = some .backIfLeading then 1
      else 0 := by
  rw [leadingLevels]
  cases kind.indentEffect? with
  | none => decide
  | some effect => cases effect <;> decide

variable {before after : List Lexeme} {first : Lexeme}
  (hbefore : ∀ l ∈ before, l.kind.isTrivia = true) (hfirst : first.kind.isTrivia = false)
include hbefore hfirst

lemma own_of_split : own (before ++ first :: after) = Lexeme.totalWidth before := by
  rw [own, List.takeWhile_append_of_pos hbefore, List.takeWhile_cons, hfirst]
  simp

lemma kinds_of_split : kinds (before ++ first :: after) = first.kind :: kinds after := by
  have hnone : kinds before = [] := kinds_eq_nil_iff.mpr hbefore
  rw [kinds_append, hnone, List.nil_append, kinds_cons_of_not_trivia hfirst]

/-- **The levels of a line, counted.** -/
lemma delta_of_split :
    delta (kinds (before ++ first :: after)) =
      (count .increase (before ++ first :: after) : Int) -
        count .decrease (before ++ first :: after) +
        if first.kind.indentEffect? = some .decrease ∨
          first.kind.indentEffect? = some .backIfLeading then 1 else 0 := by
  have htotal := total_kinds (before ++ first :: after)
  rw [kinds_of_split hbefore hfirst] at htotal ⊢
  rw [delta, htotal, leadingLevels_eq, Int.add_comm]

end Indent

/-- In a text within the limit there is room for the line's own indent and for two bytes for each
token that moves the indent. -/
lemma View.own_add_two_mul_effects_lt {σ : Type} [Lined σ] {v : View σ}
    (hlimit : Text.width (Text.unlines (Lined.lines v.source)).toList < Offset.limit) {i : Nat}
    (hi : i < (Lined.lines v.source).length) :
    let ls := (v.mode i).lexemes (Lined.lines v.source)[i]
    Indent.own ls + 2 * Indent.effects (Indent.kinds ls) < Offset.limit := by
  intro ls
  have htokens : Indent.own ls + 2 * Indent.effects (Indent.kinds ls) ≤ Lexeme.totalWidth ls :=
    Indent.own_add_two_mul_effects_le fun _ hl => Indent.two_le_width_of_indentEffect? hl
  rw [Mode.totalWidth_lexemes] at htokens
  have hline := Text.bytesBefore_add_le hi
  omega

namespace Document

/-- **Indents in 64 bits are exact.**  Take a document after any run, with a text within the limit,
any modes for its lines, a line with a token other than blanks and comments, and any unit.  The sum
of the bytes before the first such token and of a unit for each level has 64 bits with a sign.  The
levels are the tokens that increase the indent, less those that decrease it, and one more if the
first token stands a level out.  Nothing on the way to the sum leaves the range, and the indent
after the line is the sum, or zero or the limit where the sum is past them. -/
theorem indent_arithmetic_exact (text : String) (calls : List Call)
    (hlimit : ((ofText text).run calls).text.utf8ByteSize < Offset.limit) (table : ModeTable) :
    let v : View Buffer := ⟨table, ((ofText text).run calls).buffer⟩
    ∀ i line before first after, v.line? i = some line →
      (v.mode i).lexemes line = before ++ first :: after →
      (∀ l ∈ before, l.kind.isTrivia = true) → first.kind.isTrivia = false →
      ∀ unit, unit ≤ Offset.limit →
        let ls := before ++ first :: after
        let delta : Int := (Indent.count .increase ls : Int) - Indent.count .decrease ls +
          if first.kind.indentEffect? = some .decrease ∨
            first.kind.indentEffect? = some .backIfLeading then 1 else 0
        let sum : Int := Lexeme.totalWidth before + delta * unit
        Indent.IsWord sum ∧
        ∃ indent, v.indentAfter? i unit = some indent ∧
          Indent.inWords? (Lexeme.totalWidth before) ((v.significant i).map Token.kind) unit =
            some indent ∧
          (indent : Int) = max 0 (min sum Offset.limit) := by
  intro v i line before first after hline hlexemes hbefore hfirst unit hunit ls delta sum
  have hv : Lined.Exact v.source := (run_spec (inStep_ofText text) calls).1.exact
  have hwidth : Text.width (Text.unlines (Lined.lines v.source)).toList < Offset.limit := by
    rwa [Text.utf8ByteSize_eq] at hlimit
  obtain ⟨hi, rfl⟩ := List.getElem?_eq_some_iff.mp hline
  have hown : Indent.own ls = Lexeme.totalWidth before := Indent.own_of_split hbefore hfirst
  have hdelta : Indent.delta (Indent.kinds ls) = delta := Indent.delta_of_split hbefore hfirst
  have hne : Indent.kinds ls ≠ [] := by
    rw [Indent.kinds_of_split hbefore hfirst]
    exact List.cons_ne_nil _ _
  -- the facts about the line, read on the split of its lexemes
  have hbytes := View.own_add_two_mul_effects_lt hwidth hi
  have hafter := View.indentAfter?_eq hv (Nat.le_of_lt hwidth) hi unit
  have hkinds := View.map_kind_significant hv hi
  rw [hlexemes] at hbytes hafter hkinds
  have hshift := Indent.natAbs_shift_le hbytes hunit
  have hwords := Indent.inWords?_eq hne hbytes hunit
  rw [hown, hdelta] at hshift hwords
  refine ⟨Indent.isWord_of_natAbs_le (by omega), Indent.moved (Lexeme.totalWidth before) delta unit,
    ?_, ?_, Indent.natCast_moved _ _ _⟩
  · rw [hafter, Indent.after?_of_kinds_ne_nil hne, hown, hdelta]
  · rw [hkinds]
    exact hwords

/-- The first line begins two comments deep, which no run of the document gives.  With the greatest
unit its sum is past the limit, and that of the second line is below zero. -/
theorem indent_arithmetic_exact_at_bounds :
    let d := (ofText "é*/*/ then end if\n end end").run []
    let v : View Buffer := ⟨⟨[some (.ofDepth 2), some .normal], .zero⟩, d.buffer⟩
    d.text.utf8ByteSize < Offset.limit ∧
    Indent.IsWord (7 + 1 * Offset.limit) ∧ v.indentAfter? 0 Offset.limit = some Offset.limit ∧
    Indent.IsWord (1 + (-1) * Offset.limit) ∧ v.indentAfter? 1 Offset.limit = some 0 := by
  intro d v
  have hlimit : d.text.utf8ByteSize < Offset.limit := by decide +kernel
  have hexact := indent_arithmetic_exact "é*/*/ then end if\n end end" [] hlimit v.table
  obtain ⟨hword, top, htop, -, hcapped⟩ := hexact 0 "é*/*/ then end if"
    [⟨.comment, "é*/*/".toList⟩, ⟨.blank, [' ']⟩] ⟨.kwThen, "then".toList⟩
    [⟨.blank, [' ']⟩, ⟨.kwEnd, "end".toList⟩, ⟨.blank, [' ']⟩, ⟨.kwIf, "if".toList⟩]
    (by decide +kernel) (by decide +kernel) (by decide) (by decide) Offset.limit (Nat.le_refl _)
  obtain ⟨hword', bottom, hbottom, -, hcut⟩ := hexact 1 " end end"
    [⟨.blank, [' ']⟩] ⟨.kwEnd, "end".toList⟩ [⟨.blank, [' ']⟩, ⟨.kwEnd, "end".toList⟩]
    (by decide +kernel) (by decide +kernel) (by decide) (by decide) Offset.limit (Nat.le_refl _)
  obtain rfl : top = Offset.limit := Int.ofNat_inj.mp (hcapped.trans (by decide +kernel))
  obtain rfl : bottom = 0 := Int.ofNat_inj.mp (hcut.trans (by decide +kernel))
  exact ⟨hlimit, hword, htop, hword', hbottom⟩

end Document

end PonyEditor
