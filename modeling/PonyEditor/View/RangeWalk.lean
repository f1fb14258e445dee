import PonyEditor.View

/-!
# Tokens in a span

The tokens that overlap a span, blanks left out, in the order of the document.  The walk is lazy:
a line is scanned when the walk comes to it, and the walk ends at the first token past the span.
Its steps are pure, so a walk that is kept can be gone again.
-/

namespace PonyEditor

/-- A place among the tokens that overlap a span. -/
structure RangeWalk (σ : Type) where
  view : View σ
  span : Span
  /-- The line being walked. -/
  line : Nat
  /-- The last line to walk. -/
  last : Nat
  /-- The tokens of the line that are not looked at yet. -/
  left : List Token

namespace RangeWalk

/-- What the tokens left on a line hold for a span. -/
inductive Find where
  /-- A token to give, and those after it. -/
  | found (token : Token) (left : List Token)
  /-- A token past the span, and with it all later ones. -/
  | past
  /-- Nothing. -/
  | exhausted

/-- Looks for the first token that overlaps the span. -/
def find (span : Span) : List Token → Find
  | [] => .exhausted
  | t :: ts =>
    if !span.isEmpty && span.stop ≤ t.span.start then .past
    else if t.kind == .blank || !t.span.intersects span then find span ts
    else .found t ts

variable {σ : Type} [Lined σ]

/-- Takes the next token. -/
def next? (w : RangeWalk σ) : Option (Token × RangeWalk σ) :=
  match find w.span w.left with
  | .found token left => some (token, { w with left })
  | .past => none
  | .exhausted =>
    if w.line < w.last then
      next? { w with line := w.line + 1, left := w.view.tokensOf (w.line + 1) }
    else none
termination_by w.last - w.line

theorem length_lt_of_find {span : Span} {ts left : List Token} {token : Token}
    (h : find span ts = .found token left) : left.length < ts.length := by
  fun_induction find span ts with
  | case1 => cases h
  | case2 => cases h
  | case3 t ts _ _ ih => exact Nat.lt_succ_of_lt (ih h)
  | case4 t ts _ _ =>
    cases h
    exact Nat.lt_succ_self _

/-- A step leaves fewer lines to come, or fewer tokens of the same line. -/
theorem next?_lt {w w' : RangeWalk σ} {token : Token} (h : w.next? = some (token, w')) :
    w'.last - w'.line < w.last - w.line ∨
      (w'.last - w'.line = w.last - w.line ∧ w'.left.length < w.left.length) := by
  fun_induction next? w with
  | case1 w token left hfind =>
    cases h
    exact .inr ⟨rfl, length_lt_of_find hfind⟩
  | case2 => cases h
  | case3 w hfind hlt ih =>
    left
    rcases ih h with ih | ⟨ih, _⟩ <;> simp only at ih <;> omega
  | case4 => cases h

/-- All tokens from here on. -/
def toList (w : RangeWalk σ) : List Token :=
  match _h : w.next? with
  | none => []
  | some (token, w') => token :: toList w'
termination_by (w.last - w.line, w.left.length)
decreasing_by
  rcases next?_lt _h with hlt | ⟨heq, hlt⟩
  · exact Prod.Lex.left _ _ hlt
  · rw [heq]
    exact Prod.Lex.right _ hlt

theorem toList_of_none {w : RangeWalk σ} (h : w.next? = none) : w.toList = [] := by
  rw [toList]
  split
  · rfl
  · simp_all

theorem toList_of_some {w w' : RangeWalk σ} {token : Token} (h : w.next? = some (token, w')) :
    w.toList = token :: w'.toList := by
  rw [toList]
  split
  · simp_all
  · simp_all

/-- Takes at most `n` tokens; gives them and the walk after them. -/
def take : Nat → RangeWalk σ → List Token × RangeWalk σ
  | 0, w => ([], w)
  | n + 1, w =>
    match w.next? with
    | none => ([], w)
    | some (token, w') =>
      let (tokens, w'') := take n w'
      (token :: tokens, w'')

end RangeWalk

/-- The walk over the tokens that overlap a span.  It starts on the line of the start of the span,
if there is one, and ends on that of its end, or on the last line. -/
def View.range {σ : Type} [Lined σ] (v : View σ) (span : Span) : RangeWalk σ :=
  match v.lineAt? span.start with
  | some first => ⟨v, span, first, (v.lineAt? span.stop).getD (v.lineCount - 1), v.tokensOf first⟩
  | none => ⟨v, span, 0, 0, []⟩

end PonyEditor
