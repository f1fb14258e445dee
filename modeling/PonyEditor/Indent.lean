import PonyEditor.View

/-!
# Indentation

The indent of a new line follows from the nearest line above it that has a token other than
blanks and comments.  That line's own indent is moved by one unit for each token that opens or
closes a level on it.
-/

namespace PonyEditor

/-- What a token does to the indent of the lines after it. -/
inductive IndentEffect where
  | increase
  | decrease
  /-- The token stands one level back if it leads its line. -/
  | backIfLeading
  deriving DecidableEq, Repr

/-- The effect of a kind. -/
def Kind.indentEffect? : Kind → Option IndentEffect
  | .kwType | .kwInterface | .kwTrait | .kwPrimitive | .kwClass | .kwActor | .kwObject
  | .kwNew | .kwFun | .kwBe | .kwRecover | .kwIf | .kwWhere | .kwRepeat | .kwUntil | .kwFor
  | .kwMatch | .kwWith => some .increase
  | .kwEnd => some .decrease
  | .doubleArrow | .kwThen | .kwElse | .kwElseif | .kwDo => some .backIfLeading
  | _ => none

namespace Indent

/-- The levels a token adds. -/
def levels (kind : Kind) : Int :=
  match kind.indentEffect? with
  | some .increase => 1
  | some .decrease => -1
  | _ => 0

/-- The level the first token of a line gives back, for it stands one level out already. -/
def leadingLevels (kind : Kind) : Int :=
  match kind.indentEffect? with
  | some .decrease | some .backIfLeading => 1
  | _ => 0

/-- The levels that tokens add together. -/
def total : List Kind → Int
  | [] => 0
  | kind :: kinds => levels kind + total kinds

/-- The levels that the lines after a line stand further in than it, by its tokens. -/
def delta : List Kind → Int
  | [] => 0
  | first :: rest => leadingLevels first + total (first :: rest)

/-- A line's own indent moved by some levels, and kept between zero and the limit. -/
def moved (own : Nat) (delta : Int) (unit : Nat) : Nat :=
  Offset.cap (own + delta * unit).toNat

end Indent

namespace View

variable {σ : Type} [Lined σ]

/-- The tokens of a line that mean something to the grammar. -/
def significant (v : View σ) (line : Nat) : List Token :=
  (v.tokensOf line).filter fun t => !t.kind.isTrivia

/-- The indent after a line, if the line has a significant token. -/
def indentAfter? (v : View σ) (line unit : Nat) : Option Nat := do
  let start ← v.start? line
  match v.significant line with
  | [] => none
  | first :: rest =>
    let kinds := (first :: rest).map Token.kind
    return Indent.moved (first.span.start - start) (Indent.delta kinds) unit

/-- The indent for a new line at a line number: that after the nearest significant line above it,
or none at all. -/
def indent (v : View σ) (line unit : Nat) : Nat :=
  ((List.range (min line v.lineCount)).reverse.findSome? fun above =>
    v.indentAfter? above unit).getD 0

end View
end PonyEditor
