import PonyEditor.View

/-!
# Matching brackets

Parentheses, square brackets and blocks each form groups: an opener, any number of middles, and a
closer, with whole groups of the same family nested between them.  From a token of a group the
others are found by scanning outwards and counting nested groups.  Looking back is looking forward
with the tokens reversed and openers and closers exchanged; each line is walked from its end.
-/

namespace PonyEditor
namespace Bracket

/-- The families of brackets.  Tokens of different families take no notice of each other. -/
inductive Family where
  | paren
  | square
  | block
  deriving DecidableEq, Repr

/-- The part a token plays in its group. -/
inductive Side where
  | opener
  | middle
  | closer
  deriving DecidableEq, Repr

/-- The part played when the tokens are read backwards. -/
def Side.flip : Side → Side
  | opener => closer
  | middle => middle
  | closer => opener

@[simp]
theorem Side.flip_flip (side : Side) : side.flip.flip = side := by
  cases side <;> rfl

end Bracket

/-- The family of a bracket kind and its part. -/
def Kind.bracket? : Kind → Option (Bracket.Family × Bracket.Side)
  | .lparen => some (.paren, .opener)
  | .rparen => some (.paren, .closer)
  | .lsquare => some (.square, .opener)
  | .rsquare => some (.square, .closer)
  | .kwType | .kwInterface | .kwTrait | .kwPrimitive | .kwClass | .kwActor | .kwObject
  | .kwNew | .kwFun | .kwBe | .kwRecover | .kwIf | .kwWhile | .kwFor | .kwRepeat | .kwTry
  | .kwMatch | .kwWith => some (.block, .opener)
  | .kwThen | .kwElse | .kwElseif | .kwIn | .kwDo | .kwUntil => some (.block, .middle)
  | .kwEnd => some (.block, .closer)
  | _ => none

namespace Bracket

/-- The tokens of one family, each as its part and span. -/
def ofFamily (family : Family) (tokens : List Token) : List (Side × Span) :=
  tokens.filterMap fun t =>
    match t.kind.bracket? with
    | some (f, side) => if f = family then some (side, t.span) else none
    | none => none

variable {α : Type}

/-- The middles and the closer of the group that `depth` nested groups are open inside of: those
met with no nested group open, up to and with the closer. -/
def ahead : Nat → List (Side × α) → List α
  | _, [] => []
  | depth, (.opener, _) :: rest => ahead (depth + 1) rest
  | 0, (.middle, a) :: rest => a :: ahead 0 rest
  | depth + 1, (.middle, _) :: rest => ahead (depth + 1) rest
  | 0, (.closer, a) :: _ => [a]
  | depth + 1, (.closer, _) :: rest => ahead depth rest

/-- The opener and the middles of the group before a point, given the tokens before it. -/
def behind (tokens : List (Side × α)) : List α :=
  (ahead 0 (tokens.reverse.map fun (side, a) => (side.flip, a))).reverse

end Bracket

namespace View

variable {σ : Type} [Lined σ]

/-- The tokens before one of a line, in the order of the document.  They are met walking back, so
their spans are counted down from the ends of their lines; of the line itself those count that end
before the token starts. -/
def tokensBefore (v : View σ) (line : Nat) (cursor : Token) : List Token :=
  let sameLine := (v.walk line).fromBack.filter fun t => t.span.stop ≤ cursor.span.start
  let linesBefore := (List.range line).reverse.flatMap fun i => (v.walk i).fromBack
  (sameLine ++ linesBefore).reverse

/-- The spans of the group whose token is at an offset, in the order of the document.  A token that
is no bracket has none. -/
def bracketGroup (v : View σ) (offset : Nat) : List Span :=
  match v.tokenAt? offset with
  | none => []
  | some (line, cursor) =>
    match cursor.kind.bracket? with
    | none => []
    | some (family, side) =>
      let before := v.tokensBefore line cursor
      let after := v.tokens.filter fun t => cursor.span.stop ≤ t.span.start
      let back := if side = .opener then [] else Bracket.behind (Bracket.ofFamily family before)
      let forth := if side = .closer then [] else Bracket.ahead 0 (Bracket.ofFamily family after)
      back ++ cursor.span :: forth

end View
end PonyEditor
