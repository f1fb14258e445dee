import PonyEditor.Token.Kind

/-!
# Colour classes

What an editor colours alike.  Blanks have no class; every other kind has one.
-/

namespace PonyEditor

/-- A class of tokens shown in one colour. -/
inductive Colour where
  | comment
  | number
  | string
  | type
  | identifier
  | operator
  | literal
  | keyword
  | punctuation
  deriving DecidableEq, Repr

namespace Colour

/-- The word for the class in listings. -/
def label : Colour → String
  | comment => "comment"
  | number => "number"
  | string => "string"
  | type => "type"
  | identifier => "identifier"
  | operator => "operator"
  | literal => "literal"
  | keyword => "keyword"
  | punctuation => "punctuation"

end Colour

/-- The colour class of a kind. -/
def Kind.colour? : Kind → Option Colour
  | .blank => none
  | .comment => some .comment
  | .number => some .number
  | .string => some .string
  | .typeName | .capability | .arrow | .ephemeral => some .type
  | .valueName => some .identifier
  | .dontCare | .boolean => some .literal
  | .operator | .kwNot | .kwAnd | .kwOr | .kwXor | .kwIdentityof | .kwAddressof
  | .ellipsis | .dot | .tilde | .assign | .atSign | .ampersand => some .operator
  | .doubleArrow | .lbrace | .rbrace | .lparen | .rparen | .lsquare | .rsquare
  | .comma | .colon | .semi | .question => some .punctuation
  | _ => some .keyword

end PonyEditor
