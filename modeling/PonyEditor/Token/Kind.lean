/-!
# Token kinds

The closed list of what a piece of Pony source can be: trivia, literals, names, punctuation and
the reserved words.  Each kind has a number that stays the same between versions, a label for
listings, and, where only one text can have that kind, its spelling.
-/

namespace PonyEditor

/-- The kind of a token. -/
inductive Kind where
  /-- White space, and any character that belongs to no other token. -/
  | blank
  | comment
  /-- The words `true` and `false`. -/
  | boolean
  | string
  | number
  /-- The lone underscore. -/
  | dontCare
  /-- A name with a capital first letter, after at most one underscore. -/
  | typeName
  /-- Any other name. -/
  | valueName
  | lbrace
  | rbrace
  | lparen
  | rparen
  | lsquare
  | rsquare
  | comma
  | dot
  | tilde
  | colon
  | semi
  | arrow
  | doubleArrow
  | assign
  /-- An arithmetic or comparison sign, a shift, a division or a bar. -/
  | operator
  | ampersand
  | ephemeral
  | atSign
  | question
  | ellipsis
  | kwIntrinsic
  | kwUse
  | kwType
  | kwInterface
  | kwTrait
  | kwPrimitive
  | kwStruct
  | kwClass
  | kwActor
  | kwObject
  | kwLambda
  | kwDelegate
  | kwAs
  | kwIs
  | kwIsnt
  | kwVar
  | kwLet
  | kwEmbed
  | kwNew
  | kwFun
  | kwBe
  /-- One of the six reference capabilities. -/
  | capability
  | kwThis
  | kwReturn
  | kwBreak
  | kwContinue
  | kwError
  | kwCompileError
  | kwConsume
  | kwRecover
  | kwIf
  | kwIfdef
  | kwThen
  | kwElse
  | kwElseif
  | kwEnd
  | kwWhile
  | kwDo
  | kwRepeat
  | kwUntil
  | kwFor
  | kwIn
  | kwMatch
  | kwWhere
  | kwTry
  | kwWith
  | kwNot
  | kwAnd
  | kwOr
  | kwXor
  | kwIdentityof
  | kwAddressof
  deriving DecidableEq, Repr, Inhabited

namespace Kind

/-- What is recorded of a kind: its number, its label, and its spelling if it has only one. -/
structure Entry where
  code : Nat
  label : String
  spelling? : Option String := none

/-- The record of each kind. -/
def entry : Kind → Entry
  | blank => { code := 0, label := "Ignore" }
  | comment => { code := 1, label := "Comment" }
  | boolean => { code := 8, label := "TrueFalse" }
  | string => { code := 9, label := "String" }
  | number => { code := 10, label := "Number" }
  | dontCare => ⟨11, "DontCare", some "_"⟩
  | typeName => { code := 12, label := "TypeId" }
  | valueName => { code := 13, label := "ValueId" }
  | lbrace => ⟨32, "LBrace", some "\x7b"⟩
  | rbrace => ⟨33, "RBrace", some "\x7d"⟩
  | lparen => ⟨34, "LParen", some "("⟩
  | rparen => ⟨35, "RParen", some ")"⟩
  | lsquare => ⟨36, "LSquare", some "["⟩
  | rsquare => ⟨37, "RSquare", some "]"⟩
  | comma => ⟨38, "Comma", some ","⟩
  | dot => ⟨39, "Dot", some "."⟩
  | tilde => ⟨40, "Tilde", some "~"⟩
  | colon => ⟨41, "Colon", some ":"⟩
  | semi => ⟨42, "Semi", some ";"⟩
  | arrow => ⟨43, "Arrow", some "->"⟩
  | doubleArrow => ⟨44, "DoubleArrow", some "=>"⟩
  | assign => ⟨45, "Assign", some "="⟩
  | operator => { code := 46, label := "InfixOp" }
  | ampersand => ⟨47, "Ampersand", some "&"⟩
  | ephemeral => ⟨48, "Ephemeral", some "^"⟩
  | atSign => ⟨49, "At", some "@"⟩
  | question => ⟨50, "Question", some "?"⟩
  | ellipsis => ⟨51, "Ellipsis", some "..."⟩
  | kwIntrinsic => ⟨64, "Intrinsic", some "compiler_intrinsic"⟩
  | kwUse => ⟨65, "Use", some "use"⟩
  | kwType => ⟨66, "Type", some "type"⟩
  | kwInterface => ⟨67, "Interface", some "interface"⟩
  | kwTrait => ⟨68, "Trait", some "trait"⟩
  | kwPrimitive => ⟨69, "Primitive", some "primitive"⟩
  | kwStruct => ⟨70, "Struct", some "struct"⟩
  | kwClass => ⟨71, "Class", some "class"⟩
  | kwActor => ⟨72, "Actor", some "actor"⟩
  | kwObject => ⟨73, "Object", some "object"⟩
  | kwLambda => ⟨74, "Lambda", some "lambda"⟩
  | kwDelegate => ⟨75, "Delegate", some "delegate"⟩
  | kwAs => ⟨76, "As", some "as"⟩
  | kwIs => ⟨77, "Is", some "is"⟩
  | kwIsnt => ⟨78, "Isnt", some "isnt"⟩
  | kwVar => ⟨79, "Var", some "var"⟩
  | kwLet => ⟨80, "Let", some "let"⟩
  | kwEmbed => ⟨81, "Embed", some "embed"⟩
  | kwNew => ⟨82, "New", some "new"⟩
  | kwFun => ⟨83, "Fun", some "fun"⟩
  | kwBe => ⟨84, "Be", some "be"⟩
  | capability => { code := 85, label := "Capability" }
  | kwThis => ⟨86, "This", some "this"⟩
  | kwReturn => ⟨87, "Return", some "return"⟩
  | kwBreak => ⟨88, "Break", some "break"⟩
  | kwContinue => ⟨89, "Continue", some "continue"⟩
  | kwError => ⟨90, "Error", some "error"⟩
  | kwCompileError => ⟨91, "CompileError", some "compile_error"⟩
  | kwConsume => ⟨92, "Consume", some "consume"⟩
  | kwRecover => ⟨93, "Recover", some "recover"⟩
  | kwIf => ⟨94, "If", some "if"⟩
  | kwIfdef => ⟨95, "Ifdef", some "ifdef"⟩
  | kwThen => ⟨96, "Then", some "then"⟩
  | kwElse => ⟨97, "Else", some "else"⟩
  | kwElseif => ⟨98, "ElseIf", some "elseif"⟩
  | kwEnd => ⟨99, "End", some "end"⟩
  | kwWhile => ⟨100, "While", some "while"⟩
  | kwDo => ⟨101, "Do", some "do"⟩
  | kwRepeat => ⟨102, "Repeat", some "repeat"⟩
  | kwUntil => ⟨103, "Until", some "until"⟩
  | kwFor => ⟨104, "For", some "for"⟩
  | kwIn => ⟨105, "In", some "in"⟩
  | kwMatch => ⟨106, "Match", some "match"⟩
  | kwWhere => ⟨107, "Where", some "where"⟩
  | kwTry => ⟨108, "Try", some "try"⟩
  | kwWith => ⟨109, "With", some "with"⟩
  | kwNot => ⟨110, "Not", some "not"⟩
  | kwAnd => ⟨111, "And", some "and"⟩
  | kwOr => ⟨112, "Or", some "or"⟩
  | kwXor => ⟨113, "Xor", some "xor"⟩
  | kwIdentityof => ⟨114, "IdentityOf", some "identityof"⟩
  | kwAddressof => ⟨115, "AddressOf", some "addressof"⟩

/-- Every kind, in the order of their numbers. -/
def all : List Kind :=
  [blank, comment, boolean, string, number, dontCare, typeName, valueName,
   lbrace, rbrace, lparen, rparen, lsquare, rsquare, comma, dot, tilde, colon, semi, arrow,
   doubleArrow, assign, operator, ampersand, ephemeral, atSign, question, ellipsis,
   kwIntrinsic, kwUse, kwType, kwInterface, kwTrait, kwPrimitive, kwStruct, kwClass, kwActor,
   kwObject, kwLambda, kwDelegate, kwAs, kwIs, kwIsnt, kwVar, kwLet, kwEmbed, kwNew, kwFun, kwBe,
   capability, kwThis, kwReturn, kwBreak, kwContinue, kwError, kwCompileError, kwConsume,
   kwRecover, kwIf, kwIfdef, kwThen, kwElse, kwElseif, kwEnd, kwWhile, kwDo, kwRepeat, kwUntil,
   kwFor, kwIn, kwMatch, kwWhere, kwTry, kwWith, kwNot, kwAnd, kwOr, kwXor, kwIdentityof,
   kwAddressof]

theorem mem_all (k : Kind) : k ∈ all := by
  cases k <;> decide

/-- The number of the kind. -/
def code (k : Kind) : Nat := k.entry.code

/-- The word for the kind in listings. -/
def label (k : Kind) : String := k.entry.label

/-- The one text that has this kind, for punctuation, reserved words and the lone underscore. -/
def spelling? (k : Kind) : Option String := k.entry.spelling?

/-- The kind with the given label. -/
def ofLabel? (label : String) : Option Kind := all.find? fun k => k.label == label

/-- Whether the kind means nothing to the grammar: blanks and comments. -/
def isTrivia (k : Kind) : Bool := k == blank || k == comment

/-- Whether the kind is a reserved word; their numbers start at 64. -/
def isKeyword (k : Kind) : Bool := 64 ≤ k.code

/-- The kind as it is called in a message to the user. -/
def description (k : Kind) : String :=
  match k with
  | blank => "ignored"
  | comment => "comment"
  | boolean => "boolean literal"
  | string => "string literal"
  | number => "number literal"
  | typeName => "type identifier"
  | valueName => "identifier"
  | operator => "operator"
  | capability => "capability"
  | _ => if k.isKeyword then "keyword" else "`" ++ k.spelling?.getD "" ++ "`"

end Kind
end PonyEditor
