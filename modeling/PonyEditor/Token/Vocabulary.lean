import PonyEditor.Token.Kind

/-!
# Words and symbols

The two tables a scanner looks texts up in: whole words, which must match exactly, and symbols,
of which the first entry that opens the text wins.  Words are kept by the number of their bytes, so
that most names are compared with few words or none.  Longer symbols stand before the shorter ones
they begin with, so the first entry is also the longest.
-/

namespace PonyEditor
namespace Vocabulary

/-- The words of a number of bytes that have a kind of their own. -/
def wordsOfLength : Nat → List (String × Kind)
  | 1 => [("_", .dontCare)]
  | 2 =>
    [("as", .kwAs), ("be", .kwBe), ("do", .kwDo), ("if", .kwIf), ("in", .kwIn), ("is", .kwIs),
     ("or", .kwOr)]
  | 3 =>
    [("and", .kwAnd), ("box", .capability), ("iso", .capability), ("ref", .capability),
     ("tag", .capability), ("trn", .capability), ("val", .capability), ("end", .kwEnd),
     ("for", .kwFor), ("fun", .kwFun), ("let", .kwLet), ("new", .kwNew), ("not", .kwNot),
     ("try", .kwTry), ("use", .kwUse), ("var", .kwVar), ("xor", .kwXor)]
  | 4 =>
    [("else", .kwElse), ("isnt", .kwIsnt), ("then", .kwThen), ("this", .kwThis),
     ("true", .boolean), ("type", .kwType), ("with", .kwWith)]
  | 5 =>
    [("actor", .kwActor), ("break", .kwBreak), ("class", .kwClass), ("embed", .kwEmbed),
     ("error", .kwError), ("false", .boolean), ("ifdef", .kwIfdef), ("match", .kwMatch),
     ("trait", .kwTrait), ("until", .kwUntil), ("where", .kwWhere), ("while", .kwWhile)]
  | 6 =>
    [("elseif", .kwElseif), ("lambda", .kwLambda), ("object", .kwObject), ("repeat", .kwRepeat),
     ("return", .kwReturn), ("struct", .kwStruct)]
  | 7 => [("consume", .kwConsume), ("recover", .kwRecover)]
  | 8 => [("continue", .kwContinue), ("delegate", .kwDelegate)]
  | 9 => [("addressof", .kwAddressof), ("interface", .kwInterface), ("primitive", .kwPrimitive)]
  | 10 => [("identityof", .kwIdentityof)]
  | 13 => [("compile_error", .kwCompileError)]
  | 18 => [("compiler_intrinsic", .kwIntrinsic)]
  | _ => []

/-- Whether a word of the table can begin with the byte: a small letter or the underscore. -/
def opensWord (b : UInt8) : Bool := ('a'.toUInt8 ≤ b && b ≤ 'z'.toUInt8) || b == '_'.toUInt8

/-- The kind of a word of the table.  A text of more bytes than the longest word, or with another
first byte than words have, is compared with none of them. -/
def word? (text : String) : Option Kind :=
  match text.toUTF8.data.toList with
  | [] => none
  | first :: _ =>
    if 18 < text.utf8ByteSize || !opensWord first then none
    else (wordsOfLength text.utf8ByteSize).lookup text

/-- The symbols, in the order they are tried. -/
def symbols : List (String × Kind) :=
  [("...", .ellipsis), ("->", .arrow), ("=>", .doubleArrow),
   ("<<", .operator), (">>", .operator), ("==", .operator),
   ("!=", .operator), ("<=", .operator), (">=", .operator),
   ("\x7b", .lbrace), ("\x7d", .rbrace), ("(", .lparen), (")", .rparen),
   ("[", .lsquare), ("]", .rsquare), (",", .comma), (".", .dot),
   ("~", .tilde), (":", .colon), (";", .semi), ("=", .assign),
   ("+", .operator), ("-", .operator), ("*", .operator), ("%", .operator),
   ("@", .atSign), ("<", .operator), (">", .operator), ("|", .operator),
   ("&", .ampersand), ("^", .ephemeral), ("?", .question)]

/-- The first symbol of the table that opens the text. -/
def symbol? (cs : List Char) : Option (String × Kind) :=
  symbols.find? fun entry => entry.1.toList.isPrefixOf cs

end Vocabulary
end PonyEditor
