import PonyEditor.Text.Bytes
import PonyEditor.Token.Extent
import PonyEditor.Token.Vocabulary

/-!
# Lexemes

Scanning a line cuts it into lexemes, every character in exactly one, and hands a mode to the next
line.  `Mode.read` decides on the lexeme at the front; `Mode.scan` repeats it over the line, and
`Mode.after` does the same for the mode alone.  What a lexeme is depends on the mode and the
characters from it on, never on those before it.
-/

namespace PonyEditor

/-- A piece of a line with its kind. -/
structure Lexeme where
  kind : Kind
  text : List Char
  deriving DecidableEq, Repr

/-- The number of bytes of a lexeme. -/
def Lexeme.width (l : Lexeme) : Nat := Text.width l.text

/-- The decision on the lexeme that begins at a character: its kind, how many characters it has
after that one, and the mode it leaves. -/
structure Reading where
  kind : Kind
  more : Nat
  mode : Mode
  deriving DecidableEq, Repr

namespace Reading

/-- A slash, with the characters after it: a comment to the end of the line, a block comment, or a
division. -/
def slash : List Char → Reading
  | '/' :: cs => ⟨.comment, cs.length + 1, .normal⟩
  | '*' :: cs =>
    let (n, mode) := Extent.blockComment 1 cs
    ⟨.comment, n + 1, mode⟩
  | _ => ⟨.operator, 0, .normal⟩

/-- A quote, with the characters after it: a triple-quoted string or one that ends on the line. -/
def quote : List Char → Reading
  | '"' :: '"' :: cs =>
    let (n, mode) := Extent.tripleString cs
    ⟨.string, n + 2, mode⟩
  | cs => ⟨.string, Extent.string cs, .normal⟩

/-- The kind of a word: that of the table, or a name by the case of its first letter. -/
def wordKind (word : List Char) : Kind :=
  match Vocabulary.word? (String.ofList word) with
  | some kind => kind
  | none =>
    match word with
    | '_' :: c :: _ => if c.isUpper then .typeName else .valueName
    | c :: _ => if c.isUpper then .typeName else .valueName
    | [] => .valueName

/-- A letter or underscore, with the characters after it: the longest word. -/
def word (c : Char) (cs : List Char) : Reading :=
  let rest := cs.takeWhile Extent.isWordRest
  ⟨wordKind (c :: rest), rest.length, .normal⟩

/-- Any other character: the longest symbol, or a blank of one character. -/
def symbol (c : Char) (cs : List Char) : Reading :=
  match Vocabulary.symbol? (c :: cs) with
  | some (text, kind) => ⟨kind, text.length - 1, .normal⟩
  | none => ⟨.blank, 0, .normal⟩

/-- The lexeme at `c`, with nothing open. -/
def plain (c : Char) (cs : List Char) : Reading :=
  if c == '/' then slash cs
  else if c == '"' then quote cs
  else if c.isDigit then ⟨.number, Extent.number (c :: cs) - 1, .normal⟩
  else if Extent.isWordStart c then word c cs
  else symbol c cs

end Reading

namespace Mode

/-- The lexeme that begins at `c`, before `cs`. -/
def read (mode : Mode) (c : Char) (cs : List Char) : Reading :=
  match mode with
  | normal => Reading.plain c cs
  | tripleString =>
    let (n, mode) := Extent.tripleString (c :: cs)
    ⟨.string, n - 1, mode⟩
  | blockComment depth _ =>
    let (n, mode) := Extent.blockComment depth (c :: cs)
    ⟨.comment, n - 1, mode⟩

/-- The lexemes of the characters, and the mode after them. -/
def scan (mode : Mode) : List Char → List Lexeme × Mode
  | [] => ([], mode)
  | c :: cs =>
    let r := mode.read c cs
    let (later, exit) := r.mode.scan (cs.drop r.more)
    (⟨r.kind, c :: cs.take r.more⟩ :: later, exit)
termination_by cs => cs.length
decreasing_by simp only [List.length_drop, List.length_cons]; omega

/-- The mode after the characters. -/
def after (mode : Mode) : List Char → Mode
  | [] => mode
  | c :: cs =>
    let r := mode.read c cs
    r.mode.after (cs.drop r.more)
termination_by cs => cs.length
decreasing_by simp only [List.length_drop, List.length_cons]; omega

/-- The lexemes of a line that begins in this mode. -/
def lexemes (mode : Mode) (line : String) : List Lexeme := (mode.scan line.toList).1

/-- The mode after a line that begins in this one. -/
def exit (mode : Mode) (line : String) : Mode := mode.after line.toList

theorem scan_nil (mode : Mode) : mode.scan [] = ([], mode) := by
  rw [scan]

theorem scan_cons (mode : Mode) (c : Char) (cs : List Char) :
    mode.scan (c :: cs) =
      (⟨(mode.read c cs).kind, c :: cs.take (mode.read c cs).more⟩ ::
          ((mode.read c cs).mode.scan (cs.drop (mode.read c cs).more)).1,
        ((mode.read c cs).mode.scan (cs.drop (mode.read c cs).more)).2) := by
  rw [scan]

theorem after_nil (mode : Mode) : mode.after [] = mode := by
  rw [after]

theorem after_cons (mode : Mode) (c : Char) (cs : List Char) :
    mode.after (c :: cs) = (mode.read c cs).mode.after (cs.drop (mode.read c cs).more) := by
  rw [after]

/-- Every character is in exactly one lexeme, in order. -/
theorem flatMap_text_scan (mode : Mode) (cs : List Char) :
    (mode.scan cs).1.flatMap Lexeme.text = cs := by
  fun_induction after mode cs with
  | case1 mode => simp [scan_nil]
  | case2 mode c cs r ih => simp [scan_cons, r, ih]

/-- The mode alone is the one that comes with the lexemes. -/
theorem scan_snd (mode : Mode) (cs : List Char) : (mode.scan cs).2 = mode.after cs := by
  fun_induction after mode cs with
  | case1 mode => simp [scan_nil]
  | case2 mode c cs r ih => simp [scan_cons, r, ih]

end Mode
end PonyEditor
