import PonyEditor.Command.Request
import PonyEditor.Document
import PonyEditor.Text.Escaped
import PonyEditor.Token.Colour

/-!
# Answers to command lines

A command line is answered by what is printed, on which of the two streams, and an exit status.
The listings are functions of the texts alone; only reading files and resolving paths needs the
disk.
-/

namespace PonyEditor
namespace Command

/-- What a command leaves behind. -/
structure Answer where
  out : String := ""
  err : String := ""
  status : Nat := 0
  deriving DecidableEq, Repr

/-- Lines as they are printed. -/
def printed (lines : List String) : String := String.join (lines.map (· ++ "\n"))

/-- The help text. -/
def usage : List String :=
  ["Pony editor support",
   "",
   "Usage: pony-ide <command> [options]",
   "",
   "Commands:",
   "  lex <file.pony>                      Show every token with its colour class",
   "  indent <file.pony> <line>            Desired indent for a new line at <line>",
   "  match <file.pony> <line> <col>       Matching brackets for a cursor position",
   "  squiggles <file.pony> <output>       Map compiler output onto error spans",
   "  help                                 Show this help message",
   "  version                              Show version information",
   "",
   "Options:",
   "  --indent=<n>   Spaces per indent level (default: 2)",
   "",
   "Lines and columns are 1-based. Set RUST_LOG=pony_ide=debug for logs."]

/-- The version line. -/
def version : String := "pony-ide 0.1.0"

/-- The answer that is one line on the error stream. -/
def Answer.failed (line : String) : Answer := { err := printed [line], status := 1 }

/-- The answer to a request that fails.  After an unknown command the help text is printed too. -/
def Failure.answer : Failure → Answer
  | indentSize text => .failed s!"error: invalid indent size '{text}'"
  | settings error => .failed ("error: " ++ error.message)
  | missing command arguments => .failed s!"Usage: pony-ide {command} {arguments}"
  | position what text => .failed s!"error: {what} must be a positive number, got '{text}'"
  | unknown command =>
    { out := printed usage, err := printed [s!"Unknown command: {command}", ""], status := 1 }
  | unreadable file reason => .failed ("error: " ++ reason.message file)
  | pastEnd file line => .failed s!"error: line {line} is past the end of '{file}'"

/-! ## Listings -/

/-- An offset as line and column, counted from one. -/
def place (d : Document) (offset : Nat) : String :=
  let line := (d.buffer.lineAt? offset).getD 0
  let start := (d.buffer.starts.get? line).getD 0
  toString (line + 1) ++ ":" ++ toString (offset - start + 1)

/-- The text of a span; empty if the span does not fall on characters of the text. -/
def excerpt (text : String) (span : Span) : String :=
  Text.escaped ((Text.slice? text span.start span.stop).getD "")

/-- All tokens but blanks, one on a line, and their number. -/
def lexListing (text : String) : List String :=
  let d := Document.ofText text
  let tokens := d.view.tokens.filter fun t => t.kind != .blank
  let lines := tokens.map fun t =>
    let colour := (t.kind.colour?.map Colour.label).getD "-"
    place d t.span.start ++ " " ++ t.kind.label ++ " " ++ toString t.span.length ++
      " [" ++ colour ++ "] " ++ excerpt text t.span
  lines ++ [toString tokens.length ++ " tokens in " ++ toString d.lineCount ++ " lines"]

/-- The indent for a new line. -/
def indentListing (text : String) (line : Nat) (settings : Settings) : List String :=
  [toString ((Document.ofText text).indent line settings)]

/-- The bracket group at a position, one token on a line; `none` if there is no such line. -/
def groupListing? (text : String) (line column : Nat) : Option (List String) :=
  let d := Document.ofText text
  (d.offsetAt? line column).map fun offset =>
    match d.bracketGroup offset with
    | [] => ["no match"]
    | spans => spans.map fun span => place d span.start ++ " " ++ excerpt text span

/-- The underlines of diagnostics, one on a line, and their number. -/
def underlineListing (text : String) (diagnostics : List Diagnostic) : List String :=
  let d := (Document.ofText text).setReport ⟨diagnostics⟩
  let lines := d.underlines.map fun u =>
    place d u.span.start ++ " " ++ toString u.span.length ++ " " ++ excerpt text u.span ++
      ": " ++ u.message
  lines ++ [toString lines.length ++ " errors"]

/-! ## Requests -/

section

variable {m : Type → Type} [Monad m] (disk : Disk m)

/-- The text of a file a request names. -/
def fetch (file : String) : ExceptT Failure m String := do
  match ← disk.read file with
  | .ok text => return text
  | .error reason => throw (.unreadable file reason)

/-- A path by which files are told apart: the absolute one, or the given one if it leads nowhere. -/
def pathKey (file : String) : m Path := do
  let absolute ← disk.resolve file
  return absolute.getD (Path.ofString file)

/-- The diagnostics that are in a file, by the paths that tell files apart. -/
def inFile (file : String) (diagnostics : List Diagnostic) : m (List Diagnostic) := do
  let target ← pathKey disk file
  let located ← diagnostics.mapM fun d => do
    let path ← pathKey disk d.file
    return (path, d)
  return (located.filter fun (path, _) => path = target).map Prod.snd

/-- The lines that a request prints. -/
def Request.lines : Request → ExceptT Failure m (List String)
  | usage => return Command.usage
  | version => return [Command.version]
  | lex file => do
    let text ← fetch disk file
    return lexListing text
  | indent file line settings => do
    let text ← fetch disk file
    return indentListing text line settings
  | group file line column => do
    let text ← fetch disk file
    match groupListing? text line column with
    | some lines => return lines
    | none => throw (.pastEnd file (line + 1))
  | underlines file output => do
    let text ← fetch disk file
    let output ← fetch disk output
    let diagnostics ← ExceptT.lift (inFile disk file (Diagnostic.ofOutput output))
    return underlineListing text diagnostics

/-- The answer to a command line. -/
def answer (args : List String) : m Answer := do
  match Request.ofArgs args with
  | .error failure => return failure.answer
  | .ok request =>
    match ← (request.lines disk).run with
    | .error failure => return failure.answer
    | .ok lines => return { out := printed lines }

end

end Command
end PonyEditor
