import PonyEditor.Command.Disk
import PonyEditor.Settings
import PonyEditor.Text.Numeral

/-!
# What a command line asks for

The words of a command line become a request, or a failure that says what is wrong with them.
Options are taken out first, wherever they stand.
-/

namespace PonyEditor
namespace Command

/-- What the user asks for.  Lines and columns count from zero. -/
inductive Request where
  | usage
  | version
  /-- All tokens of a file. -/
  | lex (file : String)
  /-- The indent for a new line. -/
  | indent (file : String) (line : Nat) (settings : Settings)
  /-- The bracket group at a position. -/
  | group (file : String) (line column : Nat)
  /-- What a compiler's output, kept in a file, marks in a file. -/
  | underlines (file output : String)
  deriving DecidableEq, Repr

/-- Why a request fails. -/
inductive Failure where
  /-- An indent size is no number. -/
  | indentSize (text : String)
  | settings (error : SettingsError)
  /-- A command lacks an argument; it takes those given. -/
  | missing (command arguments : String)
  /-- A line or column is no positive number. -/
  | position (what text : String)
  | unknown (command : String)
  | unreadable (file : String) (reason : ReadFailure)
  /-- A file has no line of this number, counted from one. -/
  | pastEnd (file : String) (line : Nat)
  deriving DecidableEq, Repr

/-- The words of an option that sets the indent size, up to the size. -/
def indentOption : List Char := "--indent=".toList

/-- Takes the options out of the arguments: the settings they make, and the other arguments. -/
def takeOptions (settings : Settings) : List String → Except Failure (Settings × List String)
  | [] => .ok (settings, [])
  | arg :: args =>
    if indentOption.isPrefixOf arg.toList then
      let text := String.ofList (arg.toList.drop indentOption.length)
      match Numeral.readArgument? text with
      | some indentSize => takeOptions { settings with indentSize } args
      | none => .error (.indentSize text)
    else do
      let (settings, args) ← takeOptions settings args
      return (settings, arg :: args)

/-- Reads a position that counts from one, as one that counts from zero. -/
def readPosition (what text : String) : Except Failure Nat :=
  match Numeral.readArgument? text with
  | some (n + 1) => .ok n
  | _ => .error (.position what text)

/-- The request of a command with its arguments; those past the ones it takes do not count. -/
def Request.ofCommand (settings : Settings) (command : String) (args : List String) :
    Except Failure Request :=
  match command with
  | "lex" =>
    match args with
    | file :: _ => .ok (.lex file)
    | _ => .error (.missing command "<file.pony>")
  | "indent" =>
    match args with
    | file :: line :: _ => do
      let line ← readPosition "line" line
      return .indent file line settings
    | _ => .error (.missing command "<file.pony> <line> [--indent=<n>]")
  | "match" =>
    match args with
    | file :: line :: column :: _ => do
      let line ← readPosition "line" line
      let column ← readPosition "column" column
      return .group file line column
    | _ => .error (.missing command "<file.pony> <line> <col>")
  | "squiggles" =>
    match args with
    | file :: output :: _ => .ok (.underlines file output)
    | _ => .error (.missing command "<file.pony> <compiler-output>")
  | "help" | "--help" | "-h" => .ok .usage
  | "version" | "--version" | "-V" => .ok .version
  | _ => .error (.unknown command)

/-- The request of a command line.  Without a command it is for the usage. -/
def Request.ofArgs (args : List String) : Except Failure Request := do
  let (settings, args) ← takeOptions {} args
  match settings.check with
  | .error error => throw (.settings error)
  | .ok () =>
    match args with
    | [] => return .usage
    | command :: args => Request.ofCommand settings command args

end Command
end PonyEditor
