import PonyEditor.Command.Answer

/-!
# The command line

Runs one command over the files of the disk.
-/

namespace PonyEditor

/-- The number of a system error, which is reported with either sign. -/
def errorNumber (code : UInt32) : Nat :=
  if code < 0x80000000 then code.toNat else (0 - code).toNat

/-- Why a file could not be read. -/
def readFailure : IO.Error → Command.ReadFailure
  | .noFileOrDirectory .. => .notFound
  | .permissionDenied .. => .denied
  | .inappropriateType _ code details =>
    match errorNumber code with
    | 20 => .notFolder
    | 21 => .isFolder
    | number => .other s!"{details} (os error {number})"
  | .invalidArgument _ code details =>
    match errorNumber code with
    | 36 => .nameTooLong
    | number => .other s!"{details} (os error {number})"
  | error => .other (toString error)

/-- The files of the disk. -/
def systemDisk : Command.Disk IO where
  read path := do
    match ← (IO.FS.readBinFile path).toBaseIO with
    | .error error => return .error (readFailure error)
    | .ok bytes =>
      match String.fromUTF8? bytes with
      | some text => return .ok text
      | none => return .error .notText
  resolve path := do
    match ← (IO.FS.realPath path).toBaseIO with
    | .error _ => return none
    | .ok absolute => return some (Path.ofString absolute.toString)

end PonyEditor

/-- Answers the command line and gives its exit status. -/
def main (args : List String) : IO UInt32 := do
  let answer ← PonyEditor.Command.answer PonyEditor.systemDisk args
  IO.print answer.out
  IO.eprint answer.err
  return answer.status.toUInt32
