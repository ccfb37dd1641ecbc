import CommandScript.CommandLine.FileTree
import CommandScript.Failure
import CommandScript.Text.Literal

/-! How the program ends: with an exit status, or with a crash when the program itself fails. A failure of a script is
no crash, for it is reported, unless it is of a kind that cannot be. A script that cannot be read is one. -/

namespace CommandScript.CommandLine

/-- Why the program itself fails. -/
inductive Crash where
  /-- A path of which it cannot be told whether there is a file, or a file that cannot be read. -/
  | file (reason : FileError) (path : String)
  /-- A failure of a kind that no place can be attributed to, and of which no report can be made. -/
  | unplaced (kind : String)
  /-- A script nests too deep, and no report is tried. -/
  | stackOverflow
  deriving DecidableEq

namespace Crash

def kind : Crash → String
  | file .nulCharacter _ => "ValueError"
  | file .undecodable _ => "UnicodeDecodeError"
  | file .denied _ => "PermissionError"
  | file .. => "OSError"
  | unplaced _ => "AttributeError"
  | stackOverflow => "RecursionError"

def message : Crash → String
  | file .nulCharacter _ => FileError.nulCharacter.message
  | file reason path => reason.message ++ ": " ++ Text.literal path
  | unplaced kind => "'" ++ kind ++ "' object has no attribute 'splice_location'"
  | stackOverflow => "maximum recursion depth exceeded"

/-- The crash that the report of a failure leads to. Only a failure that comes about outside all evaluations has no
place: the stack cannot be made large enough for them, or it runs out while a script is parsed. -/
def ofFailure? (f : Failure) : Option Crash :=
  match f.cause with
  | .limitTooLarge | .hostExhausted => some (.unplaced f.cause.kind)
  | _ => none

end Crash

inductive Ending where
  | exit (status : Nat)
  | crash (reason : Crash)
  deriving DecidableEq

end CommandScript.CommandLine
