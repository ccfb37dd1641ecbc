import CommandScript.Event
import CommandScript.Failure
import CommandScript.Syntax.Context

/-! How failures are reported on a terminal: what failed, where, and the lines around it. -/

namespace CommandScript.CommandLine

open Text Syntax

/-- The line in place of the calls that led to a failure of the program itself. -/
def callsMark : String := "<TRACEBACK>"

/-- The lines around the place of a failure, or only the place if it is in another script. -/
def placeContext (f : Failure) (file source : String) : String :=
  match f.location with
  | none => ""
  | some l =>
    let placed := match l.file with | none | some "" => file | some name => name
    if placed = file then errorContext file (some l.line) (some l.column) f.name source
    else "\n" ++ dim ("  at " ++ l.render) ++ "\n"

/-- A message below the context, on one line. -/
def messageLine (text : String) : String :=
  let flat := text.toList.map fun c => if c = '\n' || c = '\t' then ' ' else c
  "\n" ++ dim (String.ofList flat) ++ "\n"

/-- A report: its title, the sentence behind it and the lines below. -/
structure Report where
  title : String
  detail : String
  context : String

/-- The report of a failure in a script. -/
def Report.of (f : Failure) (file source : String) : Report :=
  let name := f.name.getD "None"
  match f.cause with
  | .fault fault =>
    ⟨"SYNTAX ERROR.", "Parsing `" ++ bright file ++ "` caused a problem!",
      fault.context file source ++ messageLine fault.message⟩
  | .nestingLimit _ depth _ | .stackExhausted depth _ =>
    ⟨"RECURSION ERROR.", "Expanding `" ++ styled "1;97" name ++ "` nested " ++ toString depth ++ " levels deep.",
      placeContext f file source ++ "\n" ++ dim f.cause.message ++ "\n"⟩
  | cause =>
    if cause.isRefusal then
      ⟨"COMMAND ERROR.", "Command `" ++ styled "1;97" name ++ "` from `" ++ bright file ++ "` failed: " ++
        cause.message, placeContext f file source⟩
    else
      ⟨"RUNTIME ERROR.", "Command " ++ styled "1;97" ("`" ++ name ++ "`") ++ " caused an error in interpret!",
        placeContext f file source ++ "\n" ++ callsMark ++ "\n" ++ cause.kind ++ ": " ++ cause.message ++ "\n"⟩

def Report.render (r : Report) (kind : String) : String :=
  styled "30;43" (" " ++ r.title ++ " ") ++ " " ++ r.detail ++ " (Exception: " ++ styled "33" kind ++ ")\n" ++
    r.context ++ "\n"

end CommandScript.CommandLine
