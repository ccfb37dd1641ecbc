import CommandScript.Diagnostic

/-! What an evaluation does that can be seen from outside, in order: text it prints, problems it reports and steps
it logs. -/

namespace CommandScript

open Text

inductive Event where
  /-- Text on standard output. -/
  | printed (text : String)
  /-- Text on standard error. -/
  | complained (text : String)
  | diagnosed (diagnostic : Diagnostic)
  /-- A problem where nobody collects diagnostics. -/
  | unheard (location : Option Location) (message : String)
  | dispatched (command : String) (arguments : List String)
  | defined (function : String) (parameters : List String) (length : Nat)
  /-- A message of a level that is only logged. -/
  | remarked (text : String)
  deriving DecidableEq

inductive LogLevel where
  | debug | warning | error
  deriving DecidableEq

def LogLevel.label : LogLevel → String
  | debug => "DEBUG"
  | warning => "WARNING"
  | error => "ERROR"

/-- A line of the log, under the name of the part that wrote it. -/
structure LogRecord where
  logger : String
  level : LogLevel
  message : String
  deriving DecidableEq

namespace Event

/-- The line that an event leaves in the log, if any. -/
def logRecord : Event → Option LogRecord
  | printed _ | complained _ => none
  | diagnosed d =>
    some ⟨"cmdsplice.diagnostics", match d.severity with | .error => .error | .warning => .warning, d.render⟩
  | unheard location message =>
    some ⟨"cmdsplice.interpreter", .warning, (location.map Location.render).getD "None" ++ ": " ++ message⟩
  | dispatched command arguments =>
    some ⟨"cmdsplice.interpreter", .debug, "dispatch " ++ command ++ "(" ++ " ".intercalate arguments ++ ")"⟩
  | defined function parameters length =>
    some ⟨"cmdsplice.runtime", .debug, "define function " ++ function ++ "(" ++ " ".intercalate parameters ++
      ") with " ++ toString length ++ " command(s)"⟩
  | remarked text => some ⟨"cmdsplice.commands", .debug, text⟩

end Event

end CommandScript
