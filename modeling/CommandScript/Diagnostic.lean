import CommandScript.Text.Position
import CommandScript.Text.Style

/-! Problems that are reported without stopping the evaluation. -/

namespace CommandScript

open Text

inductive Severity where
  | error | warning
  deriving DecidableEq

def Severity.label : Severity → String
  | error => "error"
  | warning => "warning"

structure Diagnostic where
  severity : Severity
  location : Option Location
  message : String
  deriving DecidableEq

namespace Diagnostic

/-- One line without styles: the place, the severity and the message. -/
def render (d : Diagnostic) : String :=
  let place := match d.location with | some l => l.render ++ ": " | none => ""
  place ++ d.severity.label ++ ": " ++ d.message

/-- One line for a terminal. -/
def renderStyled (d : Diagnostic) : String :=
  let colour := match d.severity with | .error => "30;41" | .warning => "30;43"
  let place := match d.location with | some l => " " ++ bright l.render | none => ""
  styled colour (" " ++ d.severity.label.toUpper ++ ". ") ++ place ++ " " ++ d.message

end Diagnostic

end CommandScript
