import CommandScript.Syntax.Scan

/-! What can be wrong with the form of a script, where, and in which words it is reported. A fault is open-ended if
it was met because the text ended too early, so that more text might mend it. -/

namespace CommandScript.Syntax

open Text

instance decidableEqExcept {ε α : Type} [DecidableEq ε] [DecidableEq α] : DecidableEq (Except ε α)
  | .ok a, .ok b => decidable_of_iff (a = b) (by simp)
  | .error a, .error b => decidable_of_iff (a = b) (by simp)
  | .ok _, .error _ => isFalse nofun
  | .error _, .ok _ => isFalse nofun

/-- A kind of token, as the grammar of scripts knows it, or the end of the text. -/
inductive Terminal where
  | name | leftParen | rightParen | quote | text | bracket
  | variableOpen | commandOpen | referenceClose | argumentEnd | endOfInput
  deriving DecidableEq

def Terminal.describe : Terminal → String
  | name => "command name"
  | leftParen => "`(`"
  | rightParen => "`)`"
  | quote => "`\"`"
  | text => "argument text"
  | bracket => "bracket argument"
  | variableOpen => "variable reference"
  | commandOpen => "command reference"
  | referenceClose => "`\x7d`"
  | argumentEnd => "end of argument"
  | endOfInput => "end of input"

def Lexeme.terminal : Lexeme → Terminal
  | .name _ => .name
  | .leftParen => .leftParen
  | .rightParen => .rightParen
  | .quote => .quote
  | .text _ => .text
  | .bracket _ => .bracket
  | .variableOpen _ => .variableOpen
  | .commandOpen => .commandOpen
  | .referenceClose => .referenceClose
  | .argumentEnd => .argumentEnd

namespace ScanFault

/-- The faults of a text that ends inside a construct. -/
def isOpenEnded : ScanFault → Bool
  | unclosedBracketComment _ | unclosedBracketArgument _ | unclosedParenthesis | unclosedQuote
  | unclosedCommandReference | unclosedVariableReference | escapeAtEnd => true
  | textAfterCommandReference _ | nulCharacter | invalidNameCharacter _ | invalidEscape _ => false

def unclosedBracket (what : String) (level : Nat) : String :=
  "Unterminated " ++ what ++ ", expected `" ++ String.ofList (bracketCloser level) ++ "` before end of input."

def message : ScanFault → String
  | unclosedBracketComment level => unclosedBracket "bracket comment" level
  | unclosedBracketArgument level => unclosedBracket "bracket argument" level
  | unclosedParenthesis => "Unbalanced `(`, missing `)` before end of input."
  | unclosedQuote => "Unterminated quoted argument, missing `\"` before end of input."
  | unclosedCommandReference => "Unterminated command reference, missing `\x7d` before end of input."
  | unclosedVariableReference => "Unterminated variable reference, missing `\x7d` before end of input."
  | textAfterCommandReference found =>
    "Expected `\x7d` to close command reference, found `" ++ found.toString ++ "`."
  | nulCharacter => "Disallowed character NUL in source."
  | invalidNameCharacter found =>
    "Invalid character `" ++ found.toString ++ "` in variable reference, expected a name, `$\x7b` or `\x7d`."
  | escapeAtEnd => "Escape sequence `\\` at end of input."
  | invalidEscape found => "Invalid escape sequence `\\" ++ found.toString ++ "`."

/-- The character of the text that stands where the fault is reported. -/
def character : ScanFault → Char
  | unclosedBracketComment _ => '#'
  | unclosedBracketArgument _ => '['
  | unclosedParenthesis => '('
  | unclosedQuote => '"'
  | unclosedCommandReference | unclosedVariableReference => '$'
  | textAfterCommandReference found | invalidNameCharacter found => found
  | nulCharacter => '\x00'
  | escapeAtEnd | invalidEscape _ => '\\'

end ScanFault

inductive FaultCause where
  | scan (fault : ScanFault)
  /-- A token, or the end of the text, that no script can have at this place. -/
  | unexpected (found : Option Lexeme) (expected : List Terminal)
  /-- A function block that is never ended. -/
  | unclosedFunction (keyword : String)
  /-- A function block that is never ended and begins nowhere. The report fails, since it asks for the place. -/
  | unplacedFunction
  /-- A text that should hold one invocation and holds another number of them. -/
  | invocationCount (found : Nat)
  deriving DecidableEq

/-- A fault in the form of a script, at a place. -/
structure Fault where
  cause : FaultCause
  location : Location
  deriving DecidableEq

namespace Fault

def isOpenEnded (f : Fault) : Bool :=
  match f.cause with
  | .scan fault => fault.isOpenEnded
  | .unexpected found _ => found.isNone
  | .unclosedFunction _ => true
  | .unplacedFunction | .invocationCount _ => false

/-- The name under which the kind of error is reported. -/
def kind (f : Fault) : String :=
  if f.cause = .unplacedFunction then "AttributeError"
  else if f.isOpenEnded then "SpliceIncompleteParse"
  else "SpliceSyntaxError"

/-- The token at fault, as it is shown in reports. -/
def token (f : Fault) : String :=
  match f.cause with
  | .scan fault => fault.character.toString
  | .unexpected found _ => (found.map Lexeme.value).getD ""
  | .unclosedFunction keyword => keyword
  | .unplacedFunction | .invocationCount _ => ""

def expected (f : Fault) : List String :=
  match f.cause with
  | .unexpected _ expected => expected.map Terminal.describe
  | _ => []

/-- How a token is named in a report: its kind, and its text if there is any. -/
def describeFound : Option Lexeme → String
  | none => Terminal.endOfInput.describe
  | some lexeme =>
    lexeme.terminal.describe ++ (if lexeme.value = "" then "" else " `" ++ lexeme.value ++ "`")

def message (f : Fault) : String :=
  match f.cause with
  | .scan fault => fault.message
  | .unexpected found expected =>
    "Unexpected " ++ describeFound found ++ ", expected " ++
      " or ".intercalate (expected.map Terminal.describe) ++ "."
  | .unclosedFunction _ => "`function()` without matching `endfunction()`."
  | .unplacedFunction => "'NoneType' object has no attribute 'filename'"
  | .invocationCount found => "Expected exactly one command invocation, found " ++ toString found ++ "."

end Fault

end CommandScript.Syntax
