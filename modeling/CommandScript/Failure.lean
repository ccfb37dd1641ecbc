import CommandScript.Code.Instruction
import CommandScript.Syntax.Fault

/-! Why an evaluation stops. A failure carries the name and the place it is attributed to; those are filled in on
its way out, by the innermost instruction that was being executed. -/

namespace CommandScript

open Text Syntax Code

/-- How many arguments a callee takes. -/
structure ArgumentRange where
  least : Nat
  most : Option Nat
  deriving DecidableEq

namespace ArgumentRange

def admits (r : ArgumentRange) (given : Nat) : Bool :=
  r.least ≤ given && (match r.most with | some most => given ≤ most | none => true)

def render (r : ArgumentRange) : String :=
  match r.most with
  | none => "at least " ++ toString r.least
  | some most => if most = r.least then toString most else toString r.least ++ " to " ++ toString most

end ArgumentRange

/-- Why the process environment refuses a variable. -/
inductive EnvironmentRefusal where
  | nulCharacter | equalsSign | emptyName
  deriving DecidableEq

inductive Cause where
  | fault (fault : Fault)
  | undecodable
  /-- A command refuses its arguments in words of its own; if not fatal, the evaluation carries on. -/
  | rejected (message : String) (fatal : Bool)
  | unknownCommand (name : String)
  | wrongArity (command : String) (expected : ArgumentRange) (given : Nat)
  | tooFewParameters (function : String) (least given : Nat)
  | unmarkedImplementation (name : String)
  | functionInReference
  | endWithoutFunction
  | functionWithoutName
  | nestingLimit (limit : Int) (depth : Nat) (program : String)
  /-- The nesting limit is larger than any stack. -/
  | limitTooLarge
  | stackExhausted (depth : Nat) (program : String)
  /-- The stack ran out in a host command, or while a script was parsed. -/
  | hostExhausted
  | tooFewCounts (held needed : Nat)
  | tooFewValues (held needed : Nat)
  | stacksDisagree
  | callBeforeEnd
  | nonTextResults (command : String)
  | unknownInstruction (instruction : Instruction)
  /-- Among values that have to be texts, the one at an index is a number. -/
  | numberForText (index : Nat)
  /-- A number would have to be split as a list, or shown. -/
  | numberAsList | numberInTrace
  /-- An instruction has a text for the number of its operands. -/
  | textForNumber
  /-- An unquoted argument that expands a single operand was given other operands. -/
  | operandCount
  | environmentRefusal (reason : EnvironmentRefusal)
  | inconsistentLibrary
  /-- A host command fails for a reason of its own. -/
  | host (kind message : String)
  deriving DecidableEq

namespace Cause

/-- Whether a command refused its invocation, as opposed to failing in it. -/
def isRefusal : Cause → Bool
  | rejected .. | unknownCommand _ | wrongArity .. | tooFewParameters .. | unmarkedImplementation _
  | functionInReference | endWithoutFunction | functionWithoutName => true
  | _ => false

/-- Only a command that says so lets the evaluation carry on. -/
def isFatal : Cause → Bool
  | rejected _ fatal => fatal
  | _ => true

/-- The name under which the kind of error is reported. -/
def kind : Cause → String
  | fault f => f.kind
  | undecodable => "UnicodeDecodeError"
  | rejected .. | unmarkedImplementation _ | functionInReference | endWithoutFunction
  | functionWithoutName => "SpliceDispatchError"
  | unknownCommand _ => "SpliceNameError"
  | wrongArity .. | tooFewParameters .. => "SpliceArityError"
  | nestingLimit .. | stackExhausted .. => "SpliceRecursionError"
  | limitTooLarge => "OverflowError"
  | hostExhausted => "RecursionError"
  | tooFewCounts .. | tooFewValues .. | stacksDisagree | callBeforeEnd | nonTextResults _
  | inconsistentLibrary => "AssertionError"
  | unknownInstruction _ => "NotImplementedError"
  | numberForText _ | numberAsList | numberInTrace | textForNumber => "TypeError"
  | operandCount => "ValueError"
  | environmentRefusal .emptyName => "OSError"
  | environmentRefusal _ => "ValueError"
  | host kind _ => kind

def argumentsGiven (given : Nat) : String := " argument(s), got " ++ toString given ++ "."

def message : Cause → String
  | fault f => f.message
  | undecodable => "not valid UTF-8"
  | rejected text _ => text
  | unknownCommand name => "Unknown command `" ++ name ++ "`."
  | wrongArity command expected given =>
    "Command `" ++ command ++ "` expects " ++ expected.render ++ argumentsGiven given
  | tooFewParameters function least given =>
    "Function `" ++ function ++ "` expects at least " ++ toString least ++ argumentsGiven given
  | unmarkedImplementation name => "Command function `" ++ name ++ "` requires prefix `cmd_` by convention."
  | functionInReference => "`function()` is only valid as a top-level command, not inside a reference."
  | endWithoutFunction => "`endfunction()` without matching `function()`."
  | functionWithoutName => "`function()` requires a name."
  | nestingLimit limit _ program =>
    "Maximum nesting depth of " ++ toString limit ++ " exceeded in `" ++ program ++ "`."
  | stackExhausted depth program =>
    "Call stack exhausted at nesting depth " ++ toString depth ++ " in `" ++ program ++ "`."
  | limitTooLarge => "Python int too large to convert to C int"
  | hostExhausted => "native"
  | tooFewCounts held needed =>
    "Count stack holds " ++ toString held ++ " entries, " ++ toString needed ++ " needed."
  | tooFewValues held needed =>
    "Value stack holds " ++ toString held ++ " entries, " ++ toString needed ++ " needed."
  | stacksDisagree => "Count stack and value stack disagree."
  | callBeforeEnd => "Outermost invocation must end the program."
  | nonTextResults command => "Command `" ++ command ++ "` returned non-string results."
  | unknownInstruction instruction => "Unknown instruction " ++ instruction.render ++ "."
  | numberForText index => "sequence item " ++ toString index ++ ": expected str instance, int found"
  | numberAsList | numberInTrace => "object of type 'int' has no len()"
  | textForNumber => "'>=' not supported between instances of 'int' and 'str'"
  | operandCount => "wrong number of operands"
  | environmentRefusal .nulCharacter => "embedded null byte"
  | environmentRefusal .equalsSign => "illegal environment variable name"
  | environmentRefusal .emptyName => "[Errno 22] Invalid argument"
  | inconsistentLibrary => ""
  | host _ text => text

end Cause

/-- A cause with what it is attributed to. -/
structure Failure where
  cause : Cause
  name : Option String := none
  location : Option Location := none
  deriving DecidableEq

namespace Failure

/-- Whether more input may mend it. -/
def isOpenEnded (f : Failure) : Bool :=
  match f.cause with
  | .fault fault => fault.isOpenEnded
  | _ => false

/-- Attributes a failure that has no place to an instruction. -/
def attributeTo (i : Instruction) (f : Failure) : Failure :=
  if f.location.isNone then { f with name := i.name, location := i.location } else f

/-- Adds what a refusal does not say about itself: the instruction it answers. -/
def completeFrom (i : Instruction) (f : Failure) : Failure :=
  { f with name := f.name <|> i.name, location := f.location <|> i.location }

end Failure

/-- A computation that changes a state and may fail; a failure keeps the changes made before it. -/
abbrev Task (σ α : Type) := σ → Except Failure α × σ

end CommandScript
