import CommandScript.Text.Position

/-! The tokens of a command script. A token is a lexeme together with the span of the text it was read from.
Spaces and comments leave no token. -/

namespace CommandScript.Syntax

open Text

/-- Which bindings a variable reference looks in. -/
inductive Namespace where
  | plain | environment | cache
  deriving DecidableEq

namespace Namespace

/-- The word written between `$` and the opening brace. -/
def label : Namespace → String
  | plain => ""
  | environment => "ENV"
  | cache => "CACHE"

/-- The bindings that a label stands for; an unknown label, or none, stands for the plain variables. -/
def ofLabel : Option String → Namespace
  | some "ENV" => environment
  | some "CACHE" => cache
  | _ => plain

@[simp] theorem ofLabel_label (n : Namespace) : ofLabel (some n.label) = n := by cases n <;> rfl

end Namespace

/-- What a token is. Text, in arguments, is held decoded; the content of a bracket is held as written. -/
inductive Lexeme where
  | name (text : String)
  | leftParen
  | rightParen
  | quote
  | text (value : String)
  | bracket (content : String)
  | variableOpen (space : Namespace)
  | commandOpen
  | referenceClose
  | argumentEnd
  deriving DecidableEq

/-- The text a token stands for. The end of an unquoted argument is written with no character. -/
def Lexeme.value : Lexeme → String
  | .name s | .text s | .bracket s => s
  | .leftParen => "("
  | .rightParen => ")"
  | .quote => "\""
  | .variableOpen space => space.label
  | .commandOpen => "$\x7b"
  | .referenceClose => "\x7d"
  | .argumentEnd => ""

structure Token where
  lexeme : Lexeme
  start : Position
  stop : Position
  deriving DecidableEq

end CommandScript.Syntax
