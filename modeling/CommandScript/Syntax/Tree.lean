import CommandScript.Syntax.Token

/-! The trees of a command script. An invocation names a command and gives it arguments; an argument is made of
parts, and a part may again hold arguments. -/

namespace CommandScript.Syntax

open Text

mutual

/-- A piece of an argument: text, or a reference whose value is put in its place. -/
inductive Part where
  | text (position : Position) (value : String)
  | variable (position : Position) (space : Namespace) (parts : List Part)
  /-- The position is that of the command's name. -/
  | command (position : Position) (name : String) (arguments : List Argument)

inductive Argument where
  | quoted (position : Position) (parts : List Part)
  /-- An unquoted argument has at least one part. -/
  | unquoted (first : Part) (others : List Part)
  | bracket (position : Position) (content : String)
  /-- Parentheses inside an argument list are arguments themselves, around those they hold. -/
  | group (opener : Position) (arguments : List Argument) (closer : Position)

end

/-- A command with its arguments, from the first character of its name to behind its closing parenthesis. -/
structure Invocation where
  name : String
  start : Position
  stop : Position
  arguments : List Argument

def Part.position : Part → Position
  | .text p _ | .variable p _ _ | .command p _ _ => p

end CommandScript.Syntax
