import CommandScript.Bindings
import CommandScript.Command.Signature
import CommandScript.Text.LowerCase

/-! A library of commands. The case of letters in a name makes no difference. -/

namespace CommandScript.Command

open Text

/-- A command under the name it was added by. One that was put in without being added has no summary. -/
structure Entry (α : Type) where
  name : String
  summary : Option Summary
  body : α

/-- Commands by their lower-case names. An alias leads from a lower-case name to another, which is looked up as it
is written. -/
structure Library (α : Type) where
  commands : Bindings (Entry α) := []
  aliases : Bindings String := []

namespace Library

variable {α : Type}

/-- Adds a command, in place of one of the same name. -/
def add (l : Library α) (name : String) (summary : Summary) (body : α) : Library α :=
  { l with commands := l.commands.insert (lowerCase name) ⟨name, some summary, body⟩ }

/-- Puts a command under exactly this key. -/
def inject (l : Library α) (key : String) (body : α) : Library α :=
  { l with commands := l.commands.insert key ⟨key, none, body⟩ }

def remove (l : Library α) (name : String) : Library α :=
  { l with commands := l.commands.erase (lowerCase name) }

def addAlias (l : Library α) (name target : String) : Library α :=
  { l with aliases := l.aliases.insert name target }

/-- The key under which a name is looked up. Aliases are followed once. -/
def key (l : Library α) (name : String) : String :=
  (l.aliases.get? (lowerCase name)).getD (lowerCase name)

def find? (l : Library α) (name : String) : Option (Entry α) := l.commands.get? (l.key name)

def contains (l : Library α) (name : String) : Bool := (l.find? name).isSome

/-- The command of a name, for an invocation at the given place. -/
def get (l : Library α) (name : String) (location : Option Location) : Except Failure (Entry α) :=
  match l.find? name with
  | some entry => .ok entry
  | none => .error { cause := .unknownCommand name, name, location }

/-- Whether every command has a summary. -/
def isConsistent (l : Library α) : Bool := l.commands.all fun (_, entry) => entry.summary.isSome

end Library

namespace Entry

variable {α : Type}

/-- Whether the command can be given so many arguments one by one. What is given the frame can be given any. -/
def admits (e : Entry α) (given : Nat) : Bool :=
  match e.summary with
  | some summary => summary.takesFrame || summary.arguments.admits given
  | none => true

/-- Refuses a number of arguments that the command does not take. -/
def checkArity (e : Entry α) (given : Nat) : Except Failure Unit :=
  if e.admits given then .ok ()
  else
    let range := (e.summary.map Summary.arguments).getD ⟨0, none⟩
    .error { cause := .wrongArity e.name range given, name := e.name }

end Entry

/-- A function that implements a command is named for it, behind a mark; the name of the command is the rest. -/
def nameOfImplementation (function : String) : Except Failure String :=
  let mark := "cmd_".toList
  if mark.isPrefixOf function.toList then .ok (String.ofList (function.toList.drop mark.length))
  else .error { cause := .unmarkedImplementation function, name := function }

end CommandScript.Command
