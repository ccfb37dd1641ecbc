import CommandScript.Command.Library
import CommandScript.Machine.Record
import CommandScript.Scope

/-! The commands that every session has: they write variables, put out messages and return from functions. -/

namespace CommandScript.Session

open Text Command Machine

/-- Where a list of programs is executed: its scope, the function it is the body of, the invocation that is being
evaluated, and what it has returned. -/
structure Frame where
  scope : Scope
  function : Option String := none
  location : Option Location := none
  result : List String := []
  returned : Bool := false

/-- What a built-in command reads and writes. -/
structure Desk where
  frame : Frame
  store : Store
  record : Record

inductive Builtin where
  | set | unset | message | returnValues | function | endFunction
  deriving DecidableEq

/-! ### Variables -/

/-- The name of an environment variable, if the text is one: a name without line feed between `ENV` and braces. -/
def environmentName? (name : String) : Option String :=
  match name.toList with
  | 'E' :: 'N' :: 'V' :: '\x7b' :: rest =>
    match rest.getLast? with
    | some '\x7d' => if '\n' ∈ rest.dropLast then none else some (String.ofList rest.dropLast)
    | _ => none
  | _ => none

/-- Why a process refuses an environment variable. -/
def environmentRefusal? (name value : String) : Option EnvironmentRefusal :=
  if '\x00' ∈ name.toList ∨ '\x00' ∈ value.toList then some .nulCharacter
  else if '=' ∈ name.toList then some .equalsSign
  else if name = "" then some .emptyName
  else none

/-- Refuses an invocation without arguments. -/
def noArguments (command : String) : Failure := { cause := .wrongArity command ⟨1, none⟩ 0, name := command }

namespace Desk

def writeEnvironment (checked : Bool) (name : String) (values : List String) : Task Desk (List String) := fun d =>
  match values with
  | [] => (.ok [], { d with store := d.store.unsetEnvironment name })
  | value :: _ =>
    match if checked then environmentRefusal? name value else none with
    | some reason => (.error { cause := .environmentRefusal reason }, d)
    | none => (.ok [], { d with store := d.store.setEnvironment name value })

/-- Binds a variable to the list of the values, or unbinds it if there are none. -/
def writeVariable (d : Desk) (scope : Scope) (name : String) (values : List String) : Desk :=
  match values with
  | [] => { d with store := d.store.unset scope name }
  | values => { d with store := d.store.set scope name (ItemList.join values) }

/-- `set`: the environment, else the cache if the word for it is among the values, else the parent's variables if
the word for them comes last, else the frame's own. A process environment is `checked`. -/
def set (checked : Bool) (arguments : List String) : Task Desk (List String) := fun d =>
  match arguments with
  | [] => (.error (noArguments "set"), d)
  | name :: values =>
    match environmentName? name with
    | some name => writeEnvironment checked name values d
    | none =>
      if "CACHE" ∈ values then
        let value := ItemList.join (values.takeWhile (· ≠ "CACHE"))
        (.ok [], { d with store := d.store.setCache d.frame.scope name value (values.getLast? = some "FORCE") })
      else if values.getLast? = some "PARENT_SCOPE" then
        match d.frame.scope.parent with
        | some parent => (.ok [], d.writeVariable parent name values.dropLast)
        | none =>
          let text := "Cannot set `" ++ name ++ "` with PARENT_SCOPE from the top-level scope."
          (.ok [], { d with record := d.record.diagnose .warning d.frame.location text })
      else (.ok [], d.writeVariable d.frame.scope name values)

/-- `unset`: as for `set`, with the words anywhere among the options. -/
def unset (arguments : List String) : Task Desk (List String) := fun d =>
  match arguments with
  | [] => (.error (noArguments "unset"), d)
  | name :: options =>
    match environmentName? name with
    | some name => (.ok [], { d with store := d.store.unsetEnvironment name })
    | none =>
      let scope := d.frame.scope
      if "CACHE" ∈ options then (.ok [], { d with store := d.store.unsetCache scope name })
      else if "PARENT_SCOPE" ∈ options then
        match scope.parent with
        | some parent => (.ok [], { d with store := d.store.unset parent name })
        | none => (.ok [], d)
      else (.ok [], { d with store := d.store.unset scope name })

end Desk

/-! ### Messages -/

inductive MessageMode where
  | fatalError | sendError | warning | notice | status | log
  deriving DecidableEq

def MessageMode.ofWord? : String → Option MessageMode
  | "FATAL_ERROR" => some fatalError
  | "SEND_ERROR" => some sendError
  | "WARNING" | "AUTHOR_WARNING" | "DEPRECATION" => some warning
  | "NOTICE" => some notice
  | "STATUS" => some status
  | "VERBOSE" | "DEBUG" | "TRACE" => some log
  | _ => none

/-- The mode of a message and its text. A first argument that is no mode is part of the text. -/
def splitMessage : List String → MessageMode × String
  | [] => (.notice, "")
  | first :: rest =>
    match MessageMode.ofWord? first with
    | some mode => (mode, String.join rest)
    | none => (.notice, String.join (first :: rest))

namespace Desk

def message (arguments : List String) : Task Desk (List String) := fun d =>
  let (mode, text) := splitMessage arguments
  let recording := fun record => (.ok [], { d with record })
  match mode with
  | .fatalError => (.error { cause := .rejected text true, name := "message" }, d)
  | .sendError => recording (d.record.diagnose .error d.frame.location text)
  | .warning => recording (d.record.diagnose .warning d.frame.location text)
  | .status => recording (d.record.add (.printed ("-- " ++ text ++ "\n")))
  | .log => recording (d.record.add (.remarked text))
  | .notice => recording (d.record.add (.complained (text ++ "\n")))

/-- Keeps the results of the function whose body is being executed, and ends it. -/
def returnValues (arguments : List String) : Task Desk (List String) := fun d =>
  (.ok [], { d with frame := { d.frame with result := arguments, returned := true } })

end Desk

/-! ### All of them -/

namespace Builtin

def all : List Builtin := [endFunction, function, message, returnValues, set, unset]

def name : Builtin → String
  | set => "set"
  | unset => "unset"
  | message => "message"
  | returnValues => "return"
  | function => "function"
  | endFunction => "endfunction"

def documentation : Builtin → String
  | set => "set(<var> <value>... [PARENT_SCOPE]), set(<var> <value> CACHE <type> <doc> [FORCE]) " ++
      "or set(ENV\x7b<var>\x7d <value>)"
  | unset => "unset(<var> [CACHE | PARENT_SCOPE]) or unset(ENV\x7b<var>\x7d)"
  | message => "message([<mode>] <text>...) with the text arguments concatenated."
  | returnValues => "return(<value>...) ends the current function, which then yields these values."
  | function | endFunction => ""

/-- Every built-in is given the frame. -/
def summary (b : Builtin) : Summary := ⟨b.name, true, none, 0, b.documentation⟩

/-- What a built-in does. The words that delimit function blocks are no commands inside a reference. -/
def perform (checkedEnvironment : Bool) (b : Builtin) (arguments : List String) : Task Desk (List String) :=
  match b with
  | set => Desk.set checkedEnvironment arguments
  | unset => Desk.unset arguments
  | message => Desk.message arguments
  | returnValues => Desk.returnValues arguments
  | function => fun d => (.error { cause := .functionInReference, name := "function" }, d)
  | endFunction => fun d => (.error { cause := .endWithoutFunction, name := "endfunction" }, d)

end Builtin

end CommandScript.Session
