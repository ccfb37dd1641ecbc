import CommandScript.CommandLine.FileTree
import CommandScript.Text.Integer
import CommandScript.Text.Literal
import CommandScript.Text.Similarity
import CommandScript.Text.Style

/-! The options of the command line. They may stand anywhere among the arguments; what is left chooses what is done. -/

namespace CommandScript.CommandLine

open Text

/-- The ways in which the program is used. -/
inductive Subcommand where
  | runFile | runDev | runRepl | dump
  deriving DecidableEq

namespace Subcommand

def name : Subcommand → String
  | runFile => "run-file"
  | runDev => "run-dev"
  | runRepl => "run-repl"
  | dump => "dump"

def ofName? (s : String) : Option Subcommand := [runFile, runDev, runRepl, dump].find? fun c => c.name = s

/-- The arguments it takes, as shown behind its name. -/
def synopsis : Subcommand → String
  | runFile | dump => " [OPTIONS] SCRIPT"
  | runDev => " [OPTIONS] [TOKENS]..."
  | runRepl => " [OPTIONS]"

end Subcommand

/-- What is wrong with the arguments. -/
inductive UsageCause where
  | defineWithoutName (text : String)
  | depthNotInteger (text : String)
  | depthOutOfRange (depth : Int)
  | noSuchOption (option : String)
  | valueForFlag (option : String)
  | missingScript
  | unreadableScript (file : String) (reason : FileError)
  | extraArguments (arguments : List String)
  | missingCode
  | emptyCode
  | unknownOption (token : String)
  | fileNotFound (token : String)
  deriving DecidableEq

/-- The option that every subcommand has. -/
def helpOption : String := "--help"

/-- A long option that no subcommand has may be meant for the one that all have. -/
def suggestion (option : String) : String :=
  if "--".toList.isPrefixOf option.toList && resembles helpOption option then
    " Did you mean " ++ literal helpOption ++ "?"
  else ""

def UsageCause.message : UsageCause → String
  | defineWithoutName text => "Invalid value for '--define' / '-D': Expected NAME=VALUE, got `" ++ text ++ "`."
  | depthNotInteger text => "Invalid value for '--max-depth': " ++ literal text ++ " is not a valid integer range."
  | depthOutOfRange depth => "Invalid value for '--max-depth': " ++ toString depth ++ " is not in the range x>=1."
  | noSuchOption option => "No such option " ++ literal option ++ "." ++ suggestion option
  | valueForFlag option => "Option " ++ literal option ++ " does not take a value."
  | missingScript => "Missing argument 'SCRIPT'."
  | unreadableScript file reason => "Invalid value for 'SCRIPT': '" ++ file ++ "': " ++ reason.message
  | extraArguments arguments =>
    "Got unexpected extra argument" ++ (if arguments.length = 1 then "" else "s") ++ " (" ++
      " ".intercalate arguments ++ ")"
  | missingCode => "Invalid value: Missing inline code after -c/--command option."
  | emptyCode => "Invalid value: Empty code supplied to command option."
  | unknownOption token => "Invalid value: Unknown option `" ++ token ++ "`."
  | fileNotFound token => "Invalid value: File `" ++ token ++ "` not found."

/-- A mistake in the arguments, in the options or in those of a subcommand. -/
structure UsageError where
  subcommand : Option Subcommand
  cause : UsageCause
  deriving DecidableEq

/-- The first line of a report, and of the help on a subcommand. -/
def usageLine (command synopsis : String) : String := "Usage: " ++ command ++ synopsis ++ "\n"

def programName : String := "cmdsplice"

/-- A report says how the program is used, unless a flag was given a value. It has no control sequences. -/
def UsageError.render (e : UsageError) : String :=
  let (command, synopsis) :=
    match e.subcommand with
    | some c => (programName ++ " " ++ c.name, c.synopsis)
    | none => (programName, " [OPTIONS] [COMMAND] [ARGS]...")
  let usage := usageLine command synopsis ++ "Try '" ++ command ++ " " ++ helpOption ++ "' for help.\n\n"
  let error := "Error: " ++ e.cause.message ++ "\n"
  withoutControls (match e.cause with | .valueForFlag _ => error | _ => usage ++ error)

/-- The help on a subcommand. -/
def Subcommand.help (c : Subcommand) : String :=
  usageLine (programName ++ " " ++ c.name) c.synopsis ++ "\nOptions:\n  " ++ helpOption ++
    "  Show this message and exit.\n"

/-! ### Reading options -/

inductive GlobalOption where
  | verbose (times : Nat)
  | ignoreErrors | statistics | plain | warnUninitialized
  | maxDepth (text : String)
  | define (text : String)
  deriving DecidableEq

/-- What stands behind a head, if the text begins with it. -/
def behind? (head : String) (s : String) : Option String :=
  if head.toList.isPrefixOf s.toList then some (String.ofList (s.toList.drop head.length)) else none

/-- An option that is one argument by itself. -/
def GlobalOption.ofArgument? (s : String) : Option GlobalOption :=
  match s with
  | "--ignore" | "-i" => some ignoreErrors
  | "--stats" => some statistics
  | "--plain" | "-p" => some plain
  | "--warn-uninitialized" => some warnUninitialized
  | "--verbose" => some (verbose 1)
  | s =>
    match behind? "-v" s, behind? "--max-depth=" s, behind? "--define=" s, behind? "-D" s with
    | some rest, _, _, _ => if rest.toList.all (· = 'v') then some (verbose (rest.length + 1)) else none
    | _, some value, _, _ => some (maxDepth value)
    | _, _, some value, _ => some (define value)
    | _, _, _, some value => if value = "" then none else some (define value)
    | none, none, none, none => none

/-- An option that takes the next argument. -/
def GlobalOption.ofPair? (s value : String) : Option GlobalOption :=
  match s with
  | "--max-depth" => some (maxDepth value)
  | "--define" | "-D" => some (define value)
  | _ => none

/-- The options among the arguments, and the other arguments. -/
def splitOptions : List String → List GlobalOption × List String
  | [] => ([], [])
  | [s] =>
    match GlobalOption.ofArgument? s with
    | some option => ([option], [])
    | none => ([], [s])
  | s :: value :: rest =>
    match GlobalOption.ofPair? s value with
    | some option =>
      let (options, others) := splitOptions rest
      (option :: options, others)
    | none =>
      let (options, others) := splitOptions (value :: rest)
      match GlobalOption.ofArgument? s with
      | some option => (option :: options, others)
      | none => (options, s :: others)

/-! ### Settings -/

/-- What the options say. -/
structure Settings where
  verbosity : Nat := 0
  ignoreErrors : Bool := false
  statistics : Bool := false
  plain : Bool := false
  maxDepth : Nat := 1000
  warnUninitialized : Bool := false
  defines : List (String × String) := []
  deriving DecidableEq

def readDepth (text : String) : Except UsageError Nat :=
  match readInteger? text with
  | none => .error ⟨none, .depthNotInteger text⟩
  | some depth => if depth < 1 then .error ⟨none, .depthOutOfRange depth⟩ else .ok depth.toNat

/-- A name, an equals sign, and a value. -/
def readDefine (text : String) : Except UsageError (String × String) :=
  let name := text.toList.takeWhile (· ≠ '=')
  match name, text.toList.drop name.length with
  | _ :: _, '=' :: value => .ok (String.ofList name, String.ofList value)
  | _, _ => .error ⟨none, .defineWithoutName text⟩

def defineTexts (options : List GlobalOption) : List String :=
  options.filterMap fun | .define text => some text | _ => none

def depthTexts (options : List GlobalOption) : List String :=
  options.filterMap fun | .maxDepth text => some text | _ => none

/-- Whether the first option that takes a value is a definition. -/
def definesFirst (options : List GlobalOption) : Bool :=
  match options.find? fun | .define _ | .maxDepth _ => true | _ => false with
  | some (.define _) => true
  | _ => false

/-- The environment variable for the depth, if it is set and not empty. -/
def environmentDepth (environment : Bindings String) : Option String :=
  match environment.get? "CMDSPLICE_MAX_DEPTH" with
  | none | some "" => none
  | some text => some text

/-- The settings of the options, of which the last depth counts. Of two mistakes the one in the option that was
given first is reported; the environment comes after all options. -/
def Settings.ofOptions (options : List GlobalOption) (environment : Bindings String) : Except UsageError Settings := do
  let given := (depthTexts options).getLast?
  let early := if definesFirst options || given.isNone then defineTexts options else []
  let _ ← early.mapM readDefine
  let maxDepth ← match given <|> environmentDepth environment with
    | some text => readDepth text
    | none => .ok 1000
  let defines ← (defineTexts options).mapM readDefine
  return {
    verbosity := options.foldl (fun n option => match option with | .verbose times => n + times | _ => n) 0
    ignoreErrors := .ignoreErrors ∈ options
    statistics := .statistics ∈ options
    plain := .plain ∈ options
    warnUninitialized := .warnUninitialized ∈ options
    maxDepth, defines }

end CommandScript.CommandLine
