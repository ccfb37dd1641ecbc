import CommandScript.CommandLine.Ending
import CommandScript.CommandLine.Options
import CommandScript.Syntax.Parse

/-! From arguments to a plan: the scripts that are run, in order, and where they come from. -/

namespace CommandScript.CommandLine

open Text Syntax

/-- About how many scanners the stack has room for while no evaluation is under way. -/
def scannerRoom : Nat := 950

/-- What the program finds around it: its arguments, the files, whether standard input is a terminal, the environment,
and which states of a scan the stack has room for. -/
structure Request where
  arguments : List String
  files : FileTree := []
  terminal : Bool := false
  environment : Bindings String := []
  hasRoom : ScanState → Bool := ScanState.nestsWithin scannerRoom

/-- One thing to do. Only a prompt and a script on standard input wait for input. -/
inductive Activity where
  | script (file source : String)
  /-- A script given as an argument; its results are shown. -/
  | inline (code : String)
  | repl
  | standardInput
  | dump (file source : String)
  | dumpStandardInput
  /-- A file is there, but reading it makes the program crash. -/
  | unreadable (crash : Crash)

/-- A script in a file, of which there is the text or the crash that reading it leads to. -/
def Activity.ofFile (file : String) : Except Crash String → Activity
  | .ok source => script file source
  | .error crash => unreadable crash

/-- A text as it is read: every line end is a line feed. -/
def readLineEnds : List Char → List Char
  | '\r' :: '\n' :: cs => '\n' :: readLineEnds cs
  | c :: cs => (if c = '\r' then '\n' else c) :: readLineEnds cs
  | [] => []

def readText (s : String) : String := String.ofList (readLineEnds s.toList)

/-- Why nothing is carried out. -/
inductive HaltReason where
  | usage (error : UsageError)
  | help (subcommand : Subcommand)
  | crash (reason : Crash)

/-- Whether a halt is `late` decides how it is put out: then the settings are in force already. -/
structure Halt where
  reason : HaltReason
  late : Bool := false

/-- What reading a regular file comes to, if it is one. -/
def FileNode.reading? (path : String) : FileNode → Option (Except Crash String)
  | regular content =>
    match content.decode? with
    | some text => some (.ok (readText text))
    | none => some (.error (.file .undecodable path))
  | locked => some (.error (.file .denied path))
  | device _ | directory => none

/-- What reading a regular file comes to, if the path leads to one. -/
def Request.regularFile? (r : Request) (path : String) : Except HaltReason (Option (Except Crash String)) :=
  match r.files.resolve (tidyPath path) with
  | .ok node => .ok (node.reading? (tidyPath path))
  | .error .nameTooLong => .error (.crash (.file .nameTooLong (tidyPath path)))
  | .error _ => .ok none

/-- The subcommand that arguments stand for, and its own arguments. -/
def chooseSubcommand (r : Request) (arguments : List String) : Except HaltReason (Subcommand × List String) :=
  match arguments with
  | [] => .ok (if r.terminal then (.runRepl, []) else (.runFile, ["-"]))
  | first :: rest =>
    match Subcommand.ofName? first with
    | some subcommand => .ok (subcommand, rest)
    | none =>
      if arguments = ["-"] ∨ ["-f", "-"].isPrefixOf arguments then .ok (.runFile, ["-"])
      else if arguments = ["--repl"] then .ok (.runRepl, [])
      else if rest.isEmpty && (behind? "-" first).isNone then
        (r.regularFile? first).map fun
          | some _ => (.runFile, [first])
          | none => (.runDev, arguments)
      else .ok (.runDev, arguments)

/-! ### Arguments of subcommands -/

/-- The option that an argument would be, as it is named in a report. The mark `--` is none. -/
def optionName? (s : String) : Option String :=
  match s.toList with
  | '-' :: '-' :: _ :: _ => some (String.ofList (s.toList.takeWhile (· ≠ '=')))
  | '-' :: c :: _ => if c = '-' then none else some (String.ofList ['-', c])
  | _ => none

/-- What an argument is, as an option of a subcommand. -/
inductive OptionUse where
  | none
  | help
  | helpWithValue
  | unknown (option : String)

def optionUse (s : String) : OptionUse :=
  if s = helpOption then .help
  else if (behind? (helpOption ++ "=") s).isSome then .helpWithValue
  else match optionName? s with | some option => .unknown option | none => .none

/-- Takes the help option out of the arguments before the mark, and tells whether it was there. Other options are
refused, or `kept` for later. -/
def takeOptions (subcommand : Subcommand) (kept : Bool) : List String → Except HaltReason (Bool × List String)
  | [] => .ok (false, [])
  | s :: rest =>
    if s = "--" then .ok (false, rest)
    else
      let go := fun (asked : Bool) (mine : List String) =>
        (takeOptions subcommand kept rest).map fun (help, arguments) => (asked || help, mine ++ arguments)
      match optionUse s with
      | .help => go true []
      | .helpWithValue => .error (.usage ⟨subcommand, .valueForFlag helpOption⟩)
      | .unknown option => if kept then go false [s] else .error (.usage ⟨subcommand, .noSuchOption option⟩)
      | .none => go false [s]

/-- The arguments of a subcommand that are no options, unless help is asked for. -/
def plainArguments (subcommand : Subcommand) (kept : Bool) (arguments : List String) :
    Except HaltReason (List String) := do
  let (help, arguments) ← takeOptions subcommand kept arguments
  if help then .error (.help subcommand) else .ok arguments

/-- The one script of a subcommand; a dash stands for standard input. A file is opened at once and read later. -/
def scriptArgument (r : Request) (subcommand : Subcommand) (arguments : List String) :
    Except HaltReason (Option (String × Except Crash String)) := do
  match ← plainArguments subcommand false arguments with
  | [] => .error (.usage ⟨subcommand, .missingScript⟩)
  | file :: extra =>
    let found ←
      if file = "-" then .ok none
      else match r.files.read file with
        | .ok text => .ok (some (file, .ok (readText text)))
        | .error .undecodable => .ok (some (file, .error (.file .undecodable file)))
        | .error .nulCharacter => .error (.crash (.file .nulCharacter file))
        | .error reason => .error (.usage ⟨subcommand, .unreadableScript file reason⟩)
    if extra.isEmpty then .ok found else .error (.usage ⟨subcommand, .extraArguments extra⟩)

/-- The activities that the tokens of the development command stand for. -/
def readTokens (r : Request) : List String → Except HaltReason (List Activity)
  | [] => .ok []
  | token :: rest =>
    let wrong := fun cause => .error (.usage ⟨some .runDev, cause⟩)
    if token = "--" then readTokens r rest
    else if token = "-c" ∨ token = "--command" then
      match rest with
      | [] => wrong .missingCode
      | code :: rest => (readTokens r rest).map (.inline code :: ·)
    else
      match behind? "-c=" token <|> behind? "--command=" token with
      | some code => if code = "" then wrong .emptyCode else (readTokens r rest).map (.inline code :: ·)
      | none =>
        if token = "-r" ∨ token = "--repl" then (readTokens r rest).map (.repl :: ·)
        else if (behind? "-" token).isSome then wrong (.unknownOption token)
        else
          match r.regularFile? token with
          | .ok (some reading) => (readTokens r rest).map (.ofFile (tidyPath token) reading :: ·)
          | .ok none => wrong (.fileNotFound token)
          | .error reason => .error reason

/-- The activities of a subcommand. Without any token the development command prompts. -/
def planSubcommand (r : Request) (subcommand : Subcommand) (arguments : List String) :
    Except Halt (List Activity) :=
  let early := fun {α : Type} (result : Except HaltReason α) => result.mapError fun reason => (⟨reason, false⟩ : Halt)
  match subcommand with
  | .runFile => do
    match ← early (scriptArgument r subcommand arguments) with
    | some (file, reading) => return [.ofFile file reading]
    | none => return [.standardInput]
  | .dump => do
    match ← early (scriptArgument r subcommand arguments) with
    | some (file, .ok source) => return [.dump file source]
    | some (_, .error crash) => return [.unreadable crash]
    | none => return [.dumpStandardInput]
  | .runRepl => do
    match ← early (plainArguments subcommand false arguments) with
    | [] => return [.repl]
    | extra => .error ⟨.usage ⟨subcommand, .extraArguments extra⟩, false⟩
  | .runDev => do
    match readTokens r (← early (plainArguments subcommand true arguments)) with
    | .ok [] => return [.repl]
    | .ok activities => return activities
    | .error reason => .error ⟨reason, true⟩

end CommandScript.CommandLine
