import CommandScript.Code.Listing
import CommandScript.CommandLine.Plan
import CommandScript.CommandLine.Report
import CommandScript.Session.Evaluate
import CommandScript.Text.Quoted

/-! Carrying out a plan. All scripts of a plan share one session. The runner is driven by the lines of standard
input; what it puts out for a line is known as soon as the line is. -/

namespace CommandScript.CommandLine

open Text Syntax Machine Session

/-- A piece of output. How long the program has been running is only known outside. -/
inductive Output where
  | out (text : String)
  | err (text : String)
  | elapsed
  deriving DecidableEq

/-- A session for the command line. It has no host commands. -/
abbrev ScriptSession := State Empty Unit

structure Runner where
  settings : Settings
  state : ScriptSession
  statistics : Option Statistics
  /-- How many scripts ran to their end, prompts apart. -/
  finished : Nat := 0
  failed : Bool := false
  crash : Option Crash := none
  /-- The number of the next script that is given as an argument. -/
  nextInline : Nat := 1
  hasRoom : ScanState → Bool := ScanState.nestsWithin scannerRoom

namespace Runner

def config (r : Runner) : Config where
  maxDepth := r.settings.maxDepth
  warnUninitialized := r.settings.warnUninitialized
  processEnvironment := true

/-- A runner with a new session, in which the defined variables are set. -/
def ofSettings (settings : Settings) (environment : Bindings String) : Runner where
  settings
  state := settings.defines.foldl (fun s (name, value) => s.setVariable name value)
    (State.initial [] [] environment ())
  statistics := if settings.statistics then some ⟨some 0, some 0⟩ else none

def ofRequest (r : Request) (settings : Settings) : Runner :=
  { ofSettings settings r.environment with hasRoom := r.hasRoom }

/-! ### Output -/

/-- Plain output has no styles, and all of it goes to one place. -/
def adapt (settings : Settings) : Output → Output
  | .out text => .out (if settings.plain then withoutStyles text else text)
  | .err text => if settings.plain then .out (withoutStyles text) else .err text
  | .elapsed => .elapsed

/-- What an event puts out. A diagnostic is both logged and shown; the rest of the log is shown if asked for. -/
def eventOutput (settings : Settings) : Event → List Output
  | .printed text => [.out text]
  | .complained text => [.err text]
  | .diagnosed d => [.err (d.render ++ "\n"), .err (d.renderStyled ++ "\n")]
  | e =>
    match e.logRecord with
    | some l => if 0 < settings.verbosity then [.err (l.logger ++ ": " ++ l.message ++ "\n")] else []
    | none => []

/-- Puts out the events of the session and forgets them. -/
def flush (r : Runner) : List Output × Runner :=
  (r.state.record.events.reverse.flatMap (eventOutput r.settings),
    { r with state := { r.state with record := { r.state.record with events := [] } } })

def resultOutput (results : List String) : List Output :=
  if results.isEmpty then [] else [.out (dim ">>>" ++ " " ++ showValues results ++ "\n")]

/-- Puts out the report of a failure behind other output. A failure that cannot be reported makes the runner crash. -/
def reportFailure (r : Runner) (f : Failure) (output : List Output) (file source : String) : List Output × Runner :=
  match Crash.ofFailure? f with
  | some crash => (output, { r with crash })
  | none => (output ++ [.err ((Report.of f file source).render f.cause.kind)], r)

/-- Reports the failure of a script, and remembers that one failed. -/
def failScript (r : Runner) (f : Failure) (output : List Output) (file source : String) : List Output × Runner :=
  { r with failed := true }.reportFailure f output file source

/-! ### Scripts -/

/-- Runs a script in the session. -/
def runText (r : Runner) (file source : String) : Except Failure (List String) × List Output × Runner :=
  let (result, statistics, state) :=
    r.state.run r.config (fun key => nomatch key) (.text source) (some file) r.settings.verbosity r.statistics
  let (output, r) := { r with state, statistics }.flush
  (result, output, r)

/-- Whether the stack has room for parsing a script. -/
def canParse (r : Runner) (file source : String) : Bool :=
  (parseWithin r.hasRoom (normalizeText source.toList) (some file)).isSome

/-- Runs a script; one that fails is reported. -/
def runScript (r : Runner) (file source : String) (showsResults : Bool) : List Output × Runner :=
  if r.canParse file source then
    match r.runText file source with
    | (.ok results, output, r) =>
      (output ++ (if showsResults then resultOutput results else []), { r with finished := r.finished + 1 })
    | (.error failure, output, r) => r.failScript failure output file source
  else r.failScript { cause := .hostExhausted } [] file source

/-- Shows the instructions of a script. Only its faults are reported. -/
def dumpScript (r : Runner) (file source : String) : List Output × Runner :=
  if r.canParse file source then
    match r.state.parse r.config (.text source) (some file) with
    | (.ok script, state) =>
      (script.programs.map fun p => .out (p.listing ++ "\n"), { r with state, finished := r.finished + 1 })
    | (.error failure, state) => { r with state }.failScript failure [] file source
  else ([], { r with crash := some .stackOverflow })

/-- What ends the program at once: a crash, or a failure unless failures are to be ignored. -/
def ending? (r : Runner) : Option Ending :=
  match r.crash with
  | some crash => some (.crash crash)
  | none => if r.failed && !r.settings.ignoreErrors then some (.exit 1) else none

def statisticsOutput (s : Statistics) : List Output :=
  let line := fun (label value : String) => Output.out (label ++ "\t" ++ bright value ++ "\n")
  [.out ("\n" ++ styleCode "97" ++ styled "48;5;30" " STATISTICS. " ++ "\n"),
    line "step" (groupDigits (s.steps.getD 0)), line "call" (groupDigits (s.calls.getD 0)),
    .out ("time\t" ++ styleCode "97"), .elapsed, .out ("s" ++ styleCode "0" ++ "\n")]

/-- The exit status of a program that runs to its end: whether no script failed and no error was reported. -/
def exitCode (r : Runner) : Nat :=
  if r.failed || r.state.record.diagnostics.any (·.severity = .error) then 1 else 0

/-- The last output of a program that runs to its end. -/
def closing (r : Runner) : List Output :=
  match r.statistics with
  | some s => if 0 < r.finished then statisticsOutput s else []
  | none => []

/-! ### The prompt -/

def greeting : Output := .out "cmdsplice - Command expansion REPL; type Ctrl+C to exit.\n"

/-- The prompt changes while an invocation is not complete. -/
def prompt (buffer : String) : Output :=
  .out (styled "36" (if isAllSpace buffer then "<<< " else "... "))

def promptFile : String := "<REPL>"

/-- Whether a line asks to leave the prompt. -/
def leaves (line : String) : Bool := trim line = "quit" || trim line = "exit"

/-- Takes one line behind what was typed so far. A text that more input may complete is kept. What is typed nests no
deeper than the stack has room for. -/
def typeLine (r : Runner) (buffer line : String) : List Output × Runner × String :=
  if isAllSpace line then ([], r, buffer)
  else
    let source := buffer ++ line ++ "\n"
    match r.runText promptFile source with
    | (.ok results, output, r) => (output ++ resultOutput results, r, "")
    | (.error failure, output, r) =>
      if failure.isOpenEnded then (output, r, source)
      else
        let (output, r) := r.reportFailure failure output promptFile source
        (output, r, "")

end Runner

/-! ### Plans -/

/-- What lines of standard input are for. -/
inductive Reader where
  | prompt (buffer : String)
  /-- A whole script, of which the lines read so far are given last first. -/
  | script (isDump : Bool) (lines : List String)

/-- How far a plan has been carried out. -/
inductive Phase where
  | ended (ending : Ending)
  | waiting (runner : Runner) (reader : Reader) (rest : List Activity)

/-- The name of a script that is read from standard input. -/
def standardInputFile : String := "<stdin>"

/-- Goes on behind a script, unless its failure ends the program. -/
def goOn (step : List Output × Runner) (next : Runner → List Output × Phase) : List Output × Phase :=
  match step.2.ending? with
  | some ending => (step.1, .ended ending)
  | none =>
    let (output, phase) := next step.2
    (step.1 ++ output, phase)

/-- Carries out activities up to the first that waits for input. -/
def proceed (r : Runner) : List Activity → List Output × Phase
  | [] => (r.closing, .ended (.exit r.exitCode))
  | activity :: rest =>
    match activity with
    | .script file source => goOn (r.runScript file source false) (proceed · rest)
    | .inline code =>
      let source := String.ofList (trimEnd code.toList) ++ "\n"
      let file := "<INPUT_" ++ toString r.nextInline ++ ">"
      goOn ({ r with nextInline := r.nextInline + 1 }.runScript file source true) (proceed · rest)
    | .dump file source => goOn (r.dumpScript file source) (proceed · rest)
    | .repl => ([Runner.greeting, Runner.prompt ""], .waiting r (.prompt "") rest)
    | .standardInput => ([], .waiting r (.script false []) rest)
    | .dumpStandardInput => ([], .waiting r (.script true []) rest)
    | .unreadable crash => ([], .ended (.crash crash))

namespace Phase

/-- Takes a line of standard input with its line feed, or, with `none`, its end. -/
def advance (line : Option String) : Phase → List Output × Phase
  | ended ending => ([], ended ending)
  | waiting r (.prompt buffer) rest =>
    match line with
    | none =>
      let (output, phase) := proceed r rest
      (.out "\n" :: output, phase)
    | some line =>
      let line := String.ofList (line.toList.takeWhile (· ≠ '\n'))
      if Runner.leaves line then proceed r rest
      else
        let (output, r, buffer) := r.typeLine buffer line
        match r.crash with
        | some crash => (output, ended (.crash crash))
        | none => (output ++ [Runner.prompt buffer], waiting r (.prompt buffer) rest)
  | waiting r (.script isDump lines) rest =>
    match line with
    | some line => ([], waiting r (.script isDump (line :: lines)) rest)
    | none =>
      let source := String.join lines.reverse
      goOn (if isDump then r.dumpScript standardInputFile source else r.runScript standardInputFile source false)
        (proceed · rest)

/-- Takes a line or the end of standard input, and puts out what the settings make of the output. -/
def feed (line : Option String) : Phase → List Output × Phase
  | ended ending => ([], ended ending)
  | waiting r reader rest =>
    let (output, phase) := advance line (waiting r reader rest)
    (output.map (Runner.adapt r.settings), phase)

/-- How many activities have not ended. -/
def pending : Phase → Nat
  | ended _ => 0
  | waiting _ _ rest => rest.length + 1

end Phase

theorem pending_goOn {n : Nat} (step : List Output × Runner) {next : Runner → List Output × Phase}
    (h : ∀ r, (next r).2.pending ≤ n) : (goOn step next).2.pending ≤ n := by
  unfold goOn
  split
  · exact Nat.zero_le n
  · exact h step.2

theorem pending_proceed (r : Runner) (activities : List Activity) :
    (proceed r activities).2.pending ≤ activities.length := by
  induction activities generalizing r with
  | nil => exact Nat.le_refl 0
  | cons activity rest ih =>
    cases activity with
    | script | inline | dump => exact Nat.le_succ_of_le (pending_goOn _ ih)
    | repl | standardInput | dumpStandardInput => exact Nat.le_refl _
    | unreadable => exact Nat.zero_le _

namespace Phase

/-- The end of standard input ends the activity that waits for a line. -/
theorem pending_feed_none (r : Runner) (reader : Reader) (rest : List Activity) :
    (feed none (waiting r reader rest)).2.pending < (waiting r reader rest).pending := by
  cases reader with
  | prompt buffer => exact Nat.lt_succ_of_le (pending_proceed r rest)
  | script isDump lines => exact Nat.lt_succ_of_le (pending_goOn _ (pending_proceed · rest))

/-- What is left to do when no input is left. -/
def finish : Phase → List Output × Ending
  | ended ending => ([], ending)
  | waiting r reader rest =>
    let next := feed none (waiting r reader rest)
    let (output, ending) := finish next.2
    (next.1 ++ output, ending)
termination_by phase => phase.pending
decreasing_by exact pending_feed_none r reader rest

/-- Takes all lines of standard input, and its end as often as it is met. -/
def feedAll : List String → Phase → List Output × Ending
  | [], phase => phase.finish
  | line :: lines, phase =>
    let (output, phase) := phase.feed (some line)
    let (later, ending) := feedAll lines phase
    (output ++ later, ending)

end Phase

/-! ### The program -/

namespace HaltReason

def output : HaltReason → List Output
  | usage error => [.err error.render]
  | help subcommand => [.out subcommand.help]
  | crash _ => []

def ending : HaltReason → Ending
  | usage _ => .exit 2
  | help _ => .exit 0
  | crash reason => .crash reason

end HaltReason

/-- What the program does before it reads any input: it reports a mistake in its arguments, or carries out its plan
as far as it can. -/
def start (r : Request) : List Output × Phase :=
  let halt := fun (reason : HaltReason) (adapt : Output → Output) =>
    (reason.output.map adapt, Phase.ended reason.ending)
  let (options, arguments) := splitOptions r.arguments
  match chooseSubcommand r arguments with
  | .error reason => halt reason id
  | .ok (subcommand, arguments) =>
    match Settings.ofOptions options r.environment with
    | .error error => halt (.usage error) id
    | .ok settings =>
      match planSubcommand r subcommand arguments with
      | .error ⟨reason, late⟩ => halt reason (if late then Runner.adapt settings else id)
      | .ok plan =>
        let (output, phase) := proceed (.ofRequest r settings) plan
        (output.map (Runner.adapt settings), phase)

/-- All output of the program on the given standard input, and how it ends. -/
def run (r : Request) (input : String) : List Output × Ending :=
  let (output, phase) := start r
  let (later, ending) := phase.feedAll ((splitFeeds (readText input).toList).map String.ofList)
  (output ++ later, ending)

end CommandScript.CommandLine
