import CommandScript.Session.State

/-! Evaluating scripts in a session. Evaluations nest: a command reference may call a function, whose body is
evaluated in turn. How deep they may still nest is the one thing that the recursion is on, so every evaluation ends. -/

namespace CommandScript.Session

open Text Syntax Code Command Machine

variable {κ ω : Type}

/-- Evaluates one program in a frame, or only resolves its arguments. The frame comes back as commands left it, also
from an evaluation that fails. -/
abbrev Evaluator (κ ω : Type) :=
  Program → Frame → Bool → State κ ω → Except Failure (List String) × Frame × State κ ω

/-! ### Lists of programs -/

/-- Evaluates programs in order until they end or the frame returns. Function blocks are collected instead. The
results are those of the last program. -/
def executeFrom (ev : Evaluator κ ω) (results : List String) :
    List Program → Frame → State κ ω → Except Failure (List String) × Frame × State κ ω
  | [], frame, s => (.ok results, frame, s)
  | p :: ps, frame, s =>
    if frame.returned then (.ok results, frame, s)
    else if p.opensFunction then
      match _h : splitBlock 0 ps with
      | none => (.error { cause := .fault p.unclosedFunction }, frame, s)
      | some (body, rest) =>
        match ev p frame true s with
        | (.error failure, frame, s) => (.error failure, frame, s)
        | (.ok [], frame, s) =>
          (.error { cause := .functionWithoutName, name := "function", location := p.location }, frame, s)
        | (.ok (name :: parameters), frame, s) => executeFrom ev [] rest frame (s.define name parameters body)
    else
      match ev p { frame with location := p.location } false s with
      | (.ok results, frame, s) => executeFrom ev results ps frame s
      | (.error failure, frame, s) => (.error failure, frame, s)
termination_by ps => ps.length
decreasing_by
  · have := length_of_splitBlock _h
    simp; omega
  · simp

def execute (ev : Evaluator κ ω) (ps : List Program) (frame : Frame) (s : State κ ω) :
    Except Failure (List String) × Frame × State κ ω :=
  executeFrom ev [] ps frame s

/-- Evaluates a program in the frame of whoever asks, which is at top level if no evaluation is under way. -/
def evaluateHere (ev : Evaluator κ ω) (p : Program) (onlyResolve : Bool) : Task (State κ ω) (List String) := fun s =>
  let (result, frame, s) := ev p s.currentFrame onlyResolve s
  (result, s.replaceFrame frame)

/-- Runs a script at top level. It is traced and counted as asked if no evaluation is under way; if one is, only a
script that is counted by itself is, and is not traced. -/
def runScript (cfg : Config) (ev : Evaluator κ ω) (source : Source) (file : Option String) (verbosity : Nat)
    (statistics : Option Statistics) (s : State κ ω) :
    Except Failure (List String) × Option Statistics × State κ ω :=
  match s.parse cfg source file with
  | (.error failure, s) => (.error failure, statistics, s)
  | (.ok script, s) =>
    if s.depth = 0 ∨ statistics.isSome then
      let inner := { s with verbosity, record := { s.record with statistics } }
      let (result, _, after) := execute ev script.programs inner.topFrame inner
      (result, after.record.statistics,
        { after with verbosity := s.verbosity, record := { after.record with statistics := s.record.statistics } })
    else
      let (result, _, after) := execute ev script.programs s.topFrame s
      (result, none, after)

/-- Resolves the arguments of the one invocation of a script. -/
def expandScript (cfg : Config) (ev : Evaluator κ ω) (source : Source) (file : Option String) :
    Task (State κ ω) (List String) := fun s =>
  match s.parse cfg source file with
  | (.error failure, s) => (.error failure, s)
  | (.ok script, s) =>
    match script.programs with
    | [p] => evaluateHere ev p true s
    | ps => (.error { cause := .fault ⟨.invocationCount ps.length, ⟨1, 1, file⟩⟩ }, s)

/-! ### Commands -/

/-- The variables that a function finds bound: the number of its arguments, all of them, those without a parameter,
each by its number, and the parameters. Later ones win. -/
def argumentBindings (f : ScriptFunction) (arguments : List String) : List (String × String) :=
  [("ARGC", toString arguments.length), ("ARGV", ItemList.join arguments),
    ("ARGN", ItemList.join (arguments.drop f.parameters.length))] ++
  arguments.mapIdx (fun i argument => ("ARGV" ++ toString i, argument)) ++ f.parameters.zip arguments

/-- The frame of a call, in a scope inside the caller's, and the state in which the arguments are bound there. -/
def enterFunction (f : ScriptFunction) (caller : Frame) (arguments : List String) (s : State κ ω) :
    Frame × State κ ω :=
  let (scope, store) := s.store.child caller.scope
  let store := (argumentBindings f arguments).foldl (fun st (name, value) => st.set scope name value) store
  ({ scope, function := f.name }, { s with store })

/-- Refuses a call with fewer arguments than the function has parameters. -/
def tooFewArguments (f : ScriptFunction) (given : Nat) : Failure :=
  { cause := .tooFewParameters f.name f.parameters.length given, name := f.name }

/-- Calls a function in a frame of its own. Its results are those it returns. -/
def callFunction (ev : Evaluator κ ω) (f : ScriptFunction) (caller : Frame) (arguments : List String) :
    Task (State κ ω) (List String) := fun s =>
  if arguments.length < f.parameters.length then (.error (tooFewArguments f arguments.length), s)
  else
    let (frame, s) := enterFunction f caller arguments s
    let (result, callee, s) := execute ev f.body frame s
    (result.map fun _ => callee.result, s)

/-- Performs a built-in in a frame, which is the innermost one if there is any. -/
def performBuiltin (cfg : Config) (b : Builtin) (frame : Frame) (arguments : List String) :
    Task (State κ ω) (List String) := fun s =>
  let (result, desk) := b.perform cfg.processEnvironment arguments ⟨frame, s.store, s.record⟩
  (result, { s.replaceFrame desk.frame with store := desk.store, record := desk.record })

/-- Answers a request of a host command, given how to forward an invocation. -/
def answer (cfg : Config) (ev : Evaluator κ ω) (forward : Nat → Task (State κ ω) (List String)) :
    Request → Task (State κ ω) (List String)
  | .run source file, s =>
    let (result, _, s) := runScript cfg ev (.text source) file 0 none s
    (result, s)
  | .measure source, s =>
    match runScript cfg ev (.text source) none 0 (some {}) s with
    | (.ok _, counted, s) =>
      let number := fun (field : Statistics → Option Nat) => toString ((counted.bind field).getD 0)
      (.ok [number Statistics.calls, number Statistics.steps], s)
    | (.error failure, _, s) => (.error failure, s)
  | .expand source, s => expandScript cfg ev (.text source) none s
  | .forward skip, s => forward skip s
  | .define function parameters body, s => s.defineText cfg function parameters body
  | .lookup name, s => (.ok (s.store.lookup s.currentFrame.scope name).toList, s)

/-- Does what a host command does. -/
def performAction (cfg : Config) (ev : Evaluator κ ω) (forward : Nat → Task (State κ ω) (List String)) :
    Action ω → Task (State κ ω) (List String)
  | .finish value, s => (.ok value.results, s)
  | .fail failure, s => (.error failure, s)
  | .update change next, s => performAction cfg ev forward next { s with host := change s.host }
  | .ask request next, s =>
    let (result, s) := answer cfg ev forward request s
    performAction cfg ev forward (next result) s

/-- How the command of a name is carried out, for so many arguments. -/
def State.callee (s : State κ ω) (name : String) (given : Nat) : Except Failure (Implementation κ) :=
  match s.library.get name none with
  | .error failure => .error failure
  | .ok entry =>
    match entry.checkArity given with
    | .error failure => .error failure
    | .ok () => .ok entry.body

/-- What a host command is told of its invocation. -/
def State.hostCall (s : State κ ω) (arguments : List String) : HostCall :=
  ⟨arguments, s.currentFrame.function, s.currentFrame.location, s.depth⟩

/-- Refuses to forward an invocation that has too few arguments for that. -/
def nothingToForward : Failure := { cause := .host "IndexError" "list index out of range" }

/-- Invokes a command, given how a host command would forward the invocation. -/
def invokeWith (cfg : Config) (host : Host κ ω) (ev : Evaluator κ ω) (forward : Nat → Task (State κ ω) (List String))
    (name : String) (arguments : List String) : Task (State κ ω) (List String) := fun s =>
  match s.callee name arguments.length with
  | .error failure => (.error failure, s)
  | .ok (.builtin b) => performBuiltin cfg b s.currentFrame arguments s
  | .ok (.script f) => callFunction ev f s.currentFrame arguments s
  | .ok (.host key) => performAction cfg ev forward (host key (s.hostCall arguments)) s

/-- Invokes a command. A host command that forwards its invocation has fewer arguments to pass on each time, so
`bound`, their number, is never used up. -/
def invokeWithin (cfg : Config) (host : Host κ ω) (ev : Evaluator κ ω) :
    (bound : Nat) → String → List String → Task (State κ ω) (List String)
  | 0, name, arguments => invokeWith cfg host ev (fun _ s => (.error nothingToForward, s)) name arguments
  | bound + 1, name, arguments =>
    let forward := fun skip =>
      match arguments.drop skip with
      | name :: rest => invokeWithin cfg host ev bound name rest
      | [] => fun s => (.error nothingToForward, s)
    invokeWith cfg host ev forward name arguments

def invoke (cfg : Config) (host : Host κ ω) (ev : Evaluator κ ω) (name : String) (arguments : List String) :
    Task (State κ ω) (List String) :=
  invokeWithin cfg host ev arguments.length name arguments

/-! ### Programs -/

/-- What the machine sees of a session while it runs a program in a scope. -/
def surroundings (cfg : Config) (host : Host κ ω) (ev : Evaluator κ ω) (scope : Scope) :
    Surroundings (State κ ω) where
  lookup space name s :=
    match space with
    | .plain => s.store.lookup scope name
    | .environment => s.store.lookupEnvironment name
    | .cache => s.store.lookupCache scope name
  invoke name arguments s :=
    match invoke cfg host ev (name.getD "") arguments s with
    | (.ok results, s) => (.ok (.texts results), s)
    | (.error failure, s) => (.error failure, s)
  observe notice s :=
    let watch := { verbosity := s.verbosity, warnUndefined := cfg.warnUninitialized }
    { s with record := s.record.observe watch notice }

/-- Running out of stack is reported by the evaluation in which it happened. -/
def reportExhaustion (depth : Nat) (p : Program) (failure : Failure) : Failure :=
  match failure.cause with
  | .hostExhausted => { cause := .stackExhausted depth p.name, name := p.name, location := p.location }
  | _ => failure

/-- Evaluates programs that may nest `remaining` deep. The programs of a session are of texts, as all programs are that
are read; `Machine.runMixed`, which also allows for numbers, comes to the same on them (`Machine.runMixed_eq_run`). -/
def evaluator (cfg : Config) (host : Host κ ω) : (remaining : Nat) → Evaluator κ ω
  | 0, p, frame, _, s =>
    (.error { cause := .nestingLimit cfg.maxDepth s.depth p.name, name := p.name, location := p.location }, frame, s)
  | remaining + 1, p, frame, onlyResolve, s =>
    let inner := { s with frames := frame :: s.frames, depth := s.depth + 1 }
    let world := surroundings cfg host (evaluator cfg host remaining) frame.scope
    let (result, after) := Machine.run world onlyResolve p.instructions inner
    (result.mapError (reportExhaustion after.depth p), after.currentFrame,
      { after with frames := after.frames.tail, depth := after.depth - 1 })

/-! ### Sessions -/

/-- How many calls the stack has room for when nothing is evaluated, how many are kept free for each level of nesting,
and the largest stack there can be. -/
def stackAtRest : Int := 1000
def callsPerLevel : Int := 12
def largestStack : Int := 0x7fffffff

/-- Evaluates programs of a session that is at rest. Room is made for every allowed level first. -/
def evaluate (cfg : Config) (host : Host κ ω) : Evaluator κ ω := fun p frame onlyResolve s =>
  if largestStack < stackAtRest + cfg.maxDepth * callsPerLevel then (.error { cause := .limitTooLarge }, frame, s)
  else evaluator cfg host cfg.maxDepth.toNat p frame onlyResolve s

def State.run (cfg : Config) (host : Host κ ω) (source : Source) (file : Option String) (verbosity : Nat)
    (statistics : Option Statistics) (s : State κ ω) :
    Except Failure (List String) × Option Statistics × State κ ω :=
  runScript cfg (evaluate cfg host) source file verbosity statistics s

def State.expand (cfg : Config) (host : Host κ ω) (source : Source) (file : Option String) :
    Task (State κ ω) (List String) :=
  expandScript cfg (evaluate cfg host) source file

/-- Evaluates a list of programs at top level. -/
def State.execute (cfg : Config) (host : Host κ ω) (ps : List Program) : Task (State κ ω) (List String) := fun s =>
  let (result, _, s) := Session.execute (evaluate cfg host) ps s.topFrame s
  (result, s)

def State.evaluate (cfg : Config) (host : Host κ ω) (p : Program) (onlyResolve : Bool) :
    Task (State κ ω) (List String) :=
  evaluateHere (Session.evaluate cfg host) p onlyResolve

def State.invoke (cfg : Config) (host : Host κ ω) (name : String) (arguments : List String) :
    Task (State κ ω) (List String) :=
  Session.invoke cfg host (Session.evaluate cfg host) name arguments

end CommandScript.Session
