import CommandScript.Session.Evaluate
import Mathlib.Logic.Relation

/-! A session at work, one step after another. At every moment there is something that is being done, or that is over
and reports; what has to wait for it stands in a list, innermost first. A step looks at no more than the first that
waits. How deep evaluations nest is counted, and an evaluation that would nest too deep is refused, so nothing here
bounds how many steps there are. -/

namespace CommandScript.Running

open Text Syntax Code Command Machine Session

/-! ### Moments -/

/-- A program that is being evaluated: the scope its variables are read in, how far it is, and what is left of it. -/
structure Evaluation where
  program : Program
  scope : Scope
  onlyResolve : Bool
  step : Nat
  held : Stacks String
  rest : List Instruction

/-- What there is to do. -/
inductive Job (ω : Type) where
  | runScript (source : Source) (file : Option String) (verbosity : Nat) (statistics : Option Statistics)
  | expandScript (source : Source) (file : Option String)
  /-- Evaluates in the frame of whoever asks. -/
  | evaluateHere (p : Program) (onlyResolve : Bool)
  | execute (results : List String) (ps : List Program) (frame : Frame)
  | evaluate (p : Program) (frame : Frame) (onlyResolve : Bool)
  /-- Goes on with an evaluation. -/
  | goOn (e : Evaluation)
  | invoke (bound : Nat) (name : String) (arguments : List String)
  /-- Does what a host command does that was invoked with these arguments. -/
  | act (bound : Nat) (arguments : List String) (action : Action ω)

/-- What is handed back at the end. -/
inductive Report where
  /-- By a command, or for a request. -/
  | answer (result : Except Failure (List String))
  | evaluation (result : Except Failure (List String)) (frame : Frame)
  | execution (result : Except Failure (List String)) (frame : Frame)
  | script (result : Except Failure (List String)) (counted : Option Statistics)

inductive Stage (ω : Type) where
  | doing (job : Job ω)
  | reporting (report : Report)

/-- What waits for a report. -/
inductive Waiting (ω : Type) where
  /-- An evaluation, for the command of its next instruction. -/
  | command (e : Evaluation)
  /-- A list of programs, for the one in front of these. -/
  | programs (ps : List Program)
  /-- A function block with its body and what follows it, for its name and parameters. -/
  | block (opener : Program) (body rest : List Program)
  /-- A call, for the body of the function. -/
  | call
  /-- A script, for its programs; tracing and statistics are put back if it had its own. -/
  | script (before : Option (Nat × Option Statistics))
  /-- A frame that another evaluation was begun in. -/
  | here
  /-- A host command, for what it asked. -/
  | host (bound : Nat) (arguments : List String) (next : Except Failure (List String) → Action ω)
  /-- A request to run a script, for the script. -/
  | ran
  | measured

structure Moment (κ ω : Type) where
  stage : Stage ω
  waiting : List (Waiting ω) := []
  state : State κ ω

variable {κ ω : Type}

/-! ### Instructions -/

/-- The arguments that an instruction dispatches, if it dispatches a command. -/
def dispatched? (onlyResolve : Bool) (i : Instruction) (held : Stacks String) : Option (List String) :=
  let popped := fun n => match held.pop n with
    | .ok (operands, _) => some (List.flatten operands)
    | .error _ => none
  match i.operation with
  | .commandReference n => popped n
  | .call n => if onlyResolve then none else popped n
  | _ => none

/-- The surroundings of an evaluation whose command has answered. -/
def answering (cfg : Config) (host : Host κ ω) (scope : Scope) (reply : Except Failure (List String) × State κ ω) :
    Surroundings (State κ ω) :=
  { surroundings cfg host (fun _ frame _ s => (.ok [], frame, s)) scope with
    invoke := fun _ _ _ => (reply.1.map .texts, reply.2) }

namespace Evaluation

/-- The program as it is before its first instruction. -/
def ofProgram (p : Program) (scope : Scope) (onlyResolve : Bool) : Evaluation :=
  ⟨p, scope, onlyResolve, 0, {}, p.instructions⟩

/-- The end of an evaluation: its frame is taken from the stack. -/
def finish (e : Evaluation) (result : Except Failure (List String)) (s : State κ ω) : Stage ω × State κ ω :=
  (.reporting (.evaluation (result.mapError (reportExhaustion s.depth e.program)) s.currentFrame),
    { s with frames := s.frames.tail, depth := s.depth - 1 })

/-- What an instruction leads to. -/
def settle (e : Evaluation) (i : Instruction) (rest : List Instruction) :
    Except Failure (Progress String) × State κ ω → Stage ω × State κ ω
  | (.ok (.moved held), s) => (.doing (.goOn { e with step := e.step + 1, held, rest }), s)
  | (.ok (.resolved arguments), s) => e.finish (.ok arguments) s
  | (.error failure, s) => e.finish (.error (failure.attributeTo i)) s

end Evaluation

/-! ### Steps -/

section Steps

variable (cfg : Config) (host : Host κ ω)

/-- The step before an instruction, or at the end of a program. A command is left to be invoked. -/
def goOn (e : Evaluation) (s : State κ ω) : Stage ω × List (Waiting ω) × State κ ω :=
  let w := answering cfg host e.scope (.ok [], s)
  match e.rest with
  | [] =>
    let (result, s) := runFrom w e.onlyResolve e.step e.held [] s
    let (stage, s) := e.finish result s
    (stage, [], s)
  | i :: rest =>
    let s := w.observe (.stepping e.step (i :: rest) e.held) s
    match dispatched? e.onlyResolve i e.held with
    | some arguments =>
      (.doing (.invoke arguments.length (i.name.getD "") arguments), [.command e],
        w.observe (.dispatching i.commandLabel arguments) s)
    | none =>
      let (stage, s) := e.settle i rest (execute w e.onlyResolve rest.isEmpty i e.held s)
      (stage, [], s)

/-- The next thing that a host command does. -/
def act (bound : Nat) (arguments : List String) (s : State κ ω) : Action ω → Stage ω × List (Waiting ω) × State κ ω
  | .finish value => (.reporting (.answer (.ok value.results)), [], s)
  | .fail failure => (.reporting (.answer (.error failure)), [], s)
  | .update change next => (.doing (.act bound arguments next), [], { s with host := change s.host })
  | .ask request next =>
    let waiting := Waiting.host bound arguments next
    match request with
    | .run source file => (.doing (.runScript (.text source) file 0 none), [.ran, waiting], s)
    | .measure source => (.doing (.runScript (.text source) none 0 (some {})), [.measured, waiting], s)
    | .expand source => (.doing (.expandScript (.text source) none), [waiting], s)
    | .forward skip =>
      match bound, arguments.drop skip with
      | bound + 1, name :: rest => (.doing (.invoke bound name rest), [waiting], s)
      | _, _ => (.doing (.act bound arguments (next (.error nothingToForward))), [], s)
    | .define name parameters body =>
      let (result, s) := s.defineText cfg name parameters body
      (.doing (.act bound arguments (next result)), [], s)
    | .lookup name =>
      (.doing (.act bound arguments (next (.ok (s.store.lookup s.currentFrame.scope name).toList))), [], s)

def startScript (source : Source) (file : Option String) (verbosity : Nat) (statistics : Option Statistics)
    (s : State κ ω) : Stage ω × List (Waiting ω) × State κ ω :=
  match s.parse cfg source file with
  | (.error failure, s) => (.reporting (.script (.error failure) statistics), [], s)
  | (.ok script, s) =>
    if s.depth = 0 ∨ statistics.isSome then
      let inner := { s with verbosity, record := { s.record with statistics } }
      (.doing (.execute [] script.programs inner.topFrame), [.script (some (s.verbosity, s.record.statistics))], inner)
    else (.doing (.execute [] script.programs s.topFrame), [.script none], s)

def startExpansion (source : Source) (file : Option String) (s : State κ ω) :
    Stage ω × List (Waiting ω) × State κ ω :=
  match s.parse cfg source file with
  | (.error failure, s) => (.reporting (.answer (.error failure)), [], s)
  | (.ok script, s) =>
    match script.programs with
    | [p] => (.doing (.evaluateHere p true), [], s)
    | ps => (.reporting (.answer (.error { cause := .fault ⟨.invocationCount ps.length, ⟨1, 1, file⟩⟩ })), [], s)

/-- What is done for the next of some programs. -/
def startProgram (results : List String) (ps : List Program) (frame : Frame) : Stage ω × List (Waiting ω) :=
  match ps with
  | [] => (.reporting (.execution (.ok results) frame), [])
  | p :: ps =>
    if frame.returned then (.reporting (.execution (.ok results) frame), [])
    else if p.opensFunction then
      match splitBlock 0 ps with
      | none => (.reporting (.execution (.error { cause := .fault p.unclosedFunction }) frame), [])
      | some (body, rest) => (.doing (.evaluate p frame true), [.block p body rest])
    else (.doing (.evaluate p { frame with location := p.location } false), [.programs ps])

/-- Refuses an evaluation that would nest too deep. -/
def refusal (depth : Nat) (p : Program) : Failure := ⟨.nestingLimit cfg.maxDepth depth p.name, p.name, p.location⟩

/-- Begins an evaluation, or refuses it. -/
def startEvaluation (p : Program) (frame : Frame) (onlyResolve : Bool) (s : State κ ω) : Stage ω × State κ ω :=
  if cfg.maxDepth ≤ s.depth then (.reporting (.evaluation (.error (refusal cfg s.depth p)) frame), s)
  else if s.depth = 0 ∧ largestStack < stackAtRest + cfg.maxDepth * callsPerLevel then
    (.reporting (.evaluation (.error { cause := .limitTooLarge }) frame), s)
  else
    (.doing (.goOn (.ofProgram p frame.scope onlyResolve)),
      { s with frames := frame :: s.frames, depth := s.depth + 1 })

/-- Invokes a command: a built-in answers at once, others are begun. -/
def startInvocation (bound : Nat) (name : String) (arguments : List String) (s : State κ ω) :
    Stage ω × List (Waiting ω) × State κ ω :=
  match s.callee name arguments.length with
  | .error failure => (.reporting (.answer (.error failure)), [], s)
  | .ok (.builtin b) =>
    let (result, s) := performBuiltin cfg b s.currentFrame arguments s
    (.reporting (.answer result), [], s)
  | .ok (.script f) =>
    if arguments.length < f.parameters.length then
      (.reporting (.answer (.error (tooFewArguments f arguments.length))), [], s)
    else
      let (frame, s) := enterFunction f s.currentFrame arguments s
      (.doing (.execute [] f.body frame), [.call], s)
  | .ok (.host key) => (.doing (.act bound arguments (host key (s.hostCall arguments))), [], s)

/-- The first step of a job: what comes next, and what waits for that. -/
def start (s : State κ ω) : Job ω → Stage ω × List (Waiting ω) × State κ ω
  | .runScript source file verbosity statistics => startScript cfg source file verbosity statistics s
  | .expandScript source file => startExpansion cfg source file s
  | .evaluateHere p onlyResolve => (.doing (.evaluate p s.currentFrame onlyResolve), [.here], s)
  | .execute results ps frame =>
    let (stage, waiting) := startProgram results ps frame
    (stage, waiting, s)
  | .evaluate p frame onlyResolve =>
    let (stage, s) := startEvaluation cfg p frame onlyResolve s
    (stage, [], s)
  | .goOn e => goOn cfg host e s
  | .invoke bound name arguments => startInvocation cfg host bound name arguments s
  | .act bound arguments action => act cfg bound arguments s action

/-- What becomes of a report to what waits for it. -/
def resume (s : State κ ω) : Waiting ω → Report → Option (Stage ω × State κ ω)
  | .command e, .answer result =>
    match e.rest with
    | [] => none
    | i :: rest =>
      some (e.settle i rest (execute (answering cfg host e.scope (result, s)) e.onlyResolve rest.isEmpty i e.held s))
  | .programs ps, .evaluation (.ok results) frame => some (.doing (.execute results ps frame), s)
  | .programs _, .evaluation (.error failure) frame => some (.reporting (.execution (.error failure) frame), s)
  | .block _ body rest, .evaluation (.ok (name :: parameters)) frame =>
    some (.doing (.execute [] rest frame), s.define name parameters body)
  | .block opener _ _, .evaluation (.ok []) frame =>
    let failure := ⟨.functionWithoutName, "function", opener.location⟩
    some (.reporting (.execution (.error failure) frame), s)
  | .block .., .evaluation (.error failure) frame => some (.reporting (.execution (.error failure) frame), s)
  | .call, .execution result callee => some (.reporting (.answer (result.map fun _ => callee.result)), s)
  | .script none, .execution result _ => some (.reporting (.script result none), s)
  | .script (some (verbosity, statistics)), .execution result _ =>
    some (.reporting (.script result s.record.statistics),
      { s with verbosity, record := { s.record with statistics } })
  | .here, .evaluation result frame => some (.reporting (.answer result), s.replaceFrame frame)
  | .host bound arguments next, .answer result => some (.doing (.act bound arguments (next result)), s)
  | .ran, .script result _ => some (.reporting (.answer result), s)
  | .measured, .script (.ok _) counted =>
    let number := fun (field : Statistics → Option Nat) => toString ((counted.bind field).getD 0)
    some (.reporting (.answer (.ok [number Statistics.calls, number Statistics.steps])), s)
  | .measured, .script (.error failure) _ => some (.reporting (.answer (.error failure)), s)
  | _, _ => none

/-- The next moment. There is none when a report is made and nothing waits for it. -/
def Moment.next? (m : Moment κ ω) : Option (Moment κ ω) :=
  match m.stage, m.waiting with
  | .doing job, waiting =>
    let (stage, before, state) := start cfg host m.state job
    some ⟨stage, before ++ waiting, state⟩
  | .reporting _, [] => none
  | .reporting report, w :: waiting =>
    (resume cfg host m.state w report).map fun (stage, state) => ⟨stage, waiting, state⟩

/-- One moment leads to another in any number of steps. -/
abbrev Leads : Moment κ ω → Moment κ ω → Prop :=
  Relation.ReflTransGen fun m m' => m.next? cfg host = some m'

/-- The moment so many steps later, if there are that many. -/
def Moment.after : Nat → Moment κ ω → Option (Moment κ ω)
  | 0, m => some m
  | n + 1, m => (m.next? cfg host).bind (after n)

/-- A job that is begun in one state ends with a report in another. -/
def Ends (job : Job ω) (s : State κ ω) (report : Report) (t : State κ ω) : Prop :=
  Leads cfg host ⟨.doing job, [], s⟩ ⟨.reporting report, [], t⟩

end Steps

variable {cfg : Config} {host : Host κ ω}

/-! ### Runs -/

theorem Moment.after_succ (n : Nat) (m : Moment κ ω) :
    m.after cfg host (n + 1) = (m.after cfg host n).bind (Moment.next? cfg host) := by
  induction n generalizing m with
  | zero => exact Option.bind_fun_some (m.next? cfg host)
  | succ n ih =>
    rw [Moment.after, Moment.after]
    cases m.next? cfg host with
    | none => rfl
    | some m' => exact ih m'

theorem Leads.after {m m' : Moment κ ω} (h : Leads cfg host m m') : ∃ n, m.after cfg host n = some m' := by
  induction h using Relation.ReflTransGen.head_induction_on with
  | refl => exact ⟨0, rfl⟩
  | head hstep _ ih =>
    obtain ⟨n, hn⟩ := ih
    exact ⟨n + 1, by rw [Moment.after, hstep]; exact hn⟩

theorem leads_of_after {n : Nat} {m m' : Moment κ ω} (h : m.after cfg host n = some m') : Leads cfg host m m' := by
  induction n generalizing m with
  | zero =>
    cases h
    exact .refl
  | succ n ih =>
    obtain ⟨next, hnext, hafter⟩ := Option.bind_eq_some_iff.1 h
    exact .head hnext (ih hafter)

/-- There is one next moment at most, so what a moment leads to still leads to its end. -/
theorem Leads.to_end {m m' last : Moment κ ω} (h : Leads cfg host m m') (hlast : Leads cfg host m last)
    (hend : last.next? cfg host = none) : Leads cfg host m' last := by
  have unique : Relator.RightUnique fun m m' : Moment κ ω => m.next? cfg host = some m' :=
    fun _ _ _ h h' => Option.some.inj (h.symm.trans h')
  rcases Relation.ReflTransGen.total_of_right_unique unique h hlast with h | h
  · exact h
  · rcases Relation.ReflTransGen.cases_head h with rfl | ⟨_, hstep, _⟩
    · exact .refl
    · rw [hend] at hstep
      cases hstep

theorem Leads.end_unique {m last last' : Moment κ ω} (h : Leads cfg host m last) (h' : Leads cfg host m last')
    (hend : last.next? cfg host = none) (hend' : last'.next? cfg host = none) : last = last' := by
  rcases Relation.ReflTransGen.cases_head (h.to_end h' hend') with heq | ⟨_, hstep, _⟩
  · exact heq
  · rw [hend] at hstep
    cases hstep

/-! ### Steps with more waiting -/

/-- A moment with more that waits. -/
def Moment.before (m : Moment κ ω) (waiting : List (Waiting ω)) : Moment κ ω :=
  { m with waiting := m.waiting ++ waiting }

theorem next?_before {m m' : Moment κ ω} (h : m.next? cfg host = some m') (waiting : List (Waiting ω)) :
    (m.before waiting).next? cfg host = some (m'.before waiting) := by
  obtain ⟨stage, ws, s⟩ := m
  cases stage with
  | doing job =>
    obtain rfl := Option.some.inj h
    exact congrArg some (congrArg (Moment.mk _ · _) (List.append_assoc ..).symm)
  | reporting report =>
    cases ws with
    | nil => cases h
    | cons w ws =>
      obtain ⟨_, hr, rfl⟩ := Option.map_eq_some_iff.1 h
      simp only [Moment.next?, Moment.before, List.cons_append, hr, Option.map_some]

theorem Leads.before {m m' : Moment κ ω} (h : Leads cfg host m m') (waiting : List (Waiting ω)) :
    Leads cfg host (m.before waiting) (m'.before waiting) := by
  induction h with
  | refl => exact .refl
  | tail _ hstep ih => exact ih.tail (next?_before hstep waiting)

/-! ### Jobs from their first step -/

section Jobs

variable {job job' : Job ω} {s t u v : State κ ω} {stage : Stage ω} {r r' : Report} {w : Waiting ω}
  {ws : List (Waiting ω)} {m : Moment κ ω}

theorem Leads.resume (h : Running.resume cfg host s w r = some (stage, t)) (hm : Leads cfg host ⟨stage, ws, t⟩ m) :
    Leads cfg host ⟨.reporting r, w :: ws, s⟩ m := by
  refine .head ?_ hm
  simp only [Moment.next?, h, Option.map_some]

theorem Ends.of_report (h : start cfg host s job = (.reporting r, [], t)) : Ends cfg host job s r t := by
  refine .single ?_
  simp only [Moment.next?, h, List.append_nil]

theorem Ends.of_job (h : start cfg host s job = (.doing job', [], t)) (h' : Ends cfg host job' t r u) :
    Ends cfg host job s r u := by
  refine .head ?_ h'
  simp only [Moment.next?, h, List.append_nil]

/-- A job that first has another done. -/
theorem Ends.through (h : start cfg host s job = (.doing job', ws, t)) (h' : Ends cfg host job' t r u)
    (hr : Leads cfg host ⟨.reporting r, ws, u⟩ ⟨.reporting r', [], v⟩) : Ends cfg host job s r' v := by
  refine .head ?_ (.trans (h'.before ws) hr)
  simp only [Moment.next?, h, Moment.before, List.nil_append, List.append_nil]

end Jobs

end CommandScript.Running
