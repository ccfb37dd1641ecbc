import CommandScript.Proofs.Evaluation.Heights
import CommandScript.Proofs.Grammar.Linearisation
import CommandScript.Proofs.Running.Carrying
import CommandScript.Proofs.Running.Programs
import CommandScript.Proofs.Running.Returning
import Mathlib.Algebra.GroupWithZero.Nat

/-! What the statistics of a run count. They stand in the record from the first program of the script to the last, and
evaluations on every level add to them there: one for each command that answers and lets its evaluation go on, and, at
the end of a program, as many as that has instructions. Evaluations that are broken off add no steps. A script that a
host command runs on the way is counted along, unless it is asked to be counted by itself. -/

namespace CommandScript

open Text Syntax Code Command Machine

/-! ### Records -/

namespace Machine

/-- Statistics with more calls, and with the steps of more programs. What was not counted before and is not counted now
stays absent. -/
def Statistics.grown (s : Statistics) (calls : Nat) (steps : List Nat) : Statistics where
  calls := if calls = 0 then s.calls else some (s.calls.getD 0 + calls)
  steps := if steps = [] then s.steps else some (s.steps.getD 0 + steps.sum)

theorem Statistics.grown_addCall (s : Statistics) (calls : Nat) (steps : List Nat) :
    s.addCall.grown calls steps = s.grown (calls + 1) steps := by
  by_cases h : calls = 0
  · simp [grown, addCall, h]
  · simp [grown, addCall, h, Nat.add_assoc, Nat.add_comm 1]

theorem Statistics.grown_addSteps (s : Statistics) (n calls : Nat) (steps : List Nat) :
    (s.addSteps n).grown calls steps = s.grown calls (n :: steps) := by
  by_cases h : steps = []
  · simp [grown, addSteps, h]
  · simp [grown, addSteps, h, Nat.add_assoc]

/-- What a notice adds to statistics. -/
def Notice.count : Notice → Statistics → Statistics
  | .dispatched, s => s.addCall
  | .completed n, s => s.addSteps n
  | _, s => s

theorem Record.statistics_observe (watch : Watch) (r : Record) (notice : Notice) :
    (r.observe watch notice).statistics = r.statistics.map notice.count := by
  have same : r.statistics = r.statistics.map fun s => s := Option.map_id'.symm
  cases notice with
  | dispatched | completed => rfl
  | dispatching | stepping | finished | recovered | «undefined» =>
    simp only [observe]
    repeat' split
    all_goals exact same

end Machine

/-! ### Programs -/

/-- A program that has a call. -/
def Code.Program.IsCalling (p : Program) : Prop := ∃ i ∈ p.instructions, Grammar.isCall i

/-! ### Host commands -/

namespace Session

/-- What a host command does that never has a script counted by itself. -/
inductive Action.SharesStatistics {ω : Type} : Action ω → Prop where
  | finish (value : Value) : SharesStatistics (.finish value)
  | fail (failure : Failure) : SharesStatistics (.fail failure)
  | update (change : ω → ω) {next : Action ω} (h : SharesStatistics next) : SharesStatistics (.update change next)
  | ask {request : Request} (hr : ∀ source, request ≠ .measure source) {next : Except Failure (List String) → Action ω}
    (h : ∀ result, SharesStatistics (next result)) : SharesStatistics (.ask request next)

/-- A host whose commands leave all counting to the run they are part of. -/
def Host.SharesStatistics {κ ω : Type} (host : Host κ ω) : Prop := ∀ key call, (host key call).SharesStatistics

/-- The rules of host commands that share statistics. -/
def sharing {ω : Type} : Discipline ω where
  allows := Action.SharesStatistics
  awaits next := ∀ result, (next result).SharesStatistics
  raises _ := True
  fail _ := trivial
  update := fun (.update _ h) => h
  ask := fun (.ask _ h) => h
  answer h _ := h _
  ordinary _ := trivial

end Session

namespace Running

open Session
open Grammar (isCall)

variable {κ ω : Type} {cfg : Config} {host : Host κ ω}

/-! ### What is counted -/

/-- At this moment a command that was dispatched has answered, or has failed in a way that lets its evaluation go on. -/
def Moment.isAnswered (m : Moment κ ω) : Bool :=
  match m.stage, m.waiting with
  | .reporting (.answer (.ok _)), .command _ :: _ => true
  | .reporting (.answer (.error failure)), .command _ :: _ => !failure.cause.isFatal
  | _, _ => false

/-- The evaluation that has come to the end of its program at this moment. -/
def Moment.completed? (m : Moment κ ω) : Option Evaluation :=
  match m.stage with
  | .doing (.goOn e) => if e.rest.isEmpty then some e else none
  | _ => none

/-- How many instructions the programs have that were evaluated to their end. -/
def completions (ms : List (Moment κ ω)) : List Nat :=
  ms.filterMap fun m => m.completed?.map fun e => e.program.instructions.length

/-- What a moment adds to statistics. -/
def Moment.count (m : Moment κ ω) (s : Statistics) : Statistics :=
  let s := if m.isAnswered then s.addCall else s
  match m.completed? with
  | some e => s.addSteps e.program.instructions.length
  | none => s

/-- What the moments of a run add to statistics. -/
def counted (ms : List (Moment κ ω)) (s : Statistics) : Statistics :=
  s.grown (ms.countP Moment.isAnswered) (completions ms)

theorem counted_cons (m : Moment κ ω) (ms : List (Moment κ ω)) (s : Statistics) :
    counted (m :: ms) s = counted ms (m.count s) := by
  have hcalls : (m :: ms).countP Moment.isAnswered =
      ms.countP Moment.isAnswered + if m.isAnswered then 1 else 0 := List.countP_cons ..
  have hsteps : completions (m :: ms) =
      (m.completed?.map fun e => e.program.instructions.length).toList ++ completions ms := by
    unfold completions
    rw [List.filterMap_cons]
    cases m.completed? <;> rfl
  unfold counted Moment.count
  rw [hcalls, hsteps]
  cases m.isAnswered <;> cases m.completed? <;>
    simp [Statistics.grown_addCall, Statistics.grown_addSteps]

/-! ### Instructions -/

section Instructions

variable (cfg host) (scope : Scope) {onlyResolve : Bool} (isLast : Bool) {i : Instruction} {held : Stacks String}

/-- An instruction that dispatches nothing counts nothing. -/
theorem statistics_execute_undispatched (h : dispatched? onlyResolve i held = none)
    (reply : Except Failure (List String) × State κ ω) (s : State κ ω) :
    (Machine.execute (answering cfg host scope reply) onlyResolve isLast i held s).2.record.statistics =
      s.record.statistics := by
  have referred (name : String) :
      (reference (answering cfg host scope reply) i name s).2.record.statistics = s.record.statistics := by
    unfold reference
    split
    · rfl
    · exact (Record.statistics_observe ..).trans Option.map_id'
  unfold dispatched? at h
  unfold Machine.execute
  cases hop : i.operation with
  | literal | irregular => rfl
  | «variable» | quoted | unquoted =>
    simp only
    repeat' split
    all_goals first
      | exact referred _
      | rfl
  | commandReference n =>
    simp only [hop] at h ⊢
    cases hp : held.pop n with
    | error => rfl
    | ok => simp [hp] at h
  | call n =>
    simp only [hop] at h ⊢
    cases hp : held.pop n with
    | error => rfl
    | ok =>
      cases onlyResolve with
      | false => simp [hp] at h
      | true => cases isLast <;> rfl

/-- An instruction whose command has answered counts that, unless its evaluation is broken off. -/
theorem statistics_execute_dispatched {arguments : List String} (h : dispatched? onlyResolve i held = some arguments)
    (result : Except Failure (List String)) (e : Evaluation) (ws : List (Waiting ω)) (s : State κ ω) :
    (Machine.execute (answering cfg host scope (result, s)) onlyResolve isLast i held s).2.record.statistics =
      s.record.statistics.map (⟨.reporting (.answer result), .command e :: ws, s⟩ : Moment κ ω).count := by
  obtain ⟨st, hst⟩ := execute_eq_dispatch (σ := State κ ω) h
  rw [hst]
  cases result with
  | ok values => rfl
  | error failure =>
    cases hfatal : failure.cause.isFatal with
    | false =>
      have hrefusal : failure.cause.isRefusal = true := isRefusal_of_isFatal hfatal
      have hcause : (failure.completeFrom i).cause.isFatal = false := hfatal
      simp only [dispatch, answering, Except.map, hrefusal, if_true, hcause, Bool.false_eq_true, if_false]
      simp only [surroundings, Record.statistics_observe, Option.map_map]
      refine congrArg (Option.map · s.record.statistics) (funext fun a => ?_)
      simp [Moment.count, Moment.isAnswered, Moment.completed?, Notice.count, hfatal]
    | true =>
      have hcause : (failure.completeFrom i).cause.isFatal = true := hfatal
      have hcount : (⟨.reporting (.answer (.error failure)), .command e :: ws, s⟩ : Moment κ ω).count = id := by
        funext a
        simp [Moment.count, Moment.isAnswered, Moment.completed?, hfatal]
      rw [hcount, Option.map_id]
      cases hrefusal : failure.cause.isRefusal with
      | false =>
        simp only [dispatch, answering, Except.map, hrefusal, Bool.false_eq_true, if_false]
        rfl
      | true =>
        simp only [dispatch, answering, Except.map, hrefusal, if_true, hcause]
        rfl

end Instructions

/-! ### Evaluations on their way -/

/-- The evaluation has come as far as it says. Its stacks hold one operand for each finished sub-expression, and if it
only resolves then there was no call so far. -/
structure Evaluation.IsOnTrack (e : Evaluation) : Prop where
  held : ∃ operands, e.held = Stacks.holding operands
  program : ∃ done, e.program.instructions = done ++ e.rest ∧ done.length = e.step ∧
    (e.onlyResolve → ∀ i ∈ done, isCall i = false)

/-- What may wait while a run counts, apart from evaluations, if so many of those wait behind it. -/
def Waiting.SharesStatistics (evaluations : Nat) : Waiting ω → Prop
  | .host .. => 0 < evaluations
  | .command _ | .script (some _) | .measured => False
  | _ => True

/-- What waits while a run counts. The script comes last, with what there was to be put back, and so many of the others
are evaluations. -/
inductive Tallied (before : Nat × Option Statistics) : List (Waiting ω) → Nat → Prop where
  | script : Tallied before [.script (some before)] 0
  | command {e : Evaluation} {ws : List (Waiting ω)} {n : Nat} (he : e.IsOnTrack) (hd : e.Dispatches)
    (h : Tallied before ws n) : Tallied before (.command e :: ws) (n + 1)
  | other {w : Waiting ω} {ws : List (Waiting ω)} {n : Nat} (hw : w.SharesStatistics n) (h : Tallied before ws n) :
    Tallied before (w :: ws) n

/-- What may be done while a run counts, if so many evaluations wait. -/
def Job.SharesStatistics (evaluations : Nat) : Job ω → Prop
  | .runScript _ _ _ statistics => 0 < evaluations ∧ statistics = none
  | .act .. | .invoke .. => 0 < evaluations
  | .goOn _ => False
  | _ => True

/-- What is done or reported while a run counts, with what waits for it and how deep evaluations nest. -/
inductive Counting (before : Nat × Option Statistics) : Stage ω → List (Waiting ω) → Nat → Prop where
  | goOn {e : Evaluation} {ws : List (Waiting ω)} {n : Nat} (he : e.IsOnTrack) (h : Tallied before ws n) :
    Counting before (.doing (.goOn e)) ws (n + 1)
  | job {job : Job ω} {ws : List (Waiting ω)} {n : Nat} (hjob : job.SharesStatistics n) (h : Tallied before ws n) :
    Counting before (.doing job) ws n
  | report {r : Report} {ws : List (Waiting ω)} {n : Nat} (h : Tallied before ws n) :
    Counting before (.reporting r) ws n

/-- A moment in which a run counts. -/
def Moment.IsCounting (before : Nat × Option Statistics) (m : Moment κ ω) : Prop :=
  Counting before m.stage m.waiting m.state.depth

/-- The next moment still counts, and what this one counts has been added. -/
def Moment.Counts (before : Nat × Option Statistics) (m m' : Moment κ ω) : Prop :=
  m'.IsCounting before ∧ m'.state.record.statistics = m.state.record.statistics.map m.count

theorem isCall_of_moved {σ : Type} {w : Surroundings σ} {isLast : Bool} {i : Instruction} {held held' : Stacks String}
    {s t : σ} (h : Machine.execute w true isLast i held s = (.ok (.moved held'), t)) : isCall i = false := by
  unfold isCall
  unfold Machine.execute at h
  cases hop : i.operation with
  | call n =>
    simp only [hop] at h
    cases hp : held.pop n with
    | error => simp [hp] at h
    | ok => cases isLast <;> simp [hp] at h
  | _ => rfl

variable {before : Nat × Option Statistics} {ws : List (Waiting ω)} {n : Nat} {s t : State κ ω}

namespace Moment.IsCounting

theorem of_goOn {e : Evaluation} (he : e.IsOnTrack) (h : Tallied before ws n) (hdepth : s.depth = n + 1) :
    (⟨.doing (.goOn e), ws, s⟩ : Moment κ ω).IsCounting before := by
  rw [Moment.IsCounting, hdepth]
  exact .goOn he h

theorem of_job {job : Job ω} (hjob : job.SharesStatistics n) (h : Tallied before ws n) (hdepth : s.depth = n) :
    (⟨.doing job, ws, s⟩ : Moment κ ω).IsCounting before := by
  rw [Moment.IsCounting, hdepth]
  exact .job hjob h

theorem of_report (r : Report) (h : Tallied before ws n) (hdepth : s.depth = n) :
    (⟨.reporting r, ws, s⟩ : Moment κ ω).IsCounting before := by
  rw [Moment.IsCounting, hdepth]
  exact .report h

end Moment.IsCounting

open Moment (IsCounting)

namespace Evaluation

theorem record_settle (e : Evaluation) (i : Instruction) (rest : List Instruction)
    (x : Except Failure (Progress String) × State κ ω) : (e.settle i rest x).2.record = x.2.record := by
  match x with
  | (.ok (.moved _), _) | (.ok (.resolved _), _) | (.error _, _) => rfl

/-- The end of an evaluation leaves what waits behind it. -/
theorem isCounting_finish (e : Evaluation) (result : Except Failure (List String)) (hws : Tallied before ws n)
    (hdepth : t.depth = n + 1) :
    (⟨(e.finish result t).1, ws, (e.finish result t).2⟩ : Moment κ ω).IsCounting before :=
  .of_report _ hws (Nat.sub_eq_of_eq_add hdepth)

/-- An instruction leaves its evaluation on track, or ends it. -/
theorem IsOnTrack.settle {e : Evaluation} (he : e.IsOnTrack) {i : Instruction} {rest : List Instruction}
    (hrest : e.rest = i :: rest) (w : Surroundings (State κ ω)) (hws : Tallied before ws n)
    (hdepth : (Machine.execute w e.onlyResolve rest.isEmpty i e.held s).2.depth = n + 1) :
    let r := e.settle i rest (Machine.execute w e.onlyResolve rest.isEmpty i e.held s)
    (⟨r.1, ws, r.2⟩ : Moment κ ω).IsCounting before := by
  obtain ⟨⟨operands, hheld⟩, done, hprogram, hstep, hcalls⟩ := he
  generalize hx : Machine.execute w e.onlyResolve rest.isEmpty i e.held s = x at hdepth
  match x with
  | (.ok (.moved held), t) =>
    refine .of_goOn ⟨?_, done ++ [i], ?_, ?_, ?_⟩ hws hdepth
    · obtain ⟨-, hshort⟩ | ⟨below, taken, -, -, heffect⟩ :=
        execute_holding w e.onlyResolve rest.isEmpty i operands s
      · rw [← hheld, hx] at hshort
        cases hshort
      · rw [← hheld, hx] at heffect
        cases heffect
        exact ⟨_, rfl⟩
    · rw [hprogram, hrest, List.append_assoc, List.singleton_append]
    · rw [List.length_append, hstep, List.length_singleton]
    · intro hmode
      rw [List.forall_mem_append, List.forall_mem_singleton]
      rw [show e.onlyResolve = true from hmode] at hx
      exact ⟨hcalls hmode, isCall_of_moved hx⟩
  | (.ok (.resolved arguments), t) => exact e.isCounting_finish (.ok arguments) hws hdepth
  | (.error failure, t) => exact e.isCounting_finish (.error (failure.attributeTo i)) hws hdepth

end Evaluation

/-! ### Steps -/

theorem Moment.Counts.same {m m' : Moment κ ω} (hm : m'.IsCounting before) (hanswered : m.isAnswered = false)
    (hcompleted : m.completed? = none) (h : m'.state.record.statistics = m.state.record.statistics) :
    m.Counts before m' := by
  have hcount : m.count = id := by
    funext a
    simp [Moment.count, hanswered, hcompleted]
  exact ⟨hm, by rw [hcount, Option.map_id, h]; rfl⟩

theorem goOn_counts {e : Evaluation} (he : e.IsOnTrack) (hws : Tallied before ws n) (hdepth : s.depth = n + 1) :
    let r := goOn cfg host e s
    (⟨.doing (.goOn e), ws, s⟩ : Moment κ ω).Counts before ⟨r.1, r.2.1 ++ ws, r.2.2⟩ := by
  cases hrest : e.rest with
  | nil =>
    obtain ⟨⟨operands, hheld⟩, done, hprogram, hstep, -⟩ := he
    have hlength : e.step = e.program.instructions.length := by rw [hprogram, hrest, List.append_nil, hstep]
    simp only [goOn, hrest, runFrom, hheld, Stacks.total_counts_holding, if_true]
    refine ⟨e.isCounting_finish _ hws hdepth, ?_⟩
    simp only [Evaluation.finish, answering, surroundings, Record.statistics_observe, Option.map_map]
    refine congrArg (Option.map · s.record.statistics) (funext fun a => ?_)
    simp [Moment.count, Moment.isAnswered, Moment.completed?, Notice.count, hrest, hlength]
  | cons i rest =>
    have hcompleted : (⟨.doing (.goOn e), ws, s⟩ : Moment κ ω).completed? = none := by
      simp [Moment.completed?, hrest]
    have watched (notice : Notice) (h : notice.count = id) (s : State κ ω) :
        ((answering cfg host e.scope (.ok [], s)).observe notice s).record.statistics = s.record.statistics := by
      refine (Record.statistics_observe ..).trans ?_
      rw [h, Option.map_id]
      rfl
    cases hd : dispatched? e.onlyResolve i e.held with
    | some arguments =>
      simp only [goOn, hrest, hd]
      refine .same (.of_job (Nat.succ_pos n) (.command he ⟨i, rest, arguments, hrest, hd⟩ hws) hdepth) rfl hcompleted ?_
      exact (watched (.dispatching ..) rfl _).trans (watched (.stepping ..) rfl s)
    | none =>
      simp only [goOn, hrest, hd]
      let w := answering cfg host e.scope (.ok [], s)
      obtain ⟨record, hrecord⟩ := execute_answering cfg host e.scope (.ok []) s e.onlyResolve rest.isEmpty i e.held
        (w.observe (.stepping e.step (i :: rest) e.held) s).record
      refine .same (he.settle hrest w hws ?_) rfl hcompleted ?_
      · exact (congrArg State.depth hrecord).trans hdepth
      · rw [e.record_settle]
        exact (statistics_execute_undispatched cfg host e.scope _ hd _ _).trans (watched (.stepping ..) rfl s)

theorem resume_command_counts {e : Evaluation} (he : e.IsOnTrack) (hd : e.Dispatches) (hws : Tallied before ws n)
    (hdepth : s.depth = n + 1) {result : Except Failure (List String)} {stage : Stage ω}
    (h : resume cfg host s (.command e) (.answer result) = some (stage, t)) :
    (⟨.reporting (.answer result), .command e :: ws, s⟩ : Moment κ ω).Counts before ⟨stage, ws, t⟩ := by
  obtain ⟨i, rest, arguments, hrest, hd⟩ := hd
  simp only [resume, hrest, Option.some.injEq] at h
  obtain ⟨record, hrecord⟩ := execute_answering cfg host e.scope result s e.onlyResolve rest.isEmpty i e.held s.record
  have hsettle := he.settle hrest (answering cfg host e.scope (result, s)) hws (s := s)
    ((congrArg State.depth hrecord).trans hdepth)
  have hstatistics := statistics_execute_dispatched cfg host e.scope rest.isEmpty hd result e ws s
  rw [← e.record_settle i rest, h] at hstatistics
  rw [h] at hsettle
  exact ⟨hsettle, hstatistics⟩

/-- Evaluations nest as deep as before, and nothing more is counted. -/
structure CountsAlike (s t : State κ ω) : Prop where
  depth : t.depth = s.depth
  statistics : t.record.statistics = s.record.statistics

theorem countsAlike_parse (cfg : Config) (source : Source) (file : Option String) (s : State κ ω) :
    CountsAlike s (s.parse cfg source file).2 := ⟨rfl, rfl⟩

theorem countsAlike_defineText (cfg : Config) (name : String) (parameters : List String) (body : String)
    (s : State κ ω) : CountsAlike s (s.defineText cfg name parameters body).2 := by
  have hread := countsAlike_parse cfg (.text body) (some ("<function:" ++ name ++ ">")) s
  unfold State.defineText
  split <;> rename_i heq <;> rw [heq] at hread
  · exact ⟨hread.depth, hread.statistics⟩
  · exact hread

theorem countsAlike_replaceFrame (s : State κ ω) (frame : Frame) : CountsAlike s (s.replaceFrame frame) := by
  unfold State.replaceFrame
  cases s.frames <;> exact ⟨rfl, rfl⟩

theorem countsAlike_performBuiltin (cfg : Config) (b : Builtin) (arguments : List String) (s : State κ ω) :
    CountsAlike s (performBuiltin cfg b s.currentFrame arguments s).2 :=
  ⟨(performBuiltin_keeps cfg b arguments s).depth,
    (b.perform_keeps cfg.processEnvironment arguments ⟨s.currentFrame, s.store, s.record⟩).2⟩

/-- The next step of a job other than an evaluation counts nothing. -/
def Continues (before : Nat × Option Statistics) (s : State κ ω) (ws : List (Waiting ω))
    (r : Stage ω × List (Waiting ω) × State κ ω) : Prop :=
  (⟨r.1, r.2.1 ++ ws, r.2.2⟩ : Moment κ ω).IsCounting before ∧ r.2.2.record.statistics = s.record.statistics

section Jobs

variable (hws : Tallied before ws n) (hdepth : s.depth = n)
include hws hdepth

theorem continues_report (hst : CountsAlike s t) (r : Report) : Continues before s ws (.reporting r, [], t) :=
  ⟨.of_report r hws (hst.depth.trans hdepth), hst.statistics⟩

theorem continues_job (hst : CountsAlike s t) {job : Job ω} (hjob : job.SharesStatistics n) :
    Continues before s ws (.doing job, [], t) :=
  ⟨.of_job hjob hws (hst.depth.trans hdepth), hst.statistics⟩

/-- A job that something else waits for. -/
theorem continues_waiting (hst : CountsAlike s t) {job : Job ω} (hjob : job.SharesStatistics n) {w : Waiting ω}
    (hw : w.SharesStatistics n) : Continues before s ws (.doing job, [w], t) :=
  continues_job (.other hw hws) hdepth hst hjob

/-- A script that is run while evaluations wait is counted along. -/
theorem continues_startScript (hn : 0 < n) (source : Source) (file : Option String) (verbosity : Nat) :
    Continues before s ws (startScript cfg source file verbosity none s) := by
  have hread := countsAlike_parse cfg source file s
  unfold startScript
  split <;> rename_i heq <;> rw [heq] at hread
  · exact continues_report hws hdepth hread _
  · have hnested : ¬(_ = 0 ∨ (none : Option Statistics).isSome) :=
      not_or.2 ⟨Nat.ne_of_gt (hread.depth.trans hdepth ▸ hn), nofun⟩
    rw [if_neg hnested]
    refine continues_waiting hws hdepth hread ?_ ?_ <;> trivial

theorem continues_startExpansion (source : Source) (file : Option String) :
    Continues before s ws (startExpansion (ω := ω) cfg source file s) := by
  have hread := countsAlike_parse cfg source file s
  unfold startExpansion
  split <;> rename_i heq <;> rw [heq] at hread
  · exact continues_report hws hdepth hread _
  · split
    · exact continues_job hws hdepth hread trivial
    · exact continues_report hws hdepth hread _

theorem continues_startProgram (results : List String) (ps : List Program) (frame : Frame) :
    Continues before s ws ((startProgram results ps frame).1, (startProgram results ps frame).2, s) := by
  unfold startProgram
  split
  · exact continues_report hws hdepth ⟨rfl, rfl⟩ _
  · split
    · exact continues_report hws hdepth ⟨rfl, rfl⟩ _
    · split
      · split
        · exact continues_report hws hdepth ⟨rfl, rfl⟩ _
        · refine continues_waiting hws hdepth ⟨rfl, rfl⟩ ?_ ?_ <;> trivial
      · refine continues_waiting hws hdepth ⟨rfl, rfl⟩ ?_ ?_ <;> trivial

theorem continues_startEvaluation (p : Program) (frame : Frame) (onlyResolve : Bool) :
    Continues before s ws ((startEvaluation cfg p frame onlyResolve s).1, [],
      (startEvaluation cfg p frame onlyResolve s).2) := by
  unfold startEvaluation
  split
  · exact continues_report hws hdepth ⟨rfl, rfl⟩ _
  · split
    · exact continues_report hws hdepth ⟨rfl, rfl⟩ _
    · have hfirst : (Evaluation.ofProgram p frame.scope onlyResolve).IsOnTrack :=
        ⟨⟨[], rfl⟩, [], rfl, rfl, fun _ _ hi => absurd hi List.not_mem_nil⟩
      exact ⟨.of_goOn hfirst hws (congrArg (· + 1) hdepth), rfl⟩

theorem continues_startInvocation (hn : 0 < n) (bound : Nat) (name : String) (arguments : List String) :
    Continues before s ws (startInvocation cfg host bound name arguments s) := by
  unfold startInvocation
  split
  · exact continues_report hws hdepth ⟨rfl, rfl⟩ _
  · exact continues_report hws hdepth (countsAlike_performBuiltin ..) _
  · split
    · exact continues_report hws hdepth ⟨rfl, rfl⟩ _
    · refine continues_waiting hws hdepth ⟨rfl, rfl⟩ ?_ ?_ <;> trivial
  · exact continues_job hws hdepth ⟨rfl, rfl⟩ hn

theorem continues_act (hn : 0 < n) {action : Action ω} (ha : action.SharesStatistics) (bound : Nat)
    (arguments : List String) : Continues before s ws (act cfg bound arguments s action) := by
  cases ha with
  | finish | fail => exact continues_report hws hdepth ⟨rfl, rfl⟩ _
  | update => exact continues_job hws hdepth ⟨rfl, rfl⟩ hn
  | @ask request hr next _ =>
    have hwaiting : Tallied before (.host bound arguments next :: ws) n := .other hn hws
    cases request with
    | run source file =>
      refine continues_waiting hwaiting hdepth ⟨rfl, rfl⟩ ?_ ?_
      · exact ⟨hn, rfl⟩
      · trivial
    | measure source => exact absurd rfl (hr source)
    | expand source =>
      refine continues_waiting hws hdepth ⟨rfl, rfl⟩ ?_ hn
      trivial
    | forward skip =>
      simp only [act]
      split
      · refine continues_waiting hws hdepth ⟨rfl, rfl⟩ ?_ ?_ <;> exact hn
      · exact continues_job hws hdepth ⟨rfl, rfl⟩ hn
    | define name parameters body => exact continues_job hws hdepth (countsAlike_defineText ..) hn
    | lookup name => exact continues_job hws hdepth ⟨rfl, rfl⟩ hn

/-- What waits for a report goes on with it, unless the script is over. -/
theorem resume_shared {w : Waiting ω} (hw : w.SharesStatistics n) {r : Report} {stage : Stage ω}
    (h : resume cfg host s w r = some (stage, t)) : Continues before s ws (stage, [], t) := by
  have same : CountsAlike s s := ⟨rfl, rfl⟩
  unfold resume at h
  split at h
  case h_1 | h_9 => exact hw.elim
  case h_2 => cases h; exact continues_job hws hdepth same trivial
  case h_4 => cases h; exact continues_job hws hdepth ⟨rfl, rfl⟩ trivial
  case h_10 => cases h; exact continues_report hws hdepth (countsAlike_replaceFrame ..) _
  case h_11 => cases h; exact continues_job hws hdepth same hw
  all_goals first
    | (cases h; exact continues_report hws hdepth same _)
    | cases h

end Jobs

/-- A job counts nothing in its first step, unless it goes on with an evaluation. -/
theorem start_continues {job : Job ω} (ho : (Stage.doing job).Obeys sharing)
    (hjob : job.SharesStatistics n) (hws : Tallied before ws n) (hdepth : s.depth = n) :
    Continues before s ws (start cfg host s job) := by
  cases job with
  | runScript source file verbosity statistics =>
    obtain ⟨hn, rfl⟩ := hjob
    exact continues_startScript hws hdepth hn source file verbosity
  | expandScript source file => exact continues_startExpansion hws hdepth source file
  | evaluateHere => refine continues_waiting hws hdepth ⟨rfl, rfl⟩ ?_ ?_ <;> trivial
  | execute results ps frame => exact continues_startProgram hws hdepth results ps frame
  | evaluate p frame onlyResolve => exact continues_startEvaluation hws hdepth p frame onlyResolve
  | goOn e => exact hjob.elim
  | invoke bound name arguments => exact continues_startInvocation hws hdepth hjob bound name arguments
  | act bound arguments action => exact continues_act hws hdepth hjob ho bound arguments

/-- A step adds what its moment counts, unless the script is over. -/
theorem Moment.IsCounting.next {m m' : Moment κ ω} (ho : m.Obeys sharing) (hm : m.IsCounting before)
    (h : m.next? cfg host = some m') : m.Counts before m' ∨
      ∃ result frame s, m = ⟨.reporting (.execution result frame), [.script (some before)], s⟩ := by
  obtain ⟨stage, waiting, s⟩ := m
  generalize hdepth : s.depth = depth at hm
  rw [Moment.IsCounting, hdepth] at hm
  cases hm with
  | goOn he hws =>
    obtain rfl := Option.some.inj h
    exact .inl (goOn_counts he hws hdepth)
  | @job job _ _ hjob hws =>
    obtain rfl := Option.some.inj h
    obtain ⟨hcounting, hstatistics⟩ := start_continues ho.stage hjob hws hdepth
    refine .inl (.same hcounting rfl ?_ hstatistics)
    cases job with
    | goOn => exact hjob.elim
    | _ => rfl
  | @report r _ _ hws =>
    cases hws with
    | script =>
      right
      obtain ⟨_, hresume, -⟩ := Option.map_eq_some_iff.1 h
      cases r with
      | execution result frame => exact ⟨result, frame, s, rfl⟩
      | answer | evaluation | script => cases hresume
    | @command e ws n he hd hws =>
      left
      obtain ⟨_, hresume, rfl⟩ := Option.map_eq_some_iff.1 h
      cases r with
      | answer result => exact resume_command_counts he hd hws hdepth hresume
      | execution | evaluation | script => cases hresume
    | @other w ws n hw hws =>
      left
      obtain ⟨_, hresume, rfl⟩ := Option.map_eq_some_iff.1 h
      obtain ⟨hcounting, hstatistics⟩ := resume_shared hws hdepth hw hresume
      refine .same hcounting ?_ rfl hstatistics
      cases w with
      | command => exact hw.elim
      | _ => cases r with
        | answer result => cases result <;> rfl
        | _ => rfl

/-! ### Runs -/

/-- The script always waits. -/
theorem Moment.IsCounting.waiting_ne_nil {m : Moment κ ω} (hm : m.IsCounting before) : m.waiting ≠ [] := by
  have tallied {n : Nat} (h : Tallied before m.waiting n) : m.waiting ≠ [] := by
    intro hnil
    rw [hnil] at h
    cases h
  unfold Moment.IsCounting at hm
  generalize m.stage = stage, m.state.depth = depth at hm
  cases hm with
  | goOn _ h | job _ h | report h => exact tallied h

/-- From the first program of a script on, its run counts what its moments count. -/
theorem Visits.counts (hhost : host.SharesStatistics) {m : Moment κ ω} {ms : List (Moment κ ω)}
    {result : Except Failure (List String)} {final : Option Statistics}
    (h : Visits cfg host m ms ⟨.reporting (.script result final), [], t⟩) (ho : m.Obeys sharing)
    (hm : m.IsCounting before) :
    (∀ x ∈ ms, x.IsCounting before) ∧ final = m.state.record.statistics.map (counted ms) := by
  generalize hlast : (⟨.reporting (.script result final), [], t⟩ : Moment κ ω) = last at h
  induction h with
  | refl =>
    subst hlast
    exact absurd rfl hm.waiting_ne_nil
  | @step m m' last ms hstep h ih =>
    obtain ⟨hm', hstatistics⟩ | ⟨outcome, frame, s, rfl⟩ := hm.next ho hstep
    · obtain ⟨hall, hfinal⟩ := ih (ho.next hhost hstep) hm' hlast
      refine ⟨List.forall_mem_cons.2 ⟨hm, hall⟩, ?_⟩
      rw [hfinal, hstatistics, Option.map_map]
      exact congrArg (Option.map · m.state.record.statistics) (funext fun a => (counted_cons m ms a).symm)
    · -- the script reports what stands in the record, and that is all
      obtain rfl := Option.some.inj hstep
      subst hlast
      cases h with
      | refl => exact ⟨List.forall_mem_singleton.2 hm, Option.map_id'.symm⟩
      | step hstep => cases hstep

theorem Moment.exists_of_completed {m : Moment κ ω} {e : Evaluation} (h : m.completed? = some e) :
    m.stage = .doing (.goOn e) ∧ e.rest = [] := by
  unfold completed? at h
  split at h
  · rename_i hstage
    split at h
    · rename_i hrest
      obtain rfl := Option.some.inj h
      exact ⟨hstage, List.isEmpty_iff.1 hrest⟩
    · cases h
  · cases h

theorem Moment.IsCounting.isOnTrack {m : Moment κ ω} (hm : m.IsCounting before) {e : Evaluation}
    (hstage : m.stage = .doing (.goOn e)) : e.IsOnTrack := by
  unfold Moment.IsCounting at hm
  rw [hstage] at hm
  generalize m.state.depth = depth at hm
  cases hm with
  | goOn he => exact he
  | job hjob => exact hjob.elim

/-- An evaluation that comes to the end of its program succeeds. -/
theorem Evaluation.IsOnTrack.succeeds {e : Evaluation} (he : e.IsOnTrack) (hrest : e.rest = []) (s : State κ ω) :
    (Running.goOn cfg host e s).1 = .reporting (.evaluation (.ok e.held.values) s.currentFrame) := by
  obtain ⟨operands, hheld⟩ := he.held
  simp only [Running.goOn, hrest, runFrom, hheld, Stacks.total_counts_holding, if_true]
  rfl

/-- A program that has a call is not only resolved when it comes to its end. -/
theorem Evaluation.IsOnTrack.onlyResolve {e : Evaluation} (he : e.IsOnTrack) (hrest : e.rest = [])
    (hcalling : e.program.IsCalling) : e.onlyResolve = false := by
  obtain ⟨done, hprogram, -, hcalls⟩ := he.program
  obtain ⟨i, hi, hcall⟩ := hcalling
  rw [hprogram, hrest, List.append_nil] at hi
  refine Bool.eq_false_iff.2 fun hmode => ?_
  rw [hcalls hmode i hi] at hcall
  cases hcall

theorem isCalling_of_readScript (key : ScriptKey) (ps : List Program) (h : readScript key = .ok ps) :
    ∀ p ∈ ps, p.IsCalling := by
  obtain ⟨_, -, hps, -⟩ := readScript_ok h
  obtain ⟨invocations, -, rfl⟩ := Grammar.exists_invocations hps
  intro p hp
  obtain ⟨i, -, rfl⟩ := List.mem_map.1 hp
  exact ⟨_, List.mem_append_right _ List.mem_cons_self, rfl⟩

theorem Visits.leads {m last x : Moment κ ω} {ms : List (Moment κ ω)} (h : Visits cfg host m ms last) (hx : x ∈ ms) :
    Leads cfg host m x := by
  induction h with
  | refl => exact (List.not_mem_nil hx).elim
  | step hstep _ ih =>
    rcases List.mem_cons.1 hx with rfl | hx
    · exact .refl
    · exact .head hstep (ih hx)

/-- A script with statistics of its own is not read, or begins to count in them. -/
theorem next?_runScript (cfg : Config) (host : Host κ ω) (source : Source) (file : Option String) (verbosity : Nat)
    (statistics : Statistics) (hs : s.depth = 0) :
    let next := Moment.next? cfg host ⟨.doing (.runScript source file verbosity (some statistics)), [], s⟩
    (∃ failure t, next = some ⟨.reporting (.script (.error failure) (some statistics)), [], t⟩) ∨
    ∃ before m, next = some m ∧ (∀ failure, (s.parse cfg source file).1 ≠ .error failure) ∧
      m.IsCounting before ∧ m.state.record.statistics = some statistics := by
  have hdepth := (countsAlike_parse cfg source file s).depth.trans hs
  simp only [Moment.next?, start, startScript]
  rcases hp : s.parse cfg source file with ⟨failure | script, t⟩ <;> rw [hp] at hdepth
  · exact .inl ⟨failure, t, rfl⟩
  · have hown : t.depth = 0 ∨ (some statistics).isSome := .inr rfl
    simp only [if_pos hown]
    refine .inr ⟨(t.verbosity, t.record.statistics), _, rfl, fun failure h => ?_, ?_, rfl⟩
    · cases h
    · exact .of_job trivial .script hdepth

/-- A run of a script counts what its moments count, once the script is read. -/
theorem Visits.counts_runScript (hhost : host.SharesStatistics) {source : Source} {file : Option String}
    {verbosity : Nat} {statistics : Statistics} (hs : s.depth = 0) {ms : List (Moment κ ω)}
    {result : Except Failure (List String)} {final : Option Statistics}
    (h : Visits cfg host ⟨.doing (.runScript source file verbosity (some statistics)), [], s⟩ ms
      ⟨.reporting (.script result final), [], t⟩) :
    final = some (counted ms statistics) ∧
      (∀ m ∈ ms, ∀ e, m.completed? = some e → ∃ before, m.IsCounting before) ∧
      ∀ failure, (s.parse cfg source file).1 = .error failure → final = some statistics := by
  have hobeys : (⟨.doing (.runScript source file verbosity (some statistics)), [], s⟩ : Moment κ ω).Obeys sharing :=
    .of_job rfl s
  cases h with
  | @step _ m _ ms hstep h =>
    have hfirst := counted_cons ⟨.doing (.runScript source file verbosity (some statistics)), [], s⟩ ms statistics
    obtain ⟨failure, t', hnext⟩ | ⟨before, m', hnext, hread, hcounting, hstatistics⟩ :=
      next?_runScript cfg host source file verbosity statistics hs
    · obtain rfl := Option.some.inj (hstep.symm.trans hnext)
      cases h with
      | refl =>
        refine ⟨hfirst ▸ rfl, List.forall_mem_singleton.2 ?_, fun _ _ => rfl⟩
        rintro _ ⟨⟩
      | step hstep => cases hstep
    · obtain rfl := Option.some.inj (hstep.symm.trans hnext)
      obtain ⟨hall, hfinal⟩ := h.counts hhost (hobeys.next hhost hstep) hcounting
      rw [hstatistics] at hfinal
      refine ⟨hfirst ▸ hfinal, List.forall_mem_cons.2 ⟨?_, fun m hm _ _ => ⟨before, hall m hm⟩⟩, ?_⟩
      · rintro _ ⟨⟩
      · exact fun failure herror => absurd herror (hread failure)

/-- Statistics add up over nested work. Let a session at rest run a script and keep statistics, with host commands that
have no script counted by itself, and go through the moments of the run. Whether it succeeds or not, there are as many
calls more as commands have answered that an evaluation dispatched, on any level, or have failed without breaking it
off; and as many steps more as the programs have instructions that were evaluated to their end, on any level. Such an
evaluation succeeds, and none of them only resolves, as is done with the opener of a function block, if all functions
and scripts that the session has kept have calls, as they have when they were read. What was not counted before counts
as zero. A script that cannot be read changes nothing. -/
theorem statistics_add_up (cfg : Config) (host : Host κ ω) (hhost : host.SharesStatistics) (source : Source)
    (file : Option String) (verbosity : Nat) (statistics : Statistics) (s : State κ ω) (hs : s.depth = 0) :
    let r := s.run cfg host source file verbosity (some statistics)
    ∃ ms, Visits cfg host ⟨.doing (.runScript source file verbosity (some statistics)), [], s⟩ ms
        ⟨.reporting (.script r.1 r.2.1), [], r.2.2⟩ ∧
      r.2.1 = some (statistics.grown (ms.countP Moment.isAnswered) (completions ms)) ∧
      (∀ m ∈ ms, ∀ e, m.completed? = some e → ∃ values frame m', m.next? cfg host = some m' ∧
        m'.stage = .reporting (.evaluation (.ok values) frame)) ∧
      (StateHolds Program.IsCalling s → ∀ m ∈ ms, ∀ e, m.completed? = some e → e.onlyResolve = false) ∧
      ∀ failure, (s.parse cfg source file).1 = .error failure → r.2.1 = some statistics := by
  intro r
  have hends : Ends cfg host (.runScript source file verbosity (some statistics)) s (.script r.1 r.2.1) r.2.2 :=
    ends_runScript (evaluatorAt_isKeeping cfg host 0) (carries_evaluatorAt 0) source file verbosity (some statistics) s
      hs
  obtain ⟨ms, hms⟩ := Leads.visits hends
  obtain ⟨hcounted, hcounting, hunread⟩ := hms.counts_runScript hhost hs
  have hcompleted {m : Moment κ ω} (hm : m ∈ ms) {e : Evaluation} (he : m.completed? = some e) :
      m.stage = .doing (.goOn e) ∧ e.rest = [] ∧ e.IsOnTrack := by
    obtain ⟨hstage, hrest⟩ := Moment.exists_of_completed he
    obtain ⟨before, hm⟩ := hcounting m hm e he
    exact ⟨hstage, hrest, hm.isOnTrack hstage⟩
  refine ⟨ms, hms, hcounted, fun m hm e he => ?_, fun hstate m hm e he => ?_, hunread⟩
  · obtain ⟨hstage, hrest, htrack⟩ := hcompleted hm he
    obtain ⟨stage, waiting, t⟩ := m
    obtain rfl : stage = .doing (.goOn e) := hstage
    exact ⟨e.held.values, t.currentFrame, _, rfl, htrack.succeeds hrest t⟩
  · have hfirst : Holds Program.IsCalling ⟨.doing (.runScript source file verbosity (some statistics)), [], s⟩ :=
      .of_job hstate trivial
    have hholds : m.stage.Holds Program.IsCalling := (hfirst.leads isCalling_of_readScript (hms.leads hm)).stage
    obtain ⟨hstage, hrest, htrack⟩ := hcompleted hm he
    rw [hstage] at hholds
    exact htrack.onlyResolve hrest (Evaluation.Holds.program hholds)

/-- A function that is called, and a script that a host command runs, are counted along; a function block and a command
that there is none of are not. -/
theorem statistics_add_up_nested :
    let host : Host Unit Unit := fun _ call =>
      .request (.run (call.arguments.headD "") none) fun values => .finish (.list (values.map .text))
    let s : State Unit Unit :=
      (State.initial [] [] [] ()).register "eval" "eval" [⟨"text", .positionOrName, false⟩] "" ()
    let source : Source :=
      .text "function(f x)\nset(y $\x7bx\x7d)\nendfunction()\nf(a)\neval(\"set(z 2)\")\nnone()"
    host.SharesStatistics ∧ s.depth = 0 ∧
      ∃ ms last, Visits {} host ⟨.doing (.runScript source none 0 (some ⟨some 2, none⟩)), [], s⟩ ms last ∧
        (∃ failure, last.stage = .reporting (.script (.error failure) (some ⟨some 6, some 17⟩))) ∧
        ms.countP Moment.isAnswered = 4 ∧ (completions ms).sum = 17 := by
  intro host s source
  have hhost : host.SharesStatistics := by
    refine fun _ _ => .ask (fun _ h => by cases h) fun result => ?_
    cases result with
    | ok => exact .finish _
    | error => exact .fail _
  obtain ⟨ms, hms, hcounted, -⟩ := statistics_add_up {} host hhost source none 0 ⟨some 2, none⟩ s rfl
  let r := s.run {} host source none 0 (some ⟨some 2, none⟩)
  have hresult : r.1.isOk = false ∧ r.2.1 = some ⟨some 6, some 17⟩ := by decide +kernel
  obtain ⟨hfails, hfinal⟩ := hresult
  obtain ⟨hcalls, hsteps⟩ := Statistics.mk.inj (Option.some.inj (hcounted.symm.trans hfinal))
  refine ⟨hhost, rfl, ms, _, hms, ?_, ?_, ?_⟩
  · generalize (s.run {} host source none 0 (some ⟨some 2, none⟩)).1 = result at hfails
    cases result with
    | ok => cases hfails
    | error failure => exact ⟨failure, by rw [hfinal]⟩
  · split at hcalls
    · cases hcalls
    · have hsum := Option.some.inj hcalls
      rw [Option.getD_some] at hsum
      omega
  · split at hsteps
    · cases hsteps
    · exact (Nat.zero_add _).symm.trans (Option.some.inj hsteps)

end Running
end CommandScript
