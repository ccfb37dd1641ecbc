import CommandScript.Proofs.Running.Failures
import CommandScript.Proofs.Comparing.States

/-! Steps side by side. From moments that are alike, one step leads to moments that are alike. Only a host command can
tell failures apart that look the same, when it is told of one. -/

namespace CommandScript.Running

open Text Syntax Code Command Machine Session

variable {κ ω : Type}

/-! ### Moments as they look -/

section Views

variable (v : View)

def Evaluation.seenBy (e : Evaluation) : Evaluation :=
  { e with program := e.program.seenBy v, rest := e.rest.map (Instruction.seenBy v) }

def Job.seenBy : Job ω → Job ω
  | .evaluateHere p onlyResolve => .evaluateHere (p.seenBy v) onlyResolve
  | .execute results ps frame => .execute results (ps.map (Program.seenBy v)) frame
  | .evaluate p frame onlyResolve => .evaluate (p.seenBy v) frame onlyResolve
  | .goOn e => .goOn (e.seenBy v)
  | .invoke bound name arguments => .invoke bound (v.name name) arguments
  | .act bound arguments action => .act bound arguments (action.seenBy v)
  | job => job

def Report.seenBy : Report → Report
  | .answer result => .answer (v.result result)
  | .evaluation result frame => .evaluation (v.result result) frame
  | .execution result frame => .execution (v.result result) frame
  | .script result counted => .script (v.result result) counted

def Stage.seenBy : Stage ω → Stage ω
  | .doing job => .doing (job.seenBy v)
  | .reporting report => .reporting (report.seenBy v)

/-- Statistics that are put back later are seen if they count then. -/
def Waiting.seenBy (counted : Bool) : Waiting ω → Waiting ω
  | .command e => .command (e.seenBy v)
  | .programs ps => .programs (ps.map (Program.seenBy v))
  | .block opener body rest => .block (opener.seenBy v) (body.map (Program.seenBy v)) (rest.map (Program.seenBy v))
  | .script (some (_, statistics)) => .script (some (0, if counted then statistics else none))
  | .host bound arguments next => .host bound arguments fun result => (next result).seenBy v
  | waiting => waiting

end Views

/-- Whether statistics count: those of a script that has its own always do. -/
def countsWithin (counted : Bool) : List (Waiting ω) → Bool
  | [] => counted
  | .script (some _) :: _ => true
  | _ :: ws => countsWithin counted ws

def seenWaiting (v : View) (counted : Bool) : List (Waiting ω) → List (Waiting ω)
  | [] => []
  | w :: ws => w.seenBy v (countsWithin counted ws) :: seenWaiting v counted ws

/-- Moments of which the same is seen. -/
structure Moment.Alike (v : View) (counted : Bool) (m m' : Moment κ ω) : Prop where
  stage : m.stage.seenBy v = m'.stage.seenBy v
  waiting : seenWaiting v counted m.waiting = seenWaiting v counted m'.waiting
  state : m.state.Alike v (countsWithin counted m.waiting) m'.state

/-- What a job that is begun comes to first. -/
def begun (cfg : Config) (host : Host κ ω) (s : State κ ω) (job : Job ω) : Moment κ ω :=
  ⟨(start cfg host s job).1, (start cfg host s job).2.1, (start cfg host s job).2.2⟩

variable {v : View} {counted : Bool}

@[simp] theorem Evaluation.seenBy_seenBy (e : Evaluation) : (e.seenBy v).seenBy v = e.seenBy v := by
  simp [seenBy]

@[simp] theorem Job.seenBy_seenBy (job : Job ω) : (job.seenBy v).seenBy v = job.seenBy v := by
  cases job <;> simp [seenBy]

@[simp] theorem Report.seenBy_seenBy (r : Report) : (r.seenBy v).seenBy v = r.seenBy v := by
  cases r <;> simp [seenBy]

@[simp] theorem Waiting.seenBy_seenBy (counted : Bool) (w : Waiting ω) :
    (w.seenBy v counted).seenBy v counted = w.seenBy v counted := by
  cases w with
  | script before => cases before <;> cases counted <;> rfl
  | _ => simp [seenBy]

theorem countsWithin_cons_seenBy (counted counted' : Bool) (w : Waiting ω) {ws ws' : List (Waiting ω)}
    (h : countsWithin counted ws = countsWithin counted ws') :
    countsWithin counted (w.seenBy v counted' :: ws) = countsWithin counted (w :: ws') := by
  cases w with
  | script before => cases before <;> first | exact h | rfl
  | _ => exact h

@[simp] theorem countsWithin_seenWaiting (ws : List (Waiting ω)) :
    countsWithin counted (seenWaiting v counted ws) = countsWithin counted ws := by
  induction ws with
  | nil => rfl
  | cons w ws ih => exact countsWithin_cons_seenBy counted _ w ih

theorem countsWithin_append (ws ws' : List (Waiting ω)) :
    countsWithin counted (ws ++ ws') = countsWithin (countsWithin counted ws') ws := by
  induction ws with
  | nil => rfl
  | cons w ws ih =>
    cases w with
    | script before => cases before <;> first | exact ih | rfl
    | _ => exact ih

theorem seenWaiting_append (ws ws' : List (Waiting ω)) :
    seenWaiting v counted (ws ++ ws') = seenWaiting v (countsWithin counted ws') ws ++ seenWaiting v counted ws' := by
  induction ws with
  | nil => rfl
  | cons w ws ih => simp only [List.cons_append, seenWaiting, ih, countsWithin_append]

theorem countsWithin_eq {ws ws' : List (Waiting ω)} (h : seenWaiting v counted ws = seenWaiting v counted ws') :
    countsWithin counted ws = countsWithin counted ws' := by
  rw [← countsWithin_seenWaiting (v := v), h, countsWithin_seenWaiting]

namespace Moment.Alike

variable {m m' m'' : Moment κ ω}

theorem symm (h : m.Alike v counted m') : m'.Alike v counted m := by
  refine ⟨h.stage.symm, h.waiting.symm, ?_⟩
  rw [← countsWithin_eq h.waiting]
  exact h.state.symm

theorem trans (h : m.Alike v counted m') (h' : m'.Alike v counted m'') : m.Alike v counted m'' := by
  refine ⟨h.stage.trans h'.stage, h.waiting.trans h'.waiting, h.state.trans ?_⟩
  rw [countsWithin_eq h.waiting]
  exact h'.state

/-- Moments stay alike with more that waits. -/
theorem before {ws ws' : List (Waiting ω)} (hws : seenWaiting v counted ws = seenWaiting v counted ws')
    (h : m.Alike v (countsWithin counted ws) m') : (m.before ws).Alike v counted (m'.before ws') := by
  refine ⟨h.stage, ?_, ?_⟩
  · simp only [Moment.before, seenWaiting_append, h.waiting, hws, ← countsWithin_eq hws]
  · simp only [Moment.before, countsWithin_append]
    exact h.state

end Moment.Alike

/-! ### Instructions -/

variable {cfg cfg' : Config} {host : Host κ ω} {s t : State κ ω}

theorem Moment.Alike.reporting (h : s.Alike v counted t) {r r' : Report} (hr : r.seenBy v = r'.seenBy v) :
    Moment.Alike v counted ⟨.reporting r, [], s⟩ ⟨.reporting r', [], t⟩ := ⟨congrArg Stage.reporting hr, rfl, h⟩

theorem Moment.Alike.doing (h : s.Alike v counted t) {job job' : Job ω} (hjob : job.seenBy v = job'.seenBy v) :
    Moment.Alike v counted ⟨.doing job, [], s⟩ ⟨.doing job', [], t⟩ := ⟨congrArg Stage.doing hjob, rfl, h⟩

theorem answer_eq {x y : Except Failure (List String)} (h : v.result x = v.result y) :
    (Report.answer x).seenBy v = (Report.answer y).seenBy v := congrArg Report.answer h

/-- Commands that answer the same leave an evaluation in surroundings that are alike. -/
theorem answering_alike (hcfg : cfg.Alike v cfg') (host : Host κ ω) (scope : Scope)
    {reply reply' : Except Failure (List String) × State κ ω} (h : Agree v (State.Alike v counted) reply reply') :
    (answering cfg host scope reply).Alike v (State.Alike v counted) (answering cfg' host scope reply') where
  lookup space name s t h := by
    simp only [answering, surroundings, Store.lookup, Store.lookupEnvironment, Store.lookupCache, h.store]
  invoke _ _ _ _ _ := ⟨View.result_map h.result Reply.texts, h.state⟩
  observe hnotice h := by
    refine h.setRecord (h.record.observe ?_ ?_ hnotice)
    · rfl
    · exact hcfg.warnUninitialized

@[simp] theorem dispatched?_seenBy (onlyResolve : Bool) (i : Instruction) (held : Stacks String) :
    dispatched? onlyResolve (i.seenBy v) held = dispatched? onlyResolve i held := by
  simp only [dispatched?, Instruction.operation_seenBy]

theorem reportExhaustion_seenBy {f g : Failure} (h : f.seenBy v = g.seenBy v) (depth : Nat) (p : Program) :
    (reportExhaustion depth p f).seenBy v = (reportExhaustion depth (p.seenBy v) g).seenBy v := by
  have hcause : f.cause = .hostExhausted ↔ g.cause = .hostExhausted := by
    rw [← Cause.seenBy_eq_hostExhausted (v := v), (Failure.seenBy_eq_iff.1 h).1, Cause.seenBy_eq_hostExhausted]
  by_cases hf : f.cause = .hostExhausted
  · simp [reportExhaustion, hf, hcause.1 hf, Failure.seenBy, Cause.seenBy, Program.seenBy]
  · rw [reportExhaustion_of_ne hf, reportExhaustion_of_ne (mt hcause.2 hf), h]

/-- The end of an evaluation is seen. -/
theorem finish_alike (h : s.Alike v counted t) (e : Evaluation) {result result' : Except Failure (List String)}
    (hresult : v.result result = v.result result') :
    Moment.Alike v counted ⟨(e.finish result s).1, [], (e.finish result s).2⟩
      ⟨((e.seenBy v).finish result' t).1, [], ((e.seenBy v).finish result' t).2⟩ := by
  have hreport : v.result (result.mapError (reportExhaustion s.depth e.program)) =
      v.result (result'.mapError (reportExhaustion t.depth (e.program.seenBy v))) := by
    rw [h.depth]
    obtain ⟨values, rfl, rfl⟩ | ⟨f, g, rfl, rfl, hfg⟩ := View.result_cases hresult
    · rfl
    · exact View.result_error (reportExhaustion_seenBy hfg t.depth e.program)
  refine ⟨?_, rfl, h.store, h.top, h.library, h.cache, ?_, ?_, h.record, h.host⟩
  · simp only [Evaluation.finish, Stage.seenBy, Report.seenBy, Evaluation.seenBy, h.currentFrame, hreport]
  · exact congrArg List.tail h.frames
  · exact congrArg (· - 1) h.depth

theorem settle_alike {x y : Except Failure (Progress String) × State κ ω} (h : Agree v (State.Alike v counted) x y)
    (e : Evaluation) (i : Instruction) (rest : List Instruction) :
    Moment.Alike v counted ⟨(e.settle i rest x).1, [], (e.settle i rest x).2⟩
      ⟨((e.seenBy v).settle (i.seenBy v) (rest.map (Instruction.seenBy v)) y).1, [],
        ((e.seenBy v).settle (i.seenBy v) (rest.map (Instruction.seenBy v)) y).2⟩ := by
  obtain ⟨progress, s, t, rfl, rfl, hst⟩ | ⟨f, g, s, t, rfl, rfl, hfg, hst⟩ := h.cases
  · cases progress with
    | moved held => exact .doing hst (by simp [Job.seenBy, Evaluation.seenBy])
    | resolved arguments => exact finish_alike hst e rfl
  · exact finish_alike hst e (View.result_error (Failure.attributeTo_seenBy hfg i))

/-! ### First steps -/

theorem goOn_alike (h : s.Alike v counted t) (hcfg : cfg.Alike v cfg') (host : Host κ ω) (e : Evaluation) :
    (begun cfg host s (.goOn e)).Alike v counted (begun cfg' host t (.goOn (e.seenBy v))) := by
  obtain ⟨program, scope, onlyResolve, step, held, rest⟩ := e
  have hw := answering_alike hcfg host scope (.ok h [] : Agree v (State.Alike v counted) (.ok [], s) (.ok [], t))
  cases rest with
  | nil =>
    have hrun := runFrom_agrees hw onlyResolve [] step held h
    exact finish_alike hrun.state ⟨program, scope, onlyResolve, step, held, []⟩ hrun.result
  | cons i rest =>
    have hnotice : (Notice.stepping step (i :: rest) held).seenBy v =
        (Notice.stepping step ((i :: rest).map (Instruction.seenBy v)) held).seenBy v := by simp [Notice.seenBy]
    have hstepping := hw.observe hnotice h
    simp only [begun, start, goOn, Evaluation.seenBy, List.map_cons, dispatched?_seenBy] at hstepping ⊢
    cases dispatched? onlyResolve i held with
    | some arguments =>
      refine ⟨?_, ?_, hw.observe ?_ hstepping⟩
      · simp [Stage.seenBy, Job.seenBy, Instruction.name_getD_seenBy]
      · simp [seenWaiting, Waiting.seenBy, Evaluation.seenBy]
      · simp [Notice.seenBy, Instruction.commandLabel, Instruction.name_getD_seenBy]
    | none =>
      have hexecute := execute_agrees hw onlyResolve rest.isEmpty i held hstepping
      rw [List.isEmpty_map]
      exact settle_alike hexecute ⟨program, scope, onlyResolve, step, held, i :: rest⟩ i rest

/-- Scripts that are read alike are begun alike, even if they are written otherwise. -/
theorem startScript_alike {source source' : Source} {file : Option String}
    (hread : ReadAlike v counted (s.parse cfg source file) (t.parse cfg' source' file)) (host : Host κ ω)
    (verbosity : Nat) (statistics : Option Statistics) :
    (begun cfg host s (.runScript source file verbosity statistics)).Alike v counted
      (begun cfg' host t (.runScript source' file verbosity statistics)) := by
  simp only [begun, start, startScript]
  obtain ⟨script, script', s, t, hx, hy, hps, h⟩ | ⟨f, g, s, t, hx, hy, hfg, h⟩ := hread.cases
  · rw [hx, hy]
    by_cases hown : s.depth = 0 ∨ statistics.isSome
    · have hown' : t.depth = 0 ∨ statistics.isSome := h.depth ▸ hown
      simp only [if_pos hown, if_pos hown']
      have hinner : State.Alike v true { s with verbosity, record := { s.record with statistics } }
          { t with verbosity, record := { t.record with statistics } } := h.setWatch verbosity verbosity fun _ => rfl
      refine ⟨?_, ?_, hinner⟩
      · simp only [Stage.seenBy, Job.seenBy, hps, hinner.topFrame]
      · cases counted with
        | true => simp [seenWaiting, Waiting.seenBy, countsWithin, h.record.statistics rfl]
        | false => simp [seenWaiting, Waiting.seenBy, countsWithin]
    · have hown' : ¬(t.depth = 0 ∨ statistics.isSome) := h.depth ▸ hown
      simp only [if_neg hown, if_neg hown']
      refine ⟨?_, rfl, h⟩
      simp only [Stage.seenBy, Job.seenBy, hps, h.topFrame]
  · rw [hx, hy]
    exact .reporting h (congrArg (Report.script · statistics) (View.result_error hfg))

theorem startExpansion_alike (h : s.Alike v counted t) (hcfg : cfg.Alike v cfg') (host : Host κ ω) (source : Source)
    (file : Option String) :
    (begun cfg host s (.expandScript source file)).Alike v counted
      (begun cfg' host t (.expandScript source file)) := by
  simp only [begun, start, startExpansion]
  obtain ⟨⟨stamp, ps⟩, ⟨stamp', ps'⟩, s, t, hx, hy, hps, h⟩ | ⟨f, g, s, t, hx, hy, hfg, h⟩ :=
    (h.parse hcfg source file).cases
  · simp only [hx, hy]
    have hlength : ps.length = ps'.length := by simpa using congrArg List.length hps
    cases ps with
    | nil =>
      obtain rfl : ps' = [] := List.length_eq_zero_iff.1 hlength.symm
      exact .reporting h rfl
    | cons p ps =>
      obtain ⟨p', ps', rfl⟩ := List.exists_cons_of_length_eq_add_one hlength.symm
      have hrest : ps.length = ps'.length := Nat.succ.inj hlength
      cases ps with
      | nil =>
        obtain rfl : ps' = [] := List.length_eq_zero_iff.1 hrest.symm
        exact .doing h (congrArg (Job.evaluateHere · true) (List.head_eq_of_cons_eq hps))
      | cons q ps =>
        obtain ⟨q', ps', rfl⟩ := List.exists_cons_of_length_eq_add_one hrest.symm
        refine .reporting h (answer_eq (View.result_error ?_))
        rw [hlength]
  · rw [hx, hy]
    exact .reporting h (answer_eq (View.result_error hfg))

theorem startProgram_alike (h : s.Alike v counted t) (results : List String) (ps : List Program) (frame : Frame) :
    (begun cfg host s (.execute results ps frame)).Alike v counted
      (begun cfg' host t (.execute results (ps.map (Program.seenBy v)) frame)) := by
  simp only [begun, start]
  cases ps with
  | nil => exact .reporting h rfl
  | cons p ps =>
    simp only [List.map_cons, startProgram, Program.opensFunction_seenBy, splitBlock_map_seenBy]
    split
    · exact .reporting h rfl
    · split
      · cases splitBlock 0 ps with
        | none =>
          refine .reporting h (congrArg (Report.execution · frame) (View.result_error ?_))
          simp [Failure.seenBy, Cause.seenBy, Program.unclosedFunction_seenBy]
        | some block =>
          refine ⟨?_, ?_, h⟩
          · simp [Stage.seenBy, Job.seenBy]
          · simp [seenWaiting, Waiting.seenBy]
      · refine ⟨?_, ?_, h⟩
        · simp [Stage.seenBy, Job.seenBy]
        · simp [seenWaiting, Waiting.seenBy]

theorem startEvaluation_alike (h : s.Alike v counted t) (hcfg : cfg.Alike v cfg') (p : Program) (frame : Frame)
    (onlyResolve : Bool) :
    (begun cfg host s (.evaluate p frame onlyResolve)).Alike v counted
      (begun cfg' host t (.evaluate (p.seenBy v) frame onlyResolve)) := by
  simp only [begun, start, startEvaluation, ← hcfg.maxDepth, ← h.depth]
  split
  · refine .reporting h (congrArg (Report.evaluation · frame) (View.result_error ?_))
    simp [Failure.seenBy, Cause.seenBy, refusal, Program.seenBy, hcfg.maxDepth]
  · split
    · exact .reporting h rfl
    · have hinner : State.Alike v counted { s with frames := frame :: s.frames, depth := s.depth + 1 }
          { t with frames := frame :: t.frames, depth := s.depth + 1 } :=
        ⟨h.store, h.top, h.library, h.cache, congrArg (frame :: ·) h.frames, rfl, h.record, h.host⟩
      refine .doing hinner ?_
      simp [Job.seenBy, Evaluation.seenBy, Evaluation.ofProgram, Program.seenBy]

theorem startInvocation_alike (h : s.Alike v counted t) (hcfg : cfg.Alike v cfg') (host : Host κ ω) (bound : Nat)
    (name : String) (arguments : List String) :
    (begun cfg host s (.invoke bound name arguments)).Alike v counted
      (begun cfg' host t (.invoke bound (v.name name) arguments)) := by
  have hcallee := h.callee name arguments.length
  simp only [begun, start, startInvocation]
  cases hs : s.callee name arguments.length with
  | error f =>
    cases ht : t.callee (v.name name) arguments.length with
    | ok => rw [hs, ht] at hcallee; cases hcallee
    | error g =>
      rw [hs, ht] at hcallee
      exact .reporting h (answer_eq (View.result_error (Except.error.inj hcallee)))
  | ok implementation =>
    cases ht : t.callee (v.name name) arguments.length with
    | error g => rw [hs, ht] at hcallee; cases hcallee
    | ok implementation' =>
      rw [hs, ht] at hcallee
      have hseen : implementation.seenBy v = implementation'.seenBy v := Except.ok.inj hcallee
      cases implementation with
      | builtin b =>
        cases implementation' with
        | script | host => cases hseen
        | builtin _ =>
          cases hseen
          obtain ⟨hresult, hstate⟩ := h.performBuiltin hcfg b s.currentFrame arguments
          rw [← h.currentFrame]
          exact .reporting hstate (answer_eq hresult)
      | host key =>
        cases implementation' with
        | builtin | script => cases hseen
        | host _ =>
          cases hseen
          refine .doing h ?_
          simp only [State.hostCall, h.currentFrame, h.depth]
      | script f =>
        cases implementation' with
        | builtin | host => cases hseen
        | script f' =>
          obtain ⟨fname, parameters, body⟩ := f
          obtain ⟨fname', parameters', body'⟩ := f'
          obtain ⟨rfl, rfl, hbody⟩ : fname = fname' ∧ parameters = parameters' ∧
              body.map (Program.seenBy v) = body'.map (Program.seenBy v) := by simpa [Implementation.seenBy] using hseen
          obtain ⟨hframe, hstate⟩ := h.enterFunction ⟨fname, parameters, body⟩ s.currentFrame arguments
          simp only [← h.currentFrame]
          split
          · exact .reporting h rfl
          · refine ⟨?_, rfl, hstate⟩
            simp only [Stage.seenBy, Job.seenBy, hbody]
            exact congrArg (fun frame => Stage.doing (.execute [] (body'.map (Program.seenBy v)) frame)) hframe

theorem act_alike (h : s.Alike v counted t) (hcfg : cfg.Alike v cfg') (host : Host κ ω) (bound : Nat)
    (arguments : List String) (action : Action ω) :
    (begun cfg host s (.act bound arguments action)).Alike v counted
      (begun cfg' host t (.act bound arguments (action.seenBy v))) := by
  simp only [begun, start]
  cases action with
  | finish value => exact .reporting h rfl
  | fail failure => exact .reporting h (answer_eq (View.result_error failure.seenBy_seenBy.symm))
  | update change next =>
    have hchanged : State.Alike v counted { s with host := change s.host } { t with host := change t.host } :=
      ⟨h.store, h.top, h.library, h.cache, h.frames, h.depth, h.record, congrArg change h.host⟩
    exact .doing hchanged (by simp [Job.seenBy])
  | ask request next =>
    have answered (result : Except Failure (List String)) :
        (Job.act bound arguments (next result)).seenBy v =
          (Job.act bound arguments ((next result).seenBy v)).seenBy v := by simp [Job.seenBy]
    have hwaiting : seenWaiting v counted [.host bound arguments next] =
        seenWaiting v counted [.host bound arguments fun result => (next result).seenBy v] := by
      simp [seenWaiting, Waiting.seenBy]
    cases request with
    | run => exact ⟨rfl, congrArg (Waiting.ran :: ·) hwaiting, h⟩
    | measure => exact ⟨rfl, congrArg (Waiting.measured :: ·) hwaiting, h⟩
    | expand => exact ⟨rfl, hwaiting, h⟩
    | forward skip =>
      simp only [act, Action.seenBy]
      split
      · exact ⟨by simp [Stage.seenBy, Job.seenBy], hwaiting, h⟩
      · exact .doing h (answered _)
    | define name parameters body =>
      obtain ⟨hresult, hstate⟩ := h.defineText hcfg name parameters body
      simp only [act, Action.seenBy, ← hresult]
      exact .doing hstate (answered _)
    | lookup name =>
      simp only [act, Action.seenBy, ← h.store, ← h.currentFrame]
      exact .doing h (answered _)

/-- What is begun alike comes to moments that are alike. -/
theorem begun_alike (h : s.Alike v counted t) (hcfg : cfg.Alike v cfg') (host : Host κ ω) (job : Job ω) :
    (begun cfg host s job).Alike v counted (begun cfg' host t (job.seenBy v)) := by
  cases job with
  | runScript source file verbosity statistics =>
    exact startScript_alike (h.parse hcfg source file) host verbosity statistics
  | expandScript source file => exact startExpansion_alike h hcfg host source file
  | evaluateHere p onlyResolve =>
    refine ⟨?_, rfl, h⟩
    simp [begun, start, Stage.seenBy, Job.seenBy, h.currentFrame]
  | execute results ps frame => exact startProgram_alike h results ps frame
  | evaluate p frame onlyResolve => exact startEvaluation_alike h hcfg p frame onlyResolve
  | goOn e => exact goOn_alike h hcfg host e
  | invoke bound name arguments => exact startInvocation_alike h hcfg host bound name arguments
  | act bound arguments action => exact act_alike h hcfg host bound arguments action

/-! ### Reports -/

/-- What waits goes on the same with a failure as with one that looks the same. -/
def Waiting.Heeds (v : View) (w : Waiting ω) (r : Report) : Prop :=
  ∀ bound arguments next failure, w = .host bound arguments next → r = .answer (.error failure) →
    GoesOnAlike v next failure

/-- What becomes of a report is seen. -/
theorem resume_alike (hcfg : cfg.Alike v cfg') (host : Host κ ω) {w : Waiting ω} {r : Report} (hheeds : w.Heeds v r)
    {ws : List (Waiting ω)} (h : s.Alike v (countsWithin counted (w :: ws)) t) :
    Option.Rel (fun x y => Moment.Alike v (countsWithin counted ws) ⟨x.1, [], x.2⟩ ⟨y.1, [], y.2⟩)
      (resume cfg host s w r) (resume cfg' host t (w.seenBy v (countsWithin counted ws)) (r.seenBy v)) := by
  cases w with
  | command e =>
    cases r with
    | answer result =>
      obtain ⟨program, scope, onlyResolve, step, held, rest⟩ := e
      cases rest with
      | nil => exact .none
      | cons i rest =>
        have hreply : Agree v (State.Alike v _) (result, s) (v.result result, t) :=
          ⟨(View.result_result result).symm, h⟩
        have hexecute := execute_agrees (answering_alike hcfg host scope hreply) onlyResolve rest.isEmpty i held h
        refine .some ?_
        rw [List.isEmpty_map]
        exact settle_alike hexecute ⟨program, scope, onlyResolve, step, held, i :: rest⟩ i rest
    | _ => exact .none
  | programs ps =>
    cases r with
    | evaluation result frame =>
      cases result with
      | ok results => exact .some (.doing h (by simp [Job.seenBy]))
      | error f =>
        exact .some (.reporting h
          (congrArg (Report.execution · frame) (View.result_error f.seenBy_seenBy.symm)))
    | _ => exact .none
  | block opener body rest =>
    cases r with
    | evaluation result frame =>
      match result with
      | .ok (name :: parameters) => exact .some (.doing (h.define name parameters (by simp)) (by simp [Job.seenBy]))
      | .ok [] => exact .some (.reporting h rfl)
      | .error f =>
        exact .some (.reporting h (congrArg (Report.execution · frame) (View.result_error f.seenBy_seenBy.symm)))
    | _ => exact .none
  | call =>
    cases r with
    | execution result callee =>
      refine .some (.reporting h (answer_eq ?_))
      exact View.result_map (View.result_result result).symm _
    | _ => exact .none
  | script before =>
    cases r with
    | execution result frame =>
      cases before with
      | none => exact .some (.reporting h (congrArg (Report.script · none) (View.result_result result).symm))
      | some settings =>
        refine .some (.reporting (h.setWatch settings.1 0 fun hc => (if_pos hc).symm) ?_)
        simp only [Report.seenBy, View.result_result, h.record.statistics rfl]
    | _ => cases before <;> exact .none
  | here =>
    cases r with
    | evaluation result frame =>
      exact .some (.reporting (h.replaceFrame frame) (answer_eq (View.result_result result).symm))
    | _ => exact .none
  | host bound arguments next =>
    cases r with
    | answer result =>
      refine .some (.doing h (congrArg (Job.act bound arguments) ?_))
      cases result with
      | ok values => exact (Action.seenBy_seenBy _).symm
      | error f => exact (hheeds _ _ _ f rfl rfl).trans (Action.seenBy_seenBy _).symm
    | _ => exact .none
  | ran =>
    cases r with
    | script result counted => exact .some (.reporting h (answer_eq (View.result_result result).symm))
    | _ => exact .none
  | measured =>
    cases r with
    | script result counted =>
      cases result with
      | ok values => exact .some (.reporting h rfl)
      | error f => exact .some (.reporting h (answer_eq (View.result_error f.seenBy_seenBy.symm)))
    | _ => exact .none

end CommandScript.Running
