import CommandScript.Proofs.Running.Agreement
import CommandScript.Proofs.Running.Effects
import CommandScript.Proofs.Running.Raising

/-! Failures on their way out. Where no host command has anything run, a failure that is no refusal of a command fails
all that waits for it, and only its place may be added. The ones that tell of evaluations nesting too deep come from
evaluations that are refused, or else from host commands. -/

namespace CommandScript

open Text Syntax Code Command Machine

/-! ### Failures -/

/-- Whether it tells that evaluations nest too deep, or will be taken to. -/
def Cause.isRecursion : Cause → Bool
  | nestingLimit .. | stackExhausted .. | hostExhausted => true
  | host kind _ => kind = "SpliceRecursionError"
  | _ => false

theorem Cause.isRecursion_of_kind {c : Cause} (h : c.kind = "SpliceRecursionError") : c.isRecursion := by
  cases c with
  | nestingLimit | stackExhausted | hostExhausted => rfl
  | host kind message => exact decide_eq_true h
  | fault f =>
    simp only [kind, Fault.kind] at h
    split at h
    · exact absurd h (by decide)
    · split at h <;> exact absurd h (by decide)
  | environmentRefusal reason => cases reason <;> exact absurd h (by decide)
  | _ => simp [kind] at h

/-- The same failure, perhaps attributed to a place. -/
def Failure.PassesAs (f g : Failure) : Prop := g.cause = f.cause ∧ (f.location.isSome → g = f)

theorem Failure.PassesAs.refl (f : Failure) : f.PassesAs f := ⟨rfl, fun _ => rfl⟩

theorem Failure.PassesAs.attributeTo {f g : Failure} (h : f.PassesAs g) (i : Instruction) :
    f.PassesAs (g.attributeTo i) := by
  obtain ⟨hcause, hsame⟩ := h
  unfold Failure.attributeTo
  by_cases hnone : g.location.isNone
  · rw [if_pos hnone]
    refine ⟨hcause, fun hsome => ?_⟩
    rw [← hsame hsome, Option.isNone_iff_eq_none.1 hnone] at hsome
    cases hsome
  · rw [if_neg hnone]
    exact ⟨hcause, hsame⟩

namespace Session

variable {ω : Type}

/-- What a host command does that raises no such failure of its own. -/
inductive Action.RaisesNoRecursion : Action ω → Prop where
  | finish (value : Value) : RaisesNoRecursion (.finish value)
  | fail {failure : Failure} (h : failure.cause.isRecursion = false) : RaisesNoRecursion (.fail failure)
  | update (change : ω → ω) {next : Action ω} (h : RaisesNoRecursion next) : RaisesNoRecursion (.update change next)
  | ask (request : Request) {next : Except Failure (List String) → Action ω}
    (h : ∀ result, (∀ f, result = .error f → f.cause.isRecursion = false) → RaisesNoRecursion (next result)) :
    RaisesNoRecursion (.ask request next)

end Session

namespace Running

open Session

variable {κ ω : Type} {cfg : Config} {host : Host κ ω}

/-! ### A failure on its way out -/

/-- What waits for a report and cannot make good a failure. An evaluation waits for a command that it dispatches. -/
def Waiting.LetsThrough : Waiting ω → Prop
  | .command e => ∃ i rest arguments, e.rest = i :: rest ∧ dispatched? e.onlyResolve i e.held = some arguments
  | .host .. => False
  | _ => True

/-- A host command that is being carried out stays outside. -/
def Stage.StaysOutside (stage : Stage ω) : Prop :=
  ∀ bound arguments action, stage = .doing (.act bound arguments action) → action.StaysOutside

namespace Stage.StaysOutside

theorem of_report (r : Report) : (Stage.reporting r : Stage ω).StaysOutside := by
  rintro _ _ _ ⟨⟩

theorem of_job {job : Job ω} (h : job.action? = none) : (Stage.doing job).StaysOutside := by
  rintro _ _ _ ⟨⟩
  cases h

theorem of_action {bound : Nat} {arguments : List String} {action : Action ω} (h : action.StaysOutside) :
    (Stage.doing (.act bound arguments action)).StaysOutside := by
  rintro _ _ _ ⟨⟩
  exact h

end Stage.StaysOutside

/-- A moment in which nothing waits that could make good a failure, nor is there a host command that will. -/
structure LetsThrough (m : Moment κ ω) : Prop where
  waiting : ∀ w ∈ m.waiting, w.LetsThrough
  outside : m.stage.StaysOutside

/-- A failure of a command that is no refusal is the failure of its instruction. -/
theorem execute_failed (cfg : Config) (host : Host κ ω) {e : Evaluation} {i : Instruction} {arguments : List String}
    {f : Failure} (hd : dispatched? e.onlyResolve i e.held = some arguments) (hf : f.cause.isRefusal = false)
    (isLast : Bool) (s : State κ ω) :
    (Machine.execute (answering cfg host e.scope (.error f, s)) e.onlyResolve isLast i e.held s).1 = .error f := by
  obtain ⟨st, hst⟩ := execute_eq_dispatch (σ := State κ ω) hd
  have hdispatch : dispatch (answering cfg host e.scope (.error f, s)) i arguments s = (.error f, s) := by
    simp only [dispatch, answering, Except.map, hf, Bool.false_eq_true, if_false]
  rw [hst, hdispatch]
  rfl

/-- A stage in which this failure is reported. -/
def Stage.Reports (f : Failure) (stage : Stage ω) : Prop :=
  ∃ r g, stage = .reporting r ∧ r.result = .error g ∧ f.PassesAs g

theorem reportExhaustion_of_ne {failure : Failure} (h : failure.cause ≠ .hostExhausted) (depth : Nat) (p : Program) :
    reportExhaustion depth p failure = failure := by
  unfold reportExhaustion
  split
  · exact absurd ‹_› h
  · rfl

theorem Evaluation.finish_failed (e : Evaluation) {failure : Failure} (h : failure.cause ≠ .hostExhausted)
    (s : State κ ω) : (e.finish (.error failure) s).1 = .reporting (.evaluation (.error failure) s.currentFrame) :=
  congrArg (fun f => Stage.reporting (.evaluation (.error f) s.currentFrame))
    (reportExhaustion_of_ne h s.depth e.program)

theorem Evaluation.settle_failed (e : Evaluation) {f g : Failure} (hg : f.PassesAs g)
    (hexhausted : f.cause ≠ .hostExhausted) (i : Instruction) (rest : List Instruction)
    {x : Except Failure (Progress String) × State κ ω} (hx : x.1 = .error g) :
    (e.settle i rest x).1.Reports f := by
  obtain ⟨_, s⟩ := x
  obtain rfl := hx
  have hpass := hg.attributeTo i
  have hcause : (g.attributeTo i).cause ≠ .hostExhausted := by rw [hpass.1]; exact hexhausted
  exact ⟨_, g.attributeTo i, e.finish_failed hcause s, rfl, hpass⟩

theorem resume_failed {f g : Failure} (hrefusal : f.cause.isRefusal = false) (hexhausted : f.cause ≠ .hostExhausted)
    (hg : f.PassesAs g) {w : Waiting ω} (hw : w.LetsThrough) {r : Report} (hr : r.result = .error g) {s t : State κ ω}
    {stage : Stage ω} (h : resume cfg host s w r = some (stage, t)) : stage.Reports f := by
  rcases resume_cases h with ⟨e, result, rfl, rfl⟩ | ⟨bound, arguments, next, rfl⟩ | hpasses
  · obtain rfl : result = .error g := hr
    obtain ⟨i, rest, arguments, hrest, hd⟩ := hw
    have hcause : g.cause.isRefusal = false := by rw [hg.1]; exact hrefusal
    have hexecute := execute_failed cfg host hd hcause rest.isEmpty s
    have hsettle := e.settle_failed hg hexhausted i rest hexecute
    simp only [resume, hrest] at h
    rw [Option.some.inj h] at hsettle
    exact hsettle
  · exact hw.elim
  · cases hpasses with
    | execute hok | nameless hok =>
      rw [hr] at hok
      cases hok
    | report change hresult =>
      rw [hr] at hresult
      exact ⟨_, g, rfl, hresult, hg⟩

theorem Evaluation.Settles.staysOutside {e : Evaluation} {s t : State κ ω} {stage : Stage ω}
    (h : e.Settles s stage t) : stage.StaysOutside := by
  cases h with
  | goesOn => exact .of_job rfl
  | ended => exact .of_report _

/-- What a step has wait lets failures through. -/
theorem start_letsThrough (hhost : host.StaysOutside) {job : Job ω} (hjob : (Stage.doing job).StaysOutside)
    (s : State κ ω) :
    (∀ w ∈ (start cfg host s job).2.1, w.LetsThrough) ∧ (start cfg host s job).1.StaysOutside := by
  have none {w : Waiting ω} (h : w ∈ []) : w.LetsThrough := (List.not_mem_nil h).elim
  have one {w w' : Waiting ω} (hw : w'.LetsThrough) (h : w ∈ [w']) : w.LetsThrough := List.mem_singleton.1 h ▸ hw
  cases job with
  | runScript source file verbosity statistics =>
    simp only [start, startScript]
    split
    · exact ⟨fun _ => none, .of_report _⟩
    · split <;> exact ⟨fun _ => one trivial, .of_job rfl⟩
  | expandScript source file =>
    simp only [start, startExpansion]
    split
    · exact ⟨fun _ => none, .of_report _⟩
    · split
      · exact ⟨fun _ => none, .of_job rfl⟩
      · exact ⟨fun _ => none, .of_report _⟩
  | evaluateHere => exact ⟨fun _ => one trivial, .of_job rfl⟩
  | execute results ps frame =>
    simp only [start, startProgram]
    repeat' split
    all_goals first
      | exact ⟨fun _ => none, .of_report _⟩
      | exact ⟨fun _ => one trivial, .of_job rfl⟩
  | evaluate p frame onlyResolve =>
    simp only [start, startEvaluation]
    repeat' split
    all_goals first
      | exact ⟨fun _ => none, .of_report _⟩
      | exact ⟨fun _ => none, .of_job rfl⟩
  | goOn e =>
    rcases goOn_cases cfg host e s with ⟨i, rest, arguments, record, hrest, hd, h⟩ | ⟨stage, t, h, hsettles⟩
    · rw [start, h]
      exact ⟨fun _ => one ⟨i, rest, arguments, hrest, hd⟩, .of_job rfl⟩
    · rw [start, h]
      exact ⟨fun _ => none, hsettles.staysOutside⟩
  | invoke bound name arguments =>
    simp only [start, startInvocation]
    split
    · exact ⟨fun _ => none, .of_report _⟩
    · exact ⟨fun _ => none, .of_report _⟩
    · split
      · exact ⟨fun _ => none, .of_report _⟩
      · exact ⟨fun _ => one trivial, .of_job rfl⟩
    · exact ⟨fun _ => none, .of_action (hhost _ _)⟩
  | act bound arguments action =>
    cases hjob bound arguments action rfl with
    | finish | fail => exact ⟨fun _ => none, .of_report _⟩
    | update change h => exact ⟨fun _ => none, .of_action h⟩
    | define name parameters body h => exact ⟨fun _ => none, .of_action (h _)⟩
    | lookup name h => exact ⟨fun _ => none, .of_action (h _)⟩

theorem resume_staysOutside {w : Waiting ω} (hw : w.LetsThrough) {r : Report} {s t : State κ ω} {stage : Stage ω}
    (h : resume cfg host s w r = some (stage, t)) : stage.StaysOutside := by
  rcases resume_cases h with ⟨e, result, rfl, rfl⟩ | ⟨bound, arguments, next, rfl⟩ | hpasses
  · exact (resume_command h).staysOutside
  · exact hw.elim
  · cases hpasses with
    | execute => exact .of_job rfl
    | report | nameless => exact .of_report _

theorem LetsThrough.next (hhost : host.StaysOutside) {m m' : Moment κ ω} (hm : LetsThrough m)
    (h : m.next? cfg host = some m') : LetsThrough m' := by
  obtain ⟨stage, waiting, s⟩ := m
  obtain ⟨hwaiting, hstage⟩ := hm
  match stage, waiting with
  | .doing job, waiting =>
    obtain rfl := Option.some.inj h
    obtain ⟨hbefore, hstart⟩ := start_letsThrough hhost hstage s
    exact ⟨fun w hw => (List.mem_append.1 hw).elim (hbefore w) (hwaiting w), hstart⟩
  | .reporting report, [] => cases h
  | .reporting report, w :: waiting =>
    obtain ⟨_, hr, rfl⟩ := Option.map_eq_some_iff.1 h
    exact ⟨fun w hw => hwaiting w (List.mem_cons_of_mem _ hw), resume_staysOutside (hwaiting w List.mem_cons_self) hr⟩

theorem LetsThrough.leads (hhost : host.StaysOutside) {m m' : Moment κ ω} (hm : LetsThrough m)
    (h : Leads cfg host m m') : LetsThrough m' := by
  induction h with
  | refl => exact hm
  | tail _ hstep ih => exact ih.next hhost hstep

/-- Once a failure is reported that is no refusal, it is reported until the end. -/
theorem LetsThrough.reports (hhost : host.StaysOutside) {f : Failure} (hrefusal : f.cause.isRefusal = false)
    (hexhausted : f.cause ≠ .hostExhausted) {m m' : Moment κ ω} (hm : LetsThrough m) (hf : m.stage.Reports f)
    (h : Leads cfg host m m') : m'.stage.Reports f := by
  induction h with
  | refl => exact hf
  | @tail m' m'' hlead hstep ih =>
    obtain ⟨stage, waiting, s⟩ := m'
    obtain ⟨r, g, rfl, hr, hg⟩ := ih
    cases waiting with
    | nil => cases hstep
    | cons w waiting =>
      obtain ⟨_, hresume, rfl⟩ := Option.map_eq_some_iff.1 hstep
      have hw := (hm.leads hhost hlead).waiting w List.mem_cons_self
      exact resume_failed hrefusal hexhausted hg hw hr hresume

/-! ### Refused evaluations -/

/-- A moment in which the evaluation of this program is refused. -/
def Moment.Refuses (cfg : Config) (p : Program) (m : Moment κ ω) : Prop :=
  ∃ frame onlyResolve, m.stage = .doing (.evaluate p frame onlyResolve) ∧ cfg.maxDepth ≤ m.state.depth

/-- What becomes of a refused evaluation. -/
theorem Moment.Refuses.next (host : Host κ ω) {p : Program} {m : Moment κ ω} (h : m.Refuses cfg p) :
    ∃ m', m.next? cfg host = some m' ∧ m'.stage.Reports (refusal cfg m.state.depth p) := by
  obtain ⟨stage, waiting, s⟩ := m
  obtain ⟨frame, onlyResolve, rfl, hdepth⟩ := h
  let report := Report.evaluation (.error (refusal cfg s.depth p)) frame
  have hstart : start cfg host s (.evaluate p frame onlyResolve) = (.reporting report, [], s) := by
    have h : cfg.maxDepth ≤ s.depth := hdepth
    simp only [start, startEvaluation, if_pos h]
    rfl
  refine ⟨⟨.reporting report, waiting, s⟩, ?_, report, _, rfl, rfl, .refl _⟩
  simp only [Moment.next?, hstart, List.nil_append]

/-! ### Failures of other kinds -/

/-- Nothing about nesting. -/
abbrev IsCalm {α : Type} (result : Except Failure α) : Prop := FailsOnly (fun c => c.isRecursion = false) result

theorem isRecursion_of_isOrdinary {c : Cause} (h : c.isOrdinary) : c.isRecursion = false := by
  cases c with
  | fault | undecodable | nestingLimit | stackExhausted | hostExhausted | host => cases h
  | _ => rfl

theorem isRecursion_of_becomes {c d : Cause} (h : c.Becomes d) (hc : c.isRecursion = false) :
    d.isRecursion = false := by
  obtain rfl | ⟨rfl, -⟩ := h
  · exact hc
  · cases hc

/-- If a script cannot be read, then because it is not text or because its form is at fault. -/
theorem parse_failsOnly (allowed : Cause → Prop) (hundecodable : allowed .undecodable)
    (hfault : ∀ fault, allowed (.fault fault)) (cfg : Config) (source : Source) (file : Option String)
    (s : State κ ω) : FailsOnly allowed (s.parse cfg source file).1 := by
  have hread (key : ScriptKey) : FailsOnly allowed (readScript key) := by
    unfold readScript
    split
    · exact .error hundecodable
    · split
      · exact .error (hfault _)
      · split
        · exact .error (hfault _)
        · exact .ok _
  unfold State.parse ParseCache.read
  simp only
  split
  · exact .ok _
  · have h := hread ⟨file, source⟩
    split <;> rename_i heq <;> rw [heq] at h
    · exact .error (h _ rfl)
    · exact .ok _

theorem defineText_failsOnly (allowed : Cause → Prop) (hundecodable : allowed .undecodable)
    (hfault : ∀ fault, allowed (.fault fault)) (cfg : Config) (name : String) (parameters : List String) (body : String)
    (s : State κ ω) : FailsOnly allowed (s.defineText cfg name parameters body).1 := by
  have h := parse_failsOnly allowed hundecodable hfault cfg (.text body) (some ("<function:" ++ name ++ ">")) s
  unfold State.defineText
  split <;> rename_i heq <;> rw [heq] at h
  · exact .ok _
  · exact .error (h _ rfl)

/-! ### Stages without failures that tell of nesting -/

structure Stage.IsCalm (stage : Stage ω) : Prop where
  report : ∀ r, stage = .reporting r → ∀ f, r.result = .error f → f.cause.isRecursion = false
  action : ∀ bound arguments action, stage = .doing (.act bound arguments action) → action.RaisesNoRecursion

theorem Stage.IsCalm.of_report {r : Report} (h : Running.IsCalm r.result) : (.reporting r : Stage ω).IsCalm := by
  constructor
  · rintro _ ⟨⟩
    exact h
  · rintro _ _ _ ⟨⟩

theorem Stage.IsCalm.of_job {job : Job ω} (h : job.action? = none) : (.doing job : Stage ω).IsCalm := by
  constructor
  · rintro _ ⟨⟩
  · rintro _ _ _ ⟨⟩
    cases h

theorem Stage.IsCalm.of_action {bound : Nat} {arguments : List String} {action : Action ω}
    (h : action.RaisesNoRecursion) : (.doing (.act bound arguments action) : Stage ω).IsCalm := by
  constructor
  · rintro _ ⟨⟩
  · rintro _ _ _ ⟨⟩
    exact h

/-- What a job fails with tells of nesting only if an evaluation is refused, or a host command says so. -/
theorem isRecursion_of_raises {job : Job ω} {s : State κ ω} {c : Cause} (h : Raises cfg s job c)
    (hjob : (Stage.doing job).IsCalm)
    (hroom : ∀ p frame onlyResolve, job = .evaluate p frame onlyResolve → ¬cfg.maxDepth ≤ s.depth) :
    c.isRecursion = false := by
  cases h with
  | ordinary h => exact isRecursion_of_isOrdinary h
  | @unread _ source file f _ h =>
    exact parse_failsOnly (fun c => c.isRecursion = false) rfl (fun _ => rfl) cfg source file s f h
  | miscounted | unclosed => rfl
  | refused p frame onlyResolve hdepth => exact absurd hdepth (hroom p frame onlyResolve rfl)
  | failed bound arguments f =>
    cases hjob.action bound arguments (.fail f) rfl with
    | fail h => exact h

theorem act_isCalm {action : Action ω} (houtside : action.StaysOutside) (h : action.RaisesNoRecursion) (bound : Nat)
    (arguments : List String) (s : State κ ω) : (act cfg bound arguments s action).1.IsCalm := by
  cases houtside with
  | finish value => exact .of_report (.ok _)
  | fail failure =>
    cases h with
    | fail hf => exact .of_report (.error hf)
  | update change _ =>
    cases h with
    | update _ hnext => exact .of_action hnext
  | define name parameters body _ =>
    cases h with
    | ask _ hnext =>
      have hdefined : IsCalm (s.defineText cfg name parameters body).1 :=
        defineText_failsOnly (fun c => c.isRecursion = false) rfl (fun _ => rfl) cfg name parameters body s
      exact .of_action (hnext _ hdefined)
  | lookup name _ =>
    cases h with
    | ask _ hnext => exact .of_action (hnext _ fun _ hf => by cases hf)

theorem start_isCalm (hcalm : ∀ key call, (host key call).RaisesNoRecursion) {job : Job ω} {s : State κ ω}
    (houtside : (Stage.doing job).StaysOutside) (hjob : (Stage.doing job).IsCalm)
    (hroom : ∀ p frame onlyResolve, job = .evaluate p frame onlyResolve → ¬cfg.maxDepth ≤ s.depth) :
    (start cfg host s job).1.IsCalm := by
  have hbegins : Begins cfg host s job (start cfg host s job).1 := start_begins job s
  generalize hstage : (start cfg host s job).1 = stage at hbegins
  cases hbegins with
  | report h => exact .of_report fun f hf => isRecursion_of_raises (h f hf) hjob hroom
  | job h => exact .of_job (Job.action?_of_isForeign h)
  | command => exact .of_action (hcalm _ _)
  | @action bound arguments action hjob' =>
    rw [← hstage, hjob']
    exact act_isCalm (houtside bound arguments action (by rw [hjob'])) (hjob.action bound arguments action (by rw [hjob']))
      bound arguments s

theorem resume_isCalm {w : Waiting ω} (hw : w.LetsThrough) {r : Report} (hr : IsCalm r.result) {s t : State κ ω}
    {stage : Stage ω} (h : resume cfg host s w r = some (stage, t)) : stage.IsCalm := by
  cases resume_resumes h with
  | report hfails =>
    refine .of_report fun f hf => ?_
    obtain hordinary | ⟨g, hg, hbecomes⟩ := hfails f hf
    · exact isRecursion_of_isOrdinary hordinary
    · exact isRecursion_of_becomes hbecomes (hr g hg)
  | job hjob => exact .of_job (Job.action?_of_isForeign hjob)
  | action hwaiting =>
    rw [hwaiting] at hw
    exact hw.elim

/-- Failures tell of nesting only once an evaluation has been refused. -/
theorem LetsThrough.isCalm (hhost : host.StaysOutside) (hcalm : ∀ key call, (host key call).RaisesNoRecursion)
    {m m' : Moment κ ω} (hm : LetsThrough m) (hstage : m.stage.IsCalm) (h : Leads cfg host m m')
    (hroom : ∀ m₁, Leads cfg host m m₁ → ∀ p, ¬m₁.Refuses cfg p) : m'.stage.IsCalm := by
  induction h with
  | refl => exact hstage
  | @tail m' m'' hlead hstep ih =>
    obtain ⟨hwaiting, houtside⟩ := hm.leads hhost hlead
    have hroom := hroom m' hlead
    obtain ⟨stage, waiting, s⟩ := m'
    match stage, waiting with
    | .doing job, waiting =>
      obtain rfl := Option.some.inj hstep
      refine start_isCalm hcalm houtside ih ?_
      rintro p frame onlyResolve rfl hdepth
      exact hroom p ⟨frame, onlyResolve, rfl, hdepth⟩
    | .reporting report, [] => cases hstep
    | .reporting report, w :: waiting =>
      obtain ⟨_, hr, rfl⟩ := Option.map_eq_some_iff.1 hstep
      exact resume_isCalm (hwaiting w List.mem_cons_self) (ih.report report rfl) hr

end Running

end CommandScript
