import CommandScript.Proofs.Evaluation.Causes
import CommandScript.Proofs.Running.Effects

/-! What a step can fail with. Instructions and built-in commands have failures of their own, and an instruction fails
as its command does. Beyond that, a script may not be readable, a block may not end, an evaluation may be refused, and a
host command fails as it likes. What waits for a report that fails keeps the cause, unless it tells of the stack. -/

namespace CommandScript

open Text Syntax Code Command Machine

/-! ### Causes -/

/-- What instructions and built-in commands fail with by themselves. -/
def Cause.isOrdinary : Cause → Bool
  | fault _ | undecodable | nestingLimit .. | stackExhausted .. | hostExhausted | host .. => false
  | _ => true

/-- What a cause may be once the evaluation is over in which it came up. -/
def Cause.Becomes (c d : Cause) : Prop :=
  d = c ∨ c = .hostExhausted ∧ ∃ depth program, d = .stackExhausted depth program

/-- If it fails, then with a cause that is allowed. -/
def FailsOnly {α : Type} (allowed : Cause → Prop) (result : Except Failure α) : Prop :=
  ∀ f, result = .error f → allowed f.cause

namespace FailsOnly

variable {α β : Type} {allowed : Cause → Prop}

theorem ok (a : α) : FailsOnly allowed (.ok a) := by
  rintro _ ⟨⟩

theorem error {f : Failure} (h : allowed f.cause) : FailsOnly allowed (.error f : Except Failure α) := by
  rintro _ ⟨⟩
  exact h

theorem map {result : Except Failure α} (h : FailsOnly allowed result) (f : α → β) :
    FailsOnly allowed (result.map f) := by
  cases result with
  | ok a => exact .ok (f a)
  | error failure => exact .error (h failure rfl)

end FailsOnly

namespace Running

open Session

/-! ### Instructions -/

theorem isOrdinary_of_pop {held : Stacks String} {n : Int} {cause : Cause} (h : held.pop n = .error cause) :
    cause.isOrdinary := by
  obtain ⟨_, _, rfl⟩ | ⟨_, _, rfl⟩ := cause_of_pop h <;> rfl

theorem isOrdinary_of_expandOperands {expansion : Option Expansion} {operands : List (Operand String)} {cause : Cause}
    (h : expandOperands expansion operands = .error cause) : cause.isOrdinary := by
  rw [cause_of_expandOperands h]
  rfl

theorem isOrdinary_irregularity (i : Instruction) (code : Int) : (irregularity i code).isOrdinary := by
  obtain h | h | h := irregularity_cases i code <;> rw [h] <;> rfl

section Instructions

variable {σ : Type} {w : Surroundings σ} {allowed : Cause → Prop} (hordinary : ∀ c : Cause, c.isOrdinary → allowed c)
  (hinvoke : ∀ name arguments s, FailsOnly allowed (w.invoke name arguments s).1)
include hordinary hinvoke

theorem dispatch_failsOnly (i : Instruction) (arguments : List String) (s : σ) :
    FailsOnly allowed (dispatch w i arguments s).1 := by
  have h := hinvoke i.name arguments (w.observe (.dispatching i.commandLabel arguments) s)
  unfold dispatch
  simp only
  split <;> rename_i heq <;> rw [heq] at h
  · exact .ok _
  · exact .error (hordinary _ rfl)
  · rename_i failure s
    have hf : allowed failure.cause := h failure rfl
    split
    · split
      · exact .error hf
      · exact .ok _
    · exact .error hf

/-- An instruction fails in an ordinary way, or as its command does. -/
theorem execute_failsOnly (onlyResolve isLast : Bool) (i : Instruction) (held : Stacks String) (s : σ) :
    FailsOnly allowed (Machine.execute w onlyResolve isLast i held s).1 := by
  have failed {arguments : List String} {f : Failure} {t : σ} (h : dispatch w i arguments s = (.error f, t)) :
      allowed f.cause := dispatch_failsOnly hordinary hinvoke i arguments s f (congrArg Prod.fst h)
  unfold Machine.execute
  simp only
  split
  · exact .ok _
  · split
    · exact .ok _
    · exact .error (hordinary _ (isOrdinary_of_pop ‹_›))
  · split
    · exact .ok _
    · exact .error (hordinary _ (isOrdinary_of_pop ‹_›))
  · split
    · split
      · exact .ok _
      · exact .error (hordinary _ (isOrdinary_of_expandOperands ‹_›))
    · exact .error (hordinary _ (isOrdinary_of_pop ‹_›))
  · split
    · split
      · exact .ok _
      · exact .error (failed ‹_›)
    · exact .error (hordinary _ (isOrdinary_of_pop ‹_›))
  · split
    · split
      · split
        · exact .ok _
        · exact .error (hordinary _ rfl)
      · split
        · exact .ok _
        · exact .error (failed ‹_›)
    · exact .error (hordinary _ (isOrdinary_of_pop ‹_›))
  · exact .error (hordinary _ (isOrdinary_irregularity i _))

end Instructions

/-! ### Commands -/

variable {κ ω : Type} {cfg : Config} {host : Host κ ω}

theorem isOrdinary_of_callee {s : State κ ω} {name : String} {given : Nat} {f : Failure}
    (h : s.callee name given = .error f) : f.cause.isOrdinary := by
  unfold State.callee Library.get at h
  split at h <;> rename_i heq
  · split at heq <;> cases heq
    cases h
    rfl
  · split at h <;> rename_i harity
    · unfold Entry.checkArity at harity
      split at harity <;> cases harity
      cases h
      rfl
    · cases h

theorem perform_failsOnly (checked : Bool) (b : Builtin) (arguments : List String) (d : Desk) :
    FailsOnly (fun c => c.isOrdinary) (b.perform checked arguments d).1 := by
  cases b with
  | set =>
    simp only [Builtin.perform, Desk.set, Desk.writeEnvironment]
    repeat' split
    all_goals first
      | exact .ok _
      | exact .error rfl
  | unset =>
    simp only [Builtin.perform, Desk.unset]
    repeat' split
    all_goals first
      | exact .ok _
      | exact .error rfl
  | message =>
    simp only [Builtin.perform, Desk.message]
    split
    · exact .error rfl
    all_goals exact .ok _
  | returnValues => exact .ok _
  | function | endFunction => exact .error rfl

/-! ### Evaluations -/

/-- The result that is reported, of whatever it is. -/
def Report.result : Report → Except Failure (List String)
  | .answer result | .evaluation result _ | .execution result _ | .script result _ => result

/-- If a failure is reported, then with a cause that is allowed. -/
def Stage.FailsOnly (allowed : Cause → Prop) (stage : Stage ω) : Prop :=
  ∀ r, stage = .reporting r → CommandScript.FailsOnly allowed r.result

theorem Stage.FailsOnly.of_report {allowed : Cause → Prop} {r : Report}
    (h : CommandScript.FailsOnly allowed r.result) : (.reporting r : Stage ω).FailsOnly allowed := by
  rintro _ ⟨⟩
  exact h

theorem Stage.FailsOnly.of_job {allowed : Cause → Prop} (job : Job ω) :
    (.doing job : Stage ω).FailsOnly allowed := by
  rintro _ ⟨⟩

section Evaluations

variable {allowed : Cause → Prop}
  (hexhausted : allowed .hostExhausted → ∀ depth program, allowed (.stackExhausted depth program))
include hexhausted

theorem Evaluation.finish_failsOnly (e : Evaluation) {result : Except Failure (List String)}
    (h : FailsOnly allowed result) (s : State κ ω) : (e.finish result s).1.FailsOnly allowed := by
  cases result with
  | ok values => exact .of_report (.ok values)
  | error failure =>
    have hf := h failure rfl
    refine .of_report (.error ?_)
    unfold reportExhaustion
    split
    · rename_i heq
      exact hexhausted (heq ▸ hf) s.depth e.program.name
    · exact hf

theorem Evaluation.settle_failsOnly (e : Evaluation) (i : Instruction) (rest : List Instruction)
    {x : Except Failure (Progress String) × State κ ω} (h : FailsOnly allowed x.1) :
    (e.settle i rest x).1.FailsOnly allowed := by
  match x with
  | (.ok (.moved _), _) => exact .of_job _
  | (.ok (.resolved _), s) => exact e.finish_failsOnly hexhausted (.ok _) s
  | (.error failure, s) =>
    have hf : allowed failure.cause := h failure rfl
    have hattributed : allowed (failure.attributeTo i).cause := by
      unfold Failure.attributeTo
      split <;> exact hf
    exact e.finish_failsOnly hexhausted (.error hattributed) s

end Evaluations

theorem goOn_failsOnly (e : Evaluation) (s : State κ ω) :
    (goOn cfg host e s).1.FailsOnly fun c => c.isOrdinary := by
  have hexhausted (h : Cause.hostExhausted.isOrdinary = true) (depth : Nat) (program : String) :
      (Cause.stackExhausted depth program).isOrdinary = true := by
    cases h
  unfold goOn
  split
  · refine e.finish_failsOnly hexhausted ?_ _
    unfold runFrom
    split
    · exact .ok _
    · exact .error rfl
  · rename_i i rest _
    simp only
    split
    · exact .of_job _
    · exact e.settle_failsOnly hexhausted i rest
        (execute_failsOnly (fun _ h => h) (fun _ _ _ => .ok _) e.onlyResolve rest.isEmpty i e.held _)

/-! ### First steps -/

/-- The script that a job has read. -/
def Job.script? : Job ω → Option (Source × Option String)
  | .runScript source file _ _ | .expandScript source file => some (source, file)
  | _ => none

/-- The host command that a job carries out. -/
def Job.action? : Job ω → Option (Action ω)
  | .act _ _ action => some action
  | _ => none

/-- A job that comes up for host commands only: it carries one out, or reads a script that one asks for. -/
def Job.isForeign (job : Job ω) : Bool := job.script?.isSome || job.action?.isSome

theorem Job.action?_of_isForeign {job : Job ω} (h : job.isForeign = false) : job.action? = none := by
  cases job with
  | act => cases h
  | _ => rfl

/-- What a job can fail with in its first step. -/
inductive Raises (cfg : Config) (s : State κ ω) : Job ω → Cause → Prop where
  | ordinary {job : Job ω} {c : Cause} (h : c.isOrdinary) : Raises cfg s job c
  | unread {job : Job ω} {source : Source} {file : Option String} {f : Failure}
    (hjob : job.script? = some (source, file)) (h : (s.parse cfg source file).1 = .error f) : Raises cfg s job f.cause
  | miscounted (source : Source) (file : Option String) (count : Nat) :
    Raises cfg s (.expandScript source file) (.fault ⟨.invocationCount count, ⟨1, 1, file⟩⟩)
  | unclosed {results : List String} {p : Program} {ps : List Program} {frame : Frame} (hreturned : ¬frame.returned)
    (hp : p.opensFunction) (h : splitBlock 0 ps = none) :
    Raises cfg s (.execute results (p :: ps) frame) (.fault p.unclosedFunction)
  | refused (p : Program) (frame : Frame) (onlyResolve : Bool) (h : cfg.maxDepth ≤ s.depth) :
    Raises cfg s (.evaluate p frame onlyResolve) (refusal cfg s.depth p).cause
  | failed (bound : Nat) (arguments : List String) (f : Failure) : Raises cfg s (.act bound arguments (.fail f)) f.cause

/-- What the first step of a job can lead to. -/
inductive Begins (cfg : Config) (host : Host κ ω) (s : State κ ω) (job : Job ω) : Stage ω → Prop where
  | report {r : Report} (h : FailsOnly (Raises cfg s job) r.result) : Begins cfg host s job (.reporting r)
  | job {job' : Job ω} (h : job'.isForeign = false) : Begins cfg host s job (.doing job')
  | command {bound : Nat} {name : String} {arguments : List String} {key : κ} (hjob : job = .invoke bound name arguments)
    (hcallee : s.callee name arguments.length = .ok (.host key)) :
    Begins cfg host s job (.doing (.act bound arguments (host key (s.hostCall arguments))))
  | action {bound : Nat} {arguments : List String} {action : Action ω} (hjob : job = .act bound arguments action)
    (job' : Job ω) : Begins cfg host s job (.doing job')

theorem start_begins (job : Job ω) (s : State κ ω) : Begins cfg host s job (start cfg host s job).1 := by
  cases job with
  | runScript source file verbosity statistics =>
    simp only [start, startScript]
    split <;> rename_i heq
    · exact .report (.error (.unread rfl (congrArg Prod.fst heq)))
    · split <;> exact .job rfl
  | expandScript source file =>
    simp only [start, startExpansion]
    split <;> rename_i heq
    · exact .report (.error (.unread rfl (congrArg Prod.fst heq)))
    · split
      · exact .job rfl
      · exact .report (.error (.miscounted source file _))
  | evaluateHere => exact .job rfl
  | execute results ps frame =>
    simp only [start, startProgram]
    split
    · exact .report (.ok _)
    · split
      · exact .report (.ok _)
      · rename_i hreturned
        split
        · rename_i hp
          split <;> rename_i hs
          · exact .report (.error (.unclosed hreturned hp hs))
          · exact .job rfl
        · exact .job rfl
  | evaluate p frame onlyResolve =>
    simp only [start, startEvaluation]
    split <;> rename_i hdepth
    · exact .report (.error (.refused p frame onlyResolve hdepth))
    · split
      · exact .report (.error (.ordinary rfl))
      · exact .job rfl
  | goOn e =>
    have hfails : (goOn cfg host e s).1.FailsOnly fun c => c.isOrdinary := goOn_failsOnly e s
    rcases goOn_cases cfg host e s with ⟨i, rest, arguments, record, -, -, h⟩ | ⟨stage, t, h, hsettles⟩
    · rw [start, h]
      exact .job rfl
    · rw [start, h]
      rw [h] at hfails
      cases hsettles with
      | goesOn => exact .job rfl
      | ended => exact .report fun f hf => .ordinary (hfails _ rfl f hf)
  | invoke bound name arguments =>
    simp only [start, startInvocation]
    split <;> rename_i hcallee
    · exact .report (.error (.ordinary (isOrdinary_of_callee hcallee)))
    · have hperform := perform_failsOnly cfg.processEnvironment
      exact .report fun f hf => .ordinary (hperform _ arguments _ f hf)
    · split
      · exact .report (.error (.ordinary rfl))
      · exact .job rfl
    · exact .command rfl hcallee
  | act bound arguments action =>
    cases action with
    | finish value => exact .report (.ok _)
    | fail f => exact .report (.error (.failed bound arguments f))
    | update change next => exact .action rfl _
    | ask request next =>
      simp only [start, act]
      repeat' split
      all_goals exact .action rfl _

/-! ### Steps behind a report -/

/-- What becomes of a report, other than to an evaluation or a host command that waits for a command. -/
inductive Passes (r : Report) : Stage ω → Prop where
  | execute {values results : List String} {ps : List Program} {frame : Frame} (h : r.result = .ok values) :
    Passes r (.doing (.execute results ps frame))
  | report {r' : Report} (change : List String → List String) (h : r'.result = r.result.map change) :
    Passes r (.reporting r')
  /-- The name and the parameters of a function were to be reported. -/
  | nameless {r' : Report} {f : Failure} (h : r.result = .ok []) (h' : r'.result = .error f)
    (hcause : f.cause = .functionWithoutName) : Passes r (.reporting r')

theorem Passes.same {r r' : Report} (h : r'.result = r.result) : Passes (ω := ω) r (.reporting r') := by
  refine .report id ?_
  rw [h]
  cases r.result <;> rfl

theorem resume_cases {w : Waiting ω} {r : Report} {s t : State κ ω} {stage : Stage ω}
    (h : resume cfg host s w r = some (stage, t)) :
    (∃ e result, w = .command e ∧ r = .answer result) ∨ (∃ bound arguments next, w = .host bound arguments next) ∨
      Passes r stage := by
  unfold resume at h
  split at h
  case h_1 e result => exact .inl ⟨e, result, rfl, rfl⟩
  case h_11 bound arguments next result => exact .inr (.inl ⟨bound, arguments, next, rfl⟩)
  all_goals
    refine .inr (.inr ?_)
    cases h
  case h_2 | h_4 => exact .execute rfl
  case h_5 => exact .nameless rfl rfl rfl
  case h_7 callee => exact .report (fun _ => callee.result) rfl
  case h_13 => exact .report (fun _ => _) rfl
  all_goals exact .same rfl

/-- What can become of a report to what waits for it. -/
inductive Resumes (r : Report) (w : Waiting ω) : Stage ω → Prop where
  | report {r' : Report} (h : FailsOnly (fun c => c.isOrdinary ∨ ∃ f, r.result = .error f ∧ f.cause.Becomes c) r'.result) :
    Resumes r w (.reporting r')
  | job {job : Job ω} (h : job.isForeign = false) : Resumes r w (.doing job)
  | action {bound : Nat} {arguments : List String} {next : Except Failure (List String) → Action ω}
    (hw : w = .host bound arguments next) (result : Except Failure (List String)) :
    Resumes r w (.doing (.act bound arguments (next result)))

theorem resume_resumes {w : Waiting ω} {r : Report} {s t : State κ ω} {stage : Stage ω}
    (h : resume cfg host s w r = some (stage, t)) : Resumes r w stage := by
  rcases resume_cases h with ⟨e, result, rfl, rfl⟩ | ⟨bound, arguments, next, rfl⟩ | hpasses
  · cases hrest : e.rest with
    | nil =>
      simp only [resume, hrest] at h
      cases h
    | cons i rest =>
      have hinvoke (name : Option String) (values : List String) (u : State κ ω) : FailsOnly
          (fun c => c.isOrdinary = true ∨ ∃ f, result = .error f ∧ f.cause.Becomes c)
          ((answering cfg host e.scope (result, s)).invoke name values u).1 := by
        refine FailsOnly.map (fun f hf => ?_) _
        exact .inr ⟨f, hf, .inl rfl⟩
      have hsettle := e.settle_failsOnly ?_ i rest
        (execute_failsOnly (fun _ h => .inl h) hinvoke e.onlyResolve rest.isEmpty i e.held s)
      · have hcommand := resume_command h
        simp only [resume, hrest] at h
        rw [Option.some.inj h] at hsettle
        cases hcommand with
        | goesOn => exact .job rfl
        | ended => exact .report (hsettle _ rfl)
      · rintro (hordinary | ⟨f, hf, hbecomes | ⟨-, _, _, heq⟩⟩) depth program
        · cases hordinary
        · exact .inr ⟨f, hf, .inr ⟨hbecomes.symm, depth, program, rfl⟩⟩
        · cases heq
  · cases r with
    | answer result =>
      cases h
      exact .action rfl result
    | evaluation | execution | script => cases h
  · cases hpasses with
    | execute => exact .job rfl
    | report change hresult =>
      refine .report fun f hf => .inr ⟨f, ?_, .inl rfl⟩
      rw [hresult] at hf
      cases hr : r.result with
      | ok values =>
        rw [hr] at hf
        cases hf
      | error g =>
        rw [hr] at hf
        cases hf
        rfl
    | nameless _ hresult hcause => exact .report (hresult ▸ .error (.inl (by rw [hcause]; rfl)))

end Running

end CommandScript
