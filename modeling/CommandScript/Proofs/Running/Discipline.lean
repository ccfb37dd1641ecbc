import CommandScript.Proofs.Running.Failures

/-! Rules for host commands. They say what a host command may do, with what it may wait for an answer, and which
failures may go round. If all host commands of a session keep to such rules, so does every moment that a job comes
to. -/

namespace CommandScript

open Text Syntax Code Command Machine

namespace Session

/-- Rules that whatever a host command does next obeys as well, and that all failures obey but those of a host that ran
out of stack. -/
structure Discipline (ω : Type) where
  allows : Action ω → Prop
  awaits : (Except Failure (List String) → Action ω) → Prop
  raises : Cause → Prop
  fail {failure : Failure} : allows (.fail failure) → raises failure.cause
  update {change : ω → ω} {next : Action ω} : allows (.update change next) → allows next
  ask {request : Request} {next : Except Failure (List String) → Action ω} : allows (.ask request next) → awaits next
  answer {next : Except Failure (List String) → Action ω} {result : Except Failure (List String)} :
    awaits next → FailsOnly raises result → allows (next result)
  ordinary {cause : Cause} : cause ≠ .hostExhausted → raises cause

end Session

namespace Running

open Session

variable {κ ω : Type} {d : Discipline ω} {cfg : Config} {host : Host κ ω} {m m' : Moment κ ω}

/-! ### Moments -/

/-- Whether it is a host command that waits. -/
def Waiting.isHost : Waiting ω → Bool
  | .host .. => true
  | _ => false

variable (d) in
def Waiting.Obeys : Waiting ω → Prop
  | .host _ _ next => d.awaits next
  | _ => True

variable (d) in
def Stage.Obeys : Stage ω → Prop
  | .reporting r => CommandScript.FailsOnly d.raises r.result
  | .doing (.act _ _ action) => d.allows action
  | .doing _ => True

variable (d) in
/-- A moment in which the host commands that act or wait keep to the rules, and so does what is reported. -/
structure Moment.Obeys (m : Moment κ ω) : Prop where
  stage : m.stage.Obeys d
  waiting : ∀ w ∈ m.waiting, w.Obeys d

theorem Waiting.Obeys.of_not_isHost {w : Waiting ω} (h : w.isHost = false) : w.Obeys d := by
  cases w with
  | host => cases h
  | _ => trivial

theorem Stage.Obeys.of_job {job : Job ω} (h : job.action? = none) : (Stage.doing job).Obeys d := by
  cases job with
  | act => cases h
  | _ => trivial

/-- Nothing waits in the beginning. -/
theorem Moment.Obeys.of_job {job : Job ω} (h : job.action? = none) (s : State κ ω) :
    (⟨.doing job, [], s⟩ : Moment κ ω).Obeys d :=
  ⟨.of_job h, fun _ hw => (List.not_mem_nil hw).elim⟩

/-! ### Steps -/

theorem ne_hostExhausted_of_isOrdinary {c : Cause} (h : c.isOrdinary) : c ≠ .hostExhausted := by
  rintro rfl
  cases h

theorem Discipline.raises_of_raises {job : Job ω} {s : State κ ω} {c : Cause} (h : Raises cfg s job c)
    (hjob : (Stage.doing job).Obeys d) : d.raises c := by
  cases h with
  | ordinary h => exact d.ordinary (ne_hostExhausted_of_isOrdinary h)
  | @unread _ source file f _ h =>
    have hparse : FailsOnly d.raises (s.parse cfg source file).1 :=
      parse_failsOnly d.raises (d.ordinary Cause.noConfusion) (fun _ => d.ordinary Cause.noConfusion) cfg source file s
    exact hparse f h
  | miscounted | unclosed | refused => exact d.ordinary Cause.noConfusion
  | failed bound arguments f => exact d.fail hjob

theorem act_obeys {action : Action ω} (h : d.allows action) (bound : Nat) (arguments : List String) (s : State κ ω) :
    (act cfg bound arguments s action).1.Obeys d ∧ ∀ w ∈ (act cfg bound arguments s action).2.1, w.Obeys d := by
  have none {w : Waiting ω} (h : w ∈ []) : w.Obeys d := (List.not_mem_nil h).elim
  cases action with
  | finish value => exact ⟨.ok _, fun _ => none⟩
  | fail failure => exact ⟨.error (d.fail h), fun _ => none⟩
  | update change next => exact ⟨d.update h, fun _ => none⟩
  | ask request next =>
    have hnext : d.awaits next := d.ask h
    have hwaiting : ∀ w ∈ [Waiting.host bound arguments next], w.Obeys d := List.forall_mem_singleton.2 hnext
    cases request with
    | run | measure => exact ⟨trivial, List.forall_mem_cons.2 ⟨trivial, hwaiting⟩⟩
    | expand => exact ⟨trivial, hwaiting⟩
    | forward skip =>
      simp only [act]
      split
      · exact ⟨trivial, hwaiting⟩
      · exact ⟨d.answer hnext (.error (d.ordinary Cause.noConfusion)), fun _ => none⟩
    | define name parameters body =>
      have hdefined : FailsOnly d.raises (s.defineText cfg name parameters body).1 := defineText_failsOnly d.raises
        (d.ordinary Cause.noConfusion) (fun _ => d.ordinary Cause.noConfusion) cfg name parameters body s
      exact ⟨d.answer hnext hdefined, fun _ => none⟩
    | lookup name => exact ⟨d.answer hnext (.ok _), fun _ => none⟩

/-- Only a host command has a host command wait. -/
theorem start_waiting (job : Job ω) (hjob : job.action? = none) (s : State κ ω) :
    ∀ w ∈ (start cfg host s job).2.1, w.isHost = false := by
  have none {w : Waiting ω} (h : w ∈ []) : w.isHost = false := (List.not_mem_nil h).elim
  have one {w w' : Waiting ω} (hw : w'.isHost = false) (h : w ∈ [w']) : w.isHost = false := List.mem_singleton.1 h ▸ hw
  cases job with
  | runScript source file verbosity statistics =>
    simp only [start, startScript]
    split
    · exact fun _ => none
    · split <;> exact fun _ => one rfl
  | expandScript source file =>
    simp only [start, startExpansion]
    split
    · exact fun _ => none
    · split <;> exact fun _ => none
  | evaluateHere => exact fun _ => one rfl
  | execute results ps frame =>
    simp only [start, startProgram]
    repeat' split
    all_goals first
      | exact fun _ => none
      | exact fun _ => one rfl
  | evaluate p frame onlyResolve => exact fun _ => none
  | goOn e =>
    rcases goOn_cases cfg host e s with ⟨i, rest, arguments, record, -, -, h⟩ | ⟨stage, t, h, -⟩
    · rw [start, h]
      exact fun _ => one rfl
    · rw [start, h]
      exact fun _ => none
  | invoke bound name arguments =>
    simp only [start, startInvocation]
    repeat' split
    all_goals first
      | exact fun _ => none
      | exact fun _ => one rfl
  | act => cases hjob

theorem start_obeys (hhost : ∀ key call, d.allows (host key call)) {job : Job ω} (hjob : (Stage.doing job).Obeys d)
    (s : State κ ω) : (start cfg host s job).1.Obeys d ∧ ∀ w ∈ (start cfg host s job).2.1, w.Obeys d := by
  cases haction : job.action? with
  | some action =>
    cases job with
    | act bound arguments action => exact act_obeys hjob bound arguments s
    | _ => cases haction
  | none =>
    refine ⟨?_, fun w hw => .of_not_isHost (start_waiting job haction s w hw)⟩
    have hbegins : Begins cfg host s job (start cfg host s job).1 := start_begins job s
    generalize (start cfg host s job).1 = stage at hbegins
    cases hbegins with
    | report h => exact fun f hf => Discipline.raises_of_raises (h f hf) hjob
    | job h => exact .of_job (Job.action?_of_isForeign h)
    | command => exact hhost _ _
    | action h =>
      rw [h] at haction
      cases haction

theorem resume_obeys {w : Waiting ω} (hw : w.Obeys d) {r : Report} (hr : FailsOnly d.raises r.result) {s t : State κ ω}
    {stage : Stage ω} (h : resume cfg host s w r = some (stage, t)) : stage.Obeys d := by
  have hresumes : Resumes r w stage := resume_resumes h
  cases hresumes with
  | report hfails =>
    intro f hf
    obtain hordinary | ⟨g, hg, heq | ⟨-, depth, program, heq⟩⟩ := hfails f hf
    · exact d.ordinary (ne_hostExhausted_of_isOrdinary hordinary)
    · rw [heq]
      exact hr g hg
    · rw [heq]
      exact d.ordinary Cause.noConfusion
  | job hjob => exact .of_job (Job.action?_of_isForeign hjob)
  | @action bound arguments next hwaiting result =>
    subst hwaiting
    cases r with
    | answer result' =>
      obtain ⟨hstage, -⟩ := Prod.mk.inj (Option.some.inj h)
      rw [← hstage]
      exact d.answer hw hr
    | evaluation | execution | script => cases h

theorem Moment.Obeys.next (hhost : ∀ key call, d.allows (host key call)) (hm : m.Obeys d)
    (h : m.next? cfg host = some m') : m'.Obeys d := by
  obtain ⟨stage, waiting, s⟩ := m
  obtain ⟨hstage, hwaiting⟩ := hm
  match stage, waiting with
  | .doing job, waiting =>
    obtain rfl := Option.some.inj h
    obtain ⟨hstart, hbefore⟩ := start_obeys hhost hstage s
    exact ⟨hstart, fun w hw => (List.mem_append.1 hw).elim (hbefore w) (hwaiting w)⟩
  | .reporting report, [] => cases h
  | .reporting report, w :: waiting =>
    obtain ⟨_, hr, rfl⟩ := Option.map_eq_some_iff.1 h
    exact ⟨resume_obeys (hwaiting w List.mem_cons_self) hstage hr,
      fun w hw => hwaiting w (List.mem_cons_of_mem _ hw)⟩

theorem Moment.Obeys.leads (hhost : ∀ key call, d.allows (host key call)) (hm : m.Obeys d) (h : Leads cfg host m m') :
    m'.Obeys d := by
  induction h with
  | refl => exact hm
  | tail _ hstep ih => exact ih.next hhost hstep

end Running

end CommandScript
