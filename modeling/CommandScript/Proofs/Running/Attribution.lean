import CommandScript.Proofs.Running.Blocks
import CommandScript.Proofs.Running.Carrying
import CommandScript.Proofs.Running.Programs

/-! Where failures are located. Whether it comes up in an instruction by itself or in what was begun for its command, a
failure gets to the end of a run with the place and the name of the innermost instruction, if it had none. -/

namespace CommandScript

open Text Syntax Code Command Machine

/-- What an instruction fails with that dispatches nothing. -/
def Cause.isMechanical : Cause → Bool
  | tooFewCounts .. | tooFewValues .. | callBeforeEnd | operandCount | numberForText _ | textForNumber
  | unknownInstruction _ => true
  | _ => false

theorem Cause.isMechanical_cases {c : Cause} (h : c.isMechanical) :
    c.isRefusal = false ∧ c.isFatal ∧ c ≠ .hostExhausted := by
  cases c with
  | tooFewCounts | tooFewValues | callBeforeEnd | operandCount | numberForText | textForNumber | unknownInstruction =>
    exact ⟨rfl, rfl, nofun⟩
  | _ => cases h

namespace Running

open Session

variable {κ ω : Type} {cfg : Config} {host : Host κ ω}

/-! ### Failures that come up -/

section Alone

variable {σ : Type} {w : Surroundings σ}

theorem isMechanical_of_pop {held : Stacks String} {n : Int} {cause : Cause} (h : held.pop n = .error cause) :
    cause.isMechanical := by
  obtain ⟨_, _, rfl⟩ | ⟨_, _, rfl⟩ := cause_of_pop h <;> rfl

theorem isMechanical_of_expandOperands {expansion : Option Expansion} {operands : List (Operand String)} {cause : Cause}
    (h : expandOperands expansion operands = .error cause) : cause.isMechanical := by
  rw [cause_of_expandOperands h]
  rfl

theorem isMechanical_irregularity (i : Instruction) (code : Int) : (irregularity i code).isMechanical := by
  obtain h | h | h := irregularity_cases i code <;> rw [h] <;> rfl

/-- An instruction that dispatches nothing fails without a place. -/
theorem execute_undispatched_failed {onlyResolve isLast : Bool} {i : Instruction} {held : Stacks String} {s : σ}
    (hd : dispatched? onlyResolve i held = none) :
    FailsOnly (fun c => c.isMechanical) (Machine.execute w onlyResolve isLast i held s).1 := by
  have popped {n : Int} {cause : Cause} (h : held.pop n = .error cause) :
      FailsOnly (fun c => c.isMechanical) (.error { cause } : Except Failure (Progress String)) :=
    .error (isMechanical_of_pop h)
  unfold dispatched? at hd
  unfold Machine.execute
  cases hop : i.operation with
  | literal => exact .ok _
  | «variable» | quoted =>
    simp only
    split
    · exact .ok _
    · exact popped ‹_›
  | unquoted =>
    simp only
    split
    · split
      · exact .ok _
      · exact .error (isMechanical_of_expandOperands ‹_›)
    · exact popped ‹_›
  | commandReference n =>
    simp only [hop] at hd ⊢
    cases hp : held.pop n with
    | ok => simp [hp] at hd
    | error cause => exact popped hp
  | call n =>
    simp only [hop] at hd ⊢
    cases hp : held.pop n with
    | ok =>
      cases onlyResolve with
      | false => simp [hp] at hd
      | true =>
        simp only [if_true]
        split
        · exact .ok _
        · exact .error rfl
    | error cause => exact popped hp
  | irregular code operand => exact .error (isMechanical_irregularity i code)

end Alone

/-- A job that reports in its first step leaves nothing waiting for that. -/
theorem start_report {job : Job ω} {s : State κ ω} {r : Report} (h : (start cfg host s job).1 = .reporting r) :
    (start cfg host s job).2.1 = [] := by
  cases job with
  | runScript source file verbosity statistics =>
    simp only [start, startScript] at h ⊢
    split
    · rfl
    · split <;> simp_all
  | expandScript source file =>
    simp only [start, startExpansion]
    split
    · rfl
    · split <;> rfl
  | evaluateHere => cases h
  | execute results ps frame =>
    simp only [start, startProgram] at h ⊢
    repeat' split
    all_goals first
      | rfl
      | simp_all
  | evaluate p frame onlyResolve => rfl
  | goOn e =>
    rcases goOn_cases cfg host e s with ⟨i, rest, arguments, record, -, -, hgoes⟩ | ⟨stage, t, hgoes, -⟩
    · rw [start, hgoes] at h
      cases h
    · rw [start, hgoes]
  | invoke bound name arguments =>
    simp only [start, startInvocation] at h ⊢
    repeat' split
    all_goals first
      | rfl
      | simp_all
  | act bound arguments action =>
    cases action with
    | finish | fail | update => rfl
    | ask request next =>
      cases request with
      | run | measure | expand => cases h
      | define | lookup => rfl
      | forward skip =>
        simp only [start, act] at h ⊢
        split
        · simp_all
        · rfl

theorem next?_doing {job : Job ω} {waiting : List (Waiting ω)} {s : State κ ω} {m : Moment κ ω}
    (h : Moment.next? cfg host ⟨.doing job, waiting, s⟩ = some m) :
    m = ⟨(start cfg host s job).1, (start cfg host s job).2.1 ++ waiting, (start cfg host s job).2.2⟩ :=
  (Option.some.inj h).symm

/-- A failure comes up while this is the innermost instruction that is being executed: in the instruction itself, or in
what was begun for its command. -/
inductive Moment.Raises (cfg : Config) (host : Host κ ω) (m : Moment κ ω) (i : Instruction) (f : Failure) : Prop where
  | alone {e : Evaluation} {rest : List Instruction} (hstage : m.stage = .doing (.goOn e)) (hrest : e.rest = i :: rest)
    (hd : dispatched? e.onlyResolve i e.held = none)
    (h : let w := answering cfg host e.scope (.ok [], m.state)
      (Machine.execute w e.onlyResolve rest.isEmpty i e.held
        (w.observe (.stepping e.step (i :: rest) e.held) m.state)).1 = .error f)
  | within {m' : Moment κ ω} {r : Report} (hi : innermost? m.waiting = some i)
    (hstage : ∀ e, m.stage = .doing (.goOn e) → e.rest = [])
    (hnew : ∀ r g, m.stage = .reporting r → r.result ≠ .error g)
    (hnext : m.next? cfg host = some m') (hr : m'.stage = .reporting r) (hf : r.result = .error f)

theorem Moment.Raises.next {m : Moment κ ω} {i : Instruction} {f : Failure} (hm : Holds Program.IsPlaced m)
    (h : m.Raises cfg host i f) : ∃ m', m.next? cfg host = some m' ∧
      (m'.stage.Carries f ∧ innermost? m'.waiting = some i ∨
        m'.stage.Carries (f.raisedBy i) ∧ (f.raisedBy i).IsSettled ∧ f.cause.isFatal) := by
  obtain ⟨stage, waiting, s⟩ := m
  cases h with
  | @alone e rest hstage hrest hd h =>
    obtain rfl : stage = .doing (.goOn e) := hstage
    obtain ⟨hrefusal, hfatal, hexhausted⟩ := Cause.isMechanical_cases (execute_undispatched_failed hd f h)
    have hi : i.IsPlaced := by
      have he : e.Holds Program.IsPlaced := hm.stage
      exact he.program.instructions i (he.rest.subset (hrest ▸ List.mem_cons_self))
    have hsettled : (f.raisedBy i).IsSettled :=
      Failure.raisedBy_isSettled hi.location fun hr => by rw [hrefusal] at hr; cases hr
    have hgoOn : (goOn cfg host e s).1.Carries (f.raisedBy i) := by
      rw [← Failure.attributeTo_eq_raisedBy hrefusal]
      simp only [goOn, hrest, hd]
      rw [e.settle_error hexhausted i rest h]
      rfl
    exact ⟨_, rfl, .inr ⟨hgoOn, hsettled, hfatal⟩⟩
  | @within m' r hi hstage hnew hnext hr hf =>
    refine ⟨m', hnext, .inl ⟨?_, ?_⟩⟩
    · rw [hr]
      exact hf
    · cases stage with
      | doing job =>
        obtain rfl := next?_doing hnext
        simp only [start_report hr]
        exact hi
      | reporting r' =>
        cases waiting with
        | nil => cases hnext
        | cons w waiting =>
          obtain ⟨⟨stage, t⟩, hresume, rfl⟩ := Option.map_eq_some_iff.1 hnext
          obtain rfl : stage = .reporting r := hr
          cases w with
          | command e =>
            obtain ⟨-, i', rest, arguments, hrest, hd⟩ := hm.waiting _ List.mem_cons_self
            cases r' with
            | answer result =>
              cases result with
              | error g => exact (hnew _ g rfl rfl).elim
              | ok values =>
                obtain ⟨_, hgoes⟩ := answered_ok hrest hd values hresume
                cases hgoes
            | evaluation | execution | script => cases hresume
          | _ => exact hi

/-! ### Up to the end -/

/-- A moment at which all programs are placed and no host command is about to catch a failure. -/
structure IsPlain (m : Moment κ ω) : Prop where
  holds : Holds Program.IsPlaced m
  relays : Relays m

section Runs

variable (hhost : ∀ key call, (host key call).Relays)
include hhost

theorem IsPlain.next {m m' : Moment κ ω} (hm : IsPlain m) (h : m.next? cfg host = some m') : IsPlain m' :=
  ⟨hm.holds.next isPlaced_of_readScript h, hm.relays.next hhost h⟩

theorem IsPlain.leads {m m' : Moment κ ω} (hm : IsPlain m) (h : Leads cfg host m m') : IsPlain m' :=
  ⟨hm.holds.leads isPlaced_of_readScript h, hm.relays.leads hhost h⟩

omit hhost in
/-- The evaluation that a failure is answered to, and what it makes of that. -/
theorem IsPlain.answered {m m' : Moment κ ω} (hm : IsPlain m) {f : Failure} {e : Evaluation} {ws : List (Waiting ω)}
    (hstage : m.stage = .reporting (.answer (.error f))) (hwaiting : m.waiting = .command e :: ws)
    (h : m.next? cfg host = some m') : ∃ i rest, e.rest = i :: rest ∧ m'.waiting = ws ∧
      (f.cause.isFatal →
        (∃ frame, m'.stage = .reporting (.evaluation (.error (f.raisedBy i)) frame)) ∧ (f.raisedBy i).IsSettled) ∧
      (f.cause.isFatal = false →
        (∃ held, m'.stage = .doing (.goOn { e with step := e.step + 1, held, rest })) ∧
          m'.state.record.diagnostics =
            ⟨.warning, i.location, f.cause.message⟩ :: m.state.record.diagnostics) := by
  obtain ⟨_, _, s⟩ := m
  obtain rfl := hstage
  obtain rfl := hwaiting
  obtain ⟨he, i, rest, arguments, hrest, hd⟩ := hm.holds.waiting _ List.mem_cons_self
  have hi : i.IsPlaced := he.program.instructions i (he.rest.subset (hrest ▸ List.mem_cons_self))
  obtain ⟨_, hresume, rfl⟩ := Option.map_eq_some_iff.1 h
  have hexhausted : f.cause ≠ .hostExhausted := hm.relays.stage f rfl
  exact ⟨i, rest, hrest, rfl, fun hfatal => answered_fatal hrest hd hi hfatal hexhausted hresume,
    fun hminor => answered_minor hrest hd hminor hresume⟩

/-- A failure to which nothing can be added is reported as it is until the end. -/
theorem IsPlain.carries_settled {f : Failure} (hsettled : f.IsSettled) (hfatal : f.cause.isFatal)
    {m m' : Moment κ ω} (hm : IsPlain m) (hc : m.stage.Carries f)
    (h : Leads cfg host m m') : m'.stage.Carries f := by
  induction h with
  | refl => exact hc
  | tail hlead hstep ih =>
    have hplain := hm.leads hhost hlead
    rcases carries_next hplain.relays ih hstep with ⟨hcarries, -, -⟩ | ⟨e, ws, hstage, hwaiting⟩
    · exact hcarries
    · obtain ⟨i, rest, -, -, hends, -⟩ := hplain.answered hstage hwaiting hstep
      obtain ⟨⟨frame, hreport⟩, -⟩ := hends hfatal
      rw [hreport, hsettled.raisedBy_eq]
      rfl

/-- A fatal failure gets its place from the innermost instruction, and is what is reported at the end. -/
theorem IsPlain.carries_raisedBy {f : Failure} (hfatal : f.cause.isFatal) {i : Instruction}
    {m last : Moment κ ω} (h : Leads cfg host m last) (hlast : last.waiting = []) (hm : IsPlain m)
    (hc : m.stage.Carries f) (hi : innermost? m.waiting = some i) : last.stage.Carries (f.raisedBy i) := by
  induction h using Relation.ReflTransGen.head_induction_on with
  | refl =>
    rw [hlast] at hi
    cases hi
  | head hstep hlead ih =>
    have hplain := hm.next hhost hstep
    rcases carries_next hm.relays hc hstep with ⟨hcarries, hsame, -⟩ | ⟨e, ws, hstage, hwaiting⟩
    · exact ih hplain hcarries (hsame.trans hi)
    · obtain ⟨i', rest, hrest, -, hends, -⟩ := hm.answered hstage hwaiting hstep
      obtain rfl : i' = i := by
        rw [hwaiting, innermost?, hrest] at hi
        exact Option.some.inj hi
      obtain ⟨⟨frame, hreport⟩, hsettled⟩ := hends hfatal
      refine hplain.carries_settled hhost hsettled hfatal ?_ hlead
      rw [hreport]
      rfl

/-- From here on, and with no diagnostic before, the instruction's command is answered by this refusal, which becomes
one warning, and the evaluation goes on behind the instruction. -/
def Moment.Recovers (cfg : Config) (host : Host κ ω) (m : Moment κ ω) (i : Instruction) (f : Failure) : Prop :=
  ∃ m₁ m₂ e rest held, Leads cfg host m m₁ ∧ m₁.stage = .reporting (.answer (.error f)) ∧
    m₁.waiting = .command e :: m₂.waiting ∧ e.rest = i :: rest ∧ m₁.next? cfg host = some m₂ ∧
    m₂.stage = .doing (.goOn { e with step := e.step + 1, held, rest }) ∧
    m₂.state.record.diagnostics = ⟨.warning, i.location, f.cause.message⟩ :: m.state.record.diagnostics

theorem IsPlain.recovers {f : Failure} (hminor : f.cause.isFatal = false) {i : Instruction} {m last : Moment κ ω}
    (h : Leads cfg host m last) (hlast : last.waiting = []) (hm : IsPlain m) (hc : m.stage.Carries f)
    (hi : innermost? m.waiting = some i) : m.Recovers cfg host i f := by
  induction h using Relation.ReflTransGen.head_induction_on with
  | refl =>
    rw [hlast] at hi
    cases hi
  | @head m m' hstep hlead ih =>
    rcases carries_next hm.relays hc hstep with ⟨hcarries, hsame, hdiagnostics⟩ | ⟨e, ws, hstage, hwaiting⟩
    · obtain ⟨m₁, m₂, e, rest, held, hlead₁, hanswer, hwaiting, hrest, hnext, hgoes, hwarned⟩ :=
        ih (hm.next hhost hstep) hcarries (hsame.trans hi)
      rw [hdiagnostics] at hwarned
      exact ⟨m₁, m₂, e, rest, held, .head hstep hlead₁, hanswer, hwaiting, hrest, hnext, hgoes, hwarned⟩
    · obtain ⟨i', rest, hrest, hws, -, hgoes⟩ := hm.answered hstage hwaiting hstep
      obtain rfl : i' = i := by
        rw [hwaiting, innermost?, hrest] at hi
        exact Option.some.inj hi
      obtain ⟨⟨held, hgoOn⟩, hwarned⟩ := hgoes hminor
      rw [← hws] at hwaiting
      exact ⟨m, m', e, rest, held, .refl, hstage, hwaiting, hrest, hstep, hgoOn, hwarned⟩

end Runs

/-! ### Refusals stay inside -/

/-- A refusal that is not fatal is only ever answered, not reported by an evaluation, let alone by what waits for it. -/
def Stage.KeepsRefusals (stage : Stage ω) : Prop :=
  ∀ r f, stage = .reporting r → r.result = .error f → f.cause.isFatal = false → ∃ result, r = .answer result

namespace Stage.KeepsRefusals

theorem of_job (job : Job ω) : (Stage.doing job).KeepsRefusals := by
  rintro _ _ ⟨⟩

theorem of_answer (result : Except Failure (List String)) :
    (Stage.reporting (.answer result) : Stage ω).KeepsRefusals := by
  rintro _ _ ⟨⟩ - -
  exact ⟨result, rfl⟩

theorem of_fatal {stage : Stage ω} (h : stage.FailsOnly fun c => c.isFatal) : stage.KeepsRefusals := by
  intro r f hr hf hminor
  rw [h r hr f hf] at hminor
  cases hminor

theorem of_report {r : Report} (h : CommandScript.FailsOnly (fun c => c.isFatal) r.result) :
    (Stage.reporting r : Stage ω).KeepsRefusals := .of_fatal (.of_report h)

end Stage.KeepsRefusals

theorem goOn_failsFatally (e : Evaluation) (s : State κ ω) :
    (goOn cfg host e s).1.FailsOnly fun c => c.isFatal := by
  have hexhausted (_ : Cause.hostExhausted.isFatal = true) (depth : Nat) (program : String) :
      (Cause.stackExhausted depth program).isFatal = true := rfl
  unfold goOn
  split
  · refine e.finish_failsOnly hexhausted ?_ _
    unfold runFrom
    split
    · exact .ok _
    · exact .error rfl
  · rename_i i rest _
    simp only
    split <;> rename_i hd
    · exact .of_job _
    · exact e.settle_failsOnly hexhausted i rest fun f hf =>
        (Cause.isMechanical_cases (execute_undispatched_failed hd f hf)).2.1

theorem start_keepsRefusals (job : Job ω) (s : State κ ω) : (start cfg host s job).1.KeepsRefusals := by
  cases job with
  | runScript source file verbosity statistics =>
    have hparse : FailsOnly (fun c => c.isFatal) (s.parse cfg source file).1 :=
      parse_failsOnly (fun c => c.isFatal) rfl (fun _ => rfl) cfg source file s
    simp only [start, startScript]
    split <;> rename_i heq <;> rw [heq] at hparse
    · exact .of_report (.error (hparse _ rfl))
    · split <;> exact .of_job _
  | expandScript source file =>
    simp only [start, startExpansion]
    split
    · exact .of_answer _
    · split
      · exact .of_job _
      · exact .of_answer _
  | evaluateHere => exact .of_job _
  | execute results ps frame =>
    simp only [start, startProgram]
    repeat' split
    all_goals first
      | exact .of_job _
      | exact .of_report (.ok _)
      | exact .of_report (.error rfl)
  | evaluate p frame onlyResolve =>
    simp only [start, startEvaluation]
    repeat' split
    all_goals first
      | exact .of_job _
      | exact .of_report (.error rfl)
  | goOn e => exact .of_fatal (goOn_failsFatally e s)
  | invoke bound name arguments =>
    simp only [start, startInvocation]
    repeat' split
    all_goals first
      | exact .of_job _
      | exact .of_answer _
  | act bound arguments action =>
    cases action with
    | finish | fail => exact .of_answer _
    | update => exact .of_job _
    | ask request next =>
      simp only [start, act]
      repeat' split
      all_goals exact .of_job _

theorem IsPlain.keepsRefusals_next {m m' : Moment κ ω} (hm : IsPlain m) (hk : m.stage.KeepsRefusals)
    (h : m.next? cfg host = some m') : m'.stage.KeepsRefusals := by
  obtain ⟨stage, waiting, s⟩ := m
  match stage, waiting with
  | .doing job, waiting =>
    obtain rfl := next?_doing h
    exact start_keepsRefusals job s
  | .reporting r, [] => cases h
  | .reporting r, w :: waiting =>
    obtain ⟨⟨stage, t⟩, hresume, rfl⟩ := Option.map_eq_some_iff.1 h
    cases r with
    | answer result =>
      cases w with
      | command e =>
        obtain ⟨he, i, rest, arguments, hrest, hd⟩ := hm.holds.waiting _ List.mem_cons_self
        cases result with
        | ok values =>
          obtain ⟨held, rfl⟩ := answered_ok hrest hd values hresume
          exact .of_job _
        | error f =>
          cases hfatal : f.cause.isFatal with
          | false =>
            obtain ⟨⟨held, rfl⟩, -⟩ := answered_minor hrest hd hfatal hresume
            exact .of_job _
          | true =>
            have hi : i.IsPlaced := he.program.instructions i (he.rest.subset (hrest ▸ List.mem_cons_self))
            obtain ⟨⟨frame, rfl⟩, -⟩ := answered_fatal hrest hd hi hfatal (hm.relays.stage f rfl) hresume
            exact .of_report (.error hfatal)
      | host =>
        cases hresume
        exact .of_job _
      | script before => cases before <;> cases hresume
      | _ => cases hresume
    | evaluation | execution | script =>
      obtain ⟨_, _, -, hr⟩ | ⟨_, _, _, rfl⟩ | hpasses := resume_cases hresume
      · cases hr
      · cases hresume
      · cases hpasses with
        | execute => exact .of_job _
        | nameless _ hresult hcause => exact .of_report (hresult ▸ .error (by rw [hcause]; rfl))
        | report change hresult =>
          refine .of_report (hresult ▸ FailsOnly.map (fun f hf => ?_) change)
          cases hfatal : f.cause.isFatal with
          | true => rfl
          | false =>
            obtain ⟨_, hr⟩ := hk _ f rfl hf hfatal
            cases hr

theorem IsPlain.keepsRefusals (hhost : ∀ key call, (host key call).Relays) {m m' : Moment κ ω} (hm : IsPlain m)
    (hk : m.stage.KeepsRefusals) (h : Leads cfg host m m') : m'.stage.KeepsRefusals := by
  induction h with
  | refl => exact hk
  | tail hlead hstep ih => exact (hm.leads hhost hlead).keepsRefusals_next ih hstep

/-! ### Runs -/

/-- Whether a host command is being carried out. -/
def Stage.isActing : Stage ω → Bool
  | .doing (.act ..) => true
  | _ => false

/-- Whether this failure is reported. -/
def Stage.fails (f : Failure) : Stage ω → Bool
  | .reporting r => r.result = .error f
  | _ => false

theorem Stage.exists_of_isActing {stage : Stage ω} (h : stage.isActing) :
    ∃ bound arguments action, stage = .doing (.act bound arguments action) := by
  cases stage with
  | reporting => cases h
  | doing job =>
    cases job with
    | act bound arguments action => exact ⟨bound, arguments, action, rfl⟩
    | _ => cases h

theorem Stage.exists_of_fails {f : Failure} {stage : Stage ω} (h : stage.fails f) :
    ∃ r, stage = .reporting r ∧ r.result = .error f := by
  cases stage with
  | doing => cases h
  | reporting r => exact ⟨r, rfl, of_decide_eq_true h⟩

/-- Failures are located where they come up. Let a script be run whose functions were all read from scripts, by a
session whose host commands neither catch failures nor run out of stack by themselves, however deep its evaluations
nest. If a failure comes up that is fatal, that is how the run fails, in kind and words; its place is the one it came
with or else that of the innermost instruction that was being executed, and so is its name, which a refusal keeps for
itself and any other failure together with its place. A refusal that is not fatal becomes one warning at the innermost
instruction, behind which the evaluation goes on, and is reported by no evaluation, nor by the run. -/
theorem failures_are_located (cfg : Config) (host : Host κ ω) (hhost : ∀ key call, (host key call).Relays)
    (source : Source) (file : Option String) (verbosity : Nat) (statistics : Option Statistics) (s : State κ ω)
    (hs : StateHolds Program.IsPlaced s) :
    let r := runScript cfg (evaluatorAt cfg host s.depth) source file verbosity statistics s
    let first : Moment κ ω := ⟨.doing (.runScript source file verbosity statistics), [], s⟩
    (∀ m i f, Leads cfg host first m → m.Raises cfg host i f → f.cause.isFatal → r.1 = .error (f.raisedBy i)) ∧
    (∀ m i f, Leads cfg host first m → m.Raises cfg host i f → f.cause.isFatal = false →
      ∃ m', m.next? cfg host = some m' ∧ m'.Recovers cfg host i f) ∧
    (∀ m f, Leads cfg host first m → f.cause.isFatal = false → ∀ report, m.stage = .reporting report →
      report.result = .error f → ∃ result, report = .answer result) ∧
    ∀ f, r.1 = .error f → f.cause.isFatal := by
  intro r first
  have hends : Leads cfg host first ⟨.reporting (.script r.1 r.2.1), [], r.2.2⟩ :=
    ends_runScript (evaluatorAt_isKeeping cfg host s.depth) (carries_evaluatorAt s.depth) source file verbosity
      statistics s rfl
  have hfirst : IsPlain first :=
    ⟨⟨hs, trivial, fun _ hw => (List.not_mem_nil hw).elim⟩, trivial, fun _ hw => (List.not_mem_nil hw).elim⟩
  have hkeeps {m : Moment κ ω} (h : Leads cfg host first m) : m.stage.KeepsRefusals :=
    hfirst.keepsRefusals hhost (.of_job _) h
  refine ⟨fun m i f hlead hraises hfatal => ?_, fun m i f hlead hraises hminor => ?_,
    fun m f hlead hminor report hreport hf => hkeeps hlead report f hreport hf hminor, fun f hf => ?_⟩
  · have hm := hfirst.leads hhost hlead
    obtain ⟨m', hnext, hcarries⟩ := hraises.next hm.holds
    have hm' := hm.next hhost hnext
    have hrest := Leads.to_end (hlead.tail hnext) hends rfl
    rcases hcarries with ⟨hcarries, hi⟩ | ⟨hcarries, hsettled, -⟩
    · exact IsPlain.carries_raisedBy hhost hfatal hrest rfl hm' hcarries hi
    · exact hm'.carries_settled hhost hsettled hfatal hcarries hrest
  · have hm := hfirst.leads hhost hlead
    obtain ⟨m', hnext, ⟨hcarries, hi⟩ | ⟨-, -, hfatal⟩⟩ := hraises.next hm.holds
    · have hrest := Leads.to_end (hlead.tail hnext) hends rfl
      exact ⟨m', hnext, IsPlain.recovers hhost hminor hrest rfl (hm.next hhost hnext) hcarries hi⟩
    · rw [hminor] at hfatal
      cases hfatal
  · cases hfatal : f.cause.isFatal with
    | true => rfl
    | false =>
      obtain ⟨_, heq⟩ := hkeeps hends _ f rfl hf hfatal
      cases heq

/-- A host command that a function calls fails at the call, wherever the function is called. -/
theorem failures_are_located_nested :
    let s : State Unit Unit := (State.initial [] [] [] ()).register "fail" "fail" [] "" ()
    let host : Host Unit Unit := fun _ _ => .fail { cause := .host "KeyError" "boom" }
    let source : Source := .text "function(f)\nfail()\nendfunction()\nset(y $\x7bf()\x7d)"
    (∀ key call, (host key call).Relays) ∧ StateHolds Program.IsPlaced s ∧
      (runScript {} (evaluatorAt {} host 0) source none 0 none s).1 =
        .error ⟨.host "KeyError" "boom", "fail", some ⟨2, 1, none⟩⟩ := by
  intro s host source
  have hhost (key : Unit) (call : HostCall) : (host key call).Relays := .fail Cause.noConfusion
  have hs : StateHolds Program.IsPlaced s := (stateHolds_initial [] [] [] ()).register "fail" "fail" [] "" ()
  let i : Instruction := .call "fail" 0 (some ⟨2, 1, none⟩)
  let f : Failure := { cause := .host "KeyError" "boom" }
  have hafter : ((⟨.doing (.runScript source none 0 none), [], s⟩ : Moment Unit Unit).after {} host 17).any
      fun m => m.stage.isActing && innermost? m.waiting = some i && (m.next? {} host).any (·.stage.fails f) := by
    decide +kernel
  obtain ⟨m, hm, hacts⟩ := (Option.any_eq_true _ _).1 hafter
  rw [Bool.and_eq_true, Bool.and_eq_true, decide_eq_true_iff] at hacts
  obtain ⟨⟨hacts, hinnermost⟩, hfails⟩ := hacts
  obtain ⟨m', hnext, hfails⟩ := (Option.any_eq_true _ _).1 hfails
  have hraises : m.Raises {} host i f := by
    obtain ⟨bound, arguments, action, hstage⟩ := Stage.exists_of_isActing hacts
    obtain ⟨r, hreport, hr⟩ := Stage.exists_of_fails hfails
    refine .within hinnermost ?_ ?_ hnext hreport hr
    · intro e he
      rw [hstage] at he
      cases he
    · intro r g hr
      rw [hstage] at hr
      cases hr
  obtain ⟨hfatal, -⟩ := failures_are_located {} host hhost source none 0 none s hs
  exact ⟨hhost, hs, hfatal m i f (leads_of_after hm) hraises rfl⟩

end Running

end CommandScript
