import CommandScript.Proofs.Running.Relaying
import CommandScript.Proofs.Session.Placement

/-! Failures on their way out. A failure that comes up without a place, or a refusal without a name, gets those of the
innermost instruction that is being executed. From then on nothing is added to it, however far out it is reported,
unless it is a refusal that is not fatal: that gets no further than the instruction. -/

namespace CommandScript

open Text Syntax Code Command Machine

/-! ### Failures and their places -/

namespace Failure

/-- A failure as it arrives if this was the innermost instruction when it came up. A refusal keeps the name it has;
another failure keeps its name together with its place only. -/
def raisedBy (i : Instruction) (f : Failure) : Failure :=
  { f with
    name := if (if f.cause.isRefusal then f.name.isSome else f.location.isSome) then f.name else i.name
    location := f.location <|> i.location }

/-- Nothing will be added to it. -/
structure IsSettled (f : Failure) : Prop where
  location : f.location.isSome
  name : f.cause.isRefusal → f.name.isSome

theorem IsSettled.raisedBy_eq {f : Failure} (h : f.IsSettled) (i : Instruction) : f.raisedBy i = f := by
  obtain ⟨cause, name, location⟩ := f
  obtain ⟨hlocation, hname⟩ := h
  obtain ⟨l, rfl⟩ := Option.isSome_iff_exists.1 hlocation
  unfold raisedBy
  cases hrefusal : cause.isRefusal with
  | false => rfl
  | true =>
    obtain ⟨n, rfl⟩ := Option.isSome_iff_exists.1 (hname hrefusal)
    rfl

theorem raisedBy_isSettled {i : Instruction} (hi : i.location.isSome) {f : Failure}
    (hname : f.cause.isRefusal → i.name.isSome) : (f.raisedBy i).IsSettled := by
  refine ⟨?_, fun hrefusal => ?_⟩
  · show (f.location <|> i.location).isSome
    cases hl : f.location with
    | none => exact hi
    | some l => rfl
  · have hcause : f.cause.isRefusal = true := hrefusal
    unfold raisedBy
    rw [if_pos hcause]
    by_cases hf : f.name.isSome
    · rw [if_pos hf]
      exact hf
    · rw [if_neg hf]
      exact hname hcause

theorem attributeTo_eq_raisedBy {f : Failure} (h : f.cause.isRefusal = false) (i : Instruction) :
    f.attributeTo i = f.raisedBy i := by
  obtain ⟨cause, name, location⟩ := f
  have hcause : cause.isRefusal = false := h
  unfold attributeTo raisedBy
  cases location <;> simp [hcause]

theorem completeFrom_eq_raisedBy {f : Failure} (h : f.cause.isRefusal) (i : Instruction) :
    f.completeFrom i = f.raisedBy i := by
  obtain ⟨cause, name, location⟩ := f
  have hcause : cause.isRefusal = true := h
  unfold completeFrom raisedBy
  cases name <;> simp [hcause]

theorem IsSettled.attributeTo_eq {f : Failure} (h : f.IsSettled) (i : Instruction) : f.attributeTo i = f := by
  unfold attributeTo
  rw [if_neg]
  rw [Option.isNone_iff_eq_none]
  exact Option.isSome_iff_ne_none.1 h.location

end Failure

namespace Running

open Session

variable {κ ω : Type} {cfg : Config} {host : Host κ ω}

/-! ### On the way out -/

/-- The innermost instruction whose command is waited for. -/
def innermost? : List (Waiting ω) → Option Instruction
  | [] => none
  | .command e :: _ => e.rest.head?
  | _ :: ws => innermost? ws

/-- This failure is on its way out. -/
def Stage.Carries (f : Failure) : Stage ω → Prop
  | .reporting r => r.result = .error f
  | .doing (.act _ _ action) => action.FailsWith f
  | .doing _ => False

/-- Nothing but an evaluation that waits for its command gives a diagnostic when it goes on. -/
theorem resume_diagnostics {w : Waiting ω} (hw : ∀ e, w ≠ .command e) {r : Report} {s t : State κ ω} {stage : Stage ω}
    (h : resume cfg host s w r = some (stage, t)) : t.record.diagnostics = s.record.diagnostics := by
  unfold resume at h
  split at h
  · exact (hw _ rfl).elim
  case h_10 =>
    cases h
    unfold State.replaceFrame
    split <;> rfl
  all_goals
    cases h
    try rfl

/-- A failure is passed on as it is, up to the innermost evaluation that waits for a command. -/
theorem carries_next {f : Failure} {m m' : Moment κ ω} (hm : Relays m) (hc : m.stage.Carries f)
    (h : m.next? cfg host = some m') :
    (m'.stage.Carries f ∧ innermost? m'.waiting = innermost? m.waiting ∧
      m'.state.record.diagnostics = m.state.record.diagnostics) ∨
    ∃ e ws, m.stage = .reporting (.answer (.error f)) ∧ m.waiting = .command e :: ws := by
  obtain ⟨stage, waiting, s⟩ := m
  match stage, waiting with
  | .doing job, waiting =>
    obtain rfl := Option.some.inj h
    cases job with
    | act bound arguments action =>
      cases hc with
      | fail => exact .inl ⟨rfl, rfl, rfl⟩
      | update change hnext => exact .inl ⟨hnext, rfl, rfl⟩
    | _ => exact hc.elim
  | .reporting r, [] => cases h
  | .reporting r, w :: waiting =>
    obtain ⟨⟨stage, t⟩, hr, rfl⟩ := Option.map_eq_some_iff.1 h
    have hfailed : r.result = .error f := hc
    cases w with
    | command e =>
      cases r with
      | answer result =>
        obtain rfl : result = .error f := hfailed
        exact .inr ⟨e, waiting, rfl, rfl⟩
      | evaluation | execution | script => cases hr
    | host bound arguments next =>
      cases r with
      | answer result =>
        obtain rfl : result = .error f := hfailed
        cases hr
        exact .inl ⟨(hm.waiting _ List.mem_cons_self).2 f, rfl, rfl⟩
      | evaluation | execution | script => cases hr
    | programs | block | call | script | here | ran | measured =>
      have hdiagnostics : t.record.diagnostics = s.record.diagnostics := resume_diagnostics (by rintro _ ⟨⟩) hr
      obtain ⟨_, _, hw, -⟩ | ⟨_, _, _, hw⟩ | hpasses := resume_cases hr
      · cases hw
      · cases hw
      · cases hpasses with
        | execute hok | nameless hok =>
          rw [hfailed] at hok
          cases hok
        | report change hresult =>
          rw [hfailed] at hresult
          exact .inl ⟨hresult, rfl, hdiagnostics⟩

/-! ### At the innermost instruction -/

section Answered

variable {e : Evaluation} {i : Instruction} {rest : List Instruction} {arguments : List String}

theorem isCommand_of_dispatched {onlyResolve : Bool} {held : Stacks String}
    (h : dispatched? onlyResolve i held = some arguments) : i.isCommand := by
  unfold Instruction.isCommand
  cases hop : i.operation with
  | commandReference | call => rfl
  | _ =>
    simp only [dispatched?, hop] at h
    cases h

/-- A command that answers lets the evaluation go on. -/
theorem answered_ok (hrest : e.rest = i :: rest) (hd : dispatched? e.onlyResolve i e.held = some arguments)
    (values : List String) {s t : State κ ω} {stage : Stage ω}
    (h : resume cfg host s (.command e) (.answer (.ok values)) = some (stage, t)) :
    ∃ held, stage = .doing (.goOn { e with step := e.step + 1, held, rest }) := by
  obtain ⟨st, hst⟩ := execute_eq_dispatch (σ := State κ ω) hd
  simp only [resume, hrest, hst] at h
  cases h
  exact ⟨_, rfl⟩

/-- A failure of an instruction ends its evaluation. -/
theorem Evaluation.settle_error (e : Evaluation) {f : Failure} (hexhausted : f.cause ≠ .hostExhausted) (i : Instruction)
    (rest : List Instruction) {x : Except Failure (Progress String) × State κ ω} (hx : x.1 = .error f) :
    (e.settle i rest x).1 = .reporting (.evaluation (.error (f.attributeTo i)) x.2.currentFrame) := by
  obtain ⟨_, s⟩ := x
  obtain rfl := hx
  refine e.finish_failed ?_ s
  rw [((Failure.PassesAs.refl f).attributeTo i).1]
  exact hexhausted

/-- A failure of a command that is fatal ends the evaluation, and has the place of the instruction if it had none. -/
theorem answered_fatal (hrest : e.rest = i :: rest) (hd : dispatched? e.onlyResolve i e.held = some arguments)
    (hi : i.IsPlaced) {f : Failure} (hfatal : f.cause.isFatal) (hexhausted : f.cause ≠ .hostExhausted)
    {s t : State κ ω} {stage : Stage ω}
    (h : resume cfg host s (.command e) (.answer (.error f)) = some (stage, t)) :
    (∃ frame, stage = .reporting (.evaluation (.error (f.raisedBy i)) frame)) ∧ (f.raisedBy i).IsSettled := by
  have hsettled : (f.raisedBy i).IsSettled :=
    Failure.raisedBy_isSettled hi.location fun _ => hi.name (isCommand_of_dispatched hd)
  refine ⟨?_, hsettled⟩
  obtain ⟨st, hst⟩ := execute_eq_dispatch (σ := State κ ω) hd
  let w : Surroundings (State κ ω) := answering cfg host e.scope (.error f, s)
  obtain ⟨g, u, hdispatch, hg⟩ : ∃ g u, dispatch w i arguments s = (.error g, u) ∧ g.attributeTo i = f.raisedBy i := by
    cases hrefusal : f.cause.isRefusal with
    | true =>
      refine ⟨f.completeFrom i, s, ?_, ?_⟩
      · simp only [dispatch, w, answering, Except.map, hrefusal, if_true]
        exact if_pos hfatal
      · rw [Failure.completeFrom_eq_raisedBy hrefusal, hsettled.attributeTo_eq]
    | false =>
      refine ⟨f, s, ?_, Failure.attributeTo_eq_raisedBy hrefusal i⟩
      simp only [dispatch, w, answering, Except.map, hrefusal, Bool.false_eq_true, if_false]
  have hg' : g.cause ≠ .hostExhausted := by
    rw [← ((Failure.PassesAs.refl g).attributeTo i).1, hg]
    exact hexhausted
  have hsettle := e.settle_error hg' i rest (x := Machine.execute w e.onlyResolve rest.isEmpty i e.held s)
    (by rw [hst, hdispatch]; rfl)
  simp only [resume, hrest] at h
  rw [Option.some.inj h, hg] at hsettle
  exact ⟨_, hsettle⟩

theorem isRefusal_of_isFatal {c : Cause} (h : c.isFatal = false) : c.isRefusal := by
  cases c with
  | rejected => rfl
  | _ => cases h

/-- A refusal that is not fatal becomes one warning, and the evaluation goes on behind its instruction. -/
theorem answered_minor (hrest : e.rest = i :: rest) (hd : dispatched? e.onlyResolve i e.held = some arguments)
    {f : Failure} (hminor : f.cause.isFatal = false) {s t : State κ ω} {stage : Stage ω}
    (h : resume cfg host s (.command e) (.answer (.error f)) = some (stage, t)) :
    (∃ held, stage = .doing (.goOn { e with step := e.step + 1, held, rest })) ∧
      t.record.diagnostics = ⟨.warning, i.location, f.cause.message⟩ :: s.record.diagnostics := by
  have hrefusal : f.cause.isRefusal = true := isRefusal_of_isFatal hminor
  obtain ⟨st, hst⟩ := execute_eq_dispatch (σ := State κ ω) hd
  have hcause : (f.completeFrom i).cause.isFatal = false := hminor
  simp only [resume, hrest, hst, dispatch, answering, Except.map, hrefusal, if_true, hcause, Bool.false_eq_true,
    if_false] at h
  cases h
  exact ⟨⟨_, rfl⟩, rfl⟩

end Answered

end Running

end CommandScript
