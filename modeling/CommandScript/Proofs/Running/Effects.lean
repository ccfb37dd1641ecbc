import CommandScript.Proofs.Running.Keeping
import CommandScript.Proofs.Running.Steps

/-! What the steps of a session leave alone. Apart from the commands they dispatch, instructions change nothing but the
record, so that in between an evaluation goes on in the state it is in, or is over. Only evaluations that begin or end
change how deep they nest, and nothing but invocations writes variables. -/

namespace CommandScript.Session

/-- What a host command does that has nothing run, expanded or forwarded before it answers. -/
inductive Action.StaysOutside {ω : Type} : Action ω → Prop where
  | finish (value : Command.Value) : StaysOutside (.finish value)
  | fail (failure : Failure) : StaysOutside (.fail failure)
  | update (change : ω → ω) {next : Action ω} (h : StaysOutside next) : StaysOutside (.update change next)
  | define (name : String) (parameters : List String) (body : String) {next : Except Failure (List String) → Action ω}
    (h : ∀ result, StaysOutside (next result)) : StaysOutside (.ask (.define name parameters body) next)
  | lookup (name : String) {next : Except Failure (List String) → Action ω}
    (h : ∀ result, StaysOutside (next result)) : StaysOutside (.ask (.lookup name) next)

/-- A host whose commands stay outside, like one without any. -/
def Host.StaysOutside {κ ω : Type} (host : Host κ ω) : Prop := ∀ key call, (host key call).StaysOutside

end CommandScript.Session

namespace CommandScript.Running

open Text Syntax Code Command Machine Session

variable {κ ω : Type} {cfg : Config} {host : Host κ ω}

/-! ### Instructions -/

/-- What an instruction of an evaluation leads to, once its command, if it has one, has answered. -/
inductive Evaluation.Settles (e : Evaluation) (s : State κ ω) : Stage ω → State κ ω → Prop where
  | goesOn (step : Nat) (held : Stacks String) (rest : List Instruction) (record : Record) :
    Settles e s (.doing (.goOn { e with step, held, rest })) { s with record }
  | ended (result : Except Failure (List String)) (record : Record) :
    Settles e s (e.finish result { s with record }).1 (e.finish result { s with record }).2

section Settled

variable (cfg host) (scope : Scope) (result : Except Failure (List String)) (s : State κ ω)

theorem observe_answering (notice : Notice) (record : Record) :
    ∃ record', (answering cfg host scope (result, s)).observe notice { s with record } = { s with record := record' } :=
  ⟨_, rfl⟩

theorem execute_answering (onlyResolve isLast : Bool) (i : Instruction) (held : Stacks String) (record : Record) :
    ∃ record', (Machine.execute (answering cfg host scope (result, s)) onlyResolve isLast i held
      { s with record }).2 = { s with record := record' } := by
  refine execute_maintains (P := fun t => ∃ record', t = { s with record := record' }) ?_ ?_
    onlyResolve isLast i held _ ⟨record, rfl⟩
  · rintro notice _ ⟨record, rfl⟩
    exact observe_answering cfg host scope result s notice record
  · intro _ _ _ _
    exact ⟨s.record, rfl⟩

theorem runFrom_answering (onlyResolve : Bool) (step : Nat) (held : Stacks String) :
    ∃ record, (runFrom (answering cfg host scope (result, s)) onlyResolve step held [] s).2 = { s with record } := by
  refine runFrom_maintains (P := fun t => ∃ record, t = { s with record }) ?_ ?_ onlyResolve [] step held s
    ⟨s.record, rfl⟩
  · rintro notice _ ⟨record, rfl⟩
    exact observe_answering cfg host scope result s notice record
  · intro _ _ _ _
    exact ⟨s.record, rfl⟩

end Settled

theorem Evaluation.settles_settle (e : Evaluation) (i : Instruction) (rest : List Instruction) {s : State κ ω} :
    ∀ {x : Except Failure (Progress String) × State κ ω}, (∃ record, x.2 = { s with record }) →
      e.Settles s (e.settle i rest x).1 (e.settle i rest x).2
  | (.ok (.moved held), _), ⟨record, rfl⟩ => .goesOn (e.step + 1) held rest record
  | (.ok (.resolved arguments), _), ⟨record, rfl⟩ => .ended (.ok arguments) record
  | (.error failure, _), ⟨record, rfl⟩ => .ended (.error (failure.attributeTo i)) record

/-- An evaluation that goes on has its next command invoked, or settles without one. -/
theorem goOn_cases (cfg : Config) (host : Host κ ω) (e : Evaluation) (s : State κ ω) :
    (∃ i rest arguments record, e.rest = i :: rest ∧ dispatched? e.onlyResolve i e.held = some arguments ∧
      goOn cfg host e s =
        (.doing (.invoke arguments.length (i.name.getD "") arguments), [.command e], { s with record })) ∨
    ∃ stage t, goOn cfg host e s = (stage, [], t) ∧ e.Settles s stage t := by
  unfold goOn
  cases hrest : e.rest with
  | nil =>
    let r := runFrom (answering cfg host e.scope (.ok [], s)) e.onlyResolve e.step e.held [] s
    obtain ⟨record, hrecord⟩ : ∃ record, r.2 = { s with record } :=
      runFrom_answering cfg host e.scope (.ok []) s e.onlyResolve e.step e.held
    refine .inr ⟨(e.finish r.1 r.2).1, (e.finish r.1 r.2).2, rfl, ?_⟩
    rw [hrecord]
    exact .ended r.1 record
  | cons i rest =>
    cases hd : dispatched? e.onlyResolve i e.held with
    | some arguments => exact .inl ⟨i, rest, arguments, _, rfl, hd, by simp only [hd]; rfl⟩
    | none =>
      refine .inr ⟨_, _, by simp only [hd]; rfl, e.settles_settle i rest ?_⟩
      exact execute_answering cfg host e.scope (.ok []) s e.onlyResolve rest.isEmpty i e.held _

theorem resume_command {e : Evaluation} {result : Except Failure (List String)} {s t : State κ ω} {stage : Stage ω}
    (h : resume cfg host s (.command e) (.answer result) = some (stage, t)) : e.Settles s stage t := by
  unfold resume at h
  cases hrest : e.rest with
  | nil =>
    simp only [hrest] at h
    cases h
  | cons i rest =>
    simp only [hrest] at h
    have hs := e.settles_settle i rest
      (execute_answering cfg host e.scope result s e.onlyResolve rest.isEmpty i e.held s.record)
    rw [Option.some.inj h] at hs
    exact hs

/-! ### Steps -/

/-- What a step does to frames, depth and variables. -/
inductive Changes (cfg : Config) (stage : Stage ω) (s t : State κ ω) : Prop where
  /-- All stays as it was, though the innermost frame may be given results. -/
  | stay (change : Frame → Frame) (hframes : t.frames = s.frames.modifyHead change) (hdepth : t.depth = s.depth)
    (hstore : t.store = s.store)
  /-- A command may write variables. -/
  | invoke (bound : Nat) (name : String) (arguments : List String)
    (hstage : stage = .doing (.invoke bound name arguments)) (change : Frame → Frame)
    (hframes : t.frames = s.frames.modifyHead change) (hdepth : t.depth = s.depth)
  | evaluate (p : Program) (frame : Frame) (onlyResolve : Bool)
    (hstage : stage = .doing (.evaluate p frame onlyResolve)) (hroom : ¬cfg.maxDepth ≤ s.depth)
    (hframes : t.frames = frame :: s.frames) (hdepth : t.depth = s.depth + 1) (hstore : t.store = s.store)
  /-- An evaluation is over. -/
  | finish (hframes : t.frames = s.frames.tail) (hdepth : t.depth = s.depth - 1) (hstore : t.store = s.store)

namespace Changes

variable {stage : Stage ω} {s t : State κ ω}

theorem same (hframes : t.frames = s.frames) (hdepth : t.depth = s.depth) (hstore : t.store = s.store) :
    Changes cfg stage s t := by
  refine .stay id ?_ hdepth hstore
  cases hs : s.frames with
  | nil => exact hframes.trans hs
  | cons f outer => exact hframes.trans hs

theorem of_settles {e : Evaluation} {stage' : Stage ω} (h : e.Settles s stage' t) : Changes cfg stage s t := by
  cases h with
  | goesOn => exact .same rfl rfl rfl
  | ended => exact .finish rfl rfl rfl

theorem of_replaceFrame (frame : Frame) : Changes cfg stage s (s.replaceFrame frame) := by
  refine .stay (fun _ => frame) ?_ ?_ ?_
  all_goals
    unfold State.replaceFrame
    cases hs : s.frames <;> first | exact hs | rfl

theorem of_invoke {bound : Nat} {name : String} {arguments : List String} (h : s.KeepsOuter t) :
    Changes cfg (.doing (.invoke bound name arguments)) s t := by
  obtain ⟨result, returned, hframes⟩ := h.frames
  exact .invoke bound name arguments rfl _ hframes h.depth

end Changes

/-- Variables are written when a command is invoked, if at all. -/
theorem Changes.store_or_invoke {stage : Stage ω} {s t : State κ ω} (h : Changes cfg stage s t) :
    t.store = s.store ∨ ∃ bound name arguments, stage = .doing (.invoke bound name arguments) := by
  cases h with
  | stay _ _ _ hstore | evaluate _ _ _ _ _ _ _ hstore | finish _ _ hstore => exact .inl hstore
  | invoke bound name arguments hstage => exact .inr ⟨bound, name, arguments, hstage⟩

theorem startInvocation_keeps (bound : Nat) (name : String) (arguments : List String) (s : State κ ω) :
    s.KeepsOuter (startInvocation cfg host bound name arguments s).2.2 := by
  simp only [startInvocation]
  split
  · exact (State.Keeps.refl s).outer
  · exact performBuiltin_keeps cfg _ arguments s
  · split
    · exact (State.Keeps.refl s).outer
    · exact State.Keeps.outer ⟨⟨rfl, rfl, .refl _⟩, rfl⟩
  · exact (State.Keeps.refl s).outer

theorem act_changes {stage : Stage ω} (bound : Nat) (arguments : List String) (action : Action ω) (s : State κ ω) :
    Changes cfg stage s (act cfg bound arguments s action).2.2 := by
  cases action with
  | finish | fail | update => exact .same rfl rfl rfl
  | ask request next =>
    cases request with
    | run | measure | expand | lookup => exact .same rfl rfl rfl
    | forward skip =>
      simp only [act]
      split <;> exact .same rfl rfl rfl
    | define name parameters body =>
      have hkeeps := s.keeps_defineText cfg name parameters body
      have hstore : (s.defineText cfg name parameters body).2.store = s.store := by
        unfold State.defineText
        split <;> rename_i heq <;> exact congrArg (State.store ∘ Prod.snd) heq.symm
      exact .same hkeeps.frames hkeeps.depth hstore

theorem start_changes (job : Job ω) (s : State κ ω) : Changes cfg (.doing job) s (start cfg host s job).2.2 := by
  have parsed (source : Source) (file : Option String) : (s.parse cfg source file).2.frames = s.frames ∧
      (s.parse cfg source file).2.depth = s.depth ∧ (s.parse cfg source file).2.store = s.store := ⟨rfl, rfl, rfl⟩
  cases job with
  | runScript source file verbosity statistics =>
    obtain ⟨hframes, hdepth, hstore⟩ := parsed source file
    simp only [start, startScript]
    split <;> rename_i heq <;> rw [heq] at hframes hdepth hstore
    · exact .same hframes hdepth hstore
    · split <;> exact .same hframes hdepth hstore
  | expandScript source file =>
    obtain ⟨hframes, hdepth, hstore⟩ := parsed source file
    simp only [start, startExpansion]
    split <;> rename_i heq <;> rw [heq] at hframes hdepth hstore
    · exact .same hframes hdepth hstore
    · split <;> exact .same hframes hdepth hstore
  | evaluateHere | execute => exact .same rfl rfl rfl
  | evaluate p frame onlyResolve =>
    simp only [start, startEvaluation]
    split
    · exact .same rfl rfl rfl
    · rename_i hroom
      split
      · exact .same rfl rfl rfl
      · exact .evaluate p frame onlyResolve rfl hroom rfl rfl rfl
  | goOn e =>
    rcases goOn_cases cfg host e s with ⟨i, rest, arguments, record, _, _, h⟩ | ⟨stage, t, h, hsettles⟩
    · rw [start, h]
      exact .same rfl rfl rfl
    · rw [start, h]
      exact .of_settles hsettles
  | invoke bound name arguments => exact .of_invoke (startInvocation_keeps bound name arguments s)
  | act bound arguments action => exact act_changes bound arguments action s

theorem resume_changes {w : Waiting ω} {r : Report} {s t : State κ ω} {stage stage' : Stage ω}
    (h : resume cfg host s w r = some (stage', t)) : Changes cfg stage s t := by
  have hcommand := h
  unfold resume at h
  split at h
  · exact .of_settles (resume_command hcommand)
  all_goals first
    | (cases h; exact .same rfl rfl rfl)
    | (cases h; exact .of_replaceFrame _)
    | cases h

theorem next?_changes {m m' : Moment κ ω} (h : m.next? cfg host = some m') :
    Changes cfg m.stage m.state m'.state := by
  obtain ⟨stage, waiting, s⟩ := m
  match stage, waiting with
  | .doing job, waiting =>
    obtain rfl := Option.some.inj h
    exact start_changes job s
  | .reporting report, [] => cases h
  | .reporting report, w :: waiting =>
    obtain ⟨_, hr, rfl⟩ := Option.map_eq_some_iff.1 h
    exact resume_changes hr

end CommandScript.Running
