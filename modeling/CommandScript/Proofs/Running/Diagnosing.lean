import CommandScript.Proofs.Running.Blocks
import CommandScript.Proofs.Running.Carrying
import CommandScript.Proofs.Running.Frames
import CommandScript.Proofs.Running.Programs

/-! Where built-in commands report problems. A built-in takes the place of a problem from the frame that it is given,
which is told where its programs are as they are evaluated one after another. So there is one frame for every evaluation
under way, and it is where the program is, unless that opens a function block: then the frame still is where it was
before. Nothing that is reported is taken back. -/

namespace CommandScript

open Text Syntax Code Command Machine

/-! ### Records -/

theorem Machine.Record.suffix_observe (w : Watch) (r : Record) (notice : Notice) :
    r.diagnostics <:+ (r.observe w notice).diagnostics := by
  cases notice with
  | recovered | «undefined» =>
    simp only [Record.observe]
    split
    · exact List.suffix_cons ..
    · exact List.suffix_rfl
  | stepping | finished =>
    simp only [Record.observe]
    split <;> exact List.suffix_rfl
  | dispatching | dispatched | completed => exact List.suffix_rfl

/-! ### Built-in commands -/

namespace Session

/-- What a built-in reports is where its frame is. -/
theorem Builtin.perform_diagnostics (checked : Bool) (b : Builtin) (arguments : List String) (d : Desk) :
    ∃ new, (b.perform checked arguments d).2.record.diagnostics = new ++ d.record.diagnostics ∧
      ∀ problem ∈ new, problem.location = d.frame.location := by
  have silent {d' : Desk} (h : d'.record.diagnostics = d.record.diagnostics) :
      ∃ new, d'.record.diagnostics = new ++ d.record.diagnostics ∧
        ∀ problem ∈ new, problem.location = d.frame.location :=
    ⟨[], h, fun _ hmem => (List.not_mem_nil hmem).elim⟩
  have reported (severity : Severity) (text : String) :
      ∃ new, (d.record.diagnose severity d.frame.location text).diagnostics = new ++ d.record.diagnostics ∧
        ∀ problem ∈ new, problem.location = d.frame.location :=
    ⟨[⟨severity, d.frame.location, text⟩], rfl, fun _ hmem => List.mem_singleton.1 hmem ▸ rfl⟩
  cases b with
  | set =>
    simp only [perform, Desk.set, Desk.writeEnvironment, Desk.writeVariable]
    repeat' split
    all_goals first
      | exact silent rfl
      | exact reported _ _
  | unset =>
    simp only [perform, Desk.unset]
    repeat' split
    all_goals exact silent rfl
  | message =>
    simp only [perform, Desk.message]
    split
    case h_2 | h_3 => exact reported _ _
    all_goals exact silent rfl
  | returnValues | function | endFunction => exact silent rfl

end Session

namespace Running

open Session

variable {κ ω : Type} {cfg : Config} {host : Host κ ω}

/-! ### What is reported stays reported -/

section Answering

variable (cfg host) (scope : Scope) (result : Except Failure (List String)) (s : State κ ω) {t : State κ ω}
  (h : s.record.diagnostics <:+ t.record.diagnostics)
include h

theorem suffix_observe (notice : Notice) :
    s.record.diagnostics <:+ ((answering cfg host scope (result, s)).observe notice t).record.diagnostics :=
  h.trans (Record.suffix_observe ..)

theorem suffix_execute (onlyResolve isLast : Bool) (i : Instruction) (held : Stacks String) : s.record.diagnostics <:+
    (Machine.execute (answering cfg host scope (result, s)) onlyResolve isLast i held t).2.record.diagnostics := by
  refine execute_maintains (P := fun t => s.record.diagnostics <:+ t.record.diagnostics) ?_ ?_ onlyResolve isLast i held
    t h
  · exact fun notice _ ht => suffix_observe cfg host scope result s ht notice
  · exact fun _ _ _ _ => List.suffix_rfl

theorem suffix_runFrom (onlyResolve : Bool) (step : Nat) (held : Stacks String) : s.record.diagnostics <:+
    (runFrom (answering cfg host scope (result, s)) onlyResolve step held [] t).2.record.diagnostics := by
  refine runFrom_maintains (P := fun t => s.record.diagnostics <:+ t.record.diagnostics) ?_ ?_ onlyResolve [] step held
    t h
  · exact fun notice _ ht => suffix_observe cfg host scope result s ht notice
  · exact fun _ _ _ _ => List.suffix_rfl

end Answering

theorem Evaluation.diagnostics_settle (e : Evaluation) (i : Instruction) (rest : List Instruction)
    (x : Except Failure (Progress String) × State κ ω) :
    (e.settle i rest x).2.record.diagnostics = x.2.record.diagnostics := by
  match x with
  | (.ok (.moved _), _) | (.ok (.resolved _), _) | (.error _, _) => rfl

theorem start_suffix (job : Job ω) (s : State κ ω) :
    s.record.diagnostics <:+ (start cfg host s job).2.2.record.diagnostics := by
  have same {t : State κ ω} (h : t.record.diagnostics = s.record.diagnostics) :
      s.record.diagnostics <:+ t.record.diagnostics := h ▸ List.suffix_rfl
  have read (source : Source) (file : Option String) :
      (s.parse cfg source file).2.record.diagnostics = s.record.diagnostics := rfl
  cases job with
  | runScript source file verbosity statistics =>
    have hread := read source file
    simp only [start, startScript]
    split <;> rename_i heq <;> rw [heq] at hread
    · exact same hread
    · split <;> exact same hread
  | expandScript source file =>
    have hread := read source file
    simp only [start, startExpansion]
    split <;> rename_i heq <;> rw [heq] at hread
    · exact same hread
    · split <;> exact same hread
  | evaluateHere | execute => exact List.suffix_rfl
  | evaluate p frame onlyResolve =>
    simp only [start, startEvaluation]
    split
    · exact List.suffix_rfl
    · split <;> exact List.suffix_rfl
  | goOn e =>
    simp only [start, goOn]
    cases hrest : e.rest with
    | nil => exact suffix_runFrom cfg host e.scope (.ok []) s List.suffix_rfl e.onlyResolve e.step e.held
    | cons i rest =>
      have hstep := suffix_observe cfg host e.scope (.ok []) s List.suffix_rfl
        (.stepping e.step (i :: rest) e.held)
      simp only
      split
      · exact suffix_observe cfg host e.scope (.ok []) s hstep _
      · rw [e.diagnostics_settle]
        exact suffix_execute cfg host e.scope (.ok []) s hstep e.onlyResolve rest.isEmpty i e.held
  | invoke bound name arguments =>
    simp only [start, startInvocation]
    split
    · exact List.suffix_rfl
    · rename_i b _
      obtain ⟨new, hnew, -⟩ :=
        b.perform_diagnostics cfg.processEnvironment arguments ⟨s.currentFrame, s.store, s.record⟩
      exact ⟨new, hnew.symm⟩
    · split <;> exact List.suffix_rfl
    · exact List.suffix_rfl
  | act bound arguments action =>
    cases action with
    | finish | fail | update => exact List.suffix_rfl
    | ask request next =>
      cases request with
      | run | measure | expand | lookup => exact List.suffix_rfl
      | forward skip =>
        simp only [start, act]
        split <;> exact List.suffix_rfl
      | define name parameters body =>
        have hread := read (.text body) (some ("<function:" ++ name ++ ">"))
        simp only [start, act, State.defineText]
        split <;> rename_i heq <;> rw [heq] at hread
        · exact same hread
        · exact same hread

theorem resume_suffix {w : Waiting ω} {r : Report} {s t : State κ ω} {stage : Stage ω}
    (h : resume cfg host s w r = some (stage, t)) : s.record.diagnostics <:+ t.record.diagnostics := by
  by_cases hw : ∃ e result, w = .command e ∧ r = .answer result
  · obtain ⟨e, result, rfl, rfl⟩ := hw
    unfold resume at h
    cases hrest : e.rest with
    | nil =>
      simp only [hrest] at h
      cases h
    | cons i rest =>
      simp only [hrest] at h
      have hx := suffix_execute cfg host e.scope result s List.suffix_rfl e.onlyResolve rest.isEmpty i e.held
      rw [← e.diagnostics_settle i rest, Option.some.inj h] at hx
      exact hx
  · have hcommand : ∀ e, w ≠ .command e := by
      rintro e rfl
      cases r with
      | answer result => exact hw ⟨e, result, rfl, rfl⟩
      | evaluation | execution | script => cases h
    exact (resume_diagnostics hcommand h).symm ▸ List.suffix_rfl

theorem Leads.suffix {m m' : Moment κ ω} (h : Leads cfg host m m') :
    m.state.record.diagnostics <:+ m'.state.record.diagnostics := by
  induction h with
  | refl => exact List.suffix_rfl
  | @tail m' m'' _ hstep ih =>
    refine ih.trans ?_
    obtain ⟨stage, waiting, s⟩ := m'
    match stage, waiting with
    | .doing job, waiting =>
      obtain rfl := Option.some.inj hstep
      exact start_suffix job s
    | .reporting report, [] => cases hstep
    | .reporting report, w :: waiting =>
      obtain ⟨_, hr, rfl⟩ := Option.map_eq_some_iff.1 hstep
      exact resume_suffix hr

/-- A run keeps all problems that were reported before. -/
theorem runScript_suffix (cfg : Config) (host : Host κ ω) (source : Source) (file : Option String)
    (verbosity : Nat) (statistics : Option Statistics) (s : State κ ω) : s.record.diagnostics <:+
      (runScript cfg (evaluatorAt cfg host s.depth) source file verbosity statistics s).2.2.record.diagnostics :=
  Leads.suffix <| ends_runScript (evaluatorAt_isKeeping cfg host s.depth) (carries_evaluatorAt s.depth) source file
    verbosity statistics s rfl

/-! ### Evaluations and their frames -/

/-- A frame is where a program is, unless a function block waits for what that resolves to. -/
def IsFrameOf (p : Program) (frame : Frame) (waiting : List (Waiting ω)) : Prop :=
  frame.location = p.location ∨ ∃ body rest outer, waiting = .block p body rest :: outer

/-- An evaluation that is waited for is in a frame. -/
structure Evaluation.IsWithin (e : Evaluation) (frame : Frame) (waiting : List (Waiting ω)) : Prop where
  scope : frame.scope = e.scope
  program : IsFrameOf e.program frame waiting

/-- What waits while programs are executed, apart from evaluations and host commands. -/
def Waiting.IsPassive : Waiting ω → Prop
  | .command _ | .here | .host .. => False
  | _ => True

/-- What waits for reports, with a frame for every evaluation that waits for a command. -/
inductive Attends : List (Waiting ω) → List Frame → Prop where
  | nothing : Attends [] []
  | passive {w ws frames} (hw : w.IsPassive) (h : Attends ws frames) : Attends (w :: ws) frames
  | command {e ws f frames} (hf : e.IsWithin f ws) (h : Attends ws frames) : Attends (.command e :: ws) (f :: frames)

/-- What is being done or reported, with what waits for it and the frames for all that. -/
inductive Proceeds : Stage ω → List (Waiting ω) → List Frame → Prop where
  | runScript {source file verbosity statistics ws frames} (h : Attends ws frames) :
    Proceeds (.doing (.runScript source file verbosity statistics)) ws frames
  | execute {results ps frame ws frames} (h : Attends ws frames) :
    Proceeds (.doing (.execute results ps frame)) ws frames
  | evaluate {p frame onlyResolve ws frames} (hp : IsFrameOf p frame ws) (h : Attends ws frames) :
    Proceeds (.doing (.evaluate p frame onlyResolve)) ws frames
  | goOn {e ws f frames} (hf : e.IsWithin f ws) (h : Attends ws frames) :
    Proceeds (.doing (.goOn e)) ws (f :: frames)
  | invoke {bound name arguments e ws f frames} (hf : e.IsWithin f ws) (h : Attends ws frames) :
    Proceeds (.doing (.invoke bound name arguments)) (.command e :: ws) (f :: frames)
  | act {bound arguments action ws frames} (ha : action.StaysOutside) (h : Attends ws frames) :
    Proceeds (.doing (.act bound arguments action)) ws frames
  | reporting {report ws frames} (h : Attends ws frames) : Proceeds (.reporting report) ws frames

/-- A moment of a run that was begun on top of these frames. -/
def IsLocated (outer : List Frame) (m : Moment κ ω) : Prop :=
  ∃ above, m.state.frames = above ++ outer ∧ Proceeds m.stage m.waiting above

namespace IsLocated

variable {outer above : List Frame} {ws : List (Waiting ω)} {s t : State κ ω} {stage : Stage ω}

/-- Whatever an evaluation settles on, its frame is still there or was the innermost one. -/
theorem of_settles {e : Evaluation} {f : Frame} (hsettles : e.Settles s stage t) (hf : e.IsWithin f ws)
    (h : Attends ws above) (hframes : s.frames = f :: above ++ outer) : IsLocated outer ⟨stage, ws, t⟩ := by
  cases hsettles with
  | goesOn step held rest record => exact ⟨f :: above, hframes, .goOn ⟨hf.scope, hf.program⟩ h⟩
  | ended result record => exact ⟨above, congrArg List.tail hframes, .reporting h⟩

theorem goOn {e : Evaluation} {f : Frame} (hf : e.IsWithin f ws) (h : Attends ws above)
    (hframes : s.frames = f :: above ++ outer) :
    let r := Running.goOn cfg host e s
    IsLocated outer ⟨r.1, r.2.1 ++ ws, r.2.2⟩ := by
  rcases goOn_cases cfg host e s with ⟨_, _, _, _, _, _, hgo⟩ | ⟨stage, t, hgo, hsettles⟩
  · rw [hgo]
    exact ⟨f :: above, hframes, .invoke hf h⟩
  · rw [hgo]
    exact of_settles hsettles hf h hframes

theorem startScript (source : Source) (file : Option String) (verbosity : Nat) (statistics : Option Statistics)
    (h : Attends ws above) (hframes : s.frames = above ++ outer) :
    let r := Running.startScript cfg source file verbosity statistics s
    IsLocated outer ⟨r.1, r.2.1 ++ ws, r.2.2⟩ := by
  have hread : (s.parse cfg source file).2.frames = s.frames := rfl
  simp only [Running.startScript]
  split <;> rename_i heq <;> rw [heq] at hread
  · exact ⟨above, hread.trans hframes, .reporting h⟩
  · split <;> exact ⟨above, hread.trans hframes, .execute (.passive trivial h)⟩

theorem startProgram (results : List String) (ps : List Program) (frame : Frame) (h : Attends ws above) :
    let r := Running.startProgram (ω := ω) results ps frame
    Proceeds r.1 (r.2 ++ ws) above := by
  cases ps with
  | nil => exact .reporting h
  | cons p ps =>
    simp only [Running.startProgram]
    split
    · exact .reporting h
    · split
      · split
        · exact .reporting h
        · exact .evaluate (.inr ⟨_, _, _, rfl⟩) (.passive trivial h)
      · exact .evaluate (.inl rfl) (.passive trivial h)

theorem startEvaluation {p : Program} {frame : Frame} (onlyResolve : Bool) (hp : IsFrameOf p frame ws)
    (h : Attends ws above) (hframes : s.frames = above ++ outer) :
    let r := Running.startEvaluation (ω := ω) cfg p frame onlyResolve s
    IsLocated outer ⟨r.1, ws, r.2⟩ := by
  simp only [Running.startEvaluation]
  split
  · exact ⟨above, hframes, .reporting h⟩
  · split
    · exact ⟨above, hframes, .reporting h⟩
    · exact ⟨frame :: above, congrArg (frame :: ·) hframes, .goOn ⟨rfl, hp⟩ h⟩

/-- A command is invoked in the frame of the evaluation that waits for it, and leaves that where it is. -/
theorem startInvocation (hhost : host.StaysOutside) {e : Evaluation} {f : Frame} (hf : e.IsWithin f ws)
    (h : Attends ws above) (hframes : s.frames = f :: above ++ outer) (bound : Nat) (name : String)
    (arguments : List String) :
    let r := Running.startInvocation cfg host bound name arguments s
    IsLocated outer ⟨r.1, r.2.1 ++ .command e :: ws, r.2.2⟩ := by
  have answered {t : State κ ω} {g : Frame} (result : Except Failure (List String)) (hg : e.IsWithin g ws)
      (ht : t.frames = g :: above ++ outer) : IsLocated outer ⟨.reporting (.answer result), .command e :: ws, t⟩ :=
    ⟨g :: above, ht, .reporting (.command hg h)⟩
  simp only [Running.startInvocation]
  split
  · exact answered _ hf hframes
  · rename_i b _
    refine answered _ ?_ (performBuiltin_frames b arguments hframes)
    split
    · exact ⟨hf.scope, hf.program⟩
    · exact hf
  · split
    · exact answered _ hf hframes
    · exact ⟨f :: above, hframes, .execute (.passive trivial (.command hf h))⟩
  · rename_i key _
    exact ⟨f :: above, hframes, .act (hhost key _) (.command hf h)⟩

theorem act {action : Action ω} (ha : action.StaysOutside) (h : Attends ws above) (hframes : s.frames = above ++ outer)
    (bound : Nat) (arguments : List String) :
    let r := Running.act cfg bound arguments s action
    IsLocated outer ⟨r.1, r.2.1 ++ ws, r.2.2⟩ := by
  cases ha with
  | finish | fail => exact ⟨above, hframes, .reporting h⟩
  | update change hnext => exact ⟨above, hframes, .act hnext h⟩
  | lookup name hnext => exact ⟨above, hframes, .act (hnext _) h⟩
  | define name parameters body hnext =>
    exact ⟨above, (s.keeps_defineText cfg name parameters body).frames.trans hframes, .act (hnext _) h⟩

theorem resume {w : Waiting ω} {report : Report} (h : Attends (w :: ws) above) (hframes : s.frames = above ++ outer)
    (hresume : Running.resume cfg host s w report = some (stage, t)) : IsLocated outer ⟨stage, ws, t⟩ := by
  cases h with
  | command hf h =>
    cases report with
    | answer result => exact of_settles (resume_command hresume) hf h hframes
    | evaluation | execution | script => cases hresume
  | passive hw h =>
    unfold Running.resume at hresume
    split at hresume
    case h_1 | h_10 | h_11 => exact hw.elim
    case h_2 | h_4 =>
      cases hresume
      exact ⟨above, hframes, .execute h⟩
    all_goals first
      | (cases hresume; exact ⟨above, hframes, .reporting h⟩)
      | cases hresume

theorem next (hhost : host.StaysOutside) {m m' : Moment κ ω} (hm : IsLocated outer m)
    (hnext : m.next? cfg host = some m') : IsLocated outer m' := by
  obtain ⟨stage, waiting, s⟩ := m
  obtain ⟨above, hframes, hproceeds⟩ := hm
  cases hproceeds with
  | reporting h =>
    cases waiting with
    | nil => cases hnext
    | cons w ws =>
      obtain ⟨_, hresume, rfl⟩ := Option.map_eq_some_iff.1 hnext
      exact resume h hframes hresume
  | runScript h =>
    cases hnext
    exact startScript _ _ _ _ h hframes
  | execute h =>
    cases hnext
    exact ⟨above, hframes, startProgram _ _ _ h⟩
  | evaluate hp h =>
    cases hnext
    exact startEvaluation _ hp h hframes
  | goOn hf h =>
    cases hnext
    exact goOn hf h hframes
  | invoke hf h =>
    cases hnext
    exact startInvocation hhost hf h hframes _ _ _
  | act ha h =>
    cases hnext
    exact act ha h hframes _ _

/-- In a run every evaluation keeps its frame, and the frame its place. -/
theorem leads (hhost : host.StaysOutside) {m m' : Moment κ ω} (hm : IsLocated outer m) (h : Leads cfg host m m') :
    IsLocated outer m' := by
  induction h with
  | refl => exact hm
  | tail _ hstep ih => exact ih.next hhost hstep

end IsLocated

/-! ### Runs -/

/-- The built-in that a moment is about to perform, if it is one. -/
def Moment.builtin? (m : Moment κ ω) : Option Builtin :=
  match m.stage with
  | .doing (.invoke _ name arguments) =>
    match m.state.callee name arguments.length with
    | .ok (.builtin b) => some b
    | _ => none
  | _ => none

theorem Moment.exists_of_builtin {m : Moment κ ω} {b : Builtin} (h : m.builtin? = some b) :
    ∃ bound name arguments, m.stage = .doing (.invoke bound name arguments) ∧
      m.state.callee name arguments.length = .ok (.builtin b) := by
  unfold builtin? at h
  split at h
  · rename_i bound name arguments hstage
    split at h
    · rename_i hcallee
      obtain rfl := Option.some.inj h
      exact ⟨bound, name, arguments, hstage, hcallee⟩
    · cases h
  · cases h

/-- Built-in commands report problems where they are. Let a script be run by a session with built-in commands, functions
of scripts and, at most, host commands that have nothing run, however its evaluations nest. Whenever a built-in is
performed on the way there is an innermost evaluation, it waits for just this command, and the frame that the command is
given is its frame. What the command then reports is where that frame is; and that is the place of the program that is
evaluated, which has one, unless a function block waits for the name and parameters that the program resolves to. -/
theorem problems_are_placed (cfg : Config) (host : Host κ ω) (hhost : host.StaysOutside) (source : Source)
    (file : Option String) (verbosity : Nat) (statistics : Option Statistics) (s : State κ ω)
    (hs : StateHolds Program.IsPlaced s) (m : Moment κ ω)
    (hlead : Leads cfg host ⟨.doing (.runScript source file verbosity statistics), [], s⟩ m) (b : Builtin)
    (hb : m.builtin? = some b) :
    let r := runScript cfg (evaluatorAt cfg host s.depth) source file verbosity statistics s
    ∃ e outer m' new, m.waiting = .command e :: outer ∧ m.state.currentFrame.scope = e.scope ∧
      m.next? cfg host = some m' ∧ Leads cfg host m' ⟨.reporting (.script r.1 r.2.1), [], r.2.2⟩ ∧
      m'.state.record.diagnostics = new ++ m.state.record.diagnostics ∧
      (∀ problem ∈ new, problem.location = m.state.currentFrame.location) ∧ e.program.location.isSome ∧
      ((∀ problem ∈ new, problem.location = e.program.location) ∨
        ∃ body rest outer', outer = .block e.program body rest :: outer') := by
  intro r
  have hends : Leads cfg host ⟨.doing (.runScript source file verbosity statistics), [], s⟩
      ⟨.reporting (.script r.1 r.2.1), [], r.2.2⟩ :=
    ends_runScript (evaluatorAt_isKeeping cfg host s.depth) (carries_evaluatorAt s.depth) source file verbosity
      statistics s rfl
  have hfirst : Holds Program.IsPlaced ⟨.doing (.runScript source file verbosity statistics), [], s⟩ :=
    ⟨hs, trivial, fun _ hw => (List.not_mem_nil hw).elim⟩
  have hholds : Holds Program.IsPlaced m := hfirst.leads isPlaced_of_readScript hlead
  obtain ⟨above, hframes, hproceeds⟩ := IsLocated.leads hhost ⟨[], rfl, .runScript .nothing⟩ hlead
  obtain ⟨stage, waiting, t⟩ := m
  obtain ⟨bound, name, arguments, rfl, hcallee⟩ := Moment.exists_of_builtin hb
  cases hproceeds with
  | @invoke _ _ _ e ws f above hf h =>
    have hcurrent : t.currentFrame = f := currentFrame_of_frames hframes
    obtain ⟨new, hnew, hplaces⟩ :=
      b.perform_diagnostics cfg.processEnvironment arguments ⟨t.currentFrame, t.store, t.record⟩
    have hperformed : (startInvocation cfg host bound name arguments t).2.2.record.diagnostics =
        new ++ t.record.diagnostics := by
      simp only [startInvocation, hcallee]
      exact hnew
    obtain ⟨he, -⟩ := hholds.waiting _ List.mem_cons_self
    have hrest := Leads.to_end (hlead.tail rfl) hends rfl
    refine ⟨e, ws, _, new, rfl, hcurrent ▸ hf.scope, rfl, hrest, hperformed, hplaces, he.program.location, ?_⟩
    refine hf.program.imp_left fun hlocation problem hproblem => ?_
    rw [hplaces problem hproblem, hcurrent, hlocation]

/-- A function that is called for an argument reports a problem at its own line. -/
theorem problems_are_placed_called :
    let s : State Empty Unit := .initial [] [] [] ()
    let host : Host Empty Unit := fun key _ => key.elim
    let source : Source := .text "function(f)\nmessage(WARNING hi)\nendfunction()\nset(x $\x7bf()\x7d)"
    ∃ m m' new, Leads {} host ⟨.doing (.runScript source none 0 none), [], s⟩ m ∧ m.builtin? = some .message ∧
      m.next? {} host = some m' ∧ m'.state.record.diagnostics = new ++ m.state.record.diagnostics ∧ new ≠ [] ∧
      ∀ problem ∈ new, problem.location = some ⟨2, 1, none⟩ := by
  intro s host source
  have hhost : host.StaysOutside := fun key => isEmptyElim key
  have hs : StateHolds Program.IsPlaced s := stateHolds_initial [] [] [] ()
  let warns (m : Moment Empty Unit) : Bool := m.builtin? = some .message ∧
    (m.next? {} host).any (·.state.record.diagnostics ≠ m.state.record.diagnostics) ∧
    m.state.currentFrame.location = some ⟨2, 1, none⟩
  have hafter : ((⟨.doing (.runScript source none 0 none), [], s⟩ : Moment Empty Unit).after {} host 20).any
      warns := by
    decide +kernel
  obtain ⟨m, hm, hwarns⟩ := (Option.any_eq_true _ _).1 hafter
  obtain ⟨hb, hchanged, hline⟩ := of_decide_eq_true hwarns
  have hlead := leads_of_after hm
  obtain ⟨e, outer, m', new, -, -, hnext, -, hnew, hplaces, -, -⟩ :=
    problems_are_placed {} host hhost source none 0 none s hs m hlead .message hb
  refine ⟨m, m', new, hlead, hb, hnext, hnew, ?_, fun problem hproblem => (hplaces problem hproblem).trans hline⟩
  rintro rfl
  rw [hnext] at hchanged
  exact of_decide_eq_true hchanged hnew

/-- While the arguments of a function block are resolved, a command reports problems where the frame was before: at an
invocation that is over, or nowhere. -/
theorem problems_are_misplaced :
    let s : State Empty Unit := .initial [] [] [] ()
    let host : Host Empty Unit := fun key _ => key.elim
    let problems := fun (source : String) =>
      (s.run {} host (.text source) none 0 none).2.2.record.diagnostics.map Diagnostic.location
    problems "function(f $\x7bmessage(WARNING hi)\x7d)\nendfunction()" = [none] ∧
      problems "set(x 1)\nfunction(f $\x7bmessage(WARNING hi)\x7d)\nendfunction()" = [some ⟨1, 1, none⟩] := by
  decide +kernel

end Running
end CommandScript
