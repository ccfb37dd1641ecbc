import CommandScript.Proofs.Running.Failures
import CommandScript.Proofs.Running.Programs
import CommandScript.Proofs.Session.MoreInput
import Mathlib.Logic.IsEmpty.Defs

/-! Blocks at run time. A script is read only if its blocks end, what follows a block is executed as a part up to the
end, and a body ends its blocks wherever it is taken from. So whatever way a run takes, it comes upon a block without an
end only in a function that the session was given before, and if it was given none of that kind, never. -/

namespace CommandScript.Session

open Text Syntax Code Command Machine

variable {κ ω : Type}

/-! ### Scripts -/

theorem endsBlocks_of_readScript {key : ScriptKey} {ps : List Program} (h : readScript key = .ok ps) :
    EndsBlocks ps := by
  obtain ⟨_, -, -, hblocks⟩ := readScript_ok h
  exact checkBlocks_eq_ok_iff.1 hblocks

theorem endsBlocks_of_parse {cfg : Config} {source : Source} {file : Option String} {s : State κ ω}
    (hs : s.cache.Faithful) {script : Script} (h : (s.parse cfg source file).1 = .ok script) :
    EndsBlocks script.programs := by
  have hread : (s.parse cfg source file).1.map Script.programs = readScript ⟨file, source⟩ :=
    hs.read_eq cfg.parseCacheSize ⟨file, source⟩
  rw [h] at hread
  exact endsBlocks_of_readScript hread.symm

/-! ### Functions -/

/-- Programs at the end of the body of a function in this library. -/
def IsTailIn (library : Library (Implementation κ)) (ps : List Program) : Prop :=
  ∃ key entry f, library.commands.get? key = some entry ∧ entry.body = .script f ∧ ps <:+ f.body

/-- Programs that end their blocks, unless they belong to a function of this library. -/
def IsSound (library : Library (Implementation κ)) (ps : List Program) : Prop :=
  EndsBlocks ps ∨ IsTailIn library ps

theorem IsSound.suffix {library : Library (Implementation κ)} {ps qs : List Program} (h : IsSound library ps)
    (hs : qs <:+ ps) : IsSound library qs := by
  obtain h | ⟨key, entry, f, hentry, hbody, htail⟩ := h
  · exact .inl (h.suffix hs)
  · exact .inr ⟨key, entry, f, hentry, hbody, hs.trans htail⟩

/-- A state in which scripts are kept as they are read, and every function that was not in this library before ends its
blocks. -/
structure State.IsSound (library : Library (Implementation κ)) (s : State κ ω) : Prop where
  cache : s.cache.Faithful
  functions : ∀ key entry, s.library.commands.get? key = some entry →
    library.commands.get? key = some entry ∨ ∃ f, entry.body = .script f ∧ EndsBlocks f.body

namespace State.IsSound

variable {library : Library (Implementation κ)} {s t : State κ ω}

theorem of_eq (h : s.IsSound library) (hcache : t.cache = s.cache) (hlibrary : t.library = s.library) :
    t.IsSound library := by
  refine ⟨?_, ?_⟩
  · rw [hcache]
    exact h.cache
  · rw [hlibrary]
    exact h.functions

theorem parse (h : s.IsSound library) (cfg : Config) (source : Source) (file : Option String) :
    (s.parse cfg source file).2.IsSound library :=
  ⟨h.cache.read ⟨file, source⟩, h.functions⟩

theorem define (h : s.IsSound library) {body : List Program} (hbody : EndsBlocks body) (name : String)
    (parameters : List String) : (s.define name parameters body).IsSound library := by
  refine ⟨h.cache, fun key entry hentry => ?_⟩
  simp only [State.define, Library.add, Bindings.get?_insert] at hentry
  split at hentry
  · cases hentry
    exact .inr ⟨_, rfl, hbody⟩
  · exact h.functions key entry hentry

theorem defineText (h : s.IsSound library) (cfg : Config) (name : String) (parameters : List String) (body : String) :
    (s.defineText cfg name parameters body).2.IsSound library := by
  let file := some ("<function:" ++ name ++ ">")
  have hparse := h.parse cfg (.text body) file
  have hends (script : Script) (hp : (s.parse cfg (.text body) file).1 = .ok script) : EndsBlocks script.programs :=
    endsBlocks_of_parse h.cache hp
  unfold State.defineText
  split <;> rename_i heq <;> rw [heq] at hparse hends
  · exact hparse.define (hends _ rfl) name parameters
  · exact hparse

/-- The body of a function that can be called. -/
theorem callee (h : s.IsSound library) {name : String} {given : Nat} {f : ScriptFunction}
    (hf : s.callee name given = .ok (.script f)) : Session.IsSound library f.body := by
  unfold State.callee Library.get at hf
  split at hf <;> rename_i hget
  · cases hf
  · split at hget <;> rename_i hfind <;> cases hget
    split at hf
    · cases hf
    have hbody := Except.ok.inj hf
    obtain hold | ⟨g, hg, hends⟩ := h.functions _ _ hfind
    · exact .inr ⟨_, _, f, hold, hbody, List.suffix_refl f.body⟩
    · rw [hbody] at hg
      cases hg
      exact .inl hends

end State.IsSound

end CommandScript.Session

namespace CommandScript.Running

open Text Syntax Code Command Machine Session

variable {κ ω : Type} {cfg : Config} {host : Host κ ω} {library : Library (Implementation κ)}

/-! ### Moments -/

/-- What waits has sound programs to be executed next, and the body of a block ends its blocks. -/
def Waiting.IsSound (library : Library (Implementation κ)) : Waiting ω → Prop
  | .programs ps => Session.IsSound library ps
  | .block _ body rest => EndsBlocks body ∧ Session.IsSound library rest
  | _ => True

/-- The programs that a job executes. -/
def Job.programs? : Job ω → Option (List Program)
  | .execute _ ps _ => some ps
  | _ => none

/-- If programs are executed, they are sound. -/
def Stage.IsSound (library : Library (Implementation κ)) (stage : Stage ω) : Prop :=
  ∀ job ps, stage = .doing job → job.programs? = some ps → Session.IsSound library ps

namespace Stage.IsSound

theorem of_report (r : Report) : (Stage.reporting r : Stage ω).IsSound library := by
  rintro _ _ ⟨⟩

theorem of_job {job : Job ω} (h : ∀ ps, job.programs? = some ps → Session.IsSound library ps) :
    (Stage.doing job).IsSound library := by
  rintro _ ps ⟨⟩ hps
  exact h ps hps

theorem of_other {job : Job ω} (h : job.programs? = none) : (Stage.doing job).IsSound library := by
  refine of_job fun ps hps => ?_
  rw [h] at hps
  cases hps

end Stage.IsSound

/-- A moment at which blocks end in all that is executed or waits to be, unless it belongs to a function of this
library. -/
structure IsSound (library : Library (Implementation κ)) (m : Moment κ ω) : Prop where
  state : m.state.IsSound library
  stage : m.stage.IsSound library
  waiting : ∀ w ∈ m.waiting, w.IsSound library

namespace IsSound

variable {s t : State κ ω}

theorem of_report (h : t.IsSound library) (r : Report) : IsSound library ⟨.reporting r, [], t⟩ :=
  ⟨h, .of_report r, fun _ hw => (List.not_mem_nil hw).elim⟩

theorem of_other (h : t.IsSound library) {job : Job ω} (hjob : job.programs? = none) :
    IsSound library ⟨.doing job, [], t⟩ :=
  ⟨h, .of_other hjob, fun _ hw => (List.not_mem_nil hw).elim⟩

theorem of_programs (h : t.IsSound library) {ps : List Program} (hps : Session.IsSound library ps)
    (results : List String) (frame : Frame) : IsSound library ⟨.doing (.execute results ps frame), [], t⟩ :=
  ⟨h, .of_job fun _ hps' => Option.some.inj hps' ▸ hps, fun _ hw => (List.not_mem_nil hw).elim⟩

/-- More may wait. -/
theorem push {stage : Stage ω} {ws : List (Waiting ω)} {w : Waiting ω} (h : IsSound library ⟨stage, ws, t⟩)
    (hw : w.IsSound library) : IsSound library ⟨stage, w :: ws, t⟩ :=
  ⟨h.state, h.stage, fun _ hmem => (List.mem_cons.1 hmem).elim (fun heq => heq ▸ hw) (h.waiting _)⟩

end IsSound

theorem startProgram_isSound {ps : List Program} (hps : Session.IsSound library ps) (results : List String)
    (frame : Frame) {s : State κ ω} (hs : s.IsSound library) :
    IsSound library ⟨(startProgram results ps frame).1, (startProgram results ps frame).2, s⟩ := by
  unfold startProgram
  split
  · exact .of_report hs _
  · rename_i p ps
    have htail : Session.IsSound library ps := hps.suffix (List.suffix_cons p ps)
    split
    · exact .of_report hs _
    · split
      · split <;> rename_i hsplit
        · exact .of_report hs _
        · -- the body ends its blocks whatever list it is cut from
          have hbody := endsBlocks_of_splitBlock hsplit
          exact (IsSound.of_other hs rfl).push ⟨hbody, htail.suffix (suffix_of_splitBlock hsplit)⟩
      · exact (IsSound.of_other hs rfl).push htail

theorem startScript_isSound (source : Source) (file : Option String) (verbosity : Nat)
    (statistics : Option Statistics) {s : State κ ω} (hs : s.IsSound library) :
    let r := startScript cfg source file verbosity statistics s
    IsSound library ⟨r.1, r.2.1, r.2.2⟩ := by
  have hparse := hs.parse cfg source file
  have hends (script : Script) (hp : (s.parse cfg source file).1 = .ok script) : EndsBlocks script.programs :=
    endsBlocks_of_parse hs.cache hp
  simp only [startScript]
  split <;> rename_i heq <;> rw [heq] at hparse hends
  · exact .of_report hparse _
  · rename_i script t
    have hprograms : Session.IsSound library script.programs := .inl (hends script rfl)
    split
    · refine (IsSound.of_programs (hparse.of_eq ?_ ?_) hprograms [] _).push ?_ <;> trivial
    · refine (IsSound.of_programs hparse hprograms [] _).push ?_
      trivial

theorem startExpansion_isSound (source : Source) (file : Option String) {s : State κ ω} (hs : s.IsSound library) :
    let r := startExpansion cfg source file s
    IsSound library ⟨r.1, r.2.1, r.2.2⟩ := by
  have hparse := hs.parse cfg source file
  simp only [startExpansion]
  split <;> rename_i heq <;> rw [heq] at hparse
  · exact .of_report hparse _
  · split
    · exact .of_other hparse rfl
    · exact .of_report hparse _

theorem startInvocation_isSound (bound : Nat) (name : String) (arguments : List String) {s : State κ ω}
    (hs : s.IsSound library) :
    let r := startInvocation cfg host bound name arguments s
    IsSound library ⟨r.1, r.2.1, r.2.2⟩ := by
  simp only [startInvocation]
  split <;> rename_i hcallee
  · exact .of_report hs _
  · refine .of_report (hs.of_eq ?_ ?_) _
    all_goals
      unfold performBuiltin State.replaceFrame
      cases s.frames <;> rfl
  · split
    · exact .of_report hs _
    · refine (IsSound.of_programs (hs.of_eq ?_ ?_) (hs.callee hcallee) [] _).push ?_ <;> trivial
  · exact .of_other hs rfl

theorem act_isSound (bound : Nat) (arguments : List String) (action : Action ω) {s : State κ ω}
    (hs : s.IsSound library) :
    let r := act cfg bound arguments s action
    IsSound library ⟨r.1, r.2.1, r.2.2⟩ := by
  cases action with
  | finish | fail => exact .of_report hs _
  | update => refine .of_other (hs.of_eq ?_ ?_) ?_ <;> rfl
  | ask request next =>
    cases request with
    | run | measure => refine ((IsSound.of_other hs ?_).push ?_).push ?_ <;> trivial
    | expand => refine (IsSound.of_other hs ?_).push ?_ <;> trivial
    | forward =>
      simp only [act]
      split
      · refine (IsSound.of_other hs ?_).push ?_ <;> trivial
      · exact .of_other hs rfl
    | define name parameters body => exact .of_other (hs.defineText cfg name parameters body) rfl
    | lookup => exact .of_other hs rfl

theorem Evaluation.Settles.isSound {e : Evaluation} {s t : State κ ω} {stage : Stage ω} (h : e.Settles s stage t)
    (hs : s.IsSound library) : IsSound library ⟨stage, [], t⟩ := by
  cases h with
  | goesOn => refine .of_other (hs.of_eq ?_ ?_) ?_ <;> rfl
  | ended => refine IsSound.of_report (hs.of_eq ?_ ?_) _ <;> rfl

theorem start_isSound {job : Job ω} (hjob : ∀ ps, job.programs? = some ps → Session.IsSound library ps)
    {s : State κ ω} (hs : s.IsSound library) :
    let r := start cfg host s job
    IsSound library ⟨r.1, r.2.1, r.2.2⟩ := by
  cases job with
  | runScript source file verbosity statistics => exact startScript_isSound source file verbosity statistics hs
  | expandScript source file => exact startExpansion_isSound source file hs
  | evaluateHere => refine (IsSound.of_other hs ?_).push ?_ <;> trivial
  | execute results ps frame => exact startProgram_isSound (hjob ps rfl) results frame hs
  | evaluate p frame onlyResolve =>
    simp only [start, startEvaluation]
    split
    · exact .of_report hs _
    · split
      · exact .of_report hs _
      · refine .of_other (hs.of_eq ?_ ?_) ?_ <;> rfl
  | goOn e =>
    rcases goOn_cases cfg host e s with ⟨i, rest, arguments, record, -, -, h⟩ | ⟨stage, t, h, hsettles⟩
    · rw [start, h]
      refine (IsSound.of_other (hs.of_eq ?_ ?_) ?_).push ?_ <;> trivial
    · rw [start, h]
      exact hsettles.isSound hs
  | invoke bound name arguments => exact startInvocation_isSound bound name arguments hs
  | act bound arguments action => exact act_isSound bound arguments action hs

theorem resume_isSound {w : Waiting ω} (hw : w.IsSound library) {r : Report} {s t : State κ ω} {stage : Stage ω}
    (hs : s.IsSound library) (h : resume cfg host s w r = some (stage, t)) : IsSound library ⟨stage, [], t⟩ := by
  have hcommand := h
  unfold resume at h
  split at h
  case h_1 => exact (resume_command hcommand).isSound hs
  case h_2 =>
    cases h
    exact .of_programs hs hw _ _
  case h_4 name parameters frame =>
    cases h
    exact .of_programs (hs.define hw.1 name parameters) hw.2 _ _
  case h_9 =>
    cases h
    refine IsSound.of_report (hs.of_eq ?_ ?_) _ <;> rfl
  case h_10 =>
    cases h
    refine .of_report (hs.of_eq ?_ ?_) _
    all_goals
      unfold State.replaceFrame
      cases s.frames <;> rfl
  case h_11 =>
    cases h
    exact .of_other hs rfl
  all_goals first
    | cases h; exact .of_report hs _
    | cases h

/-- A step leaves all sound. -/
theorem IsSound.next {m m' : Moment κ ω} (hm : IsSound library m) (h : m.next? cfg host = some m') :
    IsSound library m' := by
  obtain ⟨stage, waiting, s⟩ := m
  obtain ⟨hs, hstage, hwaiting⟩ := hm
  match stage, waiting with
  | .doing job, waiting =>
    obtain rfl := Option.some.inj h
    obtain ⟨hs', hstage', hbefore⟩ : IsSound library ⟨_, _, _⟩ := start_isSound (hstage job · rfl) hs
    exact ⟨hs', hstage', fun w hw => (List.mem_append.1 hw).elim (hbefore w) (hwaiting w)⟩
  | .reporting report, [] => cases h
  | .reporting report, w :: waiting =>
    obtain ⟨_, hr, rfl⟩ := Option.map_eq_some_iff.1 h
    obtain ⟨hs', hstage', -⟩ := resume_isSound (hwaiting w List.mem_cons_self) hs hr
    exact ⟨hs', hstage', fun w hw => hwaiting w (List.mem_cons_of_mem _ hw)⟩

theorem IsSound.leads {m m' : Moment κ ω} (hm : IsSound library m) (h : Leads cfg host m m') : IsSound library m' := by
  induction h with
  | refl => exact hm
  | tail _ hstep ih => exact ih.next hstep

/-! ### Blocks without an end -/

/-- A moment in which these programs are to be executed, and the first begins a block without an end. -/
def Moment.MissesEnd (m : Moment κ ω) (ps : List Program) : Prop :=
  ∃ p rest, ps = p :: rest ∧ p.opensFunction ∧ splitBlock 0 rest = none ∧
    ∃ results frame, m.stage = .doing (.execute results ps frame) ∧ ¬frame.returned

theorem not_endsBlocks_of_splitBlock {p : Program} {ps : List Program} (hp : p.opensFunction)
    (h : splitBlock 0 ps = none) : ¬EndsBlocks (p :: ps) := by
  intro hends
  have hcheck := checkBlocks_eq_ok_iff.2 hends
  rw [checkBlocks_of_unended hp h] at hcheck
  cases hcheck

/-- A block without an end is met only in a function that was there before and was not accepted. -/
theorem IsSound.missesEnd {m : Moment κ ω} (hm : IsSound library m) {ps : List Program} (h : m.MissesEnd ps) :
    ∃ key entry f, library.commands.get? key = some entry ∧ entry.body = .script f ∧ ps <:+ f.body ∧
      ¬EndsBlocks f.body := by
  obtain ⟨p, rest, rfl, hp, hnone, results, frame, hstage, -⟩ := h
  have hnot : ¬EndsBlocks (p :: rest) := not_endsBlocks_of_splitBlock hp hnone
  obtain hends | ⟨key, entry, f, hentry, hbody, hsuffix⟩ := hm.stage _ _ hstage rfl
  · exact (hnot hends).elim
  · exact ⟨key, entry, f, hentry, hbody, hsuffix, fun hends => hnot (hends.suffix hsuffix)⟩

/-! ### Scripts that are incomplete -/

theorem kind_ne_of_isOrdinary {c : Cause} (h : c.isOrdinary) : c.kind ≠ "SpliceIncompleteParse" := by
  cases c with
  | fault | undecodable | nestingLimit | stackExhausted | hostExhausted | host => cases h
  | environmentRefusal reason => cases reason <;> decide
  | _ => simp [Cause.kind]

theorem kind_ne_of_becomes {c d : Cause} (h : c.Becomes d) (hc : c.kind ≠ "SpliceIncompleteParse") :
    d.kind ≠ "SpliceIncompleteParse" := by
  obtain rfl | ⟨-, depth, program, rfl⟩ := h
  · exact hc
  · simp [Cause.kind]

/-- Nothing is found to be incomplete. -/
abbrev IsComplete (result : Except Failure (List String)) : Prop :=
  FailsOnly (fun c => c.kind ≠ "SpliceIncompleteParse") result

/-- No script is about to be read, no host command is carried out, and nothing that is reported is incomplete. -/
def Stage.IsComplete : Stage ω → Prop
  | .doing job => job.isForeign = false
  | .reporting r => Running.IsComplete r.result

/-- All functions of a library end their blocks. -/
def EndsFunctions (library : Library (Implementation κ)) : Prop :=
  ∀ key entry f, library.commands.get? key = some entry → entry.body = .script f → EndsBlocks f.body

theorem start_isComplete [IsEmpty κ] (hlibrary : EndsFunctions library) {job : Job ω} (hjob : job.isForeign = false)
    {waiting : List (Waiting ω)} {s : State κ ω} (hm : IsSound library ⟨.doing job, waiting, s⟩) :
    (start cfg host s job).1.IsComplete := by
  have hbegins : Begins cfg host s job (start cfg host s job).1 := start_begins job s
  generalize (start cfg host s job).1 = stage at hbegins
  cases hbegins with
  | report hraises =>
    intro f hf
    generalize hc : f.cause = c
    have hraises : Raises cfg s job c := hc ▸ hraises f hf
    cases hraises with
    | ordinary h => exact kind_ne_of_isOrdinary h
    | unread hscript =>
      unfold Job.isForeign at hjob
      rw [hscript] at hjob
      cases hjob
    | miscounted | failed => cases hjob
    | @unclosed results p ps frame hreturned hp hnone =>
      obtain ⟨key, entry, g, hentry, hbody, -, hnot⟩ :=
        hm.missesEnd ⟨p, ps, rfl, hp, hnone, results, frame, rfl, hreturned⟩
      exact (hnot (hlibrary key entry g hentry hbody)).elim
    | refused => simp [refusal, Cause.kind]
  | job h => exact h
  | @command _ _ _ key => exact isEmptyElim key
  | action h =>
    rw [h] at hjob
    cases hjob

theorem resume_isComplete {w : Waiting ω} (hw : w.LetsThrough) {r : Report}
    (hr : IsComplete r.result) {s t : State κ ω} {stage : Stage ω}
    (h : resume cfg host s w r = some (stage, t)) : stage.IsComplete := by
  cases resume_resumes h with
  | report hfails =>
    intro f hf
    obtain hordinary | ⟨g, hg, hbecomes⟩ := hfails f hf
    · exact kind_ne_of_isOrdinary hordinary
    · exact kind_ne_of_becomes hbecomes (hr g hg)
  | job hjob => exact hjob
  | action hwaiting =>
    rw [hwaiting] at hw
    exact hw.elim

/-- Where there are no host commands and all functions end their blocks, no script is found to be incomplete once it is
being executed. -/
theorem isComplete_leads [IsEmpty κ] (hlibrary : EndsFunctions library) {m m' : Moment κ ω} (hm : IsSound library m)
    (hlets : LetsThrough m) (hcomplete : m.stage.IsComplete) (h : Leads cfg host m m') : m'.stage.IsComplete := by
  have hhost : host.StaysOutside := fun key => isEmptyElim key
  induction h with
  | refl => exact hcomplete
  | @tail m' m'' hlead hstep ih =>
    have hsound := hm.leads hlead
    obtain ⟨hwaiting, -⟩ := hlets.leads hhost hlead
    obtain ⟨stage, waiting, s⟩ := m'
    match stage, waiting with
    | .doing job, waiting =>
      obtain rfl := Option.some.inj hstep
      exact start_isComplete hlibrary ih hsound
    | .reporting report, [] => cases hstep
    | .reporting report, w :: waiting =>
      obtain ⟨_, hr, rfl⟩ := Option.map_eq_some_iff.1 hstep
      exact resume_isComplete (hwaiting w List.mem_cons_self) ih hr

/-! ### Blocks are decided once -/

/-- A session in which scripts are kept as they were read. -/
theorem isSound_initial {s : State κ ω} (hcache : s.cache.Kept cfg.parseCacheSize) : s.IsSound s.library :=
  ⟨hcache.faithful, fun _ _ hentry => .inl hentry⟩

theorem isSound_job {s : State κ ω} (hcache : s.cache.Kept cfg.parseCacheSize) {job : Job ω}
    (hjob : ∀ ps, job.programs? = some ps → checkBlocks ps = .ok ()) : IsSound s.library ⟨.doing job, [], s⟩ := by
  refine ⟨isSound_initial hcache, .of_job fun ps hps => ?_, fun _ hw => (List.not_mem_nil hw).elim⟩
  exact .inl (checkBlocks_eq_ok_iff.1 (hjob ps hps))

/-- Blocks are decided before anything runs. They are accepted if no part up to the end begins more than it ends, and
refused for the first program outside all blocks that begins one without an end. It is reported at its place; one
without a place, which is in no script, makes the report itself fail. Scripts that are read are accepted.
Whatever is executed then, the bodies that are cut out and the functions that are defined are accepted as well, and a
block without an end is met only in a function that was there before and was not accepted. Without host commands, and
if there is no such function, no script is found to be incomplete once a command has been dispatched. -/
theorem blocks_decided_once (cfg : Config) (host : Host κ ω) :
    (∀ ps, checkBlocks ps = .ok () ↔
      ∀ qs, qs <:+ ps → qs.countP Program.opensFunction ≤ qs.countP Program.closesFunction) ∧
    (∀ ps f, checkBlocks ps = .error f ↔ ∃ before p after, ps = before ++ p :: after ∧ Complete before ∧
      p.opensFunction ∧ (∀ qs, qs <+: after → qs.countP Program.closesFunction ≤ qs.countP Program.opensFunction) ∧
      f = p.unclosedFunction) ∧
    (∀ (p : Program) place, p.location = some place → p.unclosedFunction = ⟨.unclosedFunction p.name, place⟩) ∧
    (∀ (s : State κ ω) source file script, s.cache.Kept cfg.parseCacheSize →
      (s.parse cfg source file).1 = .ok script → checkBlocks script.programs = .ok ()) ∧
    (∀ (s : State κ ω) (job : Job ω) m, s.cache.Kept cfg.parseCacheSize →
      (∀ ps, job.programs? = some ps → checkBlocks ps = .ok ()) → Leads cfg host ⟨.doing job, [], s⟩ m →
      (∀ opener body rest, .block opener body rest ∈ m.waiting → checkBlocks body = .ok ()) ∧
      (∀ key entry, m.state.library.commands.get? key = some entry →
        s.library.commands.get? key = some entry ∨ ∃ f, entry.body = .script f ∧ checkBlocks f.body = .ok ()) ∧
      ∀ ps, m.MissesEnd ps → ∃ key entry f, s.library.commands.get? key = some entry ∧ entry.body = .script f ∧
        ps <:+ f.body ∧ checkBlocks f.body ≠ .ok ()) ∧
    (IsEmpty κ → ∀ (s : State κ ω) (job : Job ω) m m', s.cache.Kept cfg.parseCacheSize →
      (∀ key entry f, s.library.commands.get? key = some entry → entry.body = .script f →
        checkBlocks f.body = .ok ()) →
      (∀ ps, job.programs? = some ps → checkBlocks ps = .ok ()) → job.action? = none →
      Leads cfg host ⟨.doing job, [], s⟩ m →
      (∃ bound name arguments, m.stage = .doing (.invoke bound name arguments)) → Leads cfg host m m' →
      ∀ r f, m'.stage = .reporting r → r.result = .error f → f.cause.kind ≠ "SpliceIncompleteParse") := by
  refine ⟨fun ps => checkBlocks_eq_ok_iff, fun ps f => ?_, fun p place hplace => ?_, ?_, ?_, ?_⟩
  · simpa only [StaysInside, Nat.zero_add] using checkBlocks_eq_error_iff
  · rw [Program.unclosedFunction, hplace]
  · intro s source file script hcache hparse
    exact checkBlocks_eq_ok_iff.2 (endsBlocks_of_parse hcache.faithful hparse)
  · intro s job m hcache hjob hlead
    have hm : IsSound s.library m := (isSound_job hcache hjob).leads hlead
    refine ⟨fun opener body rest hw => ?_, fun key entry hentry => ?_, fun ps hmisses => ?_⟩
    · exact checkBlocks_eq_ok_iff.2 (hm.waiting _ hw).1
    · obtain hold | ⟨f, hf, hends⟩ := hm.state.functions key entry hentry
      · exact .inl hold
      · exact .inr ⟨f, hf, checkBlocks_eq_ok_iff.2 hends⟩
    · obtain ⟨key, entry, f, hentry, hbody, hsuffix, hnot⟩ := hm.missesEnd hmisses
      exact ⟨key, entry, f, hentry, hbody, hsuffix, fun h => hnot (checkBlocks_eq_ok_iff.1 h)⟩
  · rintro hempty s job m m' hcache hlibrary hjob haction hlead ⟨bound, name, arguments, hdispatch⟩ hlead' r f hr hf
    have hhost : host.StaysOutside := fun key => isEmptyElim key
    have hm : IsSound s.library m := (isSound_job hcache hjob).leads hlead
    have hfirst : LetsThrough (⟨.doing job, [], s⟩ : Moment κ ω) :=
      ⟨fun _ hw => (List.not_mem_nil hw).elim, .of_job haction⟩
    have hcomplete : m.stage.IsComplete := by
      rw [hdispatch]
      rfl
    have hends : EndsFunctions s.library := fun key entry f hentry hbody =>
      checkBlocks_eq_ok_iff.1 (hlibrary key entry f hentry hbody)
    have hlast := isComplete_leads hends hm (hfirst.leads hhost hlead) hcomplete hlead'
    rw [hr] at hlast
    exact hlast f hf

/-- Where a function defines another, the first call finds all blocks decided. -/
theorem blocks_decided_once_nested :
    let s : State Empty Unit := State.initial [] [] [] ()
    let host : Host Empty Unit := fun key _ => key.elim
    let source : Source := .text "function(f)\nfunction(g)\nendfunction()\ng()\nendfunction()\nf()"
    ∃ m, Leads {} host ⟨.doing (.runScript source none 0 none), [], s⟩ m ∧
      (∃ bound name arguments, m.stage = .doing (.invoke bound name arguments)) ∧
      (∀ key entry, m.state.library.commands.get? key = some entry →
        s.library.commands.get? key = some entry ∨ ∃ f, entry.body = .script f ∧ checkBlocks f.body = .ok ()) ∧
      ∀ m', Leads {} host m m' →
        ∀ r f, m'.stage = .reporting r → r.result = .error f → f.cause.kind ≠ "SpliceIncompleteParse" := by
  intro s host source
  have hcache : s.cache.Kept (Config.parseCacheSize {}) := .empty
  have hlibrary : ∀ key entry f, s.library.commands.get? key = some entry → entry.body = .script f →
      checkBlocks f.body = .ok () := by
    intro key entry f hentry hbody
    obtain ⟨b, hb⟩ := builtin_of_initial hentry
    rw [hb] at hbody
    cases hbody
  have hjob : ∀ ps, (Job.runScript source none 0 none : Job Unit).programs? = some ps → checkBlocks ps = .ok () := by
    rintro _ ⟨⟩
  have hafter : ((⟨.doing (.runScript source none 0 none), [], s⟩ : Moment Empty Unit).after {} host 10).any
      (fun m => match m.stage with | .doing (.invoke ..) => true | _ => false) := by
    decide +kernel
  obtain ⟨m, hm, hinvoked⟩ := (Option.any_eq_true _ _).1 hafter
  have hlead := leads_of_after hm
  have hdispatch : ∃ bound name arguments, m.stage = .doing (.invoke bound name arguments) := by
    split at hinvoked
    · rename_i bound name arguments hstage
      exact ⟨bound, name, arguments, hstage⟩
    · cases hinvoked
  obtain ⟨-, -, -, -, hbodies, hcomplete⟩ := blocks_decided_once {} host
  refine ⟨m, hlead, hdispatch, (hbodies s _ m hcache hjob hlead).2.1, fun m' => ?_⟩
  exact hcomplete inferInstance s _ m m' hcache hlibrary hjob rfl hlead hdispatch

end CommandScript.Running
