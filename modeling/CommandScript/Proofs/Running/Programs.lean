import CommandScript.Proofs.Running.Effects
import CommandScript.Proofs.Session.BlockStructure

/-! Where programs come from. A session comes upon no programs but those it was given, as a job or as functions, and
those it reads. So what can be said of each of them can be said of every program that is executed. -/

namespace CommandScript.Running

open Text Syntax Code Command Machine Session

variable {κ ω : Type} {cfg : Config} {host : Host κ ω}

/-! ### Programs of a moment -/

section Holds

variable (P : Program → Prop)

/-- Functions and scripts that are kept have such programs only. -/
structure StateHolds (s : State κ ω) : Prop where
  functions : ∀ key entry f, s.library.commands.get? key = some entry → entry.body = .script f → ∀ p ∈ f.body, P p
  scripts : ∀ entry ∈ s.cache.entries, ∀ p ∈ entry.2.programs, P p

/-- An evaluation of such a program, at one of its instructions. -/
structure Evaluation.Holds (e : Evaluation) : Prop where
  program : P e.program
  rest : e.rest <:+ e.program.instructions

/-- The evaluation is at an instruction that dispatches a command. -/
def Evaluation.Dispatches (e : Evaluation) : Prop :=
  ∃ i rest arguments, e.rest = i :: rest ∧ dispatched? e.onlyResolve i e.held = some arguments

def Waiting.Holds : Waiting ω → Prop
  | .command e => e.Holds P ∧ e.Dispatches
  | .programs ps => ∀ p ∈ ps, P p
  | .block opener body rest => P opener ∧ (∀ p ∈ body, P p) ∧ ∀ p ∈ rest, P p
  | _ => True

def Job.Holds : Job ω → Prop
  | .evaluateHere p _ | .evaluate p _ _ => P p
  | .execute _ ps _ => ∀ p ∈ ps, P p
  | .goOn e => e.Holds P
  | _ => True

def Stage.Holds : Stage ω → Prop
  | .doing job => job.Holds P
  | .reporting _ => True

/-- All programs of a moment are such programs. -/
structure Holds (m : Moment κ ω) : Prop where
  state : StateHolds P m.state
  stage : m.stage.Holds P
  waiting : ∀ w ∈ m.waiting, w.Holds P

end Holds

variable {P : Program → Prop}

/-! ### States -/

theorem holds_read {c : ParseCache} {key : ScriptKey}
    (hread : ∀ programs, readScript key = .ok programs → ∀ p ∈ programs, P p)
    (h : ∀ entry ∈ c.entries, ∀ p ∈ entry.2.programs, P p) (capacity : Nat) :
    (∀ script, (c.read capacity key).1 = .ok script → ∀ p ∈ script.programs, P p) ∧
      ∀ entry ∈ (c.read capacity key).2.entries, ∀ p ∈ entry.2.programs, P p := by
  have used {script : Script} (hs : ∀ p ∈ script.programs, P p) :
      ∀ entry ∈ ParseCache.use c.entries capacity key script, ∀ p ∈ entry.2.programs, P p := by
    intro entry hentry
    rcases List.mem_append.1 (List.mem_of_mem_drop hentry) with hmem | hmem
    · exact h entry (List.mem_filter.1 hmem).1
    · rw [List.mem_singleton.1 hmem]
      exact hs
  unfold ParseCache.read
  split
  · rename_i script hfind
    have hs : ∀ p ∈ script.programs, P p := by
      unfold ParseCache.find? at hfind
      obtain ⟨entry, hentry, rfl⟩ := Option.map_eq_some_iff.1 hfind
      exact h entry (List.mem_of_find?_eq_some hentry)
    exact ⟨fun _ hok => Except.ok.inj hok ▸ hs, used hs⟩
  · split
    · exact ⟨fun _ hok => (by cases hok), h⟩
    · rename_i programs hok
      have hs := hread programs hok
      exact ⟨fun _ hok => Except.ok.inj hok ▸ hs, used hs⟩

namespace StateHolds

variable {s t : State κ ω}

theorem of_eq (h : StateHolds P s) (hcache : t.cache = s.cache) (hlibrary : t.library = s.library) :
    StateHolds P t := by
  refine ⟨?_, ?_⟩
  · rw [hlibrary]
    exact h.functions
  · rw [hcache]
    exact h.scripts

theorem replaceFrame (h : StateHolds P s) (frame : Frame) : StateHolds P (s.replaceFrame frame) := by
  refine h.of_eq ?_ ?_
  all_goals
    unfold State.replaceFrame
    cases s.frames <;> rfl

theorem define (h : StateHolds P s) {body : List Program} (hbody : ∀ p ∈ body, P p) (name : String)
    (parameters : List String) : StateHolds P (s.define name parameters body) := by
  refine ⟨fun key entry f hentry hf => ?_, h.scripts⟩
  simp only [State.define, Library.add, Bindings.get?_insert] at hentry
  split at hentry
  · cases hentry
    cases hf
    exact hbody
  · exact h.functions key entry f hentry hf

/-- A host command has no programs. -/
theorem register (h : StateHolds P s) (name fallback : String) (signature : Signature) (documentation : String)
    (key : κ) : StateHolds P (s.register name fallback signature documentation key) := by
  refine ⟨fun found entry f hentry hf => ?_, h.scripts⟩
  simp only [State.register, Library.add, Bindings.get?_insert] at hentry
  split at hentry
  · cases hentry
    cases hf
  · exact h.functions found entry f hentry hf

/-- The body of a function that can be called. -/
theorem callee (h : StateHolds P s) {name : String} {given : Nat} {f : ScriptFunction}
    (hf : s.callee name given = .ok (.script f)) : ∀ p ∈ f.body, P p := by
  unfold State.callee Library.get at hf
  split at hf <;> rename_i hget
  · cases hf
  · split at hget <;> rename_i hfind <;> cases hget
    split at hf
    · cases hf
    · exact h.functions _ _ f hfind (Except.ok.inj hf)

section Reading

variable (hread : ∀ key programs, readScript key = .ok programs → ∀ p ∈ programs, P p)
include hread

theorem parse (h : StateHolds P s) (cfg : Config) (source : Source) (file : Option String) :
    (∀ script, (s.parse cfg source file).1 = .ok script → ∀ p ∈ script.programs, P p) ∧
      StateHolds P (s.parse cfg source file).2 := by
  obtain ⟨hscript, hscripts⟩ := holds_read (hread ⟨file, source⟩) h.scripts cfg.parseCacheSize
  exact ⟨hscript, h.functions, hscripts⟩

theorem defineText (h : StateHolds P s) (cfg : Config) (name : String) (parameters : List String) (body : String) :
    StateHolds P (s.defineText cfg name parameters body).2 := by
  obtain ⟨hscript, hparse⟩ := h.parse hread cfg (.text body) (some ("<function:" ++ name ++ ">"))
  unfold State.defineText
  split <;> rename_i heq <;> rw [heq] at hscript hparse
  · exact hparse.define (hscript _ rfl) name parameters
  · exact hparse

end Reading

end StateHolds

/-- In a new session there are no functions. -/
theorem builtin_of_initial {own cache environment : Bindings String} {o : ω} {key : String}
    {entry : Entry (Implementation κ)}
    (h : (State.initial own cache environment o : State κ ω).library.commands.get? key = some entry) :
    ∃ b, entry.body = .builtin b := by
  have hadded (bs : List Builtin) : ∀ l : Library (Implementation κ),
      (∀ entry, l.commands.get? key = some entry → ∃ b, entry.body = .builtin b) →
      ∀ entry, (bs.foldl (fun l b => l.add b.name b.summary (.builtin b)) l).commands.get? key = some entry →
        ∃ b, entry.body = .builtin b := by
    induction bs with
    | nil => exact fun l hl => hl
    | cons b bs ih =>
      intro l hl
      refine ih _ fun entry hentry => ?_
      simp only [Library.add, Bindings.get?_insert] at hentry
      split at hentry
      · cases hentry
        exact ⟨b, rfl⟩
      · exact hl entry hentry
  exact hadded Builtin.all {} (fun _ hentry => by cases hentry) entry h

/-- A new session keeps no programs at all. -/
theorem stateHolds_initial (own cache environment : Bindings String) (o : ω) :
    StateHolds P (State.initial own cache environment o : State κ ω) := by
  refine ⟨fun key entry f hentry hf => ?_, fun _ hentry => (List.not_mem_nil hentry).elim⟩
  obtain ⟨b, hb⟩ := builtin_of_initial hentry
  rw [hb] at hf
  cases hf

/-! ### Steps -/

namespace Holds

variable {s t : State κ ω}

theorem of_report (h : StateHolds P t) (r : Report) : Holds P ⟨.reporting r, [], t⟩ :=
  ⟨h, trivial, fun _ hw => (List.not_mem_nil hw).elim⟩

theorem of_job (h : StateHolds P t) {job : Job ω} (hjob : job.Holds P) : Holds P ⟨.doing job, [], t⟩ :=
  ⟨h, hjob, fun _ hw => (List.not_mem_nil hw).elim⟩

theorem of_programs (h : StateHolds P t) {ps : List Program} (hps : ∀ p ∈ ps, P p) (results : List String)
    (frame : Frame) : Holds P ⟨.doing (.execute results ps frame), [], t⟩ := .of_job h hps

/-- More may wait. -/
theorem push {stage : Stage ω} {ws : List (Waiting ω)} {w : Waiting ω} (h : Holds P ⟨stage, ws, t⟩)
    (hw : w.Holds P) : Holds P ⟨stage, w :: ws, t⟩ :=
  ⟨h.state, h.stage, fun _ hmem => (List.mem_cons.1 hmem).elim (fun heq => heq ▸ hw) (h.waiting _)⟩

end Holds

theorem forall_mem_splitBlock {ps body rest : List Program} (h : splitBlock 0 ps = some (body, rest))
    (hps : ∀ p ∈ ps, P p) : (∀ p ∈ body, P p) ∧ ∀ p ∈ rest, P p := by
  obtain ⟨close, rfl, -, -⟩ := splitBlock_zero_iff.1 h
  rw [List.forall_mem_append, List.forall_mem_cons] at hps
  exact ⟨hps.1, hps.2.2⟩

theorem startProgram_holds {ps : List Program} (hps : ∀ p ∈ ps, P p) (results : List String) (frame : Frame)
    {s : State κ ω} (hs : StateHolds P s) :
    Holds P ⟨(startProgram results ps frame).1, (startProgram results ps frame).2, s⟩ := by
  unfold startProgram
  split
  · exact .of_report hs _
  · rename_i p ps
    obtain ⟨hp, hps⟩ := List.forall_mem_cons.1 hps
    split
    · exact .of_report hs _
    · split
      · split <;> rename_i hsplit
        · exact .of_report hs _
        · obtain ⟨hbody, hrest⟩ := forall_mem_splitBlock hsplit hps
          refine (Holds.of_job hs ?_).push ⟨hp, hbody, hrest⟩
          exact hp
      · refine (Holds.of_job hs ?_).push hps
        exact hp

theorem settle_holds {e : Evaluation} (he : e.Holds P) {s : State κ ω} (hs : StateHolds P s) (i : Instruction)
    {rest : List Instruction} (hrest : rest <:+ e.rest) :
    ∀ {x : Except Failure (Progress String) × State κ ω}, (∃ record, x.2 = { s with record }) →
      Holds P ⟨(e.settle i rest x).1, [], (e.settle i rest x).2⟩
  | (.ok (.moved held), _), ⟨record, rfl⟩ => by
    refine Holds.of_job (hs.of_eq ?_ ?_) ⟨he.program, hrest.trans he.rest⟩ <;> rfl
  | (.ok (.resolved arguments), _), ⟨record, rfl⟩ => by
    refine Holds.of_report (hs.of_eq ?_ ?_) _ <;> rfl
  | (.error failure, _), ⟨record, rfl⟩ => by
    refine Holds.of_report (hs.of_eq ?_ ?_) _ <;> rfl

theorem goOn_holds {e : Evaluation} (he : e.Holds P) {s : State κ ω} (hs : StateHolds P s) :
    let r := goOn cfg host e s
    Holds P ⟨r.1, r.2.1, r.2.2⟩ := by
  unfold goOn
  cases hrest : e.rest with
  | nil =>
    obtain ⟨record, hrecord⟩ := runFrom_answering cfg host e.scope (.ok []) s e.onlyResolve e.step e.held
    refine .of_report (hs.of_eq ?_ ?_) _
    all_goals
      simp only [Evaluation.finish, hrecord]
  | cons i rest =>
    cases hd : dispatched? e.onlyResolve i e.held with
    | some arguments =>
      simp only [hd]
      refine (Holds.of_job (hs.of_eq ?_ ?_) ?_).push ⟨he, i, rest, arguments, hrest, hd⟩ <;> trivial
    | none =>
      simp only [hd]
      refine settle_holds he hs i (hrest ▸ List.suffix_cons i rest) ?_
      exact execute_answering cfg host e.scope (.ok []) s e.onlyResolve rest.isEmpty i e.held _

theorem startInvocation_holds (bound : Nat) (name : String) (arguments : List String) {s : State κ ω}
    (hs : StateHolds P s) :
    let r := startInvocation cfg host bound name arguments s
    Holds P ⟨r.1, r.2.1, r.2.2⟩ := by
  simp only [startInvocation]
  split <;> rename_i hcallee
  · exact .of_report hs _
  · refine .of_report (hs.of_eq ?_ ?_) _
    all_goals
      unfold performBuiltin State.replaceFrame
      cases s.frames <;> rfl
  · split
    · exact .of_report hs _
    · refine (Holds.of_programs (hs.of_eq ?_ ?_) (hs.callee hcallee) [] _).push ?_ <;> trivial
  · exact .of_job hs trivial

section Reading

variable (hread : ∀ key programs, readScript key = .ok programs → ∀ p ∈ programs, P p)
include hread

theorem startScript_holds (source : Source) (file : Option String) (verbosity : Nat) (statistics : Option Statistics)
    {s : State κ ω} (hs : StateHolds P s) :
    let r := startScript cfg source file verbosity statistics s
    Holds P ⟨r.1, r.2.1, r.2.2⟩ := by
  obtain ⟨hscript, hparse⟩ := hs.parse hread cfg source file
  simp only [startScript]
  split <;> rename_i heq <;> rw [heq] at hscript hparse
  · exact .of_report hparse _
  · have hprograms := hscript _ rfl
    split
    · refine (Holds.of_programs (hparse.of_eq ?_ ?_) hprograms [] _).push ?_ <;> trivial
    · refine (Holds.of_programs hparse hprograms [] _).push ?_
      trivial

theorem startExpansion_holds (source : Source) (file : Option String) {s : State κ ω} (hs : StateHolds P s) :
    let r := startExpansion cfg source file s
    Holds P ⟨r.1, r.2.1, r.2.2⟩ := by
  obtain ⟨hscript, hparse⟩ := hs.parse hread cfg source file
  simp only [startExpansion]
  split <;> rename_i heq <;> rw [heq] at hscript hparse
  · exact .of_report hparse _
  · have hprograms := hscript _ rfl
    split <;> rename_i hone
    · rw [hone] at hprograms
      refine .of_job hparse ?_
      exact hprograms _ List.mem_cons_self
    · exact .of_report hparse _

theorem act_holds (bound : Nat) (arguments : List String) (action : Action ω) {s : State κ ω} (hs : StateHolds P s) :
    let r := act cfg bound arguments s action
    Holds P ⟨r.1, r.2.1, r.2.2⟩ := by
  cases action with
  | finish | fail => exact .of_report hs _
  | update => refine .of_job (hs.of_eq ?_ ?_) ?_ <;> trivial
  | ask request next =>
    cases request with
    | run | measure => refine ((Holds.of_job hs ?_).push ?_).push ?_ <;> trivial
    | expand => refine (Holds.of_job hs ?_).push ?_ <;> trivial
    | forward =>
      simp only [act]
      split
      · refine (Holds.of_job hs ?_).push ?_ <;> trivial
      · exact .of_job hs trivial
    | define name parameters body => exact .of_job (hs.defineText hread cfg name parameters body) trivial
    | lookup => exact .of_job hs trivial

theorem start_holds {job : Job ω} (hjob : job.Holds P) {s : State κ ω} (hs : StateHolds P s) :
    let r := start cfg host s job
    Holds P ⟨r.1, r.2.1, r.2.2⟩ := by
  cases job with
  | runScript source file verbosity statistics => exact startScript_holds hread source file verbosity statistics hs
  | expandScript source file => exact startExpansion_holds hread source file hs
  | evaluateHere p =>
    refine (Holds.of_job hs ?_).push ?_
    · exact hjob
    · trivial
  | execute results ps frame => exact startProgram_holds hjob results frame hs
  | evaluate p frame onlyResolve =>
    simp only [start, startEvaluation]
    split
    · exact .of_report hs _
    · split
      · exact .of_report hs _
      · refine .of_job (hs.of_eq ?_ ?_) ⟨?_, List.suffix_refl _⟩
        · rfl
        · rfl
        · exact hjob
  | goOn e => exact goOn_holds hjob hs
  | invoke bound name arguments => exact startInvocation_holds bound name arguments hs
  | act bound arguments action => exact act_holds hread bound arguments action hs

omit hread in
theorem resume_holds {w : Waiting ω} (hw : w.Holds P) {r : Report} {s t : State κ ω} {stage : Stage ω}
    (hs : StateHolds P s) (h : resume cfg host s w r = some (stage, t)) : Holds P ⟨stage, [], t⟩ := by
  unfold resume at h
  split at h
  case h_1 e result =>
    obtain ⟨he, i, rest, arguments, hrest, -⟩ := hw
    have hexecute := execute_answering cfg host e.scope result s e.onlyResolve rest.isEmpty i e.held s.record
    have hsettle := settle_holds he hs i (hrest ▸ List.suffix_cons i rest) hexecute
    simp only [hrest] at h
    rw [Option.some.inj h] at hsettle
    exact hsettle
  case h_2 =>
    cases h
    exact .of_programs hs hw _ _
  case h_4 name parameters frame =>
    cases h
    exact .of_programs (hs.define hw.2.1 name parameters) hw.2.2 _ _
  case h_9 =>
    cases h
    refine Holds.of_report (hs.of_eq ?_ ?_) _ <;> rfl
  case h_10 =>
    cases h
    exact .of_report (hs.replaceFrame _) _
  case h_11 =>
    cases h
    exact .of_job hs trivial
  all_goals first
    | cases h; exact .of_report hs _
    | cases h

theorem Holds.next {m m' : Moment κ ω} (hm : Holds P m) (h : m.next? cfg host = some m') : Holds P m' := by
  obtain ⟨stage, waiting, s⟩ := m
  obtain ⟨hs, hstage, hwaiting⟩ := hm
  match stage, waiting with
  | .doing job, waiting =>
    obtain rfl := Option.some.inj h
    obtain ⟨hs', hstage', hbefore⟩ : Holds P ⟨_, _, _⟩ := start_holds hread hstage hs
    exact ⟨hs', hstage', fun w hw => (List.mem_append.1 hw).elim (hbefore w) (hwaiting w)⟩
  | .reporting report, [] => cases h
  | .reporting report, w :: waiting =>
    obtain ⟨_, hr, rfl⟩ := Option.map_eq_some_iff.1 h
    obtain ⟨hs', hstage', -⟩ := resume_holds (hwaiting w List.mem_cons_self) hs hr
    exact ⟨hs', hstage', fun w hw => hwaiting w (List.mem_cons_of_mem _ hw)⟩

/-- What holds of all programs a session is given or reads holds of those it comes upon in a run. -/
theorem Holds.leads {m m' : Moment κ ω} (hm : Holds P m) (h : Leads cfg host m m') : Holds P m' := by
  induction h with
  | refl => exact hm
  | tail _ hstep ih => exact ih.next hread hstep

end Reading

end CommandScript.Running
