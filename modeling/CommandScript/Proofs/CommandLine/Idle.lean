import CommandScript.Proofs.CommandLine.Items
import CommandScript.Proofs.Running.Blocks
import CommandScript.Proofs.Running.Forgetting

/-! How the program waits for input. Whatever was run before, no evaluation is under way then, no output waits, scripts
are kept as they are read, and functions end their blocks. In such a session no script that can be read fails for being
incomplete. -/

namespace CommandScript.Running

open Text Syntax Code Machine Session

variable {κ ω : Type} {s t : State κ ω}

/-! ### Sessions in order -/

/-- A session in which scripts are kept as they are read, and functions end their blocks. -/
structure IsOrderly (s : State κ ω) : Prop where
  cache : s.cache.Faithful
  functions : EndsFunctions s.library

/-- A new session is in order. -/
theorem isOrderly_initial (own cache environment : Bindings String) (o : ω) :
    IsOrderly (State.initial own cache environment o : State κ ω) := by
  refine ⟨fun entry hentry => (List.not_mem_nil hentry).elim, fun key entry f hentry hbody => ?_⟩
  obtain ⟨b, hb⟩ := builtin_of_initial hentry
  rw [hb] at hbody
  cases hbody

namespace IsOrderly

theorem isSound (hs : IsOrderly s) : s.IsSound s.library := ⟨hs.cache, fun _ _ hentry => .inl hentry⟩

theorem of_isSound (hs : IsOrderly s) (ht : t.IsSound s.library) : IsOrderly t := by
  refine ⟨ht.cache, fun key entry f hentry hbody => ?_⟩
  obtain hold | ⟨g, hg, hends⟩ := ht.functions key entry hentry
  · exact hs.functions key entry f hold hbody
  · rw [hg] at hbody
    cases hbody
    exact hends

theorem parse (hs : IsOrderly s) (cfg : Config) (source : Source) (file : Option String) :
    IsOrderly (s.parse cfg source file).2 :=
  hs.of_isSound (hs.isSound.parse cfg source file)

/-- A session stays in order whatever is run in it. -/
theorem run (hs : IsOrderly s) (hdepth : s.depth = 0) (cfg : Config) (host : Host κ ω) (source : Source)
    (file : Option String) (verbosity : Nat) (statistics : Option Statistics) :
    IsOrderly (s.run cfg host source file verbosity statistics).2.2 := by
  have hends := ends_runScript (evaluatorAt_isKeeping cfg host 0) (carries_evaluatorAt 0) source file verbosity
    statistics s hdepth
  exact hs.of_isSound ((IsSound.of_other hs.isSound rfl).leads hends).state

variable [IsEmpty κ]

/-- Programs that end their blocks are not found to be incomplete while they are executed. -/
theorem execute_isComplete (hs : IsOrderly s) (hdepth : s.depth = 0) (cfg : Config) (host : Host κ ω)
    {ps : List Program} (hps : EndsBlocks ps) (frame : Frame) :
    IsComplete (Session.execute (Session.evaluate cfg host) ps frame s).1 := by
  have hends := ends_execute (evaluatorAt_isKeeping cfg host 0) (carries_evaluatorAt 0) [] ps frame s hdepth
  have hlets : LetsThrough (⟨.doing (.execute [] ps frame), [], s⟩ : Moment κ ω) :=
    ⟨fun _ hw => (List.not_mem_nil hw).elim, .of_job rfl⟩
  exact isComplete_leads hs.functions (IsSound.of_programs hs.isSound (.inl hps) [] frame) hlets rfl hends

/-- A script that can be read fails for other reasons than that it is incomplete. -/
theorem run_not_isOpenEnded (hs : IsOrderly s) (hdepth : s.depth = 0) (cfg : Config) (host : Host κ ω)
    {source : Source} {file : Option String} {ps : List Program} (h : readScript ⟨file, source⟩ = .ok ps)
    (verbosity : Nat) (statistics : Option Statistics) {f : Failure}
    (hf : (s.run cfg host source file verbosity statistics).1 = .error f) : f.isOpenEnded = false := by
  obtain ⟨stamp, cache, hparse⟩ := exists_parse hs.cache h cfg
  have hkept : IsOrderly (s.keeping cache) := by
    have hparsed := hs.parse cfg source file
    rwa [hparse] at hparsed
  have hinner : IsOrderly ((s.keeping cache).watchedAs verbosity statistics) := ⟨hkept.cache, hkept.functions⟩
  rw [State.run, runScript_of_parse hparse, if_pos (.inl hdepth)] at hf
  have hcomplete := hinner.execute_isComplete hdepth cfg host (endsBlocks_of_readScript h) _ f hf
  unfold Failure.isOpenEnded
  split
  · rename_i fault hfault
    rw [hfault] at hcomplete
    exact Bool.eq_false_iff.mpr fun hopen => hcomplete ((kind_fault fault).1.2 hopen)
  · rfl

end IsOrderly

end CommandScript.Running

namespace CommandScript.CommandLine

open Text Syntax Code Machine Session

/-! ### Sessions at rest -/

/-- A session in order, in which no output waits and no evaluation is under way. -/
structure IsAtRest (s : ScriptSession) : Prop where
  events : s.record.events = []
  depth : s.depth = 0
  orderly : Running.IsOrderly s

/-- A session comes to rest behind an item, and its output is put out. -/
theorem IsAtRest.leftBehind (found : Shared) (h : IsAtRest found.state) (settings : Settings) (item : Item) :
    IsAtRest (leftBehind (item.run settings found)).state := by
  have hdepth : (item.run settings found).2.2.depth = found.state.depth :=
    (runScript_keeps (evaluate_isKeeping settings.config _) ..).depth
  have horderly : Running.IsOrderly (item.run settings found).2.2 := h.orderly.run h.depth settings.config _ ..
  exact ⟨rfl, hdepth.trans h.depth, horderly.cache, horderly.functions⟩

namespace Runner

variable {r : Runner}

/-- The session of a new runner is at rest. -/
theorem ofSettings_isAtRest (settings : Settings) (environment : Bindings String) :
    IsAtRest (ofSettings settings environment).state := by
  obtain ⟨store, hstate⟩ := exists_setVariables settings.defines (State.initial [] [] environment ())
  have horderly := Running.isOrderly_initial (κ := Empty) [] [] environment ()
  rw [ofSettings, hstate]
  exact ⟨rfl, rfl, horderly.cache, horderly.functions⟩

theorem runText_isAtRest (hr : IsAtRest r.state) (file source : String) :
    IsAtRest (r.runText file source).2.2.state := by
  rw [show r.runText file source = _ from runText_item r ⟨file, source, true⟩]
  exact IsAtRest.leftBehind r.shared hr r.settings _

@[simp] theorem reportFailure_state (r : Runner) (f : Failure) (output : List Output) (file source : String) :
    (r.reportFailure f output file source).2.state = r.state := by
  unfold reportFailure
  split <;> rfl

theorem runScript_isAtRest (hr : IsAtRest r.state) (file source : String) (showsResults : Bool) :
    IsAtRest (r.runScript file source showsResults).2.state := by
  have hrun := runText_isAtRest hr file source
  unfold runScript
  split
  · split <;> rename_i heq <;> rw [heq] at hrun
    · exact hrun
    · rw [failScript, reportFailure_state]
      exact hrun
  · rw [failScript, reportFailure_state]
    exact hr

theorem dumpScript_isAtRest (hr : IsAtRest r.state) (file source : String) :
    IsAtRest (r.dumpScript file source).2.state := by
  have hkeeps := r.state.keeps_parse r.config (.text source) (some file)
  have horderly := hr.orderly.parse r.config (.text source) (some file)
  have hparse : IsAtRest (r.state.parse r.config (.text source) (some file)).2 :=
    ⟨hr.events, hkeeps.depth.trans hr.depth, horderly⟩
  unfold dumpScript
  split
  · split <;> rename_i heq <;> rw [heq] at hparse
    · exact hparse
    · rw [failScript, reportFailure_state]
      exact hparse
  · exact hr

theorem typeLine_isAtRest (hr : IsAtRest r.state) (buffer line : String) :
    IsAtRest (r.typeLine buffer line).2.1.state := by
  have hrun := runText_isAtRest hr promptFile (buffer ++ line ++ "\n")
  unfold typeLine
  split
  · exact hr
  · simp only
    split <;> rename_i heq <;> rw [heq] at hrun
    · exact hrun
    · split
      · exact hrun
      · simp only [reportFailure_state]
        exact hrun

/-! ### Waiting -/

/-- A runner that has not crashed, and whose session is at rest. -/
structure IsIdle (r : Runner) : Prop where
  crash : r.crash = none
  state : IsAtRest r.state

theorem ofSettings_isIdle (settings : Settings) (environment : Bindings String) :
    (ofSettings settings environment).IsIdle :=
  ⟨rfl, ofSettings_isAtRest settings environment⟩

theorem ofRequest_isIdle (r : Request) (settings : Settings) : (ofRequest r settings).IsIdle :=
  ⟨rfl, ofSettings_isAtRest settings r.environment⟩

end Runner

/-- If a line is waited for, then by an idle runner. -/
def Phase.IsIdle : Phase → Prop
  | ended _ => True
  | waiting r _ _ => r.IsIdle

theorem goOn_isIdle {step : List Output × Runner} {next : Runner → List Output × Phase}
    (hstep : IsAtRest step.2.state) (hnext : step.2.IsIdle → (next step.2).2.IsIdle) : (goOn step next).2.IsIdle := by
  unfold goOn
  split
  · trivial
  · rename_i hending
    refine hnext ⟨?_, hstep⟩
    unfold Runner.ending? at hending
    split at hending
    · cases hending
    · assumption

theorem proceed_isIdle {r : Runner} (hr : r.IsIdle) (activities : List Activity) : (proceed r activities).2.IsIdle := by
  induction activities generalizing r with
  | nil => trivial
  | cons activity rest ih =>
    cases activity with
    | script file source => exact goOn_isIdle (Runner.runScript_isAtRest hr.state file source false) fun h => ih h
    | inline code =>
      have hnext : IsAtRest { r with nextInline := r.nextInline + 1 }.state := hr.state
      exact goOn_isIdle (Runner.runScript_isAtRest hnext _ _ true) fun h => ih h
    | dump file source => exact goOn_isIdle (Runner.dumpScript_isAtRest hr.state file source) fun h => ih h
    | repl | standardInput | dumpStandardInput => exact hr
    | unreadable => trivial

namespace Phase

/-- Whatever is put in, an idle runner waits for what comes next. -/
theorem IsIdle.feed {phase : Phase} (h : phase.IsIdle) (line : Option String) : (phase.feed line).2.IsIdle := by
  match phase, line with
  | .ended _, _ => trivial
  | .waiting r (.prompt buffer) rest, none =>
    simp only [Phase.feed, advance]
    exact proceed_isIdle h rest
  | .waiting r (.prompt buffer) rest, some line =>
    have htyped := Runner.typeLine_isAtRest h.state buffer (String.ofList (line.toList.takeWhile (· ≠ '\n')))
    simp only [Phase.feed, advance]
    generalize String.ofList (line.toList.takeWhile (· ≠ '\n')) = line at htyped ⊢
    by_cases hleaves : Runner.leaves line
    · rw [if_pos hleaves]
      exact proceed_isIdle h rest
    · rw [if_neg hleaves]
      cases hcrash : (r.typeLine buffer line).2.1.crash with
      | some crash => trivial
      | none => exact ⟨hcrash, htyped⟩
  | .waiting r (.script isDump lines) rest, some line => exact h
  | .waiting r (.script isDump lines) rest, none =>
    simp only [Phase.feed, advance]
    refine goOn_isIdle ?_ fun hnext => proceed_isIdle hnext rest
    split
    · exact Runner.dumpScript_isAtRest h.state _ _
    · exact Runner.runScript_isAtRest h.state _ _ _

/-- Takes some lines of standard input. -/
def feedLines : List String → Phase → List Output × Phase
  | [], phase => ([], phase)
  | line :: lines, phase =>
    let (output, phase) := phase.feed (some line)
    let (later, phase) := feedLines lines phase
    (output ++ later, phase)

theorem feedLines_append (lines more : List String) (phase : Phase) : feedLines (lines ++ more) phase =
    ((feedLines lines phase).1 ++ (feedLines more (feedLines lines phase).2).1,
      (feedLines more (feedLines lines phase).2).2) := by
  induction lines generalizing phase with
  | nil => rfl
  | cons line lines ih => simp only [List.cons_append, feedLines, ih, List.append_assoc]

theorem feedLines_concat {lines : List String} {phase next : Phase} {output : List Output}
    (h : phase.feedLines lines = (output, next)) (line : String) :
    phase.feedLines (lines ++ [line]) = (output ++ (next.feed (some line)).1, (next.feed (some line)).2) := by
  rw [feedLines_append, h]
  simp only [feedLines, List.append_nil]

theorem IsIdle.feedLines {phase : Phase} (h : phase.IsIdle) (lines : List String) :
    (phase.feedLines lines).2.IsIdle := by
  induction lines generalizing phase with
  | nil => exact h
  | cons line lines ih => exact ih (h.feed (some line))

end Phase

/-- Whatever the program was asked for and whatever was put in, it is an idle runner that waits for the next line. -/
theorem start_feedLines_isIdle (r : Request) (lines : List String) : (Phase.feedLines lines (start r).2).2.IsIdle := by
  refine Phase.IsIdle.feedLines ?_ lines
  simp only [start]
  split
  · trivial
  · split
    · trivial
    · split
      · trivial
      · exact proceed_isIdle (Runner.ofRequest_isIdle r _) _

end CommandScript.CommandLine
