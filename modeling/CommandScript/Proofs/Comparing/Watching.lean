import CommandScript.Proofs.Comparing.Runs
import CommandScript.Proofs.Evaluation.Texts
import CommandScript.Proofs.Grammar.Regularity
import CommandScript.Proofs.Running.Programs

/-! Watching changes nothing. Whether a session is traced, whether its commands and steps are counted and whether it
warns of undefined variables, it does the same and ends the same. Only what is put together by hand, with numbers in
the place of texts, can fail because it is traced. No script that is read has any, so a session whose functions are of
texts stays one. -/

namespace CommandScript

open Text Syntax Code Command Machine Session Running

/-! ### Without those who watch -/

/-- Whether an event is there for those who watch only, or at least goes where traces go. -/
def Event.isWatching : Event → Bool
  | .printed _ => true
  | .diagnosed d => d.isUndefinedWarning
  | _ => false

/-- The same dispatches, definitions and messages, and the same diagnostics, save for warnings of undefined
variables. -/
structure Machine.Record.SameUnwatched (r r' : Record) : Prop where
  events : r.events.filter (!·.isWatching) = r'.events.filter (!·.isWatching)
  diagnostics : r.diagnostics.filter (!·.isUndefinedWarning) = r'.diagnostics.filter (!·.isUndefinedWarning)

/-- The same state, save for how it is watched and what that leaves. -/
structure Session.State.SameUnwatched {κ ω : Type} (s t : State κ ω) : Prop where
  store : s.store = t.store
  top : s.top = t.top
  library : s.library = t.library
  cache : s.cache = t.cache
  frames : s.frames = t.frames
  depth : s.depth = t.depth
  host : s.host = t.host
  record : s.record.SameUnwatched t.record

/-- The same state, traced and counted in another way. -/
def Session.State.watchedAs {κ ω : Type} (s : State κ ω) (verbosity : Nat) (statistics : Option Statistics) :
    State κ ω := { s with verbosity, record := { s.record with statistics } }

theorem Session.State.SameUnwatched.watchedAs {κ ω : Type} {s t : State κ ω} (h : s.SameUnwatched t)
    (verbosity verbosity' : Nat) (statistics statistics' : Option Statistics) :
    (s.watchedAs verbosity statistics).SameUnwatched (t.watchedAs verbosity' statistics') :=
  ⟨h.store, h.top, h.library, h.cache, h.frames, h.depth, h.host, h.record.events, h.record.diagnostics⟩

/-- All is seen but statistics, traces and warnings of undefined variables. -/
def View.unwatched : View where
  name := id
  source := id
  watches := false
  remembers := true
  lowerCase_name _ := rfl
  name_name _ := rfl
  source_source _ := rfl

namespace View

@[simp] theorem name_unwatched : unwatched.name = id := rfl

@[simp] theorem source_unwatched : unwatched.source = id := rfl

@[simp] theorem instruction_seenBy_unwatched : Instruction.seenBy unwatched = id := by
  funext i
  simp [Instruction.seenBy, Instruction.relabel]

@[simp] theorem program_seenBy_unwatched : Program.seenBy unwatched = id := by
  funext p
  simp [Program.seenBy]

@[simp] theorem notice_seenBy_unwatched (notice : Notice) : notice.seenBy unwatched = notice := by
  cases notice <;> simp [Notice.seenBy]

@[simp] theorem lexeme_relabel_unwatched : Lexeme.relabel unwatched.relabelling = id := by
  funext lexeme
  cases lexeme <;> rfl

@[simp] theorem failure_seenBy_unwatched : Failure.seenBy unwatched = id := by
  have hcause (cause : Cause) : cause.seenBy unwatched = cause := by
    cases cause with
    | fault f =>
      obtain ⟨cause, location⟩ := f
      cases cause <;> simp [Cause.seenBy, Fault.seenBy]
    | _ => simp [Cause.seenBy]
  funext f
  simp [Failure.seenBy, hcause]

@[simp] theorem result_unwatched {α : Type} (x : Except Failure α) : unwatched.result x = x := by
  cases x with
  | ok a => rfl
  | error f => exact congrArg Except.error (congrFun failure_seenBy_unwatched f)

variable {κ ω : Type}

@[simp] theorem library_seenBy_unwatched (l : Library (Implementation κ)) : l.seenBy unwatched = l := by
  have himplementation (body : Implementation κ) : body.seenBy unwatched = body := by
    cases body <;> simp [Implementation.seenBy]
  simp [Library.seenBy, Entry.seenBy, himplementation]

/-- No host command can tell failures apart that look the same where all failures are seen. -/
theorem heeds_unwatched (m : Moment κ ω) : m.Heeds unwatched := by
  intro r w ws _ _ bound arguments next failure _ _
  rw [GoesOnAlike, failure_seenBy_unwatched]
  rfl

theorem report_seenBy_unwatched (r : Report) : r.seenBy unwatched = r := by
  cases r <;> simp [Report.seenBy]

theorem record_alike_unwatched {r r' : Record} : r.Alike unwatched false r' ↔ r.SameUnwatched r' := by
  have hevent : Event.seenBy unwatched = Option.guard (!·.isWatching) := by
    funext e
    cases e <;> simp [Event.seenBy, Option.guard, Event.isWatching, View.sees, unwatched]
  have hsees : unwatched.sees = (!·.isUndefinedWarning) := by
    funext d
    simp [View.sees, unwatched]
  constructor
  · intro h
    have hevents := h.events
    have hdiagnostics := h.diagnostics
    rw [hevent, List.filterMap_eq_filter] at hevents
    rw [hsees] at hdiagnostics
    exact ⟨hevents, hdiagnostics⟩
  · intro h
    refine ⟨?_, ?_, Bool.noConfusion⟩
    · rw [hevent, List.filterMap_eq_filter]
      exact h.events
    · rw [hsees]
      exact h.diagnostics

theorem state_alike_unwatched {s t : State κ ω} : s.Alike unwatched false t ↔ s.SameUnwatched t := by
  constructor
  · intro h
    exact ⟨h.store, h.top, by simpa using h.library, h.cache.same rfl, h.frames, h.depth, h.host,
      record_alike_unwatched.1 h.record⟩
  · intro h
    exact ⟨h.store, h.top, by simpa using h.library, ⟨fun _ => h.cache, fun hv => absurd rfl hv⟩, h.frames, h.depth,
      record_alike_unwatched.2 h.record, h.host⟩

end View

/-! ### Instructions -/

namespace Machine

section Mixed

variable {σ τ : Type} {R : σ → τ → Prop} {w : Surroundings σ} {w' : Surroundings τ}
  (hw : w.Alike .unwatched R w') {s : σ} {t : τ}

include hw in
theorem executeMixed_agrees (onlyResolve isLast : Bool) (i : Instruction) (st : Stacks Datum) (h : R s t) :
    Agree .unwatched R (executeMixed w onlyResolve isLast i st s) (executeMixed w' onlyResolve isLast i st t) := by
  unfold executeMixed
  split
  · exact .ok h _
  · cases st.pop (Operation.arity _) with
    | error cause => exact .error h rfl
    | ok popped =>
      obtain ⟨operands, below⟩ := popped
      cases htexts : requireTexts operands.flatten with
      | ok texts =>
        have hexecute := execute_agrees hw onlyResolve isLast i ⟨texts, operands.map List.length⟩ h
        rw [View.instruction_seenBy_unwatched] at hexecute
        simp only [htexts]
        exact ⟨View.result_map hexecute.result _, hexecute.state⟩
      | error _ =>
        simp only [htexts]
        cases handOn onlyResolve isLast i operands with
        | ok progress => exact .ok h _
        | error cause => exact .error h rfl

variable {begin : TraceStart σ} {begin' : TraceStart τ}
  (hbegin : ∀ step i {s t}, R s t → Option.Rel R (begin step i s) (begin' step i t))

include hw hbegin

theorem announce_agrees (step : Nat) (i : Option Instruction) (notice : Stacks String → Notice) (st : Stacks Datum)
    (h : R s t) : Agree .unwatched R (announce w begin step i notice st s) (announce w' begin' step i notice st t) := by
  unfold announce
  cases requireTexts st.values with
  | ok texts => exact .ok (hw.observe rfl h) ()
  | error _ =>
    have hline := hbegin step i h
    generalize begin step i s = x at hline ⊢
    generalize begin' step i t = y at hline ⊢
    cases hline with
    | none => exact .ok h ()
    | some h => exact .error h rfl

theorem runMixedFrom_agrees (onlyResolve : Bool) (is : List Instruction) (step : Nat) (st : Stacks Datum) (h : R s t) :
    Agree .unwatched R (runMixedFrom w begin onlyResolve step st is s)
      (runMixedFrom w' begin' onlyResolve step st is t) := by
  induction is generalizing step st s t with
  | nil =>
    have hannounce := announce_agrees hw hbegin (max 1 step) none (.finished step) st h
    unfold runMixedFrom
    split
    · obtain ⟨⟨⟩, s, t, hx, hy, h⟩ | ⟨f, g, s, t, hx, hy, hfg, h⟩ := hannounce.cases
      · rw [hx, hy]
        exact .ok (hw.observe rfl h) _
      · rw [hx, hy]
        exact .error h hfg
    · exact .error h rfl
  | cons i rest ih =>
    have hannounce := announce_agrees hw hbegin step i (.stepping step (i :: rest)) st h
    unfold runMixedFrom
    obtain ⟨⟨⟩, s, t, hx, hy, h⟩ | ⟨f, g, s, t, hx, hy, hfg, h⟩ := hannounce.cases
    · have hexecute := executeMixed_agrees hw onlyResolve rest.isEmpty i st h
      simp only [hx, hy]
      obtain ⟨progress, s, t, hx, hy, h⟩ | ⟨f, g, s, t, hx, hy, hfg, h⟩ := hexecute.cases
      · rw [hx, hy]
        cases progress with
        | moved st => exact ih (step + 1) st h
        | resolved arguments => exact .ok h arguments
      · rw [hx, hy]
        refine .error h ?_
        simp only [View.failure_seenBy_unwatched, id] at hfg ⊢
        rw [hfg]
    · rw [hx, hy]
      exact .error h hfg

omit hbegin in
/-- A program comes to the same, if no numbers are in it or the same trace lines are begun. -/
theorem runMixed_agrees (onlyResolve : Bool) (is : List Instruction) (h : R s t)
    (hbegin : is.any Instruction.holdsNumber →
      ∀ step i {s t}, R s t → Option.Rel R (begin step i s) (begin' step i t)) :
    Agree .unwatched R (runMixed w begin onlyResolve is s) (runMixed w' begin' onlyResolve is t) := by
  by_cases hnumber : is.any Instruction.holdsNumber
  · exact runMixedFrom_agrees hw (hbegin hnumber) onlyResolve is 0 {} h
  · have htexts : ∀ i ∈ is, i.holdsNumber = false := fun i hi =>
      Bool.eq_false_iff.2 fun hi' => hnumber (List.any_eq_true.2 ⟨i, hi, hi'⟩)
    rw [runMixed_eq_run w begin onlyResolve htexts, runMixed_eq_run w' begin' onlyResolve htexts]
    have hrun := runFrom_agrees hw onlyResolve is 0 {} h
    rw [View.instruction_seenBy_unwatched, List.map_id] at hrun
    exact ⟨View.result_map hrun.result _, hrun.state⟩

end Mixed

/-! ### Programs on their own -/

section Interpreting

variable {σ : Type} (lookup : Namespace → String → σ → Option String)
  (invoke : Option String → List String → Task σ Reply) (watch : Watch)

/-- Surroundings with a record that only whoever watches writes to. -/
def Surroundings.watched : Surroundings (σ × Record) where
  lookup space name s := lookup space name s.1
  invoke name arguments s := ((invoke name arguments s.1).1, (invoke name arguments s.1).2, s.2)
  observe notice s := (s.1, s.2.observe watch notice)

/-- Runs a program with a record. -/
def interpret (onlyResolve : Bool) (instructions : List Instruction) : Task (σ × Record) (List Datum) :=
  runMixed (.watched lookup invoke watch) (fun step i s => (s.2.beginTrace watch step i).map (s.1, ·)) onlyResolve
    instructions

/-- The same outside, and records that are the same to those who do not watch. -/
def SameOutside (s t : σ × Record) : Prop := s.1 = t.1 ∧ s.2.SameUnwatched t.2

theorem watched_alike {watch' : Watch} (h : watch.collectsDiagnostics = watch'.collectsDiagnostics) :
    (Surroundings.watched lookup invoke watch).Alike .unwatched SameOutside (.watched lookup invoke watch') where
  lookup space name _ _ hst := congrArg (lookup space name) hst.1
  invoke {name name'} arguments s t hname hst := by
    obtain rfl : name = name' := by simpa using hname
    simp only [Surroundings.watched, hst.1]
    exact ⟨rfl, rfl, hst.2⟩
  observe hnotice hst := by
    refine ⟨hst.1, View.record_alike_unwatched.1 ?_⟩
    exact (View.record_alike_unwatched.2 hst.2).observe h nofun hnotice

/-- Where steps are traced the same way, trace lines are begun alike. -/
theorem beginTrace_alike {watch' : Watch} (h : watch.verbosity = watch'.verbosity) (step : Nat) (i : Option Instruction)
    {s t : σ × Record} (hst : SameOutside s t) :
    Option.Rel SameOutside ((s.2.beginTrace watch step i).map (s.1, ·))
      ((t.2.beginTrace watch' step i).map (t.1, ·)) := by
  unfold Record.beginTrace
  rw [h]
  generalize (if i.isSome then Record.isTraced watch'.verbosity i else decide (0 < watch'.verbosity)) = due
  cases due
  · exact .none
  · exact .some ⟨hst.1, View.record_alike_unwatched.1 ((View.record_alike_unwatched.2 hst.2).add rfl)⟩

theorem interpret_agrees {watch' : Watch} (hcollects : watch.collectsDiagnostics = watch'.collectsDiagnostics)
    (onlyResolve : Bool) {is : List Instruction}
    (htraced : is.any Instruction.holdsNumber → watch.verbosity = watch'.verbosity) {s t : σ × Record}
    (h : SameOutside s t) :
    (interpret lookup invoke watch onlyResolve is s).1 = (interpret lookup invoke watch' onlyResolve is t).1 ∧
      SameOutside (interpret lookup invoke watch onlyResolve is s).2
        (interpret lookup invoke watch' onlyResolve is t).2 := by
  obtain ⟨hresult, hstate⟩ := runMixed_agrees (watched_alike lookup invoke watch hcollects) onlyResolve is h
    fun hnumber step i s t hst => beginTrace_alike watch (htraced hnumber) step i hst
  rw [View.result_unwatched, View.result_unwatched] at hresult
  exact ⟨hresult, hstate⟩

end Interpreting

end Machine

/-! ### Sessions -/

/-- All literals are texts. -/
def Code.Program.HoldsTexts (p : Program) : Prop := ∀ i ∈ p.instructions, i.holdsNumber = false

namespace Running

variable {κ ω : Type}

theorem holdsTexts_of_readScript (key : ScriptKey) (ps : List Program) (h : readScript key = .ok ps) :
    ∀ p ∈ ps, p.HoldsTexts := by
  obtain ⟨_, -, hps, -⟩ := readScript_ok h
  intro p hp i hi
  cases (Grammar.isRegular_of_read hps p hp).instructions i hi <;> rfl

/-- The same result, and states that are the same but for how they are watched, with programs of texts only. -/
structure SameUnwatchedEnd {α : Type} (r r' : Except Failure α × State κ ω) : Prop where
  result : r.1 = r'.1
  state : r.2.SameUnwatched r'.2
  texts : StateHolds Program.HoldsTexts r.2

/-- Two sessions in which everything that can be asked for comes to the same result, and to states that are the same
but for how they are watched. Programs that are given to them are of texts. -/
structure BehavesAlike (host : Host κ ω) (cfg cfg' : Config) (s t : State κ ω) : Prop where
  run : ∀ source file verbosity verbosity' statistics statistics',
    let r := runScript cfg (evaluatorAt cfg host s.depth) source file verbosity statistics s
    let r' := runScript cfg' (evaluatorAt cfg' host t.depth) source file verbosity' statistics' t
    SameUnwatchedEnd (r.1, r.2.2) (r'.1, r'.2.2)
  expand : ∀ source file,
    SameUnwatchedEnd (expandScript cfg (evaluatorAt cfg host s.depth) source file s)
      (expandScript cfg' (evaluatorAt cfg' host t.depth) source file t)
  execute : ∀ ps : List Program, (∀ p ∈ ps, p.HoldsTexts) →
    let r := Session.execute (evaluatorAt cfg host s.depth) ps s.topFrame s
    let r' := Session.execute (evaluatorAt cfg' host t.depth) ps t.topFrame t
    SameUnwatchedEnd (r.1, r.2.2) (r'.1, r'.2.2)
  evaluate : ∀ (p : Program) (onlyResolve : Bool), p.HoldsTexts →
    SameUnwatchedEnd (evaluateHere (evaluatorAt cfg host s.depth) p onlyResolve s)
      (evaluateHere (evaluatorAt cfg' host t.depth) p onlyResolve t)
  invoke : ∀ name arguments,
    SameUnwatchedEnd (Session.invoke cfg host (evaluatorAt cfg host s.depth) name arguments s)
      (Session.invoke cfg' host (evaluatorAt cfg' host t.depth) name arguments t)

/-- Whether or not a script is watched in a way of its own, its programs are executed, and then it is watched as
before. -/
theorem runScript_executes {cfg : Config} {s t : State κ ω} {source : Source} {file : Option String} {script : Script}
    (hparse : s.parse cfg source file = (.ok script, t)) (ev : Evaluator κ ω) (verbosity : Nat)
    (statistics : Option Statistics) : ∃ verbosity₁ statistics₁ verbosity₂ statistics₂,
      let inner := t.watchedAs verbosity₁ statistics₁
      let after := Session.execute ev script.programs inner.topFrame inner
      (runScript cfg ev source file verbosity statistics s).1 = after.1 ∧
        (runScript cfg ev source file verbosity statistics s).2.2 = after.2.2.watchedAs verbosity₂ statistics₂ := by
  unfold runScript
  simp only [hparse]
  split
  · exact ⟨verbosity, statistics, t.verbosity, t.record.statistics, rfl, rfl⟩
  · exact ⟨t.verbosity, t.record.statistics, _, _, rfl, rfl⟩

/-- A session of texts stays one, whatever job of texts it does. -/
theorem Ends.holdsTexts {cfg : Config} {host : Host κ ω} {s u : State κ ω} {job : Job ω} {r : Report}
    (hends : Ends cfg host job s r u) (hs : StateHolds Program.HoldsTexts s) (hjob : job.Holds Program.HoldsTexts) :
    StateHolds Program.HoldsTexts u :=
  ((Holds.of_job hs hjob).leads holdsTexts_of_readScript hends).state

section Ends

variable {cfg cfg' : Config} {host : Host κ ω} {s t : State κ ω} (hcfg : cfg.Alike .unwatched cfg')
  (h : s.SameUnwatched t)

include hcfg h in
/-- A job ends the same, however it is watched. -/
theorem Ends.same_unwatched {job : Job ω} {r r' : Report} {u u' : State κ ω} (hends : Ends cfg host job s r u)
    (hends' : Ends cfg' host job t r' u') : r = r' ∧ u.SameUnwatched u' := by
  have hfirst : Moment.Alike .unwatched false (κ := κ) (ω := ω) ⟨.doing job, [], s⟩ ⟨.doing job, [], t⟩ :=
    .doing (View.state_alike_unwatched.2 h) rfl
  have hlast := hfirst.ends hcfg (fun m _ => View.heeds_unwatched m) (fun m _ => View.heeds_unwatched m) hends rfl
    hends' rfl
  have hreport := hlast.stage
  simp only [Stage.seenBy, View.report_seenBy_unwatched, Stage.reporting.injEq] at hreport
  exact ⟨hreport, View.state_alike_unwatched.1 hlast.state⟩

variable (hs : StateHolds Program.HoldsTexts s)
include hcfg h hs

theorem execute_same_unwatched {ps : List Program} (hps : ∀ p ∈ ps, p.HoldsTexts) :
    let r := Session.execute (evaluatorAt cfg host s.depth) ps s.topFrame s
    let r' := Session.execute (evaluatorAt cfg' host t.depth) ps t.topFrame t
    SameUnwatchedEnd (r.1, r.2.2) (r'.1, r'.2.2) := by
  have hframe : s.topFrame = t.topFrame := (View.state_alike_unwatched.2 h).topFrame
  have hends := ends_execute (evaluatorAt_isKeeping cfg host s.depth) (carries_evaluatorAt s.depth) [] ps s.topFrame
    s rfl
  have hends' := ends_execute (evaluatorAt_isKeeping cfg' host t.depth) (carries_evaluatorAt t.depth) [] ps t.topFrame
    t rfl
  have htexts := hends.holdsTexts hs hps
  rw [hframe] at hends htexts
  obtain ⟨hreport, hstate⟩ := hends.same_unwatched hcfg h hends'
  simp only [Session.execute, hframe]
  exact ⟨(Report.execution.inj hreport).1, hstate, htexts⟩

theorem runScript_same_unwatched (source : Source) (file : Option String) (verbosity verbosity' : Nat)
    (statistics statistics' : Option Statistics) :
    let r := runScript cfg (evaluatorAt cfg host s.depth) source file verbosity statistics s
    let r' := runScript cfg' (evaluatorAt cfg' host t.depth) source file verbosity' statistics' t
    SameUnwatchedEnd (r.1, r.2.2) (r'.1, r'.2.2) := by
  have hparse := (View.state_alike_unwatched.2 h).parse hcfg source file
  obtain ⟨htexts, hread⟩ := hs.parse holdsTexts_of_readScript cfg source file
  obtain ⟨⟨stamp, ps⟩, ⟨stamp', ps'⟩, s₁, t₁, hx, hy, hps, hstate⟩ | ⟨f, g, s₁, t₁, hx, hy, hfg, hstate⟩ := hparse.cases
  · obtain rfl : ps = ps' := by simpa using hps
    rw [hx] at htexts hread
    obtain ⟨a, b, _, _, hresult, hafter⟩ := runScript_executes hx (evaluatorAt cfg host s.depth) verbosity statistics
    obtain ⟨a', b', _, _, hresult', hafter'⟩ :=
      runScript_executes hy (evaluatorAt cfg' host t.depth) verbosity' statistics'
    have hdepth : s.depth = (s₁.watchedAs a b).depth := by
      have hkeeps := (s.keeps_parse cfg source file).depth
      rw [hx] at hkeeps
      exact hkeeps.symm
    have hdepth' : t.depth = (t₁.watchedAs a' b').depth := by
      have hkeeps := (t.keeps_parse cfg' source file).depth
      rw [hy] at hkeeps
      exact hkeeps.symm
    have hinner := (View.state_alike_unwatched.1 hstate).watchedAs a a' b b'
    have hexecute := @execute_same_unwatched _ _ cfg cfg' host _ _ hcfg hinner (hread.of_eq rfl rfl) ps (htexts _ rfl)
    rw [← hdepth, ← hdepth'] at hexecute
    simp only [hresult, hresult', hafter, hafter']
    exact ⟨hexecute.result, hexecute.state.watchedAs .., hexecute.texts.of_eq rfl rfl⟩
  · obtain rfl : f = g := by simpa using hfg
    rw [hx] at hread
    simp only [runScript, hx, hy]
    exact ⟨rfl, View.state_alike_unwatched.1 hstate, hread⟩

theorem behavesAlike : BehavesAlike host cfg cfg' s t := by
  have hk : IsKeeping (evaluatorAt cfg host s.depth) := evaluatorAt_isKeeping cfg host s.depth
  have hk' : IsKeeping (evaluatorAt cfg' host t.depth) := evaluatorAt_isKeeping cfg' host t.depth
  have hc : Carries cfg host s.depth (evaluatorAt cfg host s.depth) := carries_evaluatorAt s.depth
  have hc' : Carries cfg' host t.depth (evaluatorAt cfg' host t.depth) := carries_evaluatorAt t.depth
  have answered {job : Job ω} {x x' : Except Failure (List String) × State κ ω}
      (hends : Ends cfg host job s (.answer x.1) x.2) (hends' : Ends cfg' host job t (.answer x'.1) x'.2)
      (hjob : job.Holds Program.HoldsTexts) : SameUnwatchedEnd x x' := by
    obtain ⟨hreport, hstate⟩ := hends.same_unwatched hcfg h hends'
    exact ⟨Report.answer.inj hreport, hstate, hends.holdsTexts hs hjob⟩
  exact {
    run := runScript_same_unwatched hcfg h hs
    expand := fun source file =>
      answered (ends_expandScript hc source file s rfl) (ends_expandScript hc' source file t rfl) trivial
    execute := fun _ hps => execute_same_unwatched hcfg h hs hps
    evaluate := fun p onlyResolve hp =>
      answered (ends_evaluateHere hc p onlyResolve s rfl) (ends_evaluateHere hc' p onlyResolve t rfl) hp
    invoke := fun name arguments =>
      answered (ends_invokeWithin hk hc arguments.length name arguments s rfl)
        (ends_invokeWithin hk' hc' arguments.length name arguments t rfl) trivial }

end Ends

/-- Watching changes nothing. However a session of texts is traced, whether or not commands and steps are counted and
whether or not there are warnings of undefined variables, all that can be asked of it comes to the same results or the
same failure, and to the same variables, commands, dispatches and other diagnostics, and it stays a session of texts. A
program that is run on its own does so too, save that one with numbers has to be traced the same way. -/
theorem watching_changes_nothing {κ ω σ : Type} (host : Host κ ω) (cfg : Config) (s : State κ ω)
    (lookup : Namespace → String → σ → Option String) (invoke : Option String → List String → Task σ Reply)
    (watch : Watch) (inner : σ) (record : Record) (onlyResolve : Bool) (instructions : List Instruction)
    (verbosity : Nat) (statistics : Option Statistics) (warned : Bool) (hs : StateHolds Program.HoldsTexts s)
    (h : instructions.any Instruction.holdsNumber → watch.verbosity = verbosity) :
    BehavesAlike host cfg { cfg with warnUninitialized := warned } s (s.watchedAs verbosity statistics) ∧
      let r := interpret lookup invoke watch onlyResolve instructions (inner, record)
      let r' := interpret lookup invoke { watch with verbosity, warnUndefined := warned } onlyResolve instructions
        (inner, { record with statistics })
      r.1 = r'.1 ∧ SameOutside r.2 r'.2 := by
  have hcfg : cfg.Alike .unwatched { cfg with warnUninitialized := warned } := ⟨rfl, rfl, rfl, nofun⟩
  have hstate : s.SameUnwatched (s.watchedAs verbosity statistics) := ⟨rfl, rfl, rfl, rfl, rfl, rfl, rfl, rfl, rfl⟩
  have hrecord : SameOutside (inner, record) (inner, { record with statistics }) := ⟨rfl, rfl, rfl⟩
  refine ⟨behavesAlike hcfg hstate hs, interpret_agrees lookup invoke watch ?_ onlyResolve h hrecord⟩
  rfl

/-- A command that ends well is dispatched the same, whether or not it is traced, counted and warned about, and so is
what a new session is asked to run. -/
theorem watching_changes_nothing_call :
    let lookup : Namespace → String → Unit → Option String := fun _ _ _ => none
    let invoke : Option String → List String → Task Unit Reply := fun _ arguments s => (.ok (.texts arguments), s)
    let instructions := [.literal "a", .unquoted 1, .variableReference .plain 1, .call "use" 1]
    let s : State Empty Unit := .initial [] [] [] ()
    StateHolds Program.HoldsTexts s ∧ (instructions.any Instruction.holdsNumber → 0 = 2) ∧
      BehavesAlike nofun {} { warnUninitialized := true } s (s.watchedAs 2 (some {})) ∧
      (interpret lookup invoke {} false instructions ((), {})).1 =
        (interpret lookup invoke { verbosity := 2, warnUndefined := true } false instructions
          ((), { statistics := some {} })).1 := by
  intro lookup invoke instructions s
  have hs : StateHolds Program.HoldsTexts s := stateHolds_initial [] [] [] ()
  have hnumbers : instructions.any Instruction.holdsNumber → 0 = 2 := by decide
  obtain ⟨hsessions, hresult, -⟩ := watching_changes_nothing (κ := Empty) nofun {} s lookup invoke {} () {} false
    instructions 2 (some {}) true hs hnumbers
  exact ⟨hs, hnumbers, hsessions, hresult⟩

/-- A number where a text has to be cannot be shown, so a trace fails where without one the program ends well. -/
theorem trace_changes_result :
    let lookup : Namespace → String → Unit → Option String := fun _ _ _ => none
    let invoke : Option String → List String → Task Unit Reply := fun _ _ s => (.ok (.texts []), s)
    let instructions : List Instruction := [⟨.ofCode 1 (.number 5), none, none, none⟩]
    (interpret lookup invoke { verbosity := 2 } false instructions ((), {})).1 ≠
      (interpret lookup invoke {} false instructions ((), {})).1 := by
  decide

end Running

end CommandScript
