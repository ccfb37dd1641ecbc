import CommandScript.CommandLine.Runner
import CommandScript.Proofs.CommandLine.Tokens
import CommandScript.Proofs.Running.Diagnosing
import CommandScript.Proofs.Running.Room

/-! How a list of scripts is run. They share one session, in which each finds what those before it left. A failure ends
the program or is only remembered, as the settings say; at the end what was remembered and what was reported make the
exit status. Only a script that cannot be read, or for which the stack is too small, ends the program in any case. -/

namespace CommandScript.CommandLine

open Text Syntax Machine Session

/-! ### Items -/

/-- A script that is run by itself. -/
structure Item where
  file : String
  source : String
  showsResults : Bool

/-- An item, or the crash that reading it leads to. -/
abbrev Entry := Except Crash Item

/-- The entry of an activity, as the inline script of this number if it is one. Prompts and dumps are none. -/
def Activity.item? (number : Nat) : Activity → Option Entry
  | .script file source => some (.ok ⟨file, source, false⟩)
  | .inline code =>
    some (.ok ⟨"<INPUT_" ++ toString number ++ ">", String.ofList (trimEnd code.toList) ++ "\n", true⟩)
  | .unreadable crash => some (.error crash)
  | _ => none

/-- The number of the next inline script behind an activity. -/
def Activity.nextNumber (number : Nat) : Activity → Nat
  | .inline _ => number + 1
  | _ => number

/-- The entries that activities are, if all of them are entries. -/
def entriesFrom? : Nat → List Activity → Option (List Entry)
  | _, [] => some []
  | number, activity :: rest => do
    let entry ← activity.item? number
    return entry :: (← entriesFrom? (activity.nextNumber number) rest)

/-- What items share: the session, and its statistics if they are kept. -/
structure Shared where
  state : ScriptSession
  statistics : Option Statistics

/-- What items share in the beginning. -/
def Shared.ofSettings (settings : Settings) (environment : Bindings String) : Shared :=
  let r := Runner.ofSettings settings environment
  ⟨r.state, r.statistics⟩

/-- What comes of an item: its result, the problems that it reports, last first, what it puts out, and what it leaves to
the next one. -/
structure Outcome where
  result : Except Failure (List String)
  problems : List Diagnostic
  output : List Output
  left : Shared

namespace Outcome

def failed (o : Outcome) : Bool := !o.result.isOk

/-- The item failed, or it reported an error. -/
def isWrong (o : Outcome) : Bool := o.failed || o.problems.any (·.severity = .error)

end Outcome

/-- The configuration of a session. -/
def Settings.config (settings : Settings) : Config where
  maxDepth := settings.maxDepth
  warnUninitialized := settings.warnUninitialized
  processEnvironment := true

/-- Runs an item in the session that it finds. -/
def Item.run (settings : Settings) (item : Item) (found : Shared) :
    Except Failure (List String) × Option Statistics × ScriptSession :=
  found.state.run settings.config (fun key => nomatch key) (.text item.source) (some item.file) settings.verbosity
    found.statistics

/-- What is left behind a run, when its events have been put out. -/
def leftBehind (ran : Except Failure (List String) × Option Statistics × ScriptSession) : Shared :=
  ⟨{ ran.2.2 with record := { ran.2.2.record with events := [] } }, ran.2.1⟩

/-- What is put out while an item is run. -/
def eventsOf (settings : Settings) (ran : Except Failure (List String) × Option Statistics × ScriptSession) :
    List Output :=
  ran.2.2.record.events.reverse.flatMap (Runner.eventOutput settings)

/-- What is put out behind an item: its results if they are shown, or the report of its failure. -/
def Item.conclusion (item : Item) : Except Failure (List String) → List Output
  | .ok results => if item.showsResults then Runner.resultOutput results else []
  | .error f => [.err ((Report.of f item.file item.source).render f.cause.kind)]

/-- The stack has room for parsing an item. -/
def Item.Parses (hasRoom : ScanState → Bool) (item : Item) : Prop :=
  (parseWithin hasRoom (normalizeText item.source.toList) (some item.file)).isSome

section Turns

variable (hasRoom : ScanState → Bool) (settings : Settings)

/-- This comes of an item in the session that it finds. -/
structure Item.Yields (item : Item) (found : Shared) (o : Outcome) : Prop where
  parses : item.Parses hasRoom
  result : o.result = (item.run settings found).1
  problems : (item.run settings found).2.2.record.diagnostics = o.problems ++ found.state.record.diagnostics
  output : o.output = eventsOf settings (item.run settings found) ++ item.conclusion o.result
  left : o.left = leftBehind (item.run settings found)

/-- Items are run in turn, each in what the one before it left. -/
inductive RunInTurn : Shared → List Item → List Outcome → Shared → Prop where
  | nothing (found : Shared) : RunInTurn found [] [] found
  | next {item : Item} {items : List Item} {found last : Shared} {o : Outcome} {outcomes : List Outcome}
    (h : item.Yields hasRoom settings found o) (hrest : RunInTurn o.left items outcomes last) :
    RunInTurn found (item :: items) (o :: outcomes) last

/-- An entry makes the program crash, and this is what was put out for it before. -/
inductive Entry.Crashes (found : Shared) : Entry → List Output → Crash → Prop where
  | unreadable (crash : Crash) : Crashes found (.error crash) [] crash
  | tooDeep {item : Item} (h : ¬ item.Parses hasRoom) : Crashes found (.ok item) [] (.unplaced "RecursionError")
  | limitTooLarge {item : Item} (h : item.Parses hasRoom) (hfits : ¬ settings.config.Fits) {f : Failure}
    (hresult : (item.run settings found).1 = .error f) (hf : f.cause = .limitTooLarge) :
    Crashes found (.ok item) (eventsOf settings (item.run settings found)) (.unplaced "OverflowError")

end Turns

/-! ### Running one item -/

namespace Runner

variable {r : Runner}

/-- A runner on which an item can be run: it has not crashed, and its session is at rest. -/
structure IsReady (r : Runner) : Prop where
  crash : r.crash = none
  depth : r.state.depth = 0

def shared (r : Runner) : Shared := ⟨r.state, r.statistics⟩

/-- The runner behind an item. -/
def behind (r : Runner) (o : Outcome) : Runner :=
  { r with
    state := o.left.state
    statistics := o.left.statistics
    finished := if o.failed then r.finished else r.finished + 1
    failed := r.failed || o.failed }

theorem runText_item (r : Runner) (item : Item) : r.runText item.file item.source =
    ((item.run r.settings r.shared).1, eventsOf r.settings (item.run r.settings r.shared),
      { r with
        state := (leftBehind (item.run r.settings r.shared)).state
        statistics := (leftBehind (item.run r.settings r.shared)).statistics }) := rfl

theorem ofFailure?_eq_none {f : Failure} (h : f.cause.isOverflow = false) : Crash.ofFailure? f = none := by
  unfold Crash.ofFailure?
  cases hcause : f.cause <;> first | rfl | (rw [hcause] at h; cases h)

/-- An item has an outcome, or it makes the runner crash. -/
theorem runScript_item (hr : r.IsReady) (item : Item) :
    (∃ o, item.Yields r.hasRoom r.settings r.shared o ∧
      r.runScript item.file item.source item.showsResults = (o.output, r.behind o) ∧ (r.behind o).IsReady) ∨
    ∃ output crash, Entry.Crashes r.hasRoom r.settings r.shared (.ok item) output crash ∧
      (r.runScript item.file item.source item.showsResults).1 = output ∧
      (r.runScript item.file item.source item.showsResults).2.crash = some crash := by
  by_cases hparses : item.Parses r.hasRoom
  case neg =>
    have hcan : r.canParse item.file item.source = false := Bool.eq_false_iff.mpr hparses
    refine .inr ⟨[], _, .tooDeep hparses, ?_, ?_⟩ <;>
      simp [runScript, hcan, failScript, reportFailure, Crash.ofFailure?, Cause.kind]
  have hcan : r.canParse item.file item.source = true := hparses
  let ran := item.run r.settings r.shared
  have hoverflow := Running.run_overflow r.settings.config (fun key => nomatch key) (.text item.source) (some item.file)
    r.settings.verbosity r.statistics r.state
  have hyields : ∃ problems, item.Yields r.hasRoom r.settings r.shared
      ⟨ran.1, problems, eventsOf r.settings ran ++ item.conclusion ran.1, leftBehind ran⟩ := by
    obtain ⟨problems, hproblems⟩ : r.state.record.diagnostics <:+ ran.2.2.record.diagnostics := by
      have h (host : Host Empty Unit) := Running.runScript_suffix r.settings.config host (.text item.source)
        (some item.file) r.settings.verbosity r.statistics r.state
      rw [hr.depth] at h
      exact h _
    exact ⟨problems, hparses, rfl, hproblems.symm, rfl, rfl⟩
  have hdepth : ran.2.2.depth = r.state.depth := (runScript_keeps (evaluate_isKeeping r.settings.config _) ..).depth
  obtain ⟨problems, hyields⟩ := hyields
  rw [runScript, if_pos hcan, runText_item]
  cases hresult : (item.run r.settings r.shared).1 with
  | ok results =>
    refine .inl ⟨_, hyields, ?_, hr.crash, hdepth.trans hr.depth⟩
    simp [ran, hresult, Item.conclusion, behind, Outcome.failed, Except.isOk, Except.toBool]
  | error f =>
    cases hf : f.cause.isOverflow with
    | false =>
      refine .inl ⟨_, hyields, ?_, hr.crash, hdepth.trans hr.depth⟩
      simp [ran, hresult, ofFailure?_eq_none hf, Item.conclusion, behind, Outcome.failed, failScript, reportFailure,
        Except.isOk, Except.toBool]
    | true =>
      obtain ⟨hfits, hcause⟩ := hoverflow f hresult hf
      refine .inr ⟨_, _, .limitTooLarge hparses hfits hresult hcause, ?_, ?_⟩ <;>
        simp [failScript, reportFailure, Crash.ofFailure?, hcause, Cause.kind]

theorem ending?_behind (hr : r.crash = none) (o : Outcome) : (r.behind o).ending? =
    if (r.failed || o.failed) && !r.settings.ignoreErrors then some (.exit 1) else none := by
  simp only [ending?, behind, hr]

/-- The runner that is about to run the item of an activity. -/
def past (r : Runner) (activity : Activity) : Runner :=
  { r with nextInline := activity.nextNumber r.nextInline }

@[simp] theorem settings_past (r : Runner) (activity : Activity) : (r.past activity).settings = r.settings := rfl

@[simp] theorem shared_past (r : Runner) (activity : Activity) : (r.past activity).shared = r.shared := rfl

@[simp] theorem hasRoom_past (r : Runner) (activity : Activity) : (r.past activity).hasRoom = r.hasRoom := rfl

@[simp] theorem failed_past (r : Runner) (activity : Activity) : (r.past activity).failed = r.failed := rfl

theorem IsReady.past (hr : r.IsReady) (activity : Activity) : (r.past activity).IsReady := ⟨hr.crash, hr.depth⟩

/-- This runner has run all of these outcomes' items and has come to this. -/
structure IsBehind (r : Runner) (outcomes : List Outcome) (last : Shared) (r' : Runner) : Prop where
  shared : r'.shared = last
  failed : r'.failed = (r.failed || outcomes.any Outcome.failed)
  finished : r'.finished = r.finished + outcomes.countP (!·.failed)

end Runner

/-! ### Running all items -/

theorem entriesFrom?_cons {number : Nat} {activity : Activity} {rest : List Activity} {entries : List Entry}
    (h : entriesFrom? number (activity :: rest) = some entries) : ∃ entry others, entries = entry :: others ∧
      activity.item? number = some entry ∧ entriesFrom? (activity.nextNumber number) rest = some others := by
  simp only [entriesFrom?, Option.bind_eq_bind, Option.bind_eq_some_iff, Option.pure_def, Option.some.injEq] at h
  obtain ⟨entry, hentry, others, hothers, rfl⟩ := h
  exact ⟨entry, others, rfl, hentry, hothers⟩

theorem proceed_unreadable {r : Runner} {activity : Activity} {crash : Crash}
    (h : activity.item? r.nextInline = some (.error crash)) (rest : List Activity) :
    proceed r (activity :: rest) = ([], .ended (.crash crash)) := by
  cases activity with
  | unreadable =>
    cases h
    rfl
  | script | inline | dump | repl | standardInput | dumpStandardInput => cases h

theorem proceed_item {r : Runner} {activity : Activity} {item : Item}
    (h : activity.item? r.nextInline = some (.ok item)) (rest : List Activity) : proceed r (activity :: rest) =
      goOn ((r.past activity).runScript item.file item.source item.showsResults) (proceed · rest) := by
  cases activity with
  | script | inline =>
    cases h
    rfl
  | unreadable | dump | repl | standardInput | dumpStandardInput => cases h

/-- Items are run up to the first that fails, or all of them are, or one of the entries makes the program crash. -/
theorem proceed_entries {activities : List Activity} : ∀ {r : Runner} {entries : List Entry}, r.IsReady →
    entriesFrom? r.nextInline activities = some entries → (r.failed && !r.settings.ignoreErrors) = false →
    (∃ before item after outcomes here o, entries = before.map .ok ++ .ok item :: after ∧
      RunInTurn r.hasRoom r.settings r.shared before outcomes here ∧ item.Yields r.hasRoom r.settings here o ∧
      r.settings.ignoreErrors = false ∧ (∀ o ∈ outcomes, o.failed = false) ∧ o.failed = true ∧
      proceed r activities = (outcomes.flatMap (·.output) ++ o.output, .ended (.exit 1))) ∨
    (∃ items outcomes last r', entries = items.map .ok ∧
      RunInTurn r.hasRoom r.settings r.shared items outcomes last ∧
      (r.settings.ignoreErrors = false → ∀ o ∈ outcomes, o.failed = false) ∧ r.IsBehind outcomes last r' ∧
      proceed r activities = (outcomes.flatMap (·.output) ++ r'.closing, .ended (.exit r'.exitCode))) ∨
    ∃ before entry after outcomes here output crash, entries = before.map .ok ++ entry :: after ∧
      RunInTurn r.hasRoom r.settings r.shared before outcomes here ∧
      (r.settings.ignoreErrors = false → ∀ o ∈ outcomes, o.failed = false) ∧
      Entry.Crashes r.hasRoom r.settings here entry output crash ∧
      proceed r activities = (outcomes.flatMap (·.output) ++ output, .ended (.crash crash)) := by
  induction activities with
  | nil =>
    rintro r entries hr hentries hsound
    obtain rfl := Option.some.inj hentries
    exact .inr (.inl ⟨[], [], r.shared, r, rfl, .nothing _, by simp, ⟨rfl, by simp, by simp⟩, by simp [proceed]⟩)
  | cons activity rest ih =>
    intro r entries hr hentries hsound
    obtain ⟨entry, others, rfl, hentry, hothers⟩ := entriesFrom?_cons hentries
    match entry with
    | .error crash =>
      refine .inr (.inr ⟨[], _, others, [], r.shared, [], crash, rfl, .nothing _, by simp, .unreadable crash, ?_⟩)
      rw [proceed_unreadable hentry]
      rfl
    | .ok item =>
      rw [proceed_item hentry]
      obtain ⟨o, hyields, hrun, hready⟩ | ⟨output, crash, hcrashes, houtput, hcrash⟩ :=
        Runner.runScript_item (hr.past activity) item
      case inr =>
        rw [Runner.hasRoom_past, Runner.settings_past, Runner.shared_past] at hcrashes
        refine .inr (.inr ⟨[], _, others, [], r.shared, output, crash, rfl, .nothing _, by simp, hcrashes, ?_⟩)
        simp only [goOn, Runner.ending?, hcrash, houtput]
        rfl
      rw [hrun]
      rw [Runner.hasRoom_past, Runner.settings_past, Runner.shared_past] at hyields
      have hending := Runner.ending?_behind (hr.past activity).crash o
      have hnext : entriesFrom? ((r.past activity).behind o).nextInline rest = some others := hothers
      by_cases hstop : o.failed = true ∧ r.settings.ignoreErrors = false
      · refine .inl ⟨[], item, others, [], r.shared, o, rfl, .nothing _, hyields, hstop.2, by simp, hstop.1, ?_⟩
        simp [goOn, hending, hstop]
      have hgo : r.settings.ignoreErrors = false → o.failed = false := fun hignore => by
        cases hfailed : o.failed with
        | false => rfl
        | true => exact absurd ⟨hfailed, hignore⟩ hstop
      have hsoundNext : ((r.failed || o.failed) && !r.settings.ignoreErrors) = false := by
        cases hignore : r.settings.ignoreErrors with
        | false => simpa [hgo hignore, hignore] using hsound
        | true => simp
      have hfine {outcomes : List Outcome} (h : r.settings.ignoreErrors = false → ∀ o ∈ outcomes, o.failed = false)
          (hignore : r.settings.ignoreErrors = false) : ∀ o' ∈ o :: outcomes, o'.failed = false :=
        List.forall_mem_cons.mpr ⟨hgo hignore, h hignore⟩
      rw [Runner.failed_past, Runner.settings_past, hsoundNext, if_neg Bool.false_ne_true] at hending
      rw [goOn, hending]
      obtain ⟨before, item', after, outcomes, here, o', rfl, hturn, hthere, hstrict, hsucceeded, hfailed, hproceed⟩ |
        ⟨items, outcomes, last, r', rfl, hturn, hsucceeded, hbehind, hproceed⟩ |
        ⟨before, entry, after, outcomes, here, output, crash, rfl, hturn, hsucceeded, hcrashes, hproceed⟩ :=
          ih hready hnext hsoundNext
      · refine .inl ⟨item :: before, item', after, o :: outcomes, here, o', rfl, .next hyields hturn, hthere, hstrict,
          hfine (fun _ => hsucceeded) hstrict, hfailed, ?_⟩
        rw [hproceed]
        simp
      · refine .inr (.inl ⟨item :: items, o :: outcomes, last, r', rfl, .next hyields hturn, hfine hsucceeded,
          ⟨hbehind.shared, ?_, ?_⟩, ?_⟩)
        · rw [hbehind.failed]
          simp [Runner.behind, Bool.or_assoc]
        · rw [hbehind.finished]
          cases hfailed : o.failed <;> simp [Runner.behind, Runner.past, hfailed]
          omega
        · rw [hproceed]
          simp
      · refine .inr (.inr ⟨item :: before, entry, after, o :: outcomes, here, output, crash, rfl,
          .next hyields hturn, hfine hsucceeded, hcrashes, ?_⟩)
        rw [hproceed]
        simp

/-! ### The whole program -/

/-- Variables that are set in the beginning change nothing but the store. -/
theorem exists_setVariables (defines : Bindings String) (s : ScriptSession) :
    ∃ store, defines.foldl (fun s (name, value) => s.setVariable name value) s = { s with store } := by
  induction defines generalizing s with
  | nil => exact ⟨s.store, rfl⟩
  | cons define defines ih =>
    obtain ⟨store, hstore⟩ := ih (s.setVariable define.1 define.2)
    exact ⟨store, hstore⟩

theorem Shared.ofSettings_state (settings : Settings) (environment : Bindings String) :
    (Shared.ofSettings settings environment).state.depth = 0 ∧
      (Shared.ofSettings settings environment).state.record.diagnostics = [] := by
  obtain ⟨store, hstate⟩ := exists_setVariables settings.defines (State.initial [] [] environment ())
  rw [Shared.ofSettings, Runner.ofSettings, hstate]
  exact ⟨rfl, rfl⟩

theorem RunInTurn.diagnostics {hasRoom : ScanState → Bool} {settings : Settings} {found last : Shared}
    {items : List Item} {outcomes : List Outcome} (h : RunInTurn hasRoom settings found items outcomes last) :
    last.state.record.diagnostics = outcomes.reverse.flatMap (·.problems) ++ found.state.record.diagnostics := by
  induction h with
  | nothing => simp
  | next h hrest ih =>
    rw [ih, h.left]
    simp [leftBehind, h.problems]

/-- What the program puts out behind all items: the statistics, if they are kept and a script succeeded. -/
def closingOutput (outcomes : List Outcome) (last : Shared) : List Output :=
  match last.statistics with
  | some s => if outcomes.any (!·.failed) then Runner.statisticsOutput s else []
  | none => []

theorem Runner.IsBehind.closing {r r' : Runner} {outcomes : List Outcome} {last : Shared}
    (h : r.IsBehind outcomes last r') (hr : r.finished = 0) : r'.closing = closingOutput outcomes last := by
  have hstatistics : r'.statistics = last.statistics := congrArg Shared.statistics h.shared
  have hfinished : 0 < r'.finished ↔ outcomes.any (!·.failed) = true := by
    rw [h.finished, hr, Nat.zero_add, List.countP_pos_iff, List.any_eq_true]
  rw [Runner.closing, closingOutput, hstatistics]
  cases last.statistics with
  | none => rfl
  | some s => simp only [hfinished]

theorem any_isWrong (outcomes : List Outcome) : (outcomes.any Outcome.failed ||
    outcomes.any (·.problems.any (·.severity = .error))) = outcomes.any Outcome.isWrong := by
  induction outcomes with
  | nil => rfl
  | cons o outcomes ih =>
    rw [List.any_cons, List.any_cons, List.any_cons, ← ih, Outcome.isWrong]
    ac_rfl

theorem Runner.IsBehind.exitCode {r r' : Runner} {items : List Item} {outcomes : List Outcome} {last : Shared}
    (h : r.IsBehind outcomes last r') (hturn : RunInTurn r.hasRoom r.settings r.shared items outcomes last)
    (hr : r.failed = false) (hclean : r.state.record.diagnostics = []) :
    r'.exitCode = if outcomes.any Outcome.isWrong then 1 else 0 := by
  have hdiagnostics : r'.state.record.diagnostics = outcomes.reverse.flatMap (·.problems) := by
    have hstate : r'.state = last.state := congrArg Shared.state h.shared
    rw [hstate, hturn.diagnostics, Runner.shared, hclean, List.append_nil]
  have hwrong : (r'.failed || r'.state.record.diagnostics.any (·.severity = .error)) =
      outcomes.any Outcome.isWrong := by
    rw [h.failed, hr, hdiagnostics, Bool.false_or, List.any_flatMap, List.any_reverse]
    exact any_isWrong outcomes
  rw [Runner.exitCode, hwrong]

theorem Phase.feedAll_ended (lines : List String) (ending : Ending) :
    Phase.feedAll lines (.ended ending) = ([], ending) := by
  induction lines with
  | nil => rw [feedAll, finish]
  | cons line lines ih => simp only [feedAll, feed, ih, List.append_nil]

/-- The request is for the development command with these settings and tokens. -/
def Request.Develops (r : Request) (settings : Settings) (tokens : List String) : Prop :=
  ∃ rest, chooseSubcommand r (splitOptions r.arguments).2 = .ok (.runDev, rest) ∧
    Settings.ofOptions (splitOptions r.arguments).1 r.environment = .ok settings ∧
    plainArguments .runDev true rest = .ok tokens

theorem planSubcommand_runDev {r : Request} {rest tokens : List String}
    (h : plainArguments .runDev true rest = .ok tokens) : planSubcommand r .runDev rest =
      match readTokens r tokens with
      | .ok [] => .ok [.repl]
      | .ok activities => .ok activities
      | .error reason => .error ⟨reason, true⟩ := by
  unfold planSubcommand
  rw [h]
  rfl

theorem Request.Develops.run_refused {r : Request} {settings : Settings} {tokens : List String}
    (h : r.Develops settings tokens) {reason : HaltReason} (htokens : readTokens r tokens = .error reason)
    (input : String) : run r input = (reason.output.map (Runner.adapt settings), reason.ending) := by
  obtain ⟨rest, hchoice, hsettings, hplain⟩ := h
  have hstart : start r = (reason.output.map (Runner.adapt settings), .ended reason.ending) := by
    simp only [start, hchoice, hsettings, planSubcommand_runDev hplain, htokens, if_true]
  simp only [run, hstart, Phase.feedAll_ended, List.append_nil]

theorem Request.Develops.run_ended {r : Request} {settings : Settings} {tokens : List String}
    (h : r.Develops settings tokens) {activities : List Activity} (htokens : readTokens r tokens = .ok activities)
    (hsome : activities ≠ []) {output : List Output} {ending : Ending}
    (hended : proceed (.ofRequest r settings) activities = (output, .ended ending)) (input : String) :
    run r input = (output.map (Runner.adapt settings), ending) := by
  obtain ⟨rest, hchoice, hsettings, hplain⟩ := h
  have hplan : planSubcommand r .runDev rest = .ok activities := by
    rw [planSubcommand_runDev hplain, htokens]
    cases activities with
    | nil => exact absurd rfl hsome
    | cons => rfl
  have hstart : start r = (output.map (Runner.adapt settings), .ended ending) := by
    simp only [start, hchoice, hsettings, hplan, hended]
  simp only [run, hstart, Phase.feedAll_ended, List.append_nil]

/-- Nothing is run if a token is refused. Otherwise, if all that is to be done is to run items, they share a session in
which they are run in turn. Either one of them fails, failures are not ignored, and the program ends there with status
one; or all of them are run, and the status is one if an item failed or reported an error, and zero if none did. Or else
the program crashes behind the items before, because the next one cannot be read or the stack is too small for it, be
it for parsing it or for any evaluation. -/
theorem items_decide_exit {r : Request} {settings : Settings} {tokens : List String} (h : r.Develops settings tokens)
    (input : String) :
    (r.RefusesOneOf tokens →
      (∃ error, run r input = ([Runner.adapt settings (.err (UsageError.render error))], .exit 2)) ∨
        ∃ crash, run r input = ([], .crash crash)) ∧
    (¬ r.RefusesOneOf tokens → ∃ activities, readTokens r tokens = .ok activities ∧
      ∀ entries, entriesFrom? 1 activities = some entries → entries ≠ [] →
        (∃ before item after outcomes here o, entries = before.map .ok ++ .ok item :: after ∧
          RunInTurn r.hasRoom settings (.ofSettings settings r.environment) before outcomes here ∧
          item.Yields r.hasRoom settings here o ∧
          settings.ignoreErrors = false ∧ (∀ o ∈ outcomes, o.failed = false) ∧ o.failed = true ∧
          run r input = ((outcomes.flatMap (·.output) ++ o.output).map (Runner.adapt settings), .exit 1)) ∨
        (∃ items outcomes last, entries = items.map .ok ∧
          RunInTurn r.hasRoom settings (.ofSettings settings r.environment) items outcomes last ∧
          (settings.ignoreErrors = false → ∀ o ∈ outcomes, o.failed = false) ∧
          run r input = ((outcomes.flatMap (·.output) ++ closingOutput outcomes last).map (Runner.adapt settings),
            .exit (if outcomes.any Outcome.isWrong then 1 else 0))) ∨
        ∃ before entry after outcomes here output crash, entries = before.map .ok ++ entry :: after ∧
          RunInTurn r.hasRoom settings (.ofSettings settings r.environment) before outcomes here ∧
          (settings.ignoreErrors = false → ∀ o ∈ outcomes, o.failed = false) ∧
          Entry.Crashes r.hasRoom settings here entry output crash ∧
          run r input = ((outcomes.flatMap (·.output) ++ output).map (Runner.adapt settings), .crash crash)) := by
  constructor
  · intro hrefused
    obtain ⟨reason, herror⟩ := readTokens_error_iff.mpr hrefused
    have hrun := h.run_refused herror input
    obtain ⟨error, rfl⟩ | ⟨crash, rfl⟩ := readTokens_error herror
    · exact .inl ⟨error, hrun⟩
    · exact .inr ⟨crash, hrun⟩
  · intro hread
    cases hactivities : readTokens r tokens with
    | error reason => exact absurd (readTokens_error_iff.mp ⟨reason, hactivities⟩) hread
    | ok activities =>
      refine ⟨activities, rfl, fun entries hentries hsome => ?_⟩
      have hactive : activities ≠ [] := by
        rintro rfl
        exact hsome (Option.some.inj hentries).symm
      have hfirst := Shared.ofSettings_state settings r.environment
      have hready : (Runner.ofRequest r settings).IsReady := ⟨rfl, hfirst.1⟩
      obtain ⟨before, item, after, outcomes, here, o, hsplit, hturn, hyields, hstrict, hsucceeded, hfailed, hproceed⟩ |
        ⟨items, outcomes, last, r', hsplit, hturn, hsucceeded, hbehind, hproceed⟩ |
        ⟨before, entry, after, outcomes, here, output, crash, hsplit, hturn, hsucceeded, hcrashes, hproceed⟩ :=
          proceed_entries hready hentries rfl
      · exact .inl ⟨before, item, after, outcomes, here, o, hsplit, hturn, hyields, hstrict, hsucceeded, hfailed,
          h.run_ended hactivities hactive hproceed input⟩
      · refine .inr (.inl ⟨items, outcomes, last, hsplit, hturn, hsucceeded, ?_⟩)
        rw [h.run_ended hactivities hactive hproceed input, hbehind.closing rfl, hbehind.exitCode hturn rfl hfirst.2]
      · exact .inr (.inr ⟨before, entry, after, outcomes, here, output, crash, hsplit, hturn, hsucceeded, hcrashes,
          h.run_ended hactivities hactive hproceed input⟩)

/-- An unknown command fails, and the session goes on. -/
theorem items_decide_exit_ignoring :
    let r : Request := { arguments := ["-i", "-c", "f()", "-c", "set(x 1)"] }
    let settings : Settings := { ignoreErrors := true }
    let tokens := ["-c", "f()", "-c", "set(x 1)"]
    let items : List Item := [⟨"<INPUT_1>", "f()\n", true⟩, ⟨"<INPUT_2>", "set(x 1)\n", true⟩]
    r.Develops settings tokens ∧ ¬ r.RefusesOneOf tokens ∧
      (∃ activities, readTokens r tokens = .ok activities ∧ entriesFrom? 1 activities = some (items.map .ok)) ∧
      ∃ outcomes last, RunInTurn r.hasRoom settings (.ofSettings settings []) items outcomes last ∧
        run r "" =
          ((outcomes.flatMap (·.output) ++ closingOutput outcomes last).map (Runner.adapt settings), .exit 1) := by
  intro r settings tokens items
  have hr : r.Develops settings tokens := ⟨tokens, rfl, rfl, rfl⟩
  have htokens : readTokens r tokens = .ok [.inline "f()", .inline "set(x 1)"] := rfl
  have hread : ¬ r.RefusesOneOf tokens := fun hrefused => by
    obtain ⟨reason, herror⟩ := readTokens_error_iff.mpr hrefused
    rw [htokens] at herror
    cases herror
  have hentries : entriesFrom? 1 [.inline "f()", .inline "set(x 1)"] = some (items.map .ok) := rfl
  have hparses : ∀ item ∈ items, item.Parses r.hasRoom := by
    simp only [items, List.forall_mem_cons]
    unfold Item.Parses
    exact ⟨by decide +kernel, by decide +kernel, by simp⟩
  have hfits : settings.config.Fits := by
    unfold Config.Fits
    decide
  refine ⟨hr, hread, ⟨_, htokens, hentries⟩, ?_⟩
  obtain ⟨activities, hactivities, hall⟩ := (items_decide_exit hr "").2 hread
  obtain rfl := Except.ok.inj (htokens.symm.trans hactivities)
  obtain ⟨-, -, -, -, -, -, -, -, -, hstrict, -⟩ | ⟨ran, outcomes, last, hran, hturn, -, hrun⟩ |
    ⟨before, entry, after, -, here, output, crash, hsplit, -, -, hcrashes, -⟩ :=
      hall (items.map .ok) hentries (List.cons_ne_nil _ _)
  · cases hstrict
  · obtain rfl : items = ran := (List.map_inj_right fun _ _ => Except.ok.inj).mp hran
    refine ⟨outcomes, last, hturn, ?_⟩
    have hwrong : outcomes.any Outcome.isWrong = true := by
      unfold items at hturn
      cases hturn with
      | next hyields =>
        have hfailed : ((⟨"<INPUT_1>", "f()\n", true⟩ : Item).run settings
            (.ofSettings settings r.environment)).1.isOk = false := by
          decide +kernel
        simp only [List.any_cons, Outcome.isWrong, Outcome.failed, hyields.result, hfailed, Bool.not_false,
          Bool.true_or]
    rw [hrun, if_pos hwrong]
  · have hentry : entry ∈ items.map Except.ok := by simp [hsplit]
    obtain ⟨item, hitem, rfl⟩ := List.mem_map.mp hentry
    cases hcrashes with
    | tooDeep h => exact absurd (hparses item hitem) h
    | limitTooLarge _ h => exact absurd hfits h

/-- Failures are to be ignored, but the one of the first item cannot be reported: the second item is not run. -/
theorem items_abandoned :
    let r : Request := { arguments := ["-i", "--max-depth=1000000000", "-c", "set(x 1)", "-c", "message(STATUS hi)"] }
    let settings : Settings := { ignoreErrors := true, maxDepth := 1000000000 }
    let tokens := ["-c", "set(x 1)", "-c", "message(STATUS hi)"]
    let items : List Item := [⟨"<INPUT_1>", "set(x 1)\n", true⟩, ⟨"<INPUT_2>", "message(STATUS hi)\n", true⟩]
    r.Develops settings tokens ∧
      (∃ activities, readTokens r tokens = .ok activities ∧ entriesFrom? 1 activities = some (items.map .ok)) ∧
      ¬ settings.config.Fits ∧ run r "" = ([], .crash (.unplaced "OverflowError")) := by
  intro r settings tokens items
  have hr : r.Develops settings tokens := ⟨tokens, rfl, by decide +kernel, rfl⟩
  have htokens : readTokens r tokens = .ok [.inline "set(x 1)", .inline "message(STATUS hi)"] := rfl
  have hfits : ¬ settings.config.Fits := by
    unfold Config.Fits
    decide
  let first := (Runner.ofRequest r settings).past (.inline "set(x 1)")
  have hcrash : (first.runScript "<INPUT_1>" "set(x 1)\n" true).2.crash = some (.unplaced "OverflowError") := by
    decide +kernel
  have houtput : (first.runScript "<INPUT_1>" "set(x 1)\n" true).1 = [] := by decide +kernel
  have hproceed : proceed (.ofRequest r settings) [.inline "set(x 1)", .inline "message(STATUS hi)"] =
      ([], .ended (.crash (.unplaced "OverflowError"))) := by
    have hitem : (Activity.inline "set(x 1)").item? 1 = some (.ok ⟨"<INPUT_1>", "set(x 1)\n", true⟩) := rfl
    rw [proceed_item (r := .ofRequest r settings) hitem]
    change goOn (first.runScript "<INPUT_1>" "set(x 1)\n" true) _ = _
    simp only [goOn, Runner.ending?, hcrash, houtput]
  have hrun := hr.run_ended htokens (List.cons_ne_nil _ _) hproceed ""
  exact ⟨hr, ⟨_, htokens, rfl⟩, hfits, hrun⟩

end CommandScript.CommandLine
