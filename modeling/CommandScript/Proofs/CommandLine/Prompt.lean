import CommandScript.Proofs.CommandLine.Idle
import CommandScript.Proofs.Session.Beginnings

/-! Typing at the prompt. The lines that an invocation begins with are kept, and nothing else happens; behind its last
line it is run as if it had been given as a whole. Blank lines are not kept, not even where they are part of an
argument. -/

namespace CommandScript.CommandLine

open Text Syntax Code Machine Session

/-! ### Lines -/

/-- A line that can be typed without leaving the prompt. -/
structure IsTypable (line : String) : Prop where
  feed : '\n' ∉ line.toList
  leaves : Runner.leaves line = false

/-- What the prompt keeps of lines: those that are not blank, each with its end. -/
def typed (lines : List String) : String := String.join ((lines.filter (!isAllSpace ·)).map (· ++ "\n"))

@[simp] theorem typed_nil : typed [] = "" := rfl

theorem typed_cons_blank {line : String} (h : isAllSpace line) (lines : List String) :
    typed (line :: lines) = typed lines := by
  simp [typed, h]

theorem typed_cons {line : String} (h : isAllSpace line = false) (lines : List String) :
    typed (line :: lines) = line ++ "\n" ++ typed lines := by
  simp [typed, h, String.join_cons]

theorem typed_append (lines more : List String) : typed (lines ++ more) = typed lines ++ typed more := by
  simp [typed, String.join_append]

/-- What was typed ends with a line. -/
theorem getLast?_typed {lines : List String} (h : typed lines ≠ "") : (typed lines).toList.getLast? = some '\n' := by
  induction lines with
  | nil => exact absurd rfl h
  | cons line lines ih =>
    cases hline : isAllSpace line with
    | true =>
      rw [typed_cons_blank hline] at h ⊢
      exact ih h
    | false =>
      rw [typed_cons hline, String.toList_append, List.getLast?_append]
      by_cases hlines : typed lines = ""
      · simp [hlines]
      · rw [ih hlines]
        rfl

theorem join_lines {lines : List String} (h : lines ≠ []) :
    String.join (lines.map (· ++ "\n")) = "\n".intercalate lines ++ "\n" := by
  induction lines with
  | nil => exact absurd rfl h
  | cons line lines ih =>
    cases lines with
    | nil => simp
    | cons next lines =>
      rw [List.map_cons, String.join_cons, ih (List.cons_ne_nil _ _), String.intercalate_cons_cons]
      simp only [String.append_assoc]

/-- Lines up to one that is not blank are kept as a text of the lines that are not. -/
theorem typed_last (front : List String) {last : String} (h : isAllSpace last = false) :
    typed front ++ last = "\n".intercalate ((front ++ [last]).filter (!isAllSpace ·)) := by
  refine (String.append_left_inj "\n").mp ?_
  rw [← join_lines (by simp [h])]
  simp [typed, h, String.join_append, String.append_assoc]

/-! ### Items -/

/-- The same with other scripts kept. -/
def Shared.keeping (shared : Shared) (kept : ParseCache) : Shared := ⟨shared.state.keeping kept, shared.statistics⟩

/-- If the last line of an item is ended, the item is run in the same way, and at most another script is kept. -/
theorem Item.run_line (found : Shared) (h : IsAtRest found.state) {file text : String} {ps : List Program}
    (hreturn : '\r' ∉ text.toList) (hread : readScript ⟨some file, .text text⟩ = .ok ps) (settings : Settings)
    (showsResults : Bool) :
    ∃ kept, (⟨file, text ++ "\n", showsResults⟩ : Item).run settings found =
      Prod.map id (Prod.map id (State.keeping · kept)) ((⟨file, text, showsResults⟩ : Item).run settings found) :=
  Running.runScript_keeping (Running.evaluate_isForgetful settings.config _) settings.config h.orderly.cache hread
    (readScript_line hreturn hread) settings.verbosity found.statistics

/-! ### Runners -/

namespace Runner

variable {r : Runner}

/-- The runner with other things to share. -/
def sharing (r : Runner) (left : Shared) : Runner := { r with state := left.state, statistics := left.statistics }

theorem IsIdle.sharing (hr : r.IsIdle) {left : Shared} (h : IsAtRest left.state) : (r.sharing left).IsIdle :=
  ⟨hr.crash, h⟩

/-- A line that is not blank is run with what was typed before it. -/
theorem typeLine_run {line : String} (hline : isAllSpace line = false) (r : Runner) (buffer : String) :
    let item : Item := ⟨promptFile, buffer ++ line ++ "\n", true⟩
    let ran := item.run r.settings r.shared
    let r' := r.sharing (leftBehind ran)
    r.typeLine buffer line = match ran.1 with
      | .ok results => (eventsOf r.settings ran ++ resultOutput results, r', "")
      | .error f =>
        if f.isOpenEnded then (eventsOf r.settings ran, r', item.source)
        else
          let (output, r') := r'.reportFailure f (eventsOf r.settings ran) promptFile item.source
          (output, r', "") := by
  intro item ran r'
  have hrun : r.runText promptFile (buffer ++ line ++ "\n") = (ran.1, eventsOf r.settings ran, r') :=
    runText_item r item
  simp only [typeLine, hline, Bool.false_eq_true, if_false, hrun]
  cases ran.1 <;> rfl

/-- A line that leaves what was typed incomplete is kept, and nothing else happens. -/
theorem typeLine_incomplete (hr : r.IsIdle) {buffer line : String} (hline : isAllSpace line = false) {f : Fault}
    (h : readScript ⟨some promptFile, .text (buffer ++ line ++ "\n")⟩ = .error ⟨.fault f, none, none⟩)
    (hf : f.isOpenEnded) : r.typeLine buffer line = ([], r, buffer ++ line ++ "\n") := by
  have hrun : (⟨promptFile, buffer ++ line ++ "\n", true⟩ : Item).run r.settings r.shared =
      (.error ⟨.fault f, none, none⟩, r.statistics, r.state) := by
    have hparse := Running.parse_of_error hr.state.orderly.cache h r.settings.config
    simp only [Item.run, State.run, Session.runScript, Runner.shared, hparse]
  have hopen : (⟨.fault f, none, none⟩ : Failure).isOpenEnded := hf
  have hrecord : { r.state.record with events := [] } = r.state.record := by rw [← hr.state.events]
  rw [typeLine_run hline, hrun]
  simp only [hopen, if_true, eventsOf, leftBehind, hrecord, hr.state.events]
  rfl

/-- How a result makes the runner crash, if it does. -/
def crash? : Except Failure (List String) → Option Crash
  | .ok _ => none
  | .error f => Crash.ofFailure? f

/-- A line that completes what was typed is the last one: what was typed is run, and the next line is typed anew. -/
theorem typeLine_complete (hr : r.IsIdle) {buffer line : String} (hline : isAllSpace line = false)
    (hreturn : '\r' ∉ (buffer ++ line).toList) {ps : List Program}
    (h : readScript ⟨some promptFile, .text (buffer ++ line)⟩ = .ok ps) :
    let ran := (⟨promptFile, buffer ++ line, true⟩ : Item).run r.settings r.shared
    let item : Item := ⟨promptFile, buffer ++ line ++ "\n", true⟩
    ∃ kept, IsAtRest ((leftBehind ran).keeping kept).state ∧
      let r' := r.sharing ((leftBehind ran).keeping kept)
      r.typeLine buffer line = match crash? ran.1 with
        | some crash => (eventsOf r.settings ran, { r' with crash }, "")
        | none => (eventsOf r.settings ran ++ item.conclusion ran.1, r', "") := by
  intro ran item
  obtain ⟨kept, hrun⟩ := Item.run_line r.shared hr.state hreturn h r.settings true
  have hrest := IsAtRest.leftBehind r.shared hr.state r.settings item
  -- the prompt would keep the lines of a script that fails as if it were incomplete
  have hcomplete : ∀ f, ran.1 = .error f → f.isOpenEnded = false := fun f hf =>
    hr.state.orderly.run_not_isOpenEnded hr.state.depth r.settings.config _ h _ _ hf
  rw [hrun] at hrest
  refine ⟨kept, hrest, ?_⟩
  rw [typeLine_run hline, hrun]
  change (match ran.1 with | .ok results => _ | .error f => _) = _
  cases hresult : ran.1 with
  | ok results => rfl
  | error f =>
    simp only [hcomplete f hresult, Bool.false_eq_true, if_false, reportFailure, crash?]
    cases hcrash : Crash.ofFailure? f <;> rfl

end Runner

variable {r : Runner}

/-- The prompt takes a line. -/
theorem feed_line (r : Runner) (rest : List Activity) {line : String} (hline : IsTypable line) (buffer : String) :
    Phase.feed (some (line ++ "\n")) (.waiting r (.prompt buffer) rest) =
      match r.typeLine buffer line with
      | (output, r', buffer) =>
        match r'.crash with
        | some crash => (output.map (Runner.adapt r.settings), .ended (.crash crash))
        | none => ((output ++ [Runner.prompt buffer]).map (Runner.adapt r.settings), .waiting r' (.prompt buffer) rest)
          := by
  have htake : String.ofList ((line ++ "\n").toList.takeWhile (· ≠ '\n')) = line := by
    rw [String.toList_append, List.takeWhile_append_of_pos]
    · simp
    · exact fun x hx => by simpa using ne_of_mem_of_not_mem hx hline.feed
  rw [Phase.feed, Phase.advance]
  simp only [htake, hline.leaves, Bool.false_eq_true, if_false]
  cases (r.typeLine buffer line).2.1.crash <;> rfl

/-! ### Typing an invocation -/

/-- Something that is typed has not come to its end. -/
def IsIncomplete (source : String) : Prop :=
  ∃ f, readScript ⟨some Runner.promptFile, .text source⟩ = .error ⟨.fault f, none, none⟩ ∧ f.isOpenEnded

/-- All that is put out is that more can be typed. -/
def OnlyPrompts (settings : Settings) (output : List Output) : Prop :=
  ∀ o ∈ output, ∃ buffer, o = Runner.adapt settings (Runner.prompt buffer)

theorem OnlyPrompts.cons {settings : Settings} {output : List Output} (h : OnlyPrompts settings output)
    (buffer : String) : OnlyPrompts settings (Runner.adapt settings (Runner.prompt buffer) :: output) :=
  List.forall_mem_cons.mpr ⟨⟨buffer, rfl⟩, h⟩

/-- As long as what was typed is incomplete, nothing happens but that it is kept. -/
theorem feedLines_incomplete (hr : r.IsIdle) (rest : List Activity) {front : List String} : ∀ buffer : String,
    (∀ line ∈ front, IsTypable line) →
    (∀ before after, front = before ++ after → typed before ≠ "" → IsIncomplete (buffer ++ typed before)) →
    ∃ prompts, OnlyPrompts r.settings prompts ∧
      Phase.feedLines (front.map (· ++ "\n")) (.waiting r (.prompt buffer) rest) =
        (prompts, .waiting r (.prompt (buffer ++ typed front)) rest) := by
  -- by the lines: a blank one leaves what was typed as it is, any other one is put behind it
  induction front with
  | nil => exact fun _ _ _ => ⟨[], by simp [OnlyPrompts], by simp [Phase.feedLines]⟩
  | cons line front ih =>
    intro buffer hfront hincomplete
    obtain ⟨hline, hfront⟩ := List.forall_mem_cons.mp hfront
    have hfeed := feed_line r rest hline buffer
    cases hblank : isAllSpace line with
    | true =>
      obtain ⟨prompts, hprompts, hlines⟩ := ih buffer hfront fun before after hsplit htyped => by
        rw [← typed_cons_blank hblank]
        exact hincomplete (line :: before) after (by rw [hsplit, List.cons_append])
          (by rwa [typed_cons_blank hblank])
      refine ⟨_, hprompts.cons buffer, ?_⟩
      simp only [Runner.typeLine, hblank, if_true, hr.crash] at hfeed
      simp only [List.map_cons, Phase.feedLines, hfeed, hlines, typed_cons_blank hblank]
      rfl
    | false =>
      have happend (lines : List String) :
          buffer ++ line ++ "\n" ++ typed lines = buffer ++ typed (line :: lines) := by
        simp only [typed_cons hblank, String.append_assoc]
      obtain ⟨f, hread, hopen⟩ := hincomplete [line] front rfl (by simp [typed_cons hblank])
      rw [← happend, typed_nil, String.append_empty] at hread
      obtain ⟨prompts, hprompts, hlines⟩ := ih (buffer ++ line ++ "\n") hfront fun before after hsplit _ => by
        rw [happend]
        exact hincomplete (line :: before) after (by rw [hsplit, List.cons_append]) (by simp [typed_cons hblank])
      refine ⟨_, hprompts.cons (buffer ++ line ++ "\n"), ?_⟩
      rw [Runner.typeLine_incomplete hr hblank hread hopen] at hfeed
      simp only [hr.crash] at hfeed
      simp only [List.map_cons, Phase.feedLines, hfeed, hlines, happend]
      rfl

/-- The lines that an invocation begins with are only kept. -/
theorem feedLines_front (hr : r.IsIdle) (rest : List Activity) {front : List String} {more : String} {p : Program}
    (hfront : ∀ line ∈ front, IsTypable line) (hmore : more ≠ "") (hreturn : '\r' ∉ (typed front ++ more).toList)
    (hread : readScript ⟨some Runner.promptFile, .text (typed front ++ more)⟩ = .ok [p])
    (hsource : p.source = some (typed front ++ more)) :
    ∃ prompts, OnlyPrompts r.settings prompts ∧
      Phase.feedLines (front.map (· ++ "\n")) (.waiting r (.prompt "") rest) =
        (prompts, .waiting r (.prompt (typed front)) rest) := by
  have hincomplete (before after : List String) (hsplit : front = before ++ after) (htyped : typed before ≠ "") :
      IsIncomplete ("" ++ typed before) := by
    have htext : typed front ++ more = typed before ++ (typed after ++ more) := by
      rw [hsplit, typed_append, String.append_assoc]
    rw [htext] at hreturn hread hsource
    rw [String.empty_append]
    exact readScript_front hreturn hread hsource (getLast?_typed htyped) (by simp [hmore])
  have hfed := feedLines_incomplete hr rest "" hfront hincomplete
  rwa [String.empty_append] at hfed

/-- An invocation is typed in lines of which those that are not blank make up its text. Up to its last line, whatever
was typed is kept and nothing happens. Behind its last line, what there is to see and what the session is like are the
same as if the text had been run, except that another script is kept; and unless this makes the runner crash, the next
line is typed anew. -/
theorem typing_runs (hr : r.IsIdle) {front : List String} {last text : String} {file : Option String}
    {script : Script} {p : Program} (hfront : ∀ line ∈ front, IsTypable line) (hlast : IsTypable last)
    (hblank : isAllSpace last = false)
    (htext : text = "\n".intercalate ((front ++ [last]).filter (!isAllSpace ·))) (hreturn : '\r' ∉ text.toList)
    (hparse : (r.state.parse r.config (.text text) file).1 = .ok script) (hone : script.programs = [p])
    (hsource : p.source = some text) (rest : List Activity) :
    let feed (lines : List String) := Phase.feedLines (lines.map (· ++ "\n")) (.waiting r (.prompt "") rest)
    let ran := (⟨Runner.promptFile, text, true⟩ : Item).run r.settings r.shared
    let item : Item := ⟨Runner.promptFile, text ++ "\n", true⟩
    (∀ before after, front = before ++ after → ∃ prompts, OnlyPrompts r.settings prompts ∧
      feed before = (prompts, .waiting r (.prompt (typed before)) rest)) ∧
    ∃ prompts kept, OnlyPrompts r.settings prompts ∧
      let r' := r.sharing ((leftBehind ran).keeping kept)
      match Runner.crash? ran.1 with
      | some crash =>
        feed (front ++ [last]) = (prompts ++ (eventsOf r.settings ran).map (Runner.adapt r.settings),
          .ended (.crash crash))
      | none => r'.IsIdle ∧ feed (front ++ [last]) =
          (prompts ++ (eventsOf r.settings ran ++ item.conclusion ran.1 ++ [Runner.prompt ""]).map
            (Runner.adapt r.settings), .waiting r' (.prompt "") rest) := by
  intro feed ran item
  have hread : readScript ⟨file, .text text⟩ = .ok [p] := by
    have h := hr.state.orderly.cache.read_eq r.config.parseCacheSize ⟨file, .text text⟩
    rw [← h, ← hone]
    exact congrArg (Except.map Script.programs) hparse
  obtain ⟨q, hread, hsource⟩ : ∃ q, readScript ⟨some Runner.promptFile, .text text⟩ = .ok [q] ∧
      q.source = some text := by
    obtain ⟨ps, hps, hsources⟩ := readScript_anywhere hread (some Runner.promptFile)
    obtain ⟨q, rfl, hq⟩ := List.map_eq_singleton_iff.1 hsources
    exact ⟨q, hps, hq.trans hsource⟩
  have hlines : text = typed front ++ last := by rw [htext, typed_last front hblank]
  have hsome : last ≠ "" := by
    rintro rfl
    cases hblank
  have hbefore (before after : List String) (hsplit : front = before ++ after) : ∃ prompts,
      OnlyPrompts r.settings prompts ∧ feed before = (prompts, .waiting r (.prompt (typed before)) rest) := by
    have htext : text = typed before ++ (typed after ++ last) := by
      rw [hlines, hsplit, typed_append, String.append_assoc]
    rw [htext] at hreturn hread hsource
    exact feedLines_front hr rest (fun line hline => hfront line (by simp [hsplit, hline])) (by simp [hsome]) hreturn
      hread hsource
  refine ⟨hbefore, ?_⟩
  obtain ⟨prompts, hprompts, hfed⟩ := hbefore front [] (List.append_nil front).symm
  subst hlines
  obtain ⟨kept, hrest, htyped⟩ := Runner.typeLine_complete hr hblank hreturn hread
  have hall := Phase.feedLines_concat hfed (last ++ "\n")
  rw [show front.map (· ++ "\n") ++ [last ++ "\n"] = (front ++ [last]).map (· ++ "\n") by simp] at hall
  rw [feed_line r rest hlast, htyped] at hall
  refine ⟨prompts, kept, hprompts, ?_⟩
  cases hcrash : Runner.crash? ran.1 with
  | some crash =>
    simp only [ran] at hcrash
    simp only [hcrash] at hall
    exact hall
  | none =>
    have hidle := hr.sharing hrest
    simp only [ran] at hcrash
    simp only [hcrash, hidle.crash] at hall
    exact ⟨hidle, hall⟩

theorem exists_program {x : Except Failure Script} (name text : String)
    (h : x.toOption.map (·.programs.map fun p => (p.name, p.source)) = some [(name, some text)]) :
    ∃ script p, x = .ok script ∧ script.programs = [p] ∧ p.name = name ∧ p.source = some text := by
  cases x with
  | error failure => cases h
  | ok script =>
    obtain ⟨p, hone, hp⟩ := List.map_eq_singleton_iff.1 (Option.some.inj h)
    exact ⟨script, p, rfl, hone, (Prod.mk.inj hp).1, (Prod.mk.inj hp).2⟩

/-- An argument of two lines, and a blank line behind it. -/
theorem typing_runs_message :
    let r := Runner.ofSettings {} []
    let front := ["message(STATUS \"a", "b\"", " "]
    let text := "message(STATUS \"a\nb\"\nc)"
    r.IsIdle ∧ (∀ line ∈ front, IsTypable line) ∧ IsTypable "c)" ∧
      text = "\n".intercalate ((front ++ ["c)"]).filter (!isAllSpace ·)) ∧
      (∃ script p, (r.state.parse r.config (.text text) none).1 = .ok script ∧ script.programs = [p] ∧
        p.name = "message" ∧ p.source = some text) ∧
      ∃ prompts r', OnlyPrompts {} prompts ∧ r'.IsIdle ∧
        Phase.feedLines ((front ++ ["c)"]).map (· ++ "\n")) (.waiting r (.prompt "") []) =
          (prompts ++ [.out "-- a\nbc\n", Runner.prompt ""], .waiting r' (.prompt "") []) := by
  intro r front text
  let ran := (⟨Runner.promptFile, text, true⟩ : Item).run r.settings r.shared
  let item : Item := ⟨Runner.promptFile, text ++ "\n", true⟩
  have hr : r.IsIdle := Runner.ofSettings_isIdle {} []
  have hfront : ∀ line ∈ front, IsTypable line := by
    simp only [front, List.forall_mem_cons]
    exact ⟨⟨by decide, by decide +kernel⟩, ⟨by decide, by decide +kernel⟩, ⟨by decide, by decide +kernel⟩, by simp⟩
  have hlast : IsTypable "c)" := ⟨by decide, by decide +kernel⟩
  have htext : text = "\n".intercalate ((front ++ ["c)"]).filter (!isAllSpace ·)) := by decide +kernel
  obtain ⟨script, p, hscript, hone, hname, hsource⟩ :=
    exists_program (x := (r.state.parse r.config (.text text) none).1) "message" text (by decide +kernel)
  obtain ⟨-, prompts, kept, hprompts, htyped⟩ := typing_runs hr hfront hlast (by decide +kernel) htext
    (by decide +kernel) hscript hone hsource []
  have hcrash : Runner.crash? ran.1 = none := by decide +kernel
  have houtput : (eventsOf r.settings ran ++ item.conclusion ran.1 ++ [Runner.prompt ""]).map
      (Runner.adapt r.settings) = [.out "-- a\nbc\n", Runner.prompt ""] := by
    decide +kernel
  simp only [ran] at hcrash
  simp only [hcrash] at htyped
  refine ⟨hr, hfront, hlast, htext, ⟨script, p, hscript, hone, hname, hsource⟩, prompts, _, hprompts, htyped.1, ?_⟩
  rw [htyped.2]
  exact congrArg (fun output => (prompts ++ output, _)) houtput

/-- A blank line within an argument is not kept: another text is printed than if the script were run. -/
theorem typing_loses_line :
    let r := Runner.ofSettings {} []
    let lines := ["message(STATUS \"a", "", "b\")"]
    let text := "message(STATUS \"a\n\nb\")"
    r.IsIdle ∧ (∀ line ∈ lines, IsTypable line) ∧ text = "\n".intercalate lines ∧ '\r' ∉ text.toList ∧
      (∃ script p, (r.state.parse r.config (.text text) none).1 = .ok script ∧ script.programs = [p] ∧
        p.name = "message" ∧ p.source = some text) ∧
      eventsOf {} ((⟨Runner.promptFile, text, true⟩ : Item).run r.settings r.shared) =
        [.out "-- a\n\nb\n"] ∧
      (Phase.feedLines (lines.map (· ++ "\n")) (.waiting r (.prompt "") [])).1 =
        [Runner.prompt (typed ["message(STATUS \"a"]), Runner.prompt (typed ["message(STATUS \"a"]),
          .out "-- a\nb\n", Runner.prompt ""] := by
  intro r lines text
  have hlines : ∀ line ∈ lines, IsTypable line := by
    simp only [lines, List.forall_mem_cons]
    exact ⟨⟨by decide, by decide +kernel⟩, ⟨by decide, by decide +kernel⟩, ⟨by decide, by decide +kernel⟩, by simp⟩
  exact ⟨Runner.ofSettings_isIdle {} [], hlines, by decide +kernel, by decide +kernel,
    exists_program _ _ (by decide +kernel), by decide +kernel, by decide +kernel⟩

end CommandScript.CommandLine
