import CommandScript.Proofs.Running.Scopes

/-! The frame of a call, wherever it is. A call has its variables at a place of their own, which no other call has, and
its frame is known by that. The frame is handed from one program of the body to the next, put on the stack for each, and
copied when a host command has something evaluated in it; there may be frames of other calls on top. Only the copy that
is in use is ever changed, and in the end that is the one that is handed back. -/

namespace CommandScript.Session

open Text Syntax Code Command Machine

variable {κ ω : Type}

/-- Whether a frame is that of the call whose variables are at this place. -/
def Frame.isAt (own : Nat) (f : Frame) : Bool := f.scope.own = own

/-- Of these frames, innermost first, the nearest that belongs to the call holds the last of these results, if there
were any, and has returned just then. -/
def Returned (own : Nat) (results : List (List String)) (frames : List Frame) : Prop :=
  ∃ f, frames.find? (Frame.isAt own) = some f ∧ f.result = results.getLast?.getD [] ∧ f.returned = !results.isEmpty

namespace Returned

variable {own : Nat} {results : List (List String)} {f g : Frame} {frames : List Frame}

/-- A frame on top that is not the call's makes no difference. -/
theorem cons_iff (hf : f.isAt own = false) : Returned own results (f :: frames) ↔ Returned own results frames := by
  rw [Returned, Returned, List.find?_cons_of_neg (by simp [hf])]

theorem head_iff (hf : f.isAt own) : Returned own results (f :: frames) ↔
    f.result = results.getLast?.getD [] ∧ f.returned = !results.isEmpty := by
  simp [Returned, hf]

/-- A frame takes the place of its copy below. -/
theorem replace_iff (hfg : f.isAt own = g.isAt own) :
    Returned own results (f :: g :: frames) ↔ Returned own results (f :: frames) := by
  cases hf : f.isAt own with
  | false => rw [cons_iff hf, cons_iff (hfg ▸ hf), cons_iff hf]
  | true => rw [head_iff hf, head_iff hf]

/-- A copy on top makes no difference. -/
theorem copy_iff : Returned own results (f :: f :: frames) ↔ Returned own results (f :: frames) := replace_iff rfl

/-- Nor does a frame that only knows of another place it is at. -/
theorem located_iff (location : Option Location) :
    Returned own results ({ f with location } :: frames) ↔ Returned own results (f :: frames) := by
  cases hf : f.isAt own with
  | false => rw [cons_iff (show Frame.isAt own { f with location } = false from hf), cons_iff hf]
  | true => rw [head_iff (show Frame.isAt own { f with location } from hf), head_iff hf]

end Returned

/-- The scope at top level stays what it is, and no variables lose their place. -/
structure State.Extends (s t : State κ ω) : Prop where
  top : t.top = s.top
  size : s.store.maps.size ≤ t.store.maps.size

namespace State.Extends

variable {s t u : State κ ω}

theorem refl (s : State κ ω) : s.Extends s := ⟨rfl, Nat.le_refl _⟩

theorem trans (h : s.Extends t) (h' : t.Extends u) : s.Extends u :=
  ⟨h'.top.trans h.top, Nat.le_trans h.size h'.size⟩

theorem of_same (htop : t.top = s.top) (hstore : t.store = s.store) : s.Extends t := ⟨htop, hstore ▸ Nat.le_refl _⟩

theorem replaceFrame (s : State κ ω) (frame : Frame) : s.Extends (s.replaceFrame frame) := by
  unfold State.replaceFrame
  split
  · exact .refl s
  · exact .of_same rfl rfl

theorem parse (cfg : Config) (source : Source) (file : Option String) (s : State κ ω) :
    s.Extends (s.parse cfg source file).2 := .of_same rfl rfl

theorem defineText (cfg : Config) (name : String) (parameters : List String) (body : String) (s : State κ ω) :
    s.Extends (s.defineText cfg name parameters body).2 := by
  have hread := parse cfg (.text body) (some ("<function:" ++ name ++ ">")) s
  unfold State.defineText
  split <;> rename_i heq <;> rw [heq] at hread
  · exact hread.trans (.of_same rfl rfl)
  · exact hread

end State.Extends

/-! ### Returning -/

/-- No other built-in command does anything to the frame that it is given. -/
theorem Builtin.perform_frame {b : Builtin} (hb : b ≠ .returnValues) (checked : Bool) (arguments : List String)
    (d : Desk) : (b.perform checked arguments d).2.frame = d.frame := by
  cases b with
  | set =>
    simp only [perform, Desk.set, Desk.writeEnvironment, Desk.writeVariable]
    repeat' split
    all_goals rfl
  | unset =>
    simp only [perform, Desk.unset]
    repeat' split
    all_goals rfl
  | message =>
    simp only [perform, Desk.message]
    split <;> rfl
  | returnValues => exact absurd rfl hb
  | function | endFunction => rfl

/-- The arguments of an invocation, if it is one of the built-in `return` and is made in the frame of the call. -/
def State.returns? (own : Nat) (s : State κ ω) (name : String) (arguments : List String) : Option (List String) :=
  match s.callee name arguments.length with
  | .ok (.builtin .returnValues) => if s.currentFrame.isAt own then some arguments else none
  | _ => none

end CommandScript.Session

namespace CommandScript.Running

open Text Syntax Code Command Machine Session

variable {κ ω : Type} {cfg : Config} {host : Host κ ω}

/-! ### Steps -/

theorem Evaluation.Settles.extends {e : Evaluation} {stage : Stage ω} {s t : State κ ω} (h : e.Settles s stage t) :
    s.Extends t := by
  cases h with
  | goesOn | ended => exact .of_same rfl rfl

theorem startInvocation_extends (bound : Nat) (name : String) (arguments : List String) (s : State κ ω) :
    s.Extends (startInvocation cfg host bound name arguments s).2.2 := by
  simp only [startInvocation]
  split
  · exact .refl s
  · rename_i b _
    have hwrites := b.perform_writesOnly cfg.processEnvironment arguments ⟨s.currentFrame, s.store, s.record⟩
    exact ⟨(State.Extends.replaceFrame s _).top, Nat.le_of_eq hwrites.size.symm⟩
  · split
    · exact .refl s
    · rename_i f _ _
      exact ⟨rfl, Nat.le_of_lt (enterFunction_scope f s.currentFrame arguments s).2.2.1⟩
  · exact .refl s

theorem act_extends (bound : Nat) (arguments : List String) (action : Action ω) (s : State κ ω) :
    s.Extends (act cfg bound arguments s action).2.2 := by
  cases action with
  | finish | fail | update => exact .of_same rfl rfl
  | ask request next =>
    cases request with
    | run | measure | expand | lookup => exact .of_same rfl rfl
    | forward skip =>
      simp only [act]
      split <;> exact .refl s
    | define name parameters body => exact .defineText cfg name parameters body s

theorem start_extends (job : Job ω) (s : State κ ω) : s.Extends (start cfg host s job).2.2 := by
  cases job with
  | runScript source file verbosity statistics =>
    have hread := State.Extends.parse cfg source file s
    simp only [start, startScript]
    split <;> rename_i heq <;> rw [heq] at hread
    · exact hread
    · split <;> exact hread.trans (.of_same rfl rfl)
  | expandScript source file =>
    have hread := State.Extends.parse cfg source file s
    simp only [start, startExpansion]
    split <;> rename_i heq <;> rw [heq] at hread
    · exact hread
    · split <;> exact hread
  | evaluateHere | execute => exact .refl s
  | evaluate p frame onlyResolve =>
    simp only [start, startEvaluation]
    repeat' split
    all_goals exact .of_same rfl rfl
  | goOn e =>
    rcases goOn_cases cfg host e s with ⟨_, _, _, _, _, _, h⟩ | ⟨_, _, h, hsettles⟩
    · rw [start, h]
      exact .of_same rfl rfl
    · rw [start, h]
      exact hsettles.extends
  | invoke bound name arguments => exact startInvocation_extends bound name arguments s
  | act bound arguments action => exact act_extends bound arguments action s

theorem resume_extends {w : Waiting ω} {r : Report} {s t : State κ ω} {stage : Stage ω}
    (h : resume cfg host s w r = some (stage, t)) : s.Extends t := by
  have hcommand := h
  unfold resume at h
  split at h
  · exact (resume_command hcommand).extends
  all_goals first
    | (cases h; exact .of_same rfl rfl)
    | (cases h; exact .replaceFrame ..)
    | cases h

theorem next?_extends {m m' : Moment κ ω} (h : m.next? cfg host = some m') : m.state.Extends m'.state := by
  obtain ⟨stage, waiting, s⟩ := m
  match stage, waiting with
  | .doing job, waiting =>
    obtain rfl := Option.some.inj h
    exact start_extends job s
  | .reporting report, [] => cases h
  | .reporting report, w :: waiting =>
    obtain ⟨_, hr, rfl⟩ := Option.map_eq_some_iff.1 h
    exact resume_extends hr

/-! ### In the body of a call -/

/-- The frame that a stage hands on. -/
def Stage.frame? : Stage ω → Option Frame
  | .doing (.execute _ _ frame) | .doing (.evaluate _ frame _) => some frame
  | .reporting (.evaluation _ frame) | .reporting (.execution _ frame) => some frame
  | _ => none

/-- What a report is about; for programs and their evaluation, whether they are in the frame of the call. -/
inductive Concern where
  | answer | script
  | evaluation (mine : Bool)
  | execution (mine : Bool)

section Body

variable (own : Nat)

/-- What waits for a report while the body of a call is executed, and the frames on the stack. The body itself is
executed in the frame of the call, functions and scripts in others. An evaluation that a host command has asked for is
in a copy of the frame that the command was given. -/
inductive Awaits : Concern → List (Waiting ω) → List Frame → Prop where
  | body {frames} : Awaits (.execution true) [] frames
  | programs {mine ps ws frames} (h : Awaits (.execution mine) ws frames) :
    Awaits (.evaluation mine) (.programs ps :: ws) frames
  | block {mine opener body rest ws frames} (h : Awaits (.execution mine) ws frames) :
    Awaits (.evaluation mine) (.block opener body rest :: ws) frames
  | call {ws frames} (h : Awaits .answer ws frames) : Awaits (.execution false) (.call :: ws) frames
  | script {before ws frames} (h : Awaits .script ws frames) : Awaits (.execution false) (.script before :: ws) frames
  | ran {ws frames} (h : Awaits .answer ws frames) : Awaits .script (.ran :: ws) frames
  | measured {ws frames} (h : Awaits .answer ws frames) : Awaits .script (.measured :: ws) frames
  | here {mine ws f frames} (h : Awaits .answer ws (f :: frames)) (hf : f.isAt own = mine) :
    Awaits (.evaluation mine) (.here :: ws) (f :: frames)
  | host {bound arguments next ws frames} (h : Awaits .answer ws frames) :
    Awaits .answer (.host bound arguments next :: ws) frames
  | command {mine e ws f frames} (h : Awaits (.evaluation mine) ws frames) (hf : f.isAt own = mine) :
    Awaits .answer (.command e :: ws) (f :: frames)

/-- What is being done or reported meanwhile. -/
inductive Underway : Stage ω → List (Waiting ω) → List Frame → Prop where
  | runScript {source file verbosity statistics ws frames} (h : Awaits own .script ws frames) :
    Underway (.doing (.runScript source file verbosity statistics)) ws frames
  | expandScript {source file ws frames} (h : Awaits own .answer ws frames) :
    Underway (.doing (.expandScript source file)) ws frames
  | evaluateHere {p onlyResolve ws frames} (h : Awaits own .answer ws frames) :
    Underway (.doing (.evaluateHere p onlyResolve)) ws frames
  | execute {mine results ps frame ws frames} (h : Awaits own (.execution mine) ws frames)
    (hf : frame.isAt own = mine) : Underway (.doing (.execute results ps frame)) ws frames
  | evaluate {mine p frame onlyResolve ws frames} (h : Awaits own (.evaluation mine) ws frames)
    (hf : frame.isAt own = mine) : Underway (.doing (.evaluate p frame onlyResolve)) ws frames
  | goOn {mine e ws f frames} (h : Awaits own (.evaluation mine) ws frames) (hf : f.isAt own = mine) :
    Underway (.doing (.goOn e)) ws (f :: frames)
  | invoke {bound name arguments ws frames} (h : Awaits own .answer ws frames) :
    Underway (.doing (.invoke bound name arguments)) ws frames
  | act {bound arguments action ws frames} (h : Awaits own .answer ws frames) :
    Underway (.doing (.act bound arguments action)) ws frames
  | answered {result ws frames} (h : Awaits own .answer ws frames) : Underway (.reporting (.answer result)) ws frames
  | evaluated {mine result frame ws frames} (h : Awaits own (.evaluation mine) ws frames)
    (hf : frame.isAt own = mine) : Underway (.reporting (.evaluation result frame)) ws frames
  | executed {mine result frame ws frames} (h : Awaits own (.execution mine) ws frames)
    (hf : frame.isAt own = mine) : Underway (.reporting (.execution result frame)) ws frames
  | scripted {result counted ws frames} (h : Awaits own .script ws frames) :
    Underway (.reporting (.script result counted)) ws frames

/-- The body is being executed, and these are the results that were returned from its frame. -/
structure InBody (results : List (List String)) (stage : Stage ω) (ws : List (Waiting ω)) (frames : List Frame) :
    Prop where
  underway : Underway own stage ws frames
  returned : Returned own results (stage.frame?.toList ++ frames)

end Body

variable {own : Nat} {results : List (List String)} {mine : Bool} {frames : List Frame} {ws : List (Waiting ω)}

/-- A command is given a frame, and may change what that returns. -/
theorem Awaits.exists_frame {concern : Concern} (h : Awaits own concern ws frames) (hc : concern = .answer) :
    ∃ f below, frames = f :: below ∧ ∀ g : Frame, g.isAt own = f.isAt own → Awaits own .answer ws (g :: below) := by
  induction h with
  | host h ih =>
    obtain ⟨f, below, rfl, hf⟩ := ih rfl
    exact ⟨f, below, rfl, fun g hg => .host (hf g hg)⟩
  | command h hf => exact ⟨_, _, rfl, fun g hg => .command h (hg.trans hf)⟩
  | _ => cases hc

variable (own frames) in
/-- What is reported about comes from another frame than that of the call. -/
def Concern.IsElsewhere : Concern → Prop
  | .evaluation mine | .execution mine => mine = false
  | .answer | .script => ∃ f below, frames = f :: below ∧ f.isAt own = false

/-- A function that the body calls has another frame, and so has whatever that calls. -/
theorem Awaits.isElsewhere {concern : Concern} (h : Awaits own concern ws frames) (hcall : .call ∈ ws) :
    concern.IsElsewhere own frames := by
  have inner {w : Waiting ω} {ws : List (Waiting ω)} (hw : .call ≠ w) (h : .call ∈ w :: ws) : .call ∈ ws :=
    (List.mem_cons.1 h).resolve_left hw
  induction h with
  | body => cases hcall
  | call | script => rfl
  | programs _ ih | block _ ih | ran _ ih | measured _ ih | host _ ih => exact ih (inner (by simp) hcall)
  | here _ hf ih =>
    obtain ⟨_, _, heq, hother⟩ := ih (inner (by simp) hcall)
    obtain ⟨rfl, rfl⟩ := List.cons_eq_cons.1 heq
    exact hf.symm.trans hother
  | command _ hf ih => exact ⟨_, _, rfl, hf.trans (ih (inner (by simp) hcall))⟩

theorem startProgram_inBody (outcome : List String) (ps : List Program) {frame : Frame}
    (h : Awaits own (.execution mine) ws frames) (hf : frame.isAt own = mine)
    (hr : Returned own results (frame :: frames)) :
    InBody own results (startProgram (ω := ω) outcome ps frame).1 ((startProgram outcome ps frame).2 ++ ws) frames := by
  cases ps with
  | nil => exact ⟨.executed h hf, hr⟩
  | cons p ps =>
    simp only [startProgram]
    split
    · exact ⟨.executed h hf, hr⟩
    · split
      · split
        · exact ⟨.executed h hf, hr⟩
        · exact ⟨.evaluate (.block h) hf, hr⟩
      · exact ⟨.evaluate (.programs h) hf, (Returned.located_iff p.location).2 hr⟩

theorem startEvaluation_inBody {p : Program} {frame : Frame} (onlyResolve : Bool) {s : State κ ω}
    (h : Awaits own (.evaluation mine) ws s.frames) (hf : frame.isAt own = mine)
    (hr : Returned own results (frame :: s.frames)) :
    let r := startEvaluation (ω := ω) cfg p frame onlyResolve s
    InBody own results r.1 ws r.2.frames := by
  simp only [startEvaluation]
  split
  · exact ⟨.evaluated h hf, hr⟩
  · split
    · exact ⟨.evaluated h hf, hr⟩
    · exact ⟨.goOn h hf, hr⟩

/-- Whatever an evaluation settles on, its frame stays on the stack or is the one that it hands back. -/
theorem Evaluation.Settles.inBody {e : Evaluation} {s t : State κ ω} {stage : Stage ω} {f : Frame}
    (h : Awaits own (.evaluation mine) ws frames) (hf : f.isAt own = mine) (hframes : s.frames = f :: frames)
    (hr : Returned own results s.frames) (hsettles : e.Settles s stage t) : InBody own results stage ws t.frames := by
  cases hsettles with
  | goesOn step held rest record => exact ⟨hframes ▸ .goOn h hf, hr⟩
  | ended result record =>
    have hcurrent : State.currentFrame { s with record } = f := currentFrame_of_frames hframes
    have htail : s.frames.tail = frames := congrArg List.tail hframes
    rw [hframes] at hr
    simp only [Evaluation.finish, hcurrent, htail]
    exact ⟨.evaluated h hf, hr⟩

theorem goOn_inBody (e : Evaluation) {s : State κ ω} {f : Frame} (h : Awaits own (.evaluation mine) ws frames)
    (hf : f.isAt own = mine) (hframes : s.frames = f :: frames) (hr : Returned own results s.frames) :
    let r := goOn cfg host e s
    InBody own results r.1 (r.2.1 ++ ws) r.2.2.frames := by
  rcases goOn_cases cfg host e s with ⟨_, _, _, _, _, _, hgo⟩ | ⟨stage, t, hgo, hsettles⟩
  · rw [hgo]
    exact ⟨.invoke (hframes ▸ .command h hf), hr⟩
  · rw [hgo]
    exact hsettles.inBody h hf hframes hr

theorem act_inBody (bound : Nat) (arguments : List String) (action : Action ω) {s : State κ ω}
    (h : Awaits own .answer ws s.frames) (hr : Returned own results s.frames) :
    let r := act cfg bound arguments s action
    InBody own results r.1 (r.2.1 ++ ws) r.2.2.frames := by
  cases action with
  | finish | fail => exact ⟨.answered h, hr⟩
  | update => exact ⟨.act h, hr⟩
  | ask request next =>
    cases request with
    | run => exact ⟨.runScript (.ran (.host h)), hr⟩
    | measure => exact ⟨.runScript (.measured (.host h)), hr⟩
    | expand => exact ⟨.expandScript (.host h), hr⟩
    | lookup => exact ⟨.act h, hr⟩
    | forward skip =>
      simp only [act]
      split
      · exact ⟨.invoke (.host h), hr⟩
      · exact ⟨.act h, hr⟩
    | define name parameters body =>
      have hframes := (s.keeps_defineText cfg name parameters body).frames
      simp only [act, hframes]
      exact ⟨.act h, hframes ▸ hr⟩

/-- A script is run at top level, whatever runs it. -/
theorem startScript_inBody (source : Source) (file : Option String) (verbosity : Nat)
    (statistics : Option Statistics) {s : State κ ω} (htop : s.top.own ≠ own) (h : Awaits own .script ws s.frames)
    (hr : Returned own results s.frames) :
    let r := startScript cfg source file verbosity statistics s
    InBody own results r.1 (r.2.1 ++ ws) r.2.2.frames := by
  have hread : (s.parse cfg source file).2.frames = s.frames ∧ (s.parse cfg source file).2.top = s.top := ⟨rfl, rfl⟩
  simp only [startScript]
  split <;> rename_i t heq <;> rw [heq] at hread
  · rw [← hread.1] at h hr
    exact ⟨.scripted h, hr⟩
  · have hother (verbosity : Nat) (record : Record) :
        (State.topFrame { t with verbosity, record }).isAt own = false := decide_eq_false (hread.2 ▸ htop)
    rw [← hread.1] at h hr
    split
    · exact ⟨.execute (.script h) (hother ..), (Returned.cons_iff (hother ..)).2 hr⟩
    · exact ⟨.execute (.script h) (hother t.verbosity t.record), (Returned.cons_iff (hother t.verbosity t.record)).2 hr⟩

theorem startExpansion_inBody (source : Source) (file : Option String) {s : State κ ω}
    (h : Awaits own .answer ws s.frames) (hr : Returned own results s.frames) :
    let r := startExpansion cfg source file s
    InBody own results r.1 (r.2.1 ++ ws) r.2.2.frames := by
  have hread : (s.parse cfg source file).2.frames = s.frames := rfl
  simp only [startExpansion]
  split <;> rename_i heq <;> rw [heq] at hread <;> rw [← hread] at h hr
  · exact ⟨.answered h, hr⟩
  · split
    · exact ⟨.evaluateHere h, hr⟩
    · exact ⟨.answered h, hr⟩

theorem performBuiltin_frames (b : Builtin) (arguments : List String) {s : State κ ω} {f : Frame}
    (h : s.frames = f :: frames) :
    (performBuiltin cfg b s.currentFrame arguments s).2.frames =
      (if b = .returnValues then { f with result := arguments, returned := true } else f) :: frames := by
  simp only [performBuiltin, State.replaceFrame, h, currentFrame_of_frames h]
  split
  · rename_i hb
    rw [hb]
    rfl
  · rename_i hb
    rw [b.perform_frame hb]

theorem performBuiltin_returned {b : Builtin} {name : String} {arguments : List String} {s : State κ ω}
    (hb : s.callee name arguments.length = .ok (.builtin b)) (hframes : s.frames ≠ [])
    (hr : Returned own results s.frames) :
    Returned own (results ++ (s.returns? own name arguments).toList)
      (performBuiltin cfg b s.currentFrame arguments s).2.frames := by
  obtain ⟨f, below, hframes⟩ := List.exists_cons_of_ne_nil hframes
  rw [performBuiltin_frames b arguments hframes]
  rw [hframes] at hr
  unfold State.returns?
  rw [hb, currentFrame_of_frames hframes]
  by_cases hret : b = .returnValues
  · obtain rfl := hret
    have hat : ({ f with result := arguments, returned := true } : Frame).isAt own = f.isAt own := rfl
    simp only [if_pos]
    cases hf : f.isAt own with
    | false =>
      rw [Returned.cons_iff hf] at hr
      simpa [Returned.cons_iff (hat.trans hf)] using hr
    | true => simp [Returned.head_iff (hat.trans hf)]
  · rw [if_neg hret]
    cases b with
    | returnValues => exact absurd rfl hret
    | _ => simpa using hr

/-- An invocation enters a function in a frame of its own, and changes no other frame unless it is a `return`. -/
theorem startInvocation_inBody (bound : Nat) (name : String) (arguments : List String) {s : State κ ω}
    (hown : own < s.store.maps.size) (h : Awaits own .answer ws s.frames) (hr : Returned own results s.frames) :
    let r := startInvocation cfg host bound name arguments s
    InBody own (results ++ (s.returns? own name arguments).toList) r.1 (r.2.1 ++ ws) r.2.2.frames := by
  have hnone (hcallee : ∀ b, s.callee name arguments.length ≠ .ok (.builtin b)) :
      results ++ (s.returns? own name arguments).toList = results := by
    unfold State.returns?
    split
    · rename_i hb
      exact absurd hb (hcallee _)
    · exact List.append_nil results
  cases hcallee : s.callee name arguments.length with
  | error failure =>
    rw [hnone (by simp [hcallee])]
    simp only [startInvocation, hcallee]
    exact ⟨.answered h, hr⟩
  | ok body =>
    cases body with
    | builtin b =>
      obtain ⟨f, below, hframes, hreplace⟩ := h.exists_frame rfl
      simp only [startInvocation, hcallee]
      refine ⟨.answered ?_, performBuiltin_returned hcallee (by simp [hframes]) hr⟩
      rw [performBuiltin_frames b arguments hframes]
      refine hreplace _ ?_
      split <;> rfl
    | script g =>
      rw [hnone (by simp [hcallee])]
      simp only [startInvocation, hcallee]
      split
      · exact ⟨.answered h, hr⟩
      · obtain ⟨hscope, hsame, -, -⟩ := enterFunction_scope g s.currentFrame arguments s
        have hother : (enterFunction g s.currentFrame arguments s).1.isAt own = false := by
          refine decide_eq_false ?_
          rw [hscope]
          exact (Nat.ne_of_lt hown).symm
        rw [← hsame] at h hr
        exact ⟨.execute (.call h) hother, (Returned.cons_iff hother).2 hr⟩
    | host key =>
      rw [hnone (by simp [hcallee])]
      simp only [startInvocation, hcallee]
      exact ⟨.act h, hr⟩

/-! ### All steps -/

/-- What a moment returns to the call: the arguments of a `return` that is dispatched in its frame. -/
def Moment.returns? (own : Nat) (m : Moment κ ω) : Option (List String) :=
  match m.stage with
  | .doing (.invoke _ name arguments) => m.state.returns? own name arguments
  | _ => none

/-- A moment while the body of the call is executed. -/
structure Tracked (own : Nat) (results : List (List String)) (m : Moment κ ω) : Prop where
  own_lt : own < m.state.store.maps.size
  top_ne : m.state.top.own ≠ own
  inBody : InBody own results m.stage m.waiting m.state.frames

/-- Programs go on in the frame that comes back from one of them, or fail with it. -/
theorem resume_evaluated_inBody {w : Waiting ω} {result : Except Failure (List String)} {frame : Frame}
    {s t : State κ ω} {stage : Stage ω}
    (hw : (∃ ps, w = .programs ps) ∨ ∃ opener body rest, w = .block opener body rest)
    (h : Awaits own (.execution mine) ws s.frames) (hf : frame.isAt own = mine)
    (hr : Returned own results (frame :: s.frames))
    (hresume : Running.resume cfg host s w (.evaluation result frame) = some (stage, t)) :
    InBody own results stage ws t.frames := by
  obtain ⟨ps, rfl⟩ | ⟨opener, body, rest, rfl⟩ := hw
  · cases result with
    | ok outcome =>
      cases hresume
      exact ⟨.execute h hf, hr⟩
    | error failure =>
      cases hresume
      exact ⟨.executed h hf, hr⟩
  · match result with
    | .ok (name :: parameters) =>
      cases hresume
      exact ⟨.execute h hf, hr⟩
    | .ok [] | .error failure =>
      cases hresume
      exact ⟨.executed h hf, hr⟩

theorem resume_inBody {r : Report} {w : Waiting ω} {s t : State κ ω} {stage : Stage ω} (hframes : s.frames = frames)
    (h : InBody own results (.reporting r : Stage ω) (w :: ws) frames)
    (hr : Running.resume cfg host s w r = some (stage, t)) : InBody own results stage ws t.frames := by
  obtain ⟨hunderway, hreturned⟩ := h
  cases hunderway with
  | answered h =>
    cases h with
    | host h =>
      cases hr
      exact ⟨.act (hframes ▸ h), hframes ▸ hreturned⟩
    | command h hf => exact (resume_command hr).inBody h hf hframes (hframes ▸ hreturned)
  | evaluated h hf =>
    rename_i result frame
    cases h with
    | programs h =>
      obtain rfl := hframes
      exact resume_evaluated_inBody (.inl ⟨_, rfl⟩) h hf hreturned hr
    | block h =>
      obtain rfl := hframes
      exact resume_evaluated_inBody (.inr ⟨_, _, _, rfl⟩) h hf hreturned hr
    | here h hg =>
      -- the frame that comes back takes the place of the one it is a copy of
      obtain ⟨_, _, heq, hreplace⟩ := h.exists_frame rfl
      obtain ⟨rfl, rfl⟩ := List.cons_eq_cons.1 heq
      have hsame := hf.trans hg.symm
      cases hr
      simp only [State.replaceFrame, hframes]
      exact ⟨.answered (hreplace frame hsame), (Returned.replace_iff hsame).1 hreturned⟩
  | executed h hf =>
    cases h with
    | call h =>
      cases hr
      rw [← hframes] at h hreturned
      exact ⟨.answered h, (Returned.cons_iff hf).1 hreturned⟩
    | script h =>
      rename_i before
      rw [← hframes] at h hreturned
      cases before with
      | none =>
        cases hr
        exact ⟨.scripted h, (Returned.cons_iff hf).1 hreturned⟩
      | some =>
        cases hr
        exact ⟨.scripted h, (Returned.cons_iff hf).1 hreturned⟩
  | scripted h =>
    rename_i result counted
    cases h with
    | ran h =>
      cases hr
      exact ⟨.answered (hframes ▸ h), hframes ▸ hreturned⟩
    | measured h =>
      cases result with
      | ok =>
        cases hr
        exact ⟨.answered (hframes ▸ h), hframes ▸ hreturned⟩
      | error =>
        cases hr
        exact ⟨.answered (hframes ▸ h), hframes ▸ hreturned⟩

theorem start_inBody {job : Job ω} {s : State κ ω} (hown : own < s.store.maps.size) (htop : s.top.own ≠ own)
    (hframes : s.frames = frames) (h : InBody own results (.doing job) ws frames) :
    let r := start cfg host s job
    InBody own (results ++ (Moment.returns? own ⟨.doing job, ws, s⟩).toList) r.1 (r.2.1 ++ ws) r.2.2.frames := by
  obtain ⟨hunderway, hreturned⟩ := h
  have hsame : results ++ [] = results := List.append_nil results
  cases hunderway with
  | invoke h => exact startInvocation_inBody _ _ _ hown (hframes ▸ h) (hframes ▸ hreturned)
  | goOn h hf =>
    refine hsame.symm ▸ goOn_inBody _ h hf hframes ?_
    rw [hframes]
    exact hreturned
  | evaluateHere h =>
    obtain ⟨f, below, rfl, -⟩ := h.exists_frame rfl
    have hcurrent := currentFrame_of_frames hframes
    simp only [start, hcurrent, hframes]
    exact hsame.symm ▸ ⟨.evaluate (.here h rfl) rfl, Returned.copy_iff.2 hreturned⟩
  | runScript h =>
    obtain rfl := hframes
    exact hsame.symm ▸ startScript_inBody _ _ _ _ htop h hreturned
  | expandScript h =>
    obtain rfl := hframes
    exact hsame.symm ▸ startExpansion_inBody _ _ h hreturned
  | execute h hf =>
    obtain rfl := hframes
    exact hsame.symm ▸ startProgram_inBody _ _ h hf hreturned
  | evaluate h hf =>
    obtain rfl := hframes
    exact hsame.symm ▸ startEvaluation_inBody _ h hf hreturned
  | act h =>
    obtain rfl := hframes
    exact hsame.symm ▸ act_inBody _ _ _ h hreturned

/-- What was returned to the call, its frame returns, wherever that is. -/
theorem Tracked.next {m m' : Moment κ ω} (hm : Tracked own results m) (h : m.next? cfg host = some m') :
    Tracked own (results ++ (m.returns? own).toList) m' := by
  obtain ⟨hown, htop, hbody⟩ := hm
  obtain ⟨htop', hsize⟩ := next?_extends h
  refine ⟨Nat.lt_of_lt_of_le hown hsize, htop' ▸ htop, ?_⟩
  obtain ⟨stage, waiting, s⟩ := m
  match stage, waiting with
  | .doing job, waiting =>
    obtain rfl := Option.some.inj h
    exact start_inBody hown htop rfl hbody
  | .reporting report, [] => cases h
  | .reporting report, w :: waiting =>
    obtain ⟨_, hr, rfl⟩ := Option.map_eq_some_iff.1 h
    exact (List.append_nil results).symm ▸ resume_inBody rfl hbody hr

end CommandScript.Running
