import CommandScript.Session.Evaluate

/-! What is left as it was. However an evaluation, a script or a request of a host command ends, nesting is as deep as
before, the same frames are on the stack, and tracing is as it was; statistics are the same ones, with more counted.
Only the frame that commands are given may come back with results, because a command may return from it. -/

namespace CommandScript.Machine

open Code

variable {σ : Type}

/-! ### The machine -/

section Maintained

variable {w : Surroundings σ} {P : σ → Prop} (observed : ∀ notice s, P s → P (w.observe notice s))
  (invoked : ∀ name arguments s, P s → P (w.invoke name arguments s).2)

include observed in
theorem reference_maintains (i : Instruction) (name : String) (s : σ) (hs : P s) : P (reference w i name s).2 := by
  unfold reference
  split
  · exact hs
  · exact observed _ _ hs

include observed invoked

theorem dispatch_maintains (i : Instruction) (arguments : List String) (s : σ) (hs : P s) :
    P (dispatch w i arguments s).2 := by
  have h := invoked i.name arguments _ (observed (.dispatching i.commandLabel arguments) s hs)
  unfold dispatch
  simp only
  split <;> rename_i heq <;> rw [heq] at h
  · exact observed _ _ h
  · exact h
  · split
    · split
      · exact h
      · exact observed _ _ (observed _ _ h)
    · exact h

theorem execute_maintains (onlyResolve isLast : Bool) (i : Instruction) (st : Stacks String) (s : σ) (hs : P s) :
    P (execute w onlyResolve isLast i st s).2 := by
  have hd := fun arguments => dispatch_maintains observed invoked i arguments s hs
  unfold execute
  simp only
  split
  · exact hs
  · split
    · exact reference_maintains observed i _ s hs
    · exact hs
  · split <;> exact hs
  · split
    · split <;> exact hs
    · exact hs
  · split
    · rename_i operands _ _
      have := hd operands.flatten
      split <;> rename_i heq <;> rw [heq] at this <;> exact this
    · exact hs
  · split
    · rename_i operands _ _
      have := hd operands.flatten
      split
      · split <;> exact hs
      · split <;> rename_i heq <;> rw [heq] at this <;> exact this
    · exact hs
  · exact hs

/-- What notices and commands leave true, a run leaves true. -/
theorem runFrom_maintains (onlyResolve : Bool) (is : List Instruction) (step : Nat) (st : Stacks String) (s : σ)
    (hs : P s) : P (runFrom w onlyResolve step st is s).2 := by
  induction is generalizing step st s with
  | nil =>
    rw [runFrom]
    split
    · exact observed _ _ (observed _ _ hs)
    · exact hs
  | cons i rest ih =>
    have h := execute_maintains observed invoked onlyResolve rest.isEmpty i st _
      (observed (.stepping step (i :: rest) st) s hs)
    rw [runFrom]
    split <;> rename_i heq <;> rw [heq] at h
    · exact ih _ _ _ h
    · exact h
    · exact h

end Maintained

/-! ### Statistics -/

/-- The same statistics with more counted. -/
inductive Statistics.Counted : Statistics → Statistics → Prop where
  | refl (a : Statistics) : Counted a a
  | call {a b : Statistics} (h : Counted a b) : Counted a b.addCall
  | steps {a b : Statistics} (h : Counted a b) (n : Nat) : Counted a (b.addSteps n)

theorem Statistics.Counted.trans {a b c : Statistics} (h : Counted a b) (h' : Counted b c) : Counted a c := by
  induction h' with
  | refl => exact h
  | call _ ih => exact ih.call
  | steps _ n ih => exact ih.steps n

/-- No statistics where there were none, and the same ones where there were some. -/
abbrev Statistics.Continued : Option Statistics → Option Statistics → Prop := Option.Rel Counted

namespace Statistics.Continued

theorem refl : ∀ a : Option Statistics, Continued a a
  | none => .none
  | some a => .some (.refl a)

theorem trans {a b c : Option Statistics} (h : Continued a b) (h' : Continued b c) : Continued a c := by
  cases h with
  | none => exact h'
  | some h =>
    cases h' with
    | some h' => exact .some (h.trans h')

end Statistics.Continued

theorem Record.observe_statistics (watch : Watch) (r : Record) (notice : Notice) :
    Statistics.Continued r.statistics (r.observe watch notice).statistics := by
  cases notice with
  | dispatched =>
    cases h : r.statistics with
    | none => simp [observe, h]
    | some a => simpa [observe, h] using Option.Rel.some (Statistics.Counted.refl a).call
  | completed n =>
    cases h : r.statistics with
    | none => simp [observe, h]
    | some a => simpa [observe, h] using Option.Rel.some ((Statistics.Counted.refl a).steps n)
  | dispatching | stepping | finished | recovered | undefined =>
    simp only [observe]
    repeat' split
    all_goals exact .refl _

end CommandScript.Machine

namespace CommandScript.Session

open Text Syntax Code Command Machine

variable {κ ω : Type}

/-! ### States -/

/-- As deep a nesting, the same tracing and the same statistics. -/
structure State.IsSteady (s t : State κ ω) : Prop where
  depth : t.depth = s.depth
  verbosity : t.verbosity = s.verbosity
  statistics : Statistics.Continued s.record.statistics t.record.statistics

/-- The same frames as well. -/
structure State.Keeps (s t : State κ ω) : Prop extends s.IsSteady t where
  frames : t.frames = s.frames

/-- The same frame, perhaps with other results. -/
def Frame.IsSame (f g : Frame) : Prop := ∃ result returned, g = { f with result, returned }

/-- The same frames as well, save for what the innermost one returns. -/
structure State.KeepsOuter (s t : State κ ω) : Prop extends s.IsSteady t where
  frames : ∃ result returned, t.frames = s.frames.modifyHead fun f => { f with result, returned }

namespace State

theorem IsSteady.refl (s : State κ ω) : s.IsSteady s := ⟨rfl, rfl, .refl _⟩

theorem IsSteady.trans {s t u : State κ ω} (h : s.IsSteady t) (h' : t.IsSteady u) : s.IsSteady u :=
  ⟨h'.depth.trans h.depth, h'.verbosity.trans h.verbosity, h.statistics.trans h'.statistics⟩

theorem Keeps.refl (s : State κ ω) : s.Keeps s := ⟨.refl s, rfl⟩

theorem Keeps.trans {s t u : State κ ω} (h : s.Keeps t) (h' : t.Keeps u) : s.Keeps u :=
  ⟨h.toIsSteady.trans h'.toIsSteady, h'.frames.trans h.frames⟩

theorem Keeps.outer {s t : State κ ω} (h : s.Keeps t) : s.KeepsOuter t := by
  refine ⟨h.toIsSteady, ?_⟩
  rw [h.frames]
  cases s.frames with
  | nil => exact ⟨[], false, rfl⟩
  | cons f fs => exact ⟨f.result, f.returned, rfl⟩

theorem KeepsOuter.trans {s t u : State κ ω} (h : s.KeepsOuter t) (h' : t.KeepsOuter u) : s.KeepsOuter u := by
  obtain ⟨_, _, ht⟩ := h.frames
  obtain ⟨result, returned, hu⟩ := h'.frames
  refine ⟨h.toIsSteady.trans h'.toIsSteady, result, returned, ?_⟩
  rw [hu, ht]
  cases s.frames <;> rfl

theorem KeepsOuter.replaceFrame {s t : State κ ω} {frame : Frame} (h : s.Keeps t) (hf : s.currentFrame.IsSame frame) :
    s.KeepsOuter (t.replaceFrame frame) := by
  obtain ⟨result, returned, rfl⟩ := hf
  have hframes := h.frames
  unfold State.replaceFrame State.currentFrame
  cases hs : s.frames with
  | nil =>
    rw [hs] at hframes
    rw [hframes]
    exact h.outer
  | cons f fs =>
    rw [hs] at hframes
    rw [hframes]
    exact ⟨⟨h.depth, h.verbosity, h.statistics⟩, result, returned, by rw [hs]; rfl⟩

theorem keeps_parse (cfg : Config) (source : Source) (file : Option String) (s : State κ ω) :
    s.Keeps (s.parse cfg source file).2 := ⟨⟨rfl, rfl, .refl _⟩, rfl⟩

theorem keeps_define (s : State κ ω) (name : String) (parameters : List String) (body : List Program) :
    s.Keeps (s.define name parameters body) := ⟨⟨rfl, rfl, .refl _⟩, rfl⟩

theorem keeps_defineText (cfg : Config) (name : String) (parameters : List String) (body : String) (s : State κ ω) :
    s.Keeps (s.defineText cfg name parameters body).2 := by
  have hp := s.keeps_parse cfg (.text body) (some ("<function:" ++ name ++ ">"))
  unfold State.defineText
  split <;> rename_i heq <;> rw [heq] at hp
  · exact hp.trans (keeps_define _ _ _ _)
  · exact hp

end State

/-! ### Commands and scripts -/

/-- A way to evaluate that leaves the state as it was, and hands back the frame it was given. -/
structure IsKeeping (ev : Evaluator κ ω) : Prop where
  state : ∀ p frame onlyResolve (s : State κ ω), s.Keeps (ev p frame onlyResolve s).2.2
  frame : ∀ p (frame : Frame) onlyResolve s, frame.IsSame (ev p frame onlyResolve s).2.1

theorem Frame.IsSame.refl (f : Frame) : f.IsSame f := ⟨f.result, f.returned, rfl⟩

/-- A built-in command may return from the frame, and counts nothing. -/
theorem Builtin.perform_keeps (checked : Bool) (b : Builtin) (arguments : List String) (d : Desk) :
    d.frame.IsSame (b.perform checked arguments d).2.frame ∧
      (b.perform checked arguments d).2.record.statistics = d.record.statistics := by
  cases b with
  | set =>
    simp only [perform, Desk.set, Desk.writeEnvironment, Desk.writeVariable]
    repeat' split
    all_goals exact ⟨.refl _, rfl⟩
  | unset =>
    simp only [perform, Desk.unset]
    repeat' split
    all_goals exact ⟨.refl _, rfl⟩
  | message =>
    simp only [perform, Desk.message]
    split <;> exact ⟨.refl _, rfl⟩
  | returnValues => exact ⟨⟨arguments, true, rfl⟩, rfl⟩
  | function | endFunction => exact ⟨.refl _, rfl⟩

theorem performBuiltin_keeps (cfg : Config) (b : Builtin) (arguments : List String) (s : State κ ω) :
    s.KeepsOuter (performBuiltin cfg b s.currentFrame arguments s).2 := by
  obtain ⟨hframe, hcount⟩ := b.perform_keeps cfg.processEnvironment arguments ⟨s.currentFrame, s.store, s.record⟩
  have h := State.KeepsOuter.replaceFrame (State.Keeps.refl s) hframe
  exact ⟨⟨h.depth, h.verbosity, by simp only [performBuiltin, hcount]; exact .refl _⟩, h.frames⟩

section Evaluators

variable {ev : Evaluator κ ω} (hev : IsKeeping ev)
include hev

theorem executeFrom_keeps (results : List String) (ps : List Program) (frame : Frame) (s : State κ ω) :
    s.Keeps (executeFrom ev results ps frame s).2.2 := by
  have kept {p frame onlyResolve result frame'} {s s' : State κ ω}
      (h : ev p frame onlyResolve s = (result, frame', s')) : s.Keeps s' := by
    have := hev.state p frame onlyResolve s
    rwa [h] at this
  fun_induction executeFrom ev results ps frame s with
  | case1 | case2 | case3 => exact .refl _
  | case4 _ _ _ _ _ _ _ _ _ _ _ _ _ h => exact kept h
  | case5 _ _ _ _ _ _ _ _ _ _ _ _ h => exact kept h
  | case6 _ _ _ _ _ _ _ body _ _ name parameters _ s' h ih =>
    exact (kept h).trans ((s'.keeps_define name parameters body).trans ih)
  | case7 _ _ _ _ _ _ _ _ _ _ h ih => exact (kept h).trans ih
  | case8 _ _ _ _ _ _ _ _ _ _ h => exact kept h

theorem evaluateHere_keeps (p : Program) (onlyResolve : Bool) (s : State κ ω) :
    s.KeepsOuter (evaluateHere ev p onlyResolve s).2 :=
  .replaceFrame (hev.state ..) (hev.frame ..)

theorem runScript_keeps (cfg : Config) (source : Source) (file : Option String) (verbosity : Nat)
    (statistics : Option Statistics) (s : State κ ω) :
    s.Keeps (runScript cfg ev source file verbosity statistics s).2.2 := by
  have hp := s.keeps_parse cfg source file
  unfold runScript
  split <;> rename_i heq <;> rw [heq] at hp
  · exact hp
  · rename_i script t
    split
    · have h := executeFrom_keeps hev [] script.programs
        { t with verbosity, record := { t.record with statistics } }.topFrame
        { t with verbosity, record := { t.record with statistics } }
      exact hp.trans ⟨⟨h.depth, rfl, .refl _⟩, h.frames⟩
    · exact hp.trans (executeFrom_keeps hev _ _ _ _)

theorem expandScript_keeps (cfg : Config) (source : Source) (file : Option String) (s : State κ ω) :
    s.KeepsOuter (expandScript cfg ev source file s).2 := by
  have hp := s.keeps_parse cfg source file
  unfold expandScript
  split <;> rename_i heq <;> rw [heq] at hp
  · exact hp.outer
  · split
    · exact hp.outer.trans (evaluateHere_keeps hev _ _ _)
    · exact hp.outer

theorem callFunction_keeps (f : ScriptFunction) (caller : Frame) (arguments : List String) (s : State κ ω) :
    s.Keeps (callFunction ev f caller arguments s).2 := by
  unfold callFunction
  split
  · exact .refl s
  · have h := executeFrom_keeps hev [] f.body (enterFunction f caller arguments s).1
      (enterFunction f caller arguments s).2
    exact ⟨⟨h.depth, h.verbosity, h.statistics⟩, h.frames⟩

theorem answer_keeps (cfg : Config) {forward : Nat → Task (State κ ω) (List String)}
    (hf : ∀ skip (s : State κ ω), s.KeepsOuter (forward skip s).2) (request : Request) (s : State κ ω) :
    s.KeepsOuter (answer cfg ev forward request s).2 := by
  cases request with
  | run source file => exact (runScript_keeps hev cfg (.text source) file 0 none s).outer
  | measure source =>
    have h := runScript_keeps hev cfg (.text source) none 0 (some {}) s
    simp only [answer]
    split <;> rename_i heq <;> rw [heq] at h <;> exact h.outer
  | expand source => exact expandScript_keeps hev cfg (.text source) none s
  | forward skip => exact hf skip s
  | define name parameters body => exact (s.keeps_defineText cfg name parameters body).outer
  | lookup name => exact (State.Keeps.refl s).outer

theorem performAction_keeps (cfg : Config) {forward : Nat → Task (State κ ω) (List String)}
    (hf : ∀ skip (s : State κ ω), s.KeepsOuter (forward skip s).2) (action : Action ω) (s : State κ ω) :
    s.KeepsOuter (performAction cfg ev forward action s).2 := by
  induction action generalizing s with
  | finish | fail => exact (State.Keeps.refl s).outer
  | update change next ih =>
    have h := ih { s with host := change s.host }
    exact ⟨⟨h.depth, h.verbosity, h.statistics⟩, h.frames⟩
  | ask request next ih => exact (answer_keeps hev cfg hf request s).trans (ih _ _)

theorem invokeWith_keeps (cfg : Config) (host : Host κ ω) {forward : Nat → Task (State κ ω) (List String)}
    (hf : ∀ skip (s : State κ ω), s.KeepsOuter (forward skip s).2) (name : String) (arguments : List String)
    (s : State κ ω) : s.KeepsOuter (invokeWith cfg host ev forward name arguments s).2 := by
  unfold invokeWith
  split
  · exact (State.Keeps.refl s).outer
  · exact performBuiltin_keeps ..
  · exact (callFunction_keeps hev ..).outer
  · exact performAction_keeps hev cfg hf _ s

theorem invokeWithin_keeps (cfg : Config) (host : Host κ ω) (bound : Nat) (name : String) (arguments : List String)
    (s : State κ ω) : s.KeepsOuter (invokeWithin cfg host ev bound name arguments s).2 := by
  induction bound generalizing name arguments s with
  | zero => exact invokeWith_keeps hev cfg host (fun _ s => (State.Keeps.refl s).outer) name arguments s
  | succ bound ih =>
    refine invokeWith_keeps hev cfg host (fun skip s => ?_) name arguments s
    cases arguments.drop skip with
    | nil => exact (State.Keeps.refl s).outer
    | cons name rest => exact ih name rest s

/-- A run of the machine, whatever commands do in it, comes back to the frame it was begun in. -/
theorem runFrom_keeps (cfg : Config) (host : Host κ ω) (scope : Scope) (onlyResolve : Bool) (is : List Instruction)
    (step : Nat) (st : Stacks String) (s : State κ ω) :
    s.KeepsOuter (runFrom (surroundings cfg host ev scope) onlyResolve step st is s).2 := by
  refine runFrom_maintains (P := s.KeepsOuter) ?_ ?_ onlyResolve is step st s (State.Keeps.refl s).outer
  · intro notice t h
    exact ⟨⟨h.depth, h.verbosity, h.statistics.trans (Record.observe_statistics ..)⟩, h.frames⟩
  · intro name arguments t h
    have hinvoke := h.trans (invokeWithin_keeps hev cfg host arguments.length (name.getD "") arguments t)
    simp only [surroundings, Session.invoke]
    split <;> rename_i heq <;> rw [heq] at hinvoke <;> exact hinvoke

end Evaluators

/-! ### Evaluations -/

theorem evaluator_isKeeping (cfg : Config) (host : Host κ ω) (remaining : Nat) :
    IsKeeping (evaluator cfg host remaining) := by
  induction remaining with
  | zero => exact ⟨fun _ _ _ s => .refl s, fun _ frame _ _ => .refl frame⟩
  | succ remaining ih =>
    have kept (p : Program) (frame : Frame) (onlyResolve : Bool) (s : State κ ω) :=
      runFrom_keeps ih cfg host frame.scope onlyResolve p.instructions 0 {}
        { s with frames := frame :: s.frames, depth := s.depth + 1 }
    constructor
    · intro p frame onlyResolve s
      have h := kept p frame onlyResolve s
      obtain ⟨result, returned, hframes⟩ := h.frames
      exact ⟨⟨congrArg (· - 1) h.depth, h.verbosity, h.statistics⟩, congrArg List.tail hframes⟩
    · intro p frame onlyResolve s
      obtain ⟨result, returned, hframes⟩ := (kept p frame onlyResolve s).frames
      refine ⟨result, returned, ?_⟩
      simp only [evaluator, Machine.run, State.currentFrame, hframes]
      rfl

theorem evaluate_isKeeping (cfg : Config) (host : Host κ ω) : IsKeeping (Session.evaluate cfg host) := by
  have h := evaluator_isKeeping cfg host cfg.maxDepth.toNat
  constructor
  · intro p frame onlyResolve s
    unfold Session.evaluate
    split
    · exact .refl s
    · exact h.state ..
  · intro p frame onlyResolve s
    unfold Session.evaluate
    split
    · exact .refl frame
    · exact h.frame ..

end CommandScript.Session
