import CommandScript.Proofs.Running.Keeping
import CommandScript.Proofs.Running.Steps

/-! Step by step, a session does what its evaluator says. Every job that is begun ends with a report, and the report
and the state are those that evaluating it gives, whatever host commands ask for on the way. -/

namespace CommandScript.Running

open Text Syntax Code Command Machine Session

/-! ### Instructions -/

section Instructions

variable {σ : Type} {w : Surroundings σ} {onlyResolve isLast : Bool} {i : Instruction} {held : Stacks String}

/-- An instruction that dispatches a command does what that does, and keeps the results. -/
theorem execute_eq_dispatch {arguments : List String} (h : dispatched? onlyResolve i held = some arguments) :
    ∃ st : Stacks String, ∀ (w : Surroundings σ) (isLast : Bool) (s : σ),
      Machine.execute w onlyResolve isLast i held s =
        ((dispatch w i arguments s).1.map fun results => .moved (st.push results), (dispatch w i arguments s).2) := by
  unfold dispatched? at h
  unfold Machine.execute
  cases hop : i.operation with
  | commandReference n =>
    simp only [hop] at h ⊢
    cases hp : held.pop n with
    | error cause => simp [hp] at h
    | ok popped =>
      simp only [hp, Option.some.injEq] at h
      refine ⟨popped.2, fun w isLast s => ?_⟩
      simp only [h]
      split <;> rename_i hd <;> rw [hd] <;> rfl
  | call n =>
    cases onlyResolve with
    | true => simp [hop] at h
    | false =>
      simp only [hop, Bool.false_eq_true, if_false] at h ⊢
      cases hp : held.pop n with
      | error cause => simp [hp] at h
      | ok popped =>
        simp only [hp, Option.some.injEq] at h
        refine ⟨popped.2, fun w isLast s => ?_⟩
        simp only [h]
        split <;> rename_i hd <;> rw [hd] <;> rfl
  | _ => simp [hop] at h

/-- An instruction that dispatches a command only needs to know what that answers. -/
theorem execute_dispatched {arguments : List String} (h : dispatched? onlyResolve i held = some arguments) (s s' : σ) :
    let reply := w.invoke i.name arguments (w.observe (.dispatching i.commandLabel arguments) s)
    Machine.execute w onlyResolve isLast i held s =
      Machine.execute { w with invoke := fun _ _ _ => reply } onlyResolve isLast i held s' := by
  obtain ⟨st, hst⟩ := execute_eq_dispatch (σ := σ) h
  simp only [hst]
  rfl

/-- An instruction that dispatches nothing does not depend on commands. -/
theorem execute_undispatched (h : dispatched? onlyResolve i held = none)
    (invoke : Option String → List String → Task σ Reply) (s : σ) :
    Machine.execute w onlyResolve isLast i held s = Machine.execute { w with invoke } onlyResolve isLast i held s := by
  unfold dispatched? at h
  unfold Machine.execute
  cases hop : i.operation with
  | commandReference n =>
    simp only [hop] at h ⊢
    cases hp : held.pop n with
    | error cause => rfl
    | ok popped => simp [hp] at h
  | call n =>
    simp only [hop] at h ⊢
    cases hp : held.pop n with
    | error cause => rfl
    | ok popped =>
      cases onlyResolve with
      | true => rfl
      | false => simp [hp] at h
  | _ => rfl

end Instructions

variable {κ ω : Type} {cfg : Config} {host : Host κ ω}

/-! ### What is evaluated -/

variable (cfg host) in
/-- The evaluator of a session in which so many evaluations are under way. -/
def evaluatorAt : (depth : Nat) → Evaluator κ ω
  | 0 => Session.evaluate cfg host
  | depth + 1 => evaluator cfg host (cfg.maxDepth - (depth + 1 : Nat)).toNat

variable (cfg host) in
/-- An evaluator says how evaluations end that are begun at some depth. -/
def Carries (depth : Nat) (ev : Evaluator κ ω) : Prop :=
  ∀ p frame onlyResolve (s : State κ ω), s.depth = depth →
    Ends cfg host (.evaluate p frame onlyResolve) s
      (.evaluation (ev p frame onlyResolve s).1 (ev p frame onlyResolve s).2.1) (ev p frame onlyResolve s).2.2

section Evaluators

variable {ev : Evaluator κ ω} {depth : Nat} (hev : IsKeeping ev) (hc : Carries cfg host depth ev)
include hev hc

theorem ends_execute (results : List String) (ps : List Program) (frame : Frame) (s : State κ ω)
    (hs : s.depth = depth) :
    Ends cfg host (.execute results ps frame) s
      (.execution (executeFrom ev results ps frame s).1 (executeFrom ev results ps frame s).2.1)
      (executeFrom ev results ps frame s).2.2 := by
  have evaluated {p frame onlyResolve result frame'} {s s' : State κ ω} (hs : s.depth = depth)
      (h : ev p frame onlyResolve s = (result, frame', s')) :
      Ends cfg host (.evaluate p frame onlyResolve) s (.evaluation result frame') s' ∧ s'.depth = depth := by
    have he := hc p frame onlyResolve s hs
    have hd := (hev.state p frame onlyResolve s).depth
    rw [h] at he hd
    exact ⟨he, hd.trans hs⟩
  fun_induction executeFrom ev results ps frame s with
  | case1 => exact .of_report rfl
  | case2 _ _ _ _ _ hret => exact .of_report (by simp [start, startProgram, hret])
  | case3 _ _ _ _ _ hret hopen hsplit => exact .of_report (by simp [start, startProgram, hret, hopen, hsplit])
  | case4 _ p _ _ _ hret hopen body rest hsplit _ _ _ h =>
    exact .through (by simp [start, startProgram, hret, hopen, hsplit]; rfl) (evaluated hs h).1 (.resume rfl .refl)
  | case5 _ p _ _ _ hret hopen body rest hsplit _ _ h =>
    exact .through (by simp [start, startProgram, hret, hopen, hsplit]; rfl) (evaluated hs h).1 (.resume rfl .refl)
  | case6 _ p _ _ _ hret hopen body rest hsplit _ _ _ _ h ih =>
    obtain ⟨he, hd⟩ := evaluated hs h
    exact .through (by simp [start, startProgram, hret, hopen, hsplit]; rfl) he (.resume rfl (ih hd))
  | case7 _ p ps _ _ hret hopen _ _ _ h ih =>
    obtain ⟨he, hd⟩ := evaluated hs h
    exact .through (by simp [start, startProgram, hret, hopen]; rfl) he (.resume rfl (ih hd))
  | case8 _ p ps _ _ hret hopen _ _ _ h =>
    exact .through (by simp [start, startProgram, hret, hopen]; rfl) (evaluated hs h).1 (.resume rfl .refl)

omit hev in
theorem ends_evaluateHere (p : Program) (onlyResolve : Bool) (s : State κ ω) (hs : s.depth = depth) :
    Ends cfg host (.evaluateHere p onlyResolve) s (.answer (evaluateHere ev p onlyResolve s).1)
      (evaluateHere ev p onlyResolve s).2 :=
  .through rfl (hc p s.currentFrame onlyResolve s hs) (.resume rfl .refl)

theorem ends_runScript (source : Source) (file : Option String) (verbosity : Nat) (statistics : Option Statistics)
    (s : State κ ω) (hs : s.depth = depth) :
    let r := runScript cfg ev source file verbosity statistics s
    Ends cfg host (.runScript source file verbosity statistics) s (.script r.1 r.2.1) r.2.2 := by
  have hd := (s.keeps_parse cfg source file).depth
  simp only [runScript]
  rcases hp : s.parse cfg source file with ⟨failure | script, t⟩
  · exact .of_report (by simp only [start, startScript, hp])
  · rw [hp] at hd
    replace hd : t.depth = depth := hd.trans hs
    by_cases hown : t.depth = 0 ∨ statistics.isSome
    · have he := ends_execute hev hc [] script.programs
        { t with verbosity, record := { t.record with statistics } }.topFrame
        { t with verbosity, record := { t.record with statistics } } hd
      simp only [if_pos hown]
      exact .through (by simp only [start, startScript, hp, if_pos hown]; rfl) he (.resume rfl .refl)
    · have he := ends_execute hev hc [] script.programs t.topFrame t hd
      simp only [if_neg hown]
      exact .through (by simp only [start, startScript, hp, if_neg hown]; rfl) he (.resume rfl .refl)

omit hev in
theorem ends_expandScript (source : Source) (file : Option String) (s : State κ ω) (hs : s.depth = depth) :
    Ends cfg host (.expandScript source file) s (.answer (expandScript cfg ev source file s).1)
      (expandScript cfg ev source file s).2 := by
  have hd := (s.keeps_parse cfg source file).depth
  simp only [expandScript]
  rcases hp : s.parse cfg source file with ⟨failure | ⟨stamp, programs⟩, t⟩
  · exact .of_report (by simp only [start, startExpansion, hp])
  · rw [hp] at hd
    match programs with
    | [p] => exact .of_job (by simp only [start, startExpansion, hp]) (ends_evaluateHere hc p true t (hd.trans hs))
    | [] | _ :: _ :: _ => exact .of_report (by simp only [start, startExpansion, hp])

/-! ### Commands -/

theorem ends_callFunction {s : State κ ω} (hs : s.depth = depth) (bound : Nat) {name : String} {arguments : List String}
    {f : ScriptFunction} (hf : s.callee name arguments.length = .ok (.script f)) :
    Ends cfg host (.invoke bound name arguments) s (.answer (callFunction ev f s.currentFrame arguments s).1)
      (callFunction ev f s.currentFrame arguments s).2 := by
  simp only [callFunction]
  by_cases hfew : arguments.length < f.parameters.length
  · simp only [if_pos hfew]
    exact .of_report (by simp only [start, startInvocation, hf, if_pos hfew])
  · have he := ends_execute hev hc [] f.body (enterFunction f s.currentFrame arguments s).1
      (enterFunction f s.currentFrame arguments s).2 hs
    simp only [if_neg hfew]
    exact .through (by simp only [start, startInvocation, hf, if_neg hfew]; rfl) he (.resume rfl .refl)

omit hev hc in
variable (cfg host) in
/-- A way to forward an invocation that is what a host command does which asks for that. -/
def IsForwarding (depth bound : Nat) (arguments : List String) (forward : Nat → Task (State κ ω) (List String)) :
    Prop :=
  ∀ skip next (s : State κ ω), s.depth = depth →
    Leads cfg host ⟨.doing (.act bound arguments (.ask (.forward skip) next)), [], s⟩
      ⟨.doing (.act bound arguments (next (forward skip s).1)), [], (forward skip s).2⟩

omit hev hc in
theorem leads_ask {bound : Nat} {arguments : List String} {action : Action ω} {job : Job ω}
    {next : Except Failure (List String) → Action ω} {result : Except Failure (List String)} {s t : State κ ω}
    (h : start cfg host s (.act bound arguments action) = (.doing job, [.host bound arguments next], s))
    (he : Ends cfg host job s (.answer result) t) :
    Leads cfg host ⟨.doing (.act bound arguments action), [], s⟩
      ⟨.doing (.act bound arguments (next result)), [], t⟩ := by
  refine .head ?_ (.trans (he.before [.host bound arguments next]) (Leads.resume rfl .refl))
  simp only [Moment.next?, h, Moment.before, List.nil_append, List.append_nil]

/-- A request is answered before the host command goes on. -/
theorem leads_answer {bound : Nat} {arguments : List String} {forward : Nat → Task (State κ ω) (List String)}
    (hf : IsForwarding cfg host depth bound arguments forward) (request : Request)
    (next : Except Failure (List String) → Action ω) (s : State κ ω) (hs : s.depth = depth) :
    let r := answer cfg ev forward request s
    Leads cfg host ⟨.doing (.act bound arguments (.ask request next)), [], s⟩
      ⟨.doing (.act bound arguments (next r.1)), [], r.2⟩ := by
  cases request with
  | run source file =>
    have he := ends_runScript hev hc (.text source) file 0 none s hs
    exact .head rfl (.trans (he.before [.ran, .host bound arguments next]) (Leads.resume rfl (Leads.resume rfl .refl)))
  | measure source =>
    have he := ends_runScript hev hc (.text source) none 0 (some {}) s hs
    refine .head rfl (.trans (he.before [.measured, .host bound arguments next]) ?_)
    simp only [answer]
    rcases runScript cfg ev (.text source) none 0 (some {}) s with ⟨failure | results, counted, t⟩
    · exact Leads.resume rfl (Leads.resume rfl .refl)
    · exact Leads.resume rfl (Leads.resume rfl .refl)
  | expand source => exact leads_ask rfl (ends_expandScript hc (.text source) none s hs)
  | forward skip => exact hf skip next s hs
  | define name parameters body => exact .single rfl
  | lookup name => exact .single rfl

theorem ends_act {bound : Nat} {arguments : List String} {forward : Nat → Task (State κ ω) (List String)}
    (hf : IsForwarding cfg host depth bound arguments forward)
    (hkeep : ∀ skip (s : State κ ω), s.KeepsOuter (forward skip s).2) (action : Action ω) (s : State κ ω)
    (hs : s.depth = depth) :
    Ends cfg host (.act bound arguments action) s (.answer (performAction cfg ev forward action s).1)
      (performAction cfg ev forward action s).2 := by
  induction action generalizing s with
  | finish | fail => exact .of_report rfl
  | update change next ih => exact .of_job rfl (ih { s with host := change s.host } hs)
  | ask request next ih =>
    have hd := (answer_keeps hev cfg hkeep request s).depth
    exact (leads_answer hev hc hf request next s hs).trans (ih _ _ (hd.trans hs))

theorem ends_invokeWith {bound : Nat} {arguments : List String} {forward : Nat → Task (State κ ω) (List String)}
    (hf : IsForwarding cfg host depth bound arguments forward)
    (hkeep : ∀ skip (s : State κ ω), s.KeepsOuter (forward skip s).2) (name : String) (s : State κ ω)
    (hs : s.depth = depth) :
    Ends cfg host (.invoke bound name arguments) s (.answer (invokeWith cfg host ev forward name arguments s).1)
      (invokeWith cfg host ev forward name arguments s).2 := by
  simp only [invokeWith]
  rcases hcallee : s.callee name arguments.length with failure | b | f | key
  · exact .of_report (by simp only [start, startInvocation, hcallee])
  · exact .of_report (by simp only [start, startInvocation, hcallee])
  · exact ends_callFunction hev hc hs bound hcallee
  · exact .of_job (by simp only [start, startInvocation, hcallee]) (ends_act hev hc hf hkeep _ s hs)

theorem ends_invokeWithin (bound : Nat) (name : String) (arguments : List String) (s : State κ ω)
    (hs : s.depth = depth) :
    Ends cfg host (.invoke bound name arguments) s (.answer (invokeWithin cfg host ev bound name arguments s).1)
      (invokeWithin cfg host ev bound name arguments s).2 := by
  induction bound generalizing name arguments s with
  | zero =>
    refine ends_invokeWith hev hc ?_ (fun _ s => (State.Keeps.refl s).outer) name s hs
    intro skip next s _
    exact .single rfl
  | succ bound ih =>
    refine ends_invokeWith hev hc ?_ (fun skip s => ?_) name s hs
    · intro skip next s hs
      cases hdrop : arguments.drop skip with
      | nil => exact .single (by simp only [Moment.next?, start, act, hdrop, List.append_nil])
      | cons name rest =>
        simp only [hdrop]
        exact leads_ask (by simp only [start, act, hdrop]) (ih name rest s hs)
    · cases arguments.drop skip with
      | nil => exact (State.Keeps.refl s).outer
      | cons name rest => exact invokeWithin_keeps hev cfg host bound name rest s

/-! ### Evaluations -/

omit hev hc in
theorem surroundings_invoke (scope : Scope) (name : Option String) (arguments : List String) (s : State κ ω) :
    (surroundings cfg host ev scope).invoke name arguments s =
      ((Session.invoke cfg host ev (name.getD "") arguments s).1.map .texts,
        (Session.invoke cfg host ev (name.getD "") arguments s).2) := by
  simp only [surroundings]
  split <;> rename_i h <;> rw [h] <;> rfl

omit hc in
/-- Executing an instruction leaves the nesting as it was. -/
theorem execute_depth (scope : Scope) (onlyResolve isLast : Bool) (i : Instruction) (held : Stacks String)
    (s : State κ ω) (hs : s.depth = depth) :
    (Machine.execute (surroundings cfg host ev scope) onlyResolve isLast i held s).2.depth = depth := by
  have observed (notice : Notice) (t : State κ ω) (h : t.depth = depth) :
      ((surroundings cfg host ev scope).observe notice t).depth = depth := h
  refine execute_maintains observed (fun name arguments t h => ?_) onlyResolve isLast i held s hs
  rw [surroundings_invoke]
  exact (invokeWithin_keeps hev cfg host arguments.length _ arguments t).depth.trans h

/-- A run of the machine, begun at any instruction, ends the evaluation it belongs to. -/
theorem leads_finish (e : Evaluation) (s : State κ ω) (hs : s.depth = depth) :
    let r := runFrom (surroundings cfg host ev e.scope) e.onlyResolve e.step e.held e.rest s
    Leads cfg host ⟨.doing (.goOn e), [], s⟩ ⟨(e.finish r.1 r.2).1, [], (e.finish r.1 r.2).2⟩ := by
  obtain ⟨p, scope, onlyResolve, step, held, rest⟩ := e
  induction rest generalizing s step held with
  | nil => exact .single rfl
  | cons i rest ih =>
    let e : Evaluation := ⟨p, scope, onlyResolve, step, held, i :: rest⟩
    let w := surroundings cfg host ev scope
    let s₁ := w.observe (.stepping step (i :: rest) held) s
    -- whatever the instruction leads to, the rest of the run follows
    have settled : let r := runFrom w onlyResolve step held (i :: rest) s
        let x := Machine.execute w onlyResolve rest.isEmpty i held s₁
        Leads cfg host ⟨(e.settle i rest x).1, [], (e.settle i rest x).2⟩
          ⟨(e.finish r.1 r.2).1, [], (e.finish r.1 r.2).2⟩ := by
      have hdepth : (Machine.execute w onlyResolve rest.isEmpty i held s₁).2.depth = depth :=
        execute_depth hev scope onlyResolve rest.isEmpty i held s₁ hs
      simp only [runFrom]
      rcases hx : Machine.execute w onlyResolve rest.isEmpty i held s₁ with ⟨failure | st | arguments, t⟩
      · exact .refl
      · rw [hx] at hdepth
        exact ih t hdepth (step + 1) st
      · exact .refl
    cases hd : dispatched? onlyResolve i held with
    | none =>
      refine .head ?_ settled
      rw [execute_undispatched hd fun _ _ _ => ((Except.ok [] : Except Failure (List String)).map .texts, s)]
      simp only [Moment.next?, start, goOn, hd]
      rfl
    | some arguments =>
      let s₂ := w.observe (.dispatching i.commandLabel arguments) s₁
      have he := ends_invokeWithin hev hc arguments.length (i.name.getD "") arguments s₂ hs
      refine .head ?_ (.trans (he.before [.command e]) (Leads.resume ?_ settled))
      · simp only [Moment.next?, start, goOn, hd]
        rfl
      · rw [execute_dispatched hd s₁
          (invokeWithin cfg host ev arguments.length (i.name.getD "") arguments s₂).2, surroundings_invoke]
        rfl

end Evaluators

theorem evaluatorAt_isKeeping (cfg : Config) (host : Host κ ω) : ∀ depth, IsKeeping (evaluatorAt cfg host depth)
  | 0 => evaluate_isKeeping cfg host
  | _ + 1 => evaluator_isKeeping cfg host _

theorem evaluatorAt_refused {p : Program} {s : State κ ω} (h : cfg.maxDepth ≤ s.depth) (frame : Frame)
    (onlyResolve : Bool) : evaluatorAt cfg host s.depth p frame onlyResolve s =
      (.error (refusal cfg s.depth p), frame, s) := by
  cases hd : s.depth with
  | zero =>
    rw [hd] at h
    have hroom : cfg.maxDepth.toNat = 0 := by omega
    have hfits : ¬largestStack < stackAtRest + cfg.maxDepth * callsPerLevel := by
      unfold largestStack stackAtRest callsPerLevel
      omega
    simp only [evaluatorAt, Session.evaluate, if_neg hfits, hroom, evaluator, hd, refusal]
  | succ depth =>
    rw [hd] at h
    have hroom : (cfg.maxDepth - (depth + 1 : Nat)).toNat = 0 := by omega
    simp only [evaluatorAt, hroom, evaluator, hd, refusal]

theorem evaluatorAt_begun {p : Program} {s : State κ ω} (h : ¬cfg.maxDepth ≤ s.depth)
    (hfits : ¬(s.depth = 0 ∧ largestStack < stackAtRest + cfg.maxDepth * callsPerLevel)) (frame : Frame)
    (onlyResolve : Bool) :
    let r := Machine.run (surroundings cfg host (evaluatorAt cfg host (s.depth + 1)) frame.scope) onlyResolve
      p.instructions { s with frames := frame :: s.frames, depth := s.depth + 1 }
    evaluatorAt cfg host s.depth p frame onlyResolve s =
      (r.1.mapError (reportExhaustion r.2.depth p), r.2.currentFrame,
        { r.2 with frames := r.2.frames.tail, depth := r.2.depth - 1 }) := by
  cases hd : s.depth with
  | zero =>
    rw [hd] at h hfits
    have hroom : cfg.maxDepth.toNat = (cfg.maxDepth - (0 + 1 : Nat)).toNat + 1 := by omega
    simp only [evaluatorAt, Session.evaluate, if_neg fun ht => hfits ⟨rfl, ht⟩]
    rw [hroom]
    simp only [evaluator, hd]
  | succ depth =>
    rw [hd] at h
    have hroom : (cfg.maxDepth - (depth + 1 : Nat)).toNat = (cfg.maxDepth - (depth + 1 + 1 : Nat)).toNat + 1 := by
      omega
    simp only [evaluatorAt]
    rw [hroom]
    simp only [evaluator, hd]

/-- Step by step, evaluations end as the evaluator says. -/
theorem carries_evaluatorAt (depth : Nat) : Carries cfg host depth (evaluatorAt cfg host depth) := by
  -- by how deep evaluations may still nest
  induction hroom : (cfg.maxDepth - depth).toNat generalizing depth with
  | zero =>
    rintro p frame onlyResolve s rfl
    have h : cfg.maxDepth ≤ s.depth := by omega
    rw [evaluatorAt_refused h]
    exact .of_report (by simp only [start, startEvaluation, if_pos h])
  | succ room ih =>
    rintro p frame onlyResolve s rfl
    have h : ¬cfg.maxDepth ≤ s.depth := by omega
    by_cases hfits : s.depth = 0 ∧ largestStack < stackAtRest + cfg.maxDepth * callsPerLevel
    · rw [hfits.1]
      simp only [evaluatorAt, Session.evaluate, if_pos hfits.2]
      exact .of_report (by simp only [start, startEvaluation, if_neg h, if_pos hfits])
    · rw [evaluatorAt_begun h hfits]
      have hrun := leads_finish (evaluatorAt_isKeeping cfg host (s.depth + 1)) (ih (s.depth + 1) (by omega))
        (.ofProgram p frame.scope onlyResolve) { s with frames := frame :: s.frames, depth := s.depth + 1 } rfl
      refine .head ?_ hrun
      simp only [Moment.next?, start, startEvaluation, if_neg h, if_neg hfits]
      rfl

end CommandScript.Running
