import CommandScript.Proofs.Running.Attribution

/-! Sessions with room on the stack. If the stack can be made large enough for all levels of nesting, nothing fails
because it cannot: without host commands, that failure comes from evaluations only. Nor does the stack run out in any
other way than within an evaluation, which says so itself. -/

namespace CommandScript

open Text Syntax Code Command Machine

namespace Cause

/-- The stack is too small, and that is no failure of an evaluation. -/
def isOverflow : Cause → Bool
  | limitTooLarge | hostExhausted => true
  | _ => false

theorem isOverflow_of_isMechanical {c : Cause} (h : c.isMechanical) : c.isOverflow = false := by
  cases c with
  | limitTooLarge | hostExhausted => cases h
  | _ => rfl

end Cause

namespace Session

/-- The stack can be made large enough for all levels. -/
def Config.Fits (cfg : Config) : Prop := stackAtRest + cfg.maxDepth * callsPerLevel ≤ largestStack

end Session

namespace Running

open Session

/-- Not because the stack is too small. -/
abbrev HasRoom {α : Type} (result : Except Failure α) : Prop := FailsOnly (·.isOverflow = false) result

variable {κ ω : Type}

/-! ### Instructions -/

section Instructions

variable {σ : Type} {w : Surroundings σ} (hinvoke : ∀ name arguments s, HasRoom (w.invoke name arguments s).1)
include hinvoke

theorem dispatch_hasRoom (i : Instruction) (arguments : List String) (s : σ) :
    HasRoom (dispatch w i arguments s).1 := by
  have h := hinvoke i.name arguments (w.observe (.dispatching i.commandLabel arguments) s)
  unfold dispatch
  simp only
  split <;> rename_i heq <;> rw [heq] at h
  · exact .ok _
  · exact .error rfl
  · rename_i failure s
    have hf : failure.cause.isOverflow = false := h failure rfl
    split
    · split
      · exact .error hf
      · exact .ok _
    · exact .error hf

theorem execute_hasRoom (onlyResolve isLast : Bool) (i : Instruction) (held : Stacks String) (s : σ) :
    HasRoom (Machine.execute w onlyResolve isLast i held s).1 := by
  cases hd : dispatched? onlyResolve i held with
  | none =>
    intro f hf
    exact Cause.isOverflow_of_isMechanical (execute_undispatched_failed hd f hf)
  | some arguments =>
    obtain ⟨st, hst⟩ := execute_eq_dispatch (σ := σ) hd
    rw [hst]
    exact (dispatch_hasRoom hinvoke i arguments s).map _

theorem runFrom_hasRoom (onlyResolve : Bool) (is : List Instruction) (step : Nat) (held : Stacks String) (s : σ) :
    HasRoom (runFrom w onlyResolve step held is s).1 := by
  induction is generalizing step held s with
  | nil =>
    rw [runFrom]
    split
    · exact .ok _
    · exact .error rfl
  | cons i rest ih =>
    have h := execute_hasRoom hinvoke onlyResolve rest.isEmpty i held
      (w.observe (.stepping step (i :: rest) held) s)
    rw [runFrom]
    split <;> rename_i heq <;> rw [heq] at h
    · exact ih _ _ _
    · exact .ok _
    · rename_i failure _
      have hf : failure.cause.isOverflow = false := h failure rfl
      refine .error ?_
      unfold Failure.attributeTo
      split <;> exact hf

end Instructions

/-! ### Commands -/

theorem callee_hasRoom (s : State κ ω) (name : String) (given : Nat) : HasRoom (s.callee name given) := by
  unfold State.callee Library.get
  split <;> rename_i heq
  · split at heq <;> cases heq
    exact .error rfl
  · split <;> rename_i harity
    · unfold Entry.checkArity at harity
      split at harity <;> cases harity
      exact .error rfl
    · exact .ok _

theorem perform_hasRoom (checked : Bool) (b : Builtin) (arguments : List String) (d : Desk) :
    HasRoom (b.perform checked arguments d).1 := by
  cases b with
  | set =>
    simp only [Builtin.perform, Desk.set, Desk.writeEnvironment]
    repeat' split
    all_goals first
      | exact .ok _
      | exact .error rfl
  | unset =>
    simp only [Builtin.perform, Desk.unset]
    repeat' split
    all_goals first
      | exact .ok _
      | exact .error rfl
  | message =>
    simp only [Builtin.perform, Desk.message]
    split
    · exact .error rfl
    all_goals exact .ok _
  | returnValues => exact .ok _
  | function | endFunction => exact .error rfl

/-! ### Evaluations -/

theorem executeFrom_failsOnly (allowed : Cause → Prop) (hfault : ∀ fault, allowed (.fault fault))
    (hname : allowed .functionWithoutName) {ev : Evaluator κ ω}
    (hev : ∀ p frame onlyResolve s, FailsOnly allowed (ev p frame onlyResolve s).1) (results : List String)
    (ps : List Program) (frame : Frame) (s : State κ ω) : FailsOnly allowed (executeFrom ev results ps frame s).1 := by
  have failed {p frame onlyResolve failure frame'} {s s' : State κ ω}
      (h : ev p frame onlyResolve s = (.error failure, frame', s')) :
      FailsOnly allowed (.error failure : Except Failure (List String)) := by
    have hfailure := hev p frame onlyResolve s
    rwa [h] at hfailure
  fun_induction executeFrom ev results ps frame s with
  | case1 | case2 => exact .ok _
  | case3 => exact .error (hfault _)
  | case5 => exact .error hname
  | case4 _ _ _ _ _ _ _ _ _ _ _ _ _ h => exact failed h
  | case6 _ _ _ _ _ _ _ _ _ _ _ _ _ _ _ ih => exact ih
  | case7 _ _ _ _ _ _ _ _ _ _ _ ih => exact ih
  | case8 _ _ _ _ _ _ _ _ _ _ h => exact failed h

section Evaluations

variable {ev : Evaluator κ ω} (hev : ∀ p frame onlyResolve s, HasRoom (ev p frame onlyResolve s).1)
include hev

variable [IsEmpty κ] (cfg : Config) (host : Host κ ω)

theorem invokeWith_hasRoom (forward : Nat → Task (State κ ω) (List String)) (name : String)
    (arguments : List String) (s : State κ ω) : HasRoom (invokeWith cfg host ev forward name arguments s).1 := by
  have hcallee := callee_hasRoom s name arguments.length
  unfold invokeWith
  split <;> rename_i heq
  · rw [heq] at hcallee
    exact .error (hcallee _ rfl)
  · rename_i b
    exact perform_hasRoom cfg.processEnvironment b arguments ⟨s.currentFrame, s.store, s.record⟩
  · rename_i f
    simp only [callFunction]
    split
    · exact .error rfl
    · exact (executeFrom_failsOnly (·.isOverflow = false) (fun _ => rfl) rfl hev [] f.body _ _).map _
  · rename_i key
    exact isEmptyElim key

theorem invoke_hasRoom (name : String) (arguments : List String) (s : State κ ω) :
    HasRoom (invoke cfg host ev name arguments s).1 := by
  unfold invoke
  cases arguments.length with
  | zero => exact invokeWith_hasRoom hev cfg host _ name arguments s
  | succ => exact invokeWith_hasRoom hev cfg host _ name arguments s

end Evaluations

theorem reportExhaustion_hasRoom {result : Except Failure (List String)} (h : HasRoom result) (depth : Nat)
    (p : Program) : HasRoom (result.mapError (reportExhaustion depth p)) := by
  cases result with
  | ok results => exact .ok results
  | error failure =>
    refine .error ?_
    unfold reportExhaustion
    split
    · rfl
    · exact h failure rfl

theorem evaluator_hasRoom [IsEmpty κ] (cfg : Config) (host : Host κ ω) (remaining : Nat) (p : Program)
    (frame : Frame) (onlyResolve : Bool) (s : State κ ω) :
    HasRoom (evaluator cfg host remaining p frame onlyResolve s).1 := by
  induction remaining generalizing p frame onlyResolve s with
  | zero => exact .error rfl
  | succ remaining ih =>
    have hinvoke (name : Option String) (arguments : List String) (s : State κ ω) :
        HasRoom ((surroundings cfg host (evaluator cfg host remaining) frame.scope).invoke name arguments s).1 := by
      rw [surroundings_invoke]
      exact (invoke_hasRoom ih cfg host (name.getD "") arguments s).map _
    exact reportExhaustion_hasRoom (runFrom_hasRoom hinvoke onlyResolve p.instructions 0 {} _) _ p

/-- Without host commands the stack is too small for a run only if it is for any evaluation. -/
theorem run_overflow [IsEmpty κ] (cfg : Config) (host : Host κ ω) (source : Source) (file : Option String)
    (verbosity : Nat) (statistics : Option Statistics) (s : State κ ω) :
    FailsOnly (fun c => c.isOverflow → ¬ cfg.Fits ∧ c = .limitTooLarge)
      (s.run cfg host source file verbosity statistics).1 := by
  have hev (p : Program) (frame : Frame) (onlyResolve : Bool) (s : State κ ω) :
      FailsOnly (fun c => c.isOverflow → ¬ cfg.Fits ∧ c = .limitTooLarge)
        (Session.evaluate cfg host p frame onlyResolve s).1 := by
    unfold Session.evaluate
    split
    · rename_i hlimit
      exact .error fun _ => ⟨Int.not_le.mpr hlimit, rfl⟩
    · intro f hf hoverflow
      have hroom : f.cause.isOverflow = false :=
        evaluator_hasRoom cfg host cfg.maxDepth.toNat p frame onlyResolve s f hf
      rw [hoverflow] at hroom
      cases hroom
  have hparse : FailsOnly (fun c => c.isOverflow → ¬ cfg.Fits ∧ c = .limitTooLarge) (s.parse cfg source file).1 :=
    parse_failsOnly _ (by simp [Cause.isOverflow]) (by simp [Cause.isOverflow]) cfg source file s
  have hexecute (ps : List Program) (frame : Frame) (s : State κ ω) :
      FailsOnly (fun c => c.isOverflow → ¬ cfg.Fits ∧ c = .limitTooLarge)
        (Session.execute (Session.evaluate cfg host) ps frame s).1 :=
    executeFrom_failsOnly _ (by simp [Cause.isOverflow]) (by simp [Cause.isOverflow]) hev [] ps frame s
  simp only [State.run, runScript]
  split <;> rename_i heq <;> rw [heq] at hparse
  · exact .error (hparse _ rfl)
  · split <;> exact hexecute _ _ _

end Running
end CommandScript
