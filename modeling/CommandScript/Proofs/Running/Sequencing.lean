import CommandScript.Proofs.Session.BlockStructure
import CommandScript.Proofs.Running.Agreement

/-! Scripts one behind another. A list of programs that ends its blocks is executed as if nothing stood behind it, and
what stands behind it is executed as if it came first, in the frame and the state that are left. So an execution that
fails has done what stands in front of one program, and what that program did until it failed. -/

namespace CommandScript.Running

open Text Code Machine Session

variable {κ ω : Type} {ev : Evaluator κ ω} {results : List String} {p : Program} {ps qs body rest : List Program}
  {frame : Frame} {s : State κ ω}

/-! ### One program after another -/

/-- What stands behind the end of a block does not matter to it. -/
theorem splitBlock_append {depth : Nat} (h : splitBlock depth ps = some (body, rest)) (qs : List Program) :
    splitBlock depth (ps ++ qs) = some (body, rest ++ qs) := by
  obtain ⟨close, rfl, hclose, hinside, hcount⟩ := splitBlock_eq_some_iff.1 h
  exact splitBlock_eq_some_iff.2 ⟨close, by simp, hclose, hinside, hcount⟩

theorem executeFrom_returned (h : frame.returned) : executeFrom ev results ps frame s = (.ok results, frame, s) := by
  cases ps with
  | nil => rw [executeFrom]
  | cons p ps => rw [executeFrom, if_pos h]

theorem executeFrom_unclosed (hret : ¬frame.returned) (hp : p.opensFunction) (hs : splitBlock 0 ps = none) :
    executeFrom ev results (p :: ps) frame s = (.error { cause := .fault p.unclosedFunction }, frame, s) := by
  rw [executeFrom, if_neg hret, if_pos hp]
  split
  · rfl
  · rename_i hs'
    rw [hs] at hs'
    cases hs'

theorem executeFrom_block (hret : ¬frame.returned) (hp : p.opensFunction) (hs : splitBlock 0 ps = some (body, rest)) :
    executeFrom ev results (p :: ps) frame s =
      match ev p frame true s with
      | (.error failure, frame, s) => (.error failure, frame, s)
      | (.ok [], frame, s) =>
        (.error { cause := .functionWithoutName, name := "function", location := p.location }, frame, s)
      | (.ok (name :: parameters), frame, s) => executeFrom ev [] rest frame (s.define name parameters body) := by
  rw [executeFrom, if_neg hret, if_pos hp]
  split
  · rename_i hs'
    rw [hs] at hs'
    cases hs'
  · rename_i hs'
    rw [hs] at hs'
    cases hs'
    rfl

theorem executeFrom_invocation (hret : ¬frame.returned) (hp : ¬p.opensFunction) :
    executeFrom ev results (p :: ps) frame s =
      match ev p { frame with location := p.location } false s with
      | (.ok results, frame, s) => executeFrom ev results ps frame s
      | (.error failure, frame, s) => (.error failure, frame, s) := by
  have hstep : executeFrom ev results (p :: ps) frame s = _ := executeFrom.eq_2 ..
  rw [if_neg hret, if_neg hp] at hstep
  exact hstep

/-- The results so far are those of an execution that does nothing, and of no other. -/
theorem executeFrom_results (ev : Evaluator κ ω) (results : List String) (ps : List Program) (frame : Frame)
    (s : State κ ω) :
    executeFrom ev results ps frame s =
      if frame.returned ∨ ps = [] then (.ok results, frame, s) else executeFrom ev [] ps frame s := by
  by_cases hret : frame.returned
  · rw [if_pos (.inl hret), executeFrom_returned hret]
  · cases ps with
    | nil => rw [if_pos (.inr rfl), executeFrom]
    | cons p ps => rw [if_neg (by simp [hret]), executeFrom, executeFrom, if_neg hret, if_neg hret]

/-- By induction along the execution, which leaves out a block at a time; what it leaves ends its blocks as well. -/
theorem executeFrom_append (h : checkBlocks ps = .ok ()) (qs : List Program) (results : List String) (frame : Frame)
    (s : State κ ω) :
    executeFrom ev results (ps ++ qs) frame s =
      match executeFrom ev results ps frame s with
      | (.error failure, frame, s) => (.error failure, frame, s)
      | (.ok results, frame, s) => executeFrom ev results qs frame s := by
  fun_induction executeFrom ev results ps frame s with
  | case1 => rfl
  | case2 results p ps frame s hret =>
    rw [executeFrom_returned hret]
    exact (executeFrom_returned hret).symm
  | case3 results p ps frame s hret hp hs =>
    rw [checkBlocks_of_unended hp hs] at h
    cases h
  | case4 results p ps frame s hret hp body rest hs failure _ _ hev =>
    rw [List.cons_append, executeFrom_block hret hp (splitBlock_append hs qs), hev]
  | case5 results p ps frame s hret hp body rest hs _ _ hev =>
    rw [List.cons_append, executeFrom_block hret hp (splitBlock_append hs qs), hev]
  | case6 results p ps frame s hret hp body rest hs name parameters _ _ hev ih =>
    rw [List.cons_append, executeFrom_block hret hp (splitBlock_append hs qs), hev]
    rw [checkBlocks_of_ended hp hs] at h
    exact ih h
  | case7 results p ps frame s hret hp _ _ _ hev ih =>
    rw [List.cons_append, executeFrom_invocation hret hp, hev]
    rw [checkBlocks, if_neg hp] at h
    exact ih h
  | case8 results p ps frame s hret hp _ _ _ hev =>
    rw [List.cons_append, executeFrom_invocation hret hp, hev]

/-! ### Where an execution fails -/

/-- How one program fails with these behind it: an invocation by itself, and a block by its header or because it never
ends. -/
inductive FailsAt (ev : Evaluator κ ω) (p : Program) (after : List Program) (frame : Frame) (s : State κ ω) :
    Failure → Frame → State κ ω → Prop where
  | invocation {failure : Failure} {frame' : Frame} {s' : State κ ω} (hp : ¬p.opensFunction)
    (h : ev p { frame with location := p.location } false s = (.error failure, frame', s')) :
    FailsAt ev p after frame s failure frame' s'
  | header {failure : Failure} {frame' : Frame} {s' : State κ ω} (hp : p.opensFunction)
    (hs : (splitBlock 0 after).isSome) (h : ev p frame true s = (.error failure, frame', s')) :
    FailsAt ev p after frame s failure frame' s'
  | nameless {frame' : Frame} {s' : State κ ω} (hp : p.opensFunction) (hs : (splitBlock 0 after).isSome)
    (h : ev p frame true s = (.ok [], frame', s')) :
    FailsAt ev p after frame s { cause := .functionWithoutName, name := "function", location := p.location } frame' s'
  | unclosed (hp : p.opensFunction) (hs : splitBlock 0 after = none) :
    FailsAt ev p after frame s { cause := .fault p.unclosedFunction } frame s

theorem FailsAt.executeFrom_eq {after : List Program} {failure : Failure} {frame' : Frame} {s' : State κ ω}
    (h : FailsAt ev p after frame s failure frame' s') (hret : ¬frame.returned) (results : List String) :
    executeFrom ev results (p :: after) frame s = (.error failure, frame', s') := by
  cases h with
  | invocation hp hev => rw [executeFrom_invocation hret hp, hev]
  | header hp hs hev =>
    obtain ⟨⟨body, rest⟩, hs⟩ := Option.isSome_iff_exists.1 hs
    rw [executeFrom_block hret hp hs, hev]
  | nameless hp hs hev =>
    obtain ⟨⟨body, rest⟩, hs⟩ := Option.isSome_iff_exists.1 hs
    rw [executeFrom_block hret hp hs, hev]
  | unclosed hp hs => rw [executeFrom_unclosed hret hp hs]

/-- An execution that fails has gone through programs that end their blocks, and failed at the next. -/
theorem exists_failsAt {failure : Failure} {frame' : Frame} {s' : State κ ω}
    (h : executeFrom ev results ps frame s = (.error failure, frame', s')) :
    ∃ before p after results₁ frame₁ s₁, ps = before ++ p :: after ∧ checkBlocks before = .ok () ∧
      executeFrom ev results before frame s = (.ok results₁, frame₁, s₁) ∧ ¬frame₁.returned ∧
      FailsAt ev p after frame₁ s₁ failure frame' s' := by
  fun_induction executeFrom ev results ps frame s with
  | case1 | case2 => cases h
  | case3 results p ps frame s hret hp hs =>
    cases h
    exact ⟨[], p, ps, _, _, _, rfl, by rw [checkBlocks], by rw [executeFrom], hret, .unclosed hp hs⟩
  | case4 results p ps frame s hret hp body rest hs _ _ _ hev =>
    cases h
    exact ⟨[], p, ps, _, _, _, rfl, by rw [checkBlocks], by rw [executeFrom], hret, .header hp (by rw [hs]; rfl) hev⟩
  | case5 results p ps frame s hret hp body rest hs _ _ hev =>
    cases h
    exact ⟨[], p, ps, _, _, _, rfl, by rw [checkBlocks], by rw [executeFrom], hret, .nameless hp (by rw [hs]; rfl) hev⟩
  | case6 results p ps frame s hret hp body rest hs name parameters _ _ hev ih =>
    obtain ⟨before, q, after, _, _, _, rfl, hbefore, hdone, hret', hfails⟩ := ih h
    obtain ⟨close, rfl, hclose, hbody⟩ := splitBlock_zero_iff.1 hs
    have hs' : splitBlock 0 (body ++ close :: before) = some (body, before) :=
      splitBlock_zero_iff.2 ⟨close, rfl, hclose, hbody⟩
    refine ⟨p :: (body ++ close :: before), q, after, _, _, _, by simp, ?_, .trans ?_ hdone, hret', hfails⟩
    · rw [checkBlocks_of_ended hp hs', hbefore]
    · rw [executeFrom_block hret hp hs', hev]
  | case7 results p ps frame s hret hp _ _ _ hev ih =>
    obtain ⟨before, q, after, _, _, _, rfl, hbefore, hdone, hret', hfails⟩ := ih h
    refine ⟨p :: before, q, after, _, _, _, rfl, ?_, .trans ?_ hdone, hret', hfails⟩
    · rw [checkBlocks, if_neg hp, hbefore]
    · rw [executeFrom_invocation hret hp, hev]
  | case8 results p ps frame s hret hp _ _ _ hev =>
    cases h
    exact ⟨[], p, ps, _, _, _, rfl, by rw [checkBlocks], by rw [executeFrom], hret, .invocation hp hev⟩

/-! ### Executing in a session -/

/-- Executes programs in a frame of a session, however many evaluations are under way in it. -/
def executeIn (cfg : Config) (host : Host κ ω) (ps : List Program) (frame : Frame) (s : State κ ω) :
    Except Failure (List String) × Frame × State κ ω :=
  Session.execute (evaluatorAt cfg host s.depth) ps frame s

variable {cfg : Config} {host : Host κ ω}

theorem executeIn_depth {result : Except Failure (List String)} {frame' : Frame} {s' : State κ ω}
    (h : executeIn cfg host ps frame s = (result, frame', s')) : s'.depth = s.depth := by
  have hkeeps := executeFrom_keeps (evaluatorAt_isKeeping cfg host s.depth) [] ps frame s
  have hdepth := hkeeps.depth
  rwa [show executeFrom _ [] ps frame s = (result, frame', s') from h] at hdepth

/-- Behind a list that ends its blocks and has succeeded, programs are executed as if they came first. -/
theorem executeIn_append (hps : checkBlocks ps = .ok ()) {frame₁ : Frame} {s₁ : State κ ω}
    (h : executeIn cfg host ps frame s = (.ok results, frame₁, s₁)) (qs : List Program) :
    executeIn cfg host (ps ++ qs) frame s = executeFrom (evaluatorAt cfg host s₁.depth) results qs frame₁ s₁ := by
  have happend : executeFrom (evaluatorAt cfg host s.depth) [] (ps ++ qs) frame s = _ :=
    executeFrom_append hps qs [] frame s
  rw [show executeFrom _ [] ps frame s = (.ok results, frame₁, s₁) from h] at happend
  rw [executeIn_depth h]
  exact happend

theorem executeIn_append_failed (hps : checkBlocks ps = .ok ()) {failure : Failure} {frame₁ : Frame} {s₁ : State κ ω}
    (h : executeIn cfg host ps frame s = (.error failure, frame₁, s₁)) (qs : List Program) :
    executeIn cfg host (ps ++ qs) frame s = (.error failure, frame₁, s₁) := by
  have happend : executeFrom (evaluatorAt cfg host s.depth) [] (ps ++ qs) frame s = _ :=
    executeFrom_append hps qs [] frame s
  rwa [show executeFrom _ [] ps frame s = (.error failure, frame₁, s₁) from h] at happend

/-- Programs behind a list that ends its blocks are executed behind it: not at all if it fails or returns from the
frame, and else in the frame and the state that it leaves. What fails an execution is the one program that fails where
those in front of it have led, and nothing behind that. -/
theorem executes_in_sequence (cfg : Config) (host : Host κ ω) (frame : Frame) (s : State κ ω) :
    (∀ ps qs, checkBlocks ps = .ok () →
      executeIn cfg host (ps ++ qs) frame s =
        match executeIn cfg host ps frame s with
        | (.error failure, frame, s) => (.error failure, frame, s)
        | (.ok results, frame, s) =>
          if frame.returned ∨ qs = [] then (.ok results, frame, s) else executeIn cfg host qs frame s) ∧
    ∀ ps failure frame' s', executeIn cfg host ps frame s = (.error failure, frame', s') ↔
      ∃ before p after results frame₁ s₁, ps = before ++ p :: after ∧ checkBlocks before = .ok () ∧
        executeIn cfg host before frame s = (.ok results, frame₁, s₁) ∧ ¬frame₁.returned ∧
        FailsAt (evaluatorAt cfg host s₁.depth) p after frame₁ s₁ failure frame' s' := by
  constructor
  · intro ps qs hps
    split
    · rename_i hfailed
      exact executeIn_append_failed hps hfailed qs
    · rename_i results frame₁ s₁ hdone
      rw [executeIn_append hps hdone, executeFrom_results]
      rfl
  · intro ps failure frame' s'
    constructor
    · intro h
      obtain ⟨before, p, after, results, frame₁, s₁, heq, hbefore, hdone, hret, hfails⟩ := exists_failsAt h
      refine ⟨before, p, after, results, frame₁, s₁, heq, hbefore, hdone, hret, ?_⟩
      rwa [executeIn_depth hdone]
    · rintro ⟨before, p, after, results, frame₁, s₁, rfl, hbefore, hdone, hret, hfails⟩
      rw [executeIn_append hbefore hdone]
      exact hfails.executeFrom_eq hret results

/-- A call behind a block is executed in the session in which the function is defined. -/
theorem executes_in_sequence_block :
    let s : State Empty Unit := State.initial [] [] [] ()
    let host : Host Empty Unit := fun key _ => key.elim
    let opener : Program := ⟨"function", [.literal "f", .unquoted 1, .call "function" 1], none, none⟩
    let closer : Program := ⟨"endfunction", [.call "endfunction" 0], none, none⟩
    let block : List Program := [opener, closer]
    let call : Program := ⟨"f", [.call "f" 0], none, none⟩
    checkBlocks block = .ok () ∧
      executeIn {} host (block ++ [call]) s.topFrame s = executeIn {} host [call] s.topFrame (s.define "f" [] []) := by
  intro s host opener closer block call
  have hopens : opener.opensFunction := by decide
  have hends : splitBlock 0 [closer] = some ([], []) := by decide
  have hblock : checkBlocks block = .ok () := by rw [checkBlocks_of_ended hopens hends, checkBlocks]
  have hdefined : executeIn {} host block s.topFrame s = (.ok [], s.topFrame, s.define "f" [] []) := by
    refine (executeFrom_block (by decide) hopens hends).trans ?_
    exact executeFrom.eq_1 ..
  refine ⟨hblock, ((executes_in_sequence {} host s.topFrame s).1 block [call] hblock).trans ?_⟩
  rw [hdefined]
  rfl

end CommandScript.Running
