import CommandScript.Proofs.Running.Frames
import CommandScript.Proofs.Running.Sequencing

/-! What a call returns. The moments of its body are gone through in order. A `return` counts for the call if it is
dispatched while the frame of the call is the current one, and then some program of the body is being evaluated. That is
gone on with to its end; no other is begun. -/

namespace CommandScript.Running

open Text Syntax Code Command Machine Session

variable {κ ω : Type} {cfg : Config} {host : Host κ ω}

/-! ### From one moment to another -/

variable (cfg host) in
/-- The moments from one to another that it leads to, without the last. -/
inductive Visits : Moment κ ω → List (Moment κ ω) → Moment κ ω → Prop where
  | refl {m : Moment κ ω} : Visits m [] m
  | step {m m' last : Moment κ ω} {ms : List (Moment κ ω)} (hstep : m.next? cfg host = some m')
    (h : Visits m' ms last) : Visits m (m :: ms) last

theorem Leads.visits {m last : Moment κ ω} (h : Leads cfg host m last) : ∃ ms, Visits cfg host m ms last := by
  induction h using Relation.ReflTransGen.head_induction_on with
  | refl => exact ⟨[], .refl⟩
  | head hstep _ ih =>
    obtain ⟨ms, hms⟩ := ih
    exact ⟨_, .step hstep hms⟩

namespace Visits

variable {m m' last : Moment κ ω} {ms before after : List (Moment κ ω)}

theorem at_mid (h : Visits cfg host m (before ++ m' :: after) last) :
    Visits cfg host m before m' ∧ Visits cfg host m' (m' :: after) last := by
  induction before generalizing m with
  | nil =>
    cases h with
    | step hstep h => exact ⟨.refl, .step hstep h⟩
  | cons _ before ih =>
    cases h with
    | step hstep h =>
      obtain ⟨hbefore, hafter⟩ := ih h
      exact ⟨.step hstep hbefore, hafter⟩

theorem append (h : Visits cfg host m before m') (h' : Visits cfg host m' after last) :
    Visits cfg host m (before ++ after) last := by
  induction h with
  | refl => exact h'
  | step hstep _ ih => exact .step hstep (ih h')

/-- There is one next moment at most, so what leads to an end passes through all that a moment leads to. -/
theorem exists_rest (h : Visits cfg host m ms last) (hend : last.next? cfg host = none) {ms' : List (Moment κ ω)}
    (h' : Visits cfg host m ms' m') : ∃ rest, ms = ms' ++ rest ∧ Visits cfg host m' rest last := by
  induction h' generalizing ms with
  | refl => exact ⟨ms, rfl, h⟩
  | step hstep _ ih =>
    cases h with
    | refl =>
      rw [hend] at hstep
      cases hstep
    | step hstep' h =>
      rw [hstep] at hstep'
      obtain rfl := Option.some.inj hstep'
      obtain ⟨rest, rfl, hrest⟩ := ih h
      exact ⟨rest, rfl, hrest⟩

/-- Where something waits, something has waited ever since a last moment at which nothing did, if there was one. -/
theorem exists_last_bare (h : Visits cfg host m ms last) (hlast : last.waiting ≠ []) :
    (∀ x ∈ ms, x.waiting ≠ []) ∨ ∃ before m₀ m₁ during, ms = before ++ m₀ :: during ∧ m₀.waiting = [] ∧
      m₀.next? cfg host = some m₁ ∧ Visits cfg host m₁ during last ∧ ∀ x ∈ during, x.waiting ≠ [] := by
  induction h with
  | refl => exact .inl (by simp)
  | step hstep h ih =>
    -- the last such moment of the rest, if there is one, and else this one
    rename_i m m' last ms
    rcases ih hlast with hall | ⟨before, m₀, m₁, during, rfl, hrest⟩
    · by_cases hm : m.waiting = []
      · exact .inr ⟨[], m, m', ms, rfl, hm, hstep, h, hall⟩
      · exact .inl (List.forall_mem_cons.2 ⟨hm, hall⟩)
    · exact .inr ⟨m :: before, m₀, m₁, during, rfl, hrest⟩

/-- Where something waits all along, a moment right after which nothing does is yet to come. -/
theorem comes_after {next x : Moment κ ω} {during inside rest : List (Moment κ ω)} (h : Visits cfg host next rest last)
    (hnext : next.waiting = []) (hms : during ++ m :: after = inside ++ x :: rest) (hne : m ≠ x)
    (hduring : ∀ y ∈ during, y.waiting ≠ []) (hm : m.waiting ≠ []) : ∃ during', after = during' ++ x :: rest := by
  rcases List.append_eq_append_iff.1 hms with ⟨during', -, htail⟩ | ⟨beyond, rfl, htail⟩
  · cases during' with
    | nil => exact absurd (List.cons_eq_cons.1 htail).1 hne
    | cons _ during' => exact ⟨during', (List.cons_eq_cons.1 htail).2⟩
  · -- otherwise something would wait in the next moment
    cases beyond with
    | nil => exact absurd (List.cons_eq_cons.1 htail).1.symm hne
    | cons _ beyond =>
      obtain ⟨rfl, rfl⟩ := List.cons_eq_cons.1 htail
      cases beyond with
      | nil =>
        cases h
        exact absurd hnext hm
      | cons =>
        cases h
        exact absurd hnext (hduring _ (by simp))

end Visits

/-! ### The body of a call -/

/-- A moment at which a program is about to be evaluated. -/
def Moment.Evaluates (m : Moment κ ω) : Prop := ∃ p frame onlyResolve, m.stage = .doing (.evaluate p frame onlyResolve)

/-- The arguments of every `return` that is dispatched in the frame of the call, in order. -/
def returned (own : Nat) (ms : List (Moment κ ω)) : List (List String) := ms.filterMap (Moment.returns? own)

variable {own : Nat} {results : List (List String)} {m m' : Moment κ ω} {ms : List (Moment κ ω)}

theorem Tracked.visits (hm : Tracked own results m) (h : Visits cfg host m ms m') :
    Tracked own (results ++ returned own ms) m' := by
  induction h generalizing results with
  | refl => exact (List.append_nil results).symm ▸ hm
  | step hstep _ ih =>
    rename_i m _ _ ms _
    have hcons : returned own (m :: ms) = (m.returns? own).toList ++ returned own ms := by
      unfold returned
      cases hr : m.returns? own <;> simp [hr]
    rw [hcons, ← List.append_assoc]
    exact ih (hm.next hstep)

/-- Where nothing waits, it is the body that is executed, and its frame has returned if anything was returned to it. -/
theorem Tracked.bare (hm : Tracked own results m) (hw : m.waiting = []) : ∃ (frame : Frame) (t : State κ ω),
    frame.result = results.getLast?.getD [] ∧ frame.returned = !results.isEmpty ∧
      ((∃ outcome ps, m = ⟨.doing (.execute outcome ps frame), [], t⟩) ∨
        ∃ result, m = ⟨.reporting (.execution result frame), [], t⟩) := by
  obtain ⟨stage, waiting, s⟩ := m
  obtain ⟨-, -, hunderway, hreturned⟩ := hm
  obtain rfl : waiting = [] := hw
  dsimp only at hunderway hreturned
  generalize s.frames = frames at hunderway hreturned
  cases hunderway with
  | execute h hf =>
    cases h
    obtain ⟨hresult, hret⟩ := (Returned.head_iff hf).1 hreturned
    exact ⟨_, s, hresult, hret, .inl ⟨_, _, rfl⟩⟩
  | executed h hf =>
    cases h
    obtain ⟨hresult, hret⟩ := (Returned.head_iff hf).1 hreturned
    exact ⟨_, s, hresult, hret, .inr ⟨_, rfl⟩⟩
  | runScript h | expandScript h | evaluateHere h | evaluate h | goOn h | invoke h | act h => cases h
  | answered h | evaluated h | scripted h => cases h

/-- The next program is evaluated if the frame has not returned, and if it does not open a block without an end. -/
theorem startProgram_cons {frame : Frame} (hret : ¬frame.returned) {p : Program} {ps : List Program}
    (hp : p.opensFunction → (splitBlock 0 ps).isSome) (outcome : List String) : ∃ frame' onlyResolve w,
      startProgram (ω := ω) outcome (p :: ps) frame = (.doing (.evaluate p frame' onlyResolve), [w]) := by
  simp only [startProgram, if_neg hret]
  split
  · rename_i hopens
    obtain ⟨⟨body, rest⟩, hsplit⟩ := Option.isSome_iff_exists.1 (hp hopens)
    rw [hsplit]
    exact ⟨_, _, _, rfl⟩
  · exact ⟨_, _, _, rfl⟩

/-- Nothing else is waited for. -/
theorem startProgram_waits {outcome : List String} {ps : List Program} {frame : Frame}
    (h : (startProgram (ω := ω) outcome ps frame).2 ≠ []) : ∃ p rest frame' onlyResolve w, ps = p :: rest ∧
      startProgram (ω := ω) outcome ps frame = (.doing (.evaluate p frame' onlyResolve), [w]) := by
  cases ps with
  | nil => exact absurd rfl h
  | cons p ps =>
    by_cases hret : frame.returned
    · simp only [startProgram, if_pos hret] at h
      exact absurd rfl h
    · by_cases hp : p.opensFunction → (splitBlock 0 ps).isSome
      · obtain ⟨frame', onlyResolve, w, hstart⟩ := startProgram_cons (ω := ω) hret hp outcome
        exact ⟨p, ps, frame', onlyResolve, w, rfl, hstart⟩
      · obtain ⟨hopens, hsplit⟩ := Classical.not_imp.1 hp
        rw [Option.not_isSome_iff_eq_none] at hsplit
        simp only [startProgram, if_neg hret, if_pos hopens, hsplit] at h
        exact absurd rfl h

theorem next?_execute (outcome : List String) (ps : List Program) (frame : Frame) (ws : List (Waiting ω))
    (s : State κ ω) : Moment.next? cfg host ⟨.doing (.execute outcome ps frame), ws, s⟩ =
      some ⟨(startProgram outcome ps frame).1, (startProgram outcome ps frame).2 ++ ws, s⟩ := rfl

/-- If something waits then, it is for the evaluation of the next program of the body. -/
theorem Tracked.begins {m₀ m₁ : Moment κ ω} (hm : Tracked own results m₀) (hw : m₀.waiting = [])
    (h : m₀.next? cfg host = some m₁) (hw₁ : m₁.waiting ≠ []) : ∃ outcome p ps frame₀ frame onlyResolve w t,
      m₀ = ⟨.doing (.execute outcome (p :: ps) frame₀), [], t⟩ ∧
      m₁ = ⟨.doing (.evaluate p frame onlyResolve), [w], t⟩ := by
  obtain ⟨frame₀, t, -, -, ⟨outcome, ps, rfl⟩ | ⟨result, rfl⟩⟩ := hm.bare hw
  · rw [next?_execute, Option.some.injEq] at h
    subst h
    rw [List.append_nil] at hw₁
    obtain ⟨p, ps, frame, onlyResolve, w, rfl, hstart⟩ := startProgram_waits hw₁
    refine ⟨outcome, p, ps, frame₀, frame, onlyResolve, w, t, rfl, ?_⟩
    rw [hstart]
    rfl
  · cases h

theorem startProgram_returned {frame : Frame} (h : frame.returned) (outcome : List String) (ps : List Program) :
    startProgram (ω := ω) outcome ps frame = (.reporting (.execution (.ok outcome) frame), []) := by
  cases ps with
  | nil => rfl
  | cons p ps => simp only [startProgram, if_pos h]

/-- Once something was returned to the frame of the call, its body is not gone on with. -/
theorem Tracked.over (hm : Tracked own results m) (hresults : results ≠ []) (hw : m.waiting = [])
    (h : Visits cfg host m ms m') : ∀ x ∈ ms, ¬x.Evaluates := by
  obtain ⟨frame, t, -, hret, ⟨outcome, ps, rfl⟩ | ⟨result, rfl⟩⟩ := hm.bare hw
  · cases h with
    | refl => exact fun x hx => absurd hx List.not_mem_nil
    | step hstep h =>
      rw [next?_execute, startProgram_returned (by simp [hret, hresults]), Option.some.injEq] at hstep
      subst hstep
      cases h with
      | refl =>
        refine List.forall_mem_singleton.2 ?_
        rintro ⟨_, _, _, ⟨⟩⟩
      | step hstep => cases hstep
  · cases h with
    | refl => exact fun x hx => absurd hx List.not_mem_nil
    | step hstep => cases hstep

/-- An evaluation that something waits for is gone on with to its end. -/
theorem Visits.evaluation_ends {last : Moment κ ω} {during after : List (Moment κ ω)} {p : Program} {frame : Frame}
    {onlyResolve : Bool} {w : Waiting ω} {t : State κ ω}
    (h : Visits cfg host ⟨.doing (.evaluate p frame onlyResolve), [w], t⟩ (during ++ m :: after) last)
    (hend : last.next? cfg host = none) (hlast : last.waiting = []) (hduring : ∀ x ∈ during, x.waiting ≠ [])
    (hm : m.waiting ≠ []) (hunder : ∀ result frame, m.stage ≠ .reporting (.evaluation result frame)) :
    let r := evaluatorAt cfg host t.depth p frame onlyResolve t
    ∃ during' next rest, after = during' ++ ⟨.reporting (.evaluation r.1 r.2.1), [w], r.2.2⟩ :: rest ∧
      Moment.next? cfg host ⟨.reporting (.evaluation r.1 r.2.1), [w], r.2.2⟩ = some next ∧ next.waiting = [] ∧
      Visits cfg host next rest last := by
  intro r
  have hends : Ends cfg host (.evaluate p frame onlyResolve) t (.evaluation r.1 r.2.1) r.2.2 :=
    carries_evaluatorAt t.depth p frame onlyResolve t rfl
  obtain ⟨inside, hinside⟩ := (hends.before [w]).visits
  obtain ⟨rest, hms, hrest⟩ := h.exists_rest hend hinside
  cases hrest with
  | refl => cases hlast
  | step hstep hrest =>
    rename_i next rest
    have hnext : next.waiting = [] := by
      obtain ⟨_, _, rfl⟩ := Option.map_eq_some_iff.1 hstep
      rfl
    have hne : m ≠ ⟨.reporting (.evaluation r.1 r.2.1), [w], r.2.2⟩ := fun heq =>
      hunder _ _ (congrArg Moment.stage heq)
    obtain ⟨during', rfl⟩ := hrest.comes_after hnext hms hne hduring hm
    exact ⟨during', next, rest, rfl, hstep, hnext, hrest⟩

/-- What is returned to the call is dispatched in its frame, and something waits for the answer. -/
theorem Tracked.dispatches (hm : Tracked own results m) (hr : (m.returns? own).isSome) :
    (∃ bound name arguments, m.stage = .doing (.invoke bound name arguments)) ∧
      Awaits own .answer m.waiting m.state.frames ∧ m.state.currentFrame.isAt own := by
  obtain ⟨stage, waiting, s⟩ := m
  have hunderway := hm.inBody.underway
  match stage with
  | .doing (.invoke bound name arguments) =>
    refine ⟨⟨_, _, _, rfl⟩, ?_, ?_⟩
    · cases hunderway with
      | invoke h => exact h
    · simp only [Moment.returns?, State.returns?] at hr
      split at hr
      · exact Option.isSome_ite.1 hr
      · cases hr
  | .doing (.runScript ..) | .doing (.expandScript ..) | .doing (.evaluateHere ..) | .doing (.execute ..)
  | .doing (.evaluate ..) | .doing (.goOn _) | .doing (.act ..) | .reporting _ => cases hr

theorem Awaits.waiting_ne_nil {ws : List (Waiting ω)} {frames : List Frame} (h : Awaits own .answer ws frames) :
    ws ≠ [] := by
  cases h with
  | host | command => exact List.cons_ne_nil _ _

theorem Tracked.elsewhere (hm : Tracked own results m) (hcall : .call ∈ m.waiting) : m.returns? own = none := by
  refine Option.not_isSome_iff_eq_none.1 fun hr => ?_
  obtain ⟨-, hawaits, hat⟩ := hm.dispatches hr
  obtain ⟨f, below, hframes, hother⟩ := hawaits.isElsewhere hcall
  rw [currentFrame_of_frames hframes, hother] at hat
  cases hat

section Body

variable {first last : Moment κ ω} (hfirst : Tracked own [] first) (h : Visits cfg host first ms last)
include hfirst h

/-- Until something is returned to its frame, the body goes on. -/
theorem body_goes_on (hlast : last.waiting = []) {before after : List (Moment κ ω)} {outcome : List String}
    {p : Program} {ps : List Program} {frame : Frame} {t : State κ ω}
    (hms : ms = before ++ ⟨.doing (.execute outcome (p :: ps) frame), [], t⟩ :: after)
    (hnone : returned own before = []) (hp : p.opensFunction → (splitBlock 0 ps).isSome) :
    ∃ frame' onlyResolve w after', after = ⟨.doing (.evaluate p frame' onlyResolve), [w], t⟩ :: after' := by
  subst hms
  obtain ⟨hbefore, hafter⟩ := h.at_mid
  have htracked := hfirst.visits hbefore
  rw [List.nil_append, hnone] at htracked
  obtain ⟨_, _, -, hret, ⟨_, _, hm⟩ | ⟨_, hm⟩⟩ := htracked.bare rfl
  · cases hm
    have hgoes : ¬frame.returned := by simp [hret]
    obtain ⟨frame', onlyResolve, w, hstart⟩ := startProgram_cons (ω := ω) hgoes hp outcome
    cases hafter with
    | step hstep hafter =>
      rw [next?_execute, hstart, Option.some.injEq] at hstep
      subst hstep
      cases hafter with
      | refl => cases hlast
      | step => exact ⟨frame', onlyResolve, w, _, rfl⟩
  · cases hm

/-- The evaluation that is under way at a moment at which something waits. -/
theorem exists_evaluation (hbare : first.waiting = []) {before after : List (Moment κ ω)}
    (hms : ms = before ++ m :: after) (hw : m.waiting ≠ []) :
    ∃ earlier outcome p ps frame₀ frame onlyResolve w t during,
      before = earlier ++ ⟨.doing (.execute outcome (p :: ps) frame₀), [], t⟩ :: during ∧
      Visits cfg host ⟨.doing (.evaluate p frame onlyResolve), [w], t⟩ during m ∧ ∀ x ∈ during, x.waiting ≠ [] := by
  subst hms
  obtain ⟨hbefore, hafter⟩ := h.at_mid
  rcases hbefore.exists_last_bare hw with hall | ⟨earlier, m₀, m₁, during, rfl, hw₀, hnext, hvisits, hduring⟩
  · cases hbefore with
    | refl => exact absurd hbare hw
    | step => exact absurd hbare (hall _ List.mem_cons_self)
  · have hw₁ : m₁.waiting ≠ [] := by
      cases hvisits with
      | refl => exact hw
      | step => exact hduring _ List.mem_cons_self
    obtain ⟨hearlier, -⟩ := hbefore.at_mid
    obtain ⟨outcome, p, ps, frame₀, frame, onlyResolve, w, t, rfl, rfl⟩ := (hfirst.visits hearlier).begins hw₀ hnext hw₁
    exact ⟨earlier, outcome, p, ps, frame₀, frame, onlyResolve, w, t, during, rfl, hvisits, hduring⟩

/-- What is returned to the frame of the call is returned by a program of its body, which is the last one. -/
theorem body_finishes (hbare : first.waiting = []) (hend : last.next? cfg host = none) (hlast : last.waiting = [])
    {before after : List (Moment κ ω)} (hms : ms = before ++ m :: after) (hr : (m.returns? own).isSome) :
    ∃ earlier outcome p ps frame₀ frame onlyResolve w t during during' rest,
      let r := evaluatorAt cfg host t.depth p frame onlyResolve t
      before = earlier ++ ⟨.doing (.execute outcome (p :: ps) frame₀), [], t⟩ ::
        ⟨.doing (.evaluate p frame onlyResolve), [w], t⟩ :: during ∧
      after = during' ++ ⟨.reporting (.evaluation r.1 r.2.1), [w], r.2.2⟩ :: rest ∧
      ∀ x ∈ rest, ¬x.Evaluates := by
  obtain ⟨hbefore, hafter⟩ := Visits.at_mid (hms ▸ h)
  have hm := hfirst.visits hbefore
  obtain ⟨⟨bound, name, arguments, hstage⟩, hawaits, -⟩ := hm.dispatches hr
  have hw := hawaits.waiting_ne_nil
  obtain ⟨earlier, outcome, p, ps, frame₀, frame, onlyResolve, w, t, during, rfl, hduring, hwaits⟩ :=
    exists_evaluation hfirst h hbare hms hw
  obtain ⟨during', next, rest, rfl, hstep, hnext, hrest⟩ :=
    (hduring.append hafter).evaluation_ends hend hlast hwaits hw (by simp [hstage])
  refine ⟨earlier, outcome, p, ps, frame₀, frame, onlyResolve, w, t, during.tail, during', rest, ?_, rfl, ?_⟩
  · cases hduring with
    | refl => cases hstage
    | step => rfl
  · have hrun : Visits cfg host m ((m :: during') ++ _ :: rest) last := hafter
    refine ((hm.visits hrun.at_mid.1).next hstep).over ?_ hnext hrest
    obtain ⟨arguments, harguments⟩ := Option.isSome_iff_exists.1 hr
    simp [returned, harguments]

end Body

/-- The moments of the body of a call end by a `return` in its frame, if there is one. -/
structure EndsByReturn (cfg : Config) (host : Host κ ω) (own : Nat) (ms : List (Moment κ ω)) : Prop where
  /-- Until something is returned, the next program is evaluated if there is one. -/
  goes_on : ∀ before after outcome p ps frame t,
    ms = before ++ ⟨.doing (.execute outcome (p :: ps) frame), [], t⟩ :: after → returned own before = [] →
      (p.opensFunction → (splitBlock 0 ps).isSome) →
      ∃ frame' onlyResolve w after', after = ⟨.doing (.evaluate p frame' onlyResolve), [w], t⟩ :: after'
  /-- What is returned is returned while a program of the body is being evaluated, which comes to its end nonetheless.
  Nothing is evaluated after that. -/
  finishes : ∀ before m after, ms = before ++ m :: after → (m.returns? own).isSome →
    ∃ earlier outcome p ps frame₀ frame onlyResolve w t during during' rest,
      let r := evaluatorAt cfg host t.depth p frame onlyResolve t
      before = earlier ++ ⟨.doing (.execute outcome (p :: ps) frame₀), [], t⟩ ::
        ⟨.doing (.evaluate p frame onlyResolve), [w], t⟩ :: during ∧
      after = during' ++ ⟨.reporting (.evaluation r.1 r.2.1), [w], r.2.2⟩ :: rest ∧
      ∀ x ∈ rest, ¬x.Evaluates
  /-- Nothing is returned while a function is executed that was called from the body, at any depth. -/
  elsewhere : ∀ m ∈ ms, .call ∈ m.waiting → m.returns? own = none

theorem tracked_enterFunction (f : ScriptFunction) (caller : Frame) (arguments : List String) {s : State κ ω}
    (htop : s.top.own < s.store.maps.size) :
    let entered := enterFunction f caller arguments s
    Tracked entered.1.scope.own [] (⟨.doing (.execute [] f.body entered.1), [], entered.2⟩ : Moment κ ω) := by
  intro entered
  obtain ⟨hscope, -, hsize, -⟩ := enterFunction_scope f caller arguments s
  have hown : entered.1.scope.own = s.store.maps.size := congrArg Scope.own hscope
  have hat : entered.1.isAt entered.1.scope.own := decide_eq_true rfl
  refine ⟨hown ▸ hsize, ?_, .execute .body hat, (Returned.head_iff hat).2 ⟨rfl, rfl⟩⟩
  rw [hown]
  exact Nat.ne_of_lt htop

/-- A call with enough arguments goes through the moments of its body. If it succeeds, it yields the arguments of the
last `return` dispatched in its own frame, or nothing if there was none. The first such `return` lets the invocation end
that it is part of, and ends the body with it. Those in functions that are called on the way change nothing. -/
theorem call_yields_last_return (cfg : Config) (host : Host κ ω) (f : ScriptFunction) (caller : Frame)
    (arguments : List String) (s : State κ ω) (htop : s.top.own < s.store.maps.size) :
    let called := callFunction (evaluatorAt cfg host s.depth) f caller arguments s
    let entered := enterFunction f caller arguments s
    let own := entered.1.scope.own
    (arguments.length < f.parameters.length ∧ ∃ failure, called = (.error failure, s)) ∨
    ∃ ms result callee,
      Visits cfg host ⟨.doing (.execute [] f.body entered.1), [], entered.2⟩ ms
        ⟨.reporting (.execution result callee), [], called.2⟩ ∧
      called.1 = result.map (fun _ => (returned own ms).getLast?.getD []) ∧ EndsByReturn cfg host own ms := by
  intro called entered own
  by_cases hfew : arguments.length < f.parameters.length
  · exact .inl ⟨hfew, _, if_pos hfew⟩
  right
  let r := executeFrom (evaluatorAt cfg host s.depth) [] f.body entered.1 entered.2
  have hcalled : called = (r.1.map fun _ => r.2.1.result, r.2.2) := if_neg hfew
  have hends : Ends cfg host (.execute [] f.body entered.1) entered.2 (.execution r.1 r.2.1) r.2.2 :=
    ends_execute (evaluatorAt_isKeeping cfg host s.depth) (carries_evaluatorAt s.depth) [] f.body _ _ rfl
  obtain ⟨ms, hms⟩ := Leads.visits hends
  have hfirst := tracked_enterFunction f caller arguments htop
  obtain ⟨callee, _, hresult, -, ⟨_, _, hlast⟩ | ⟨_, hlast⟩⟩ := (hfirst.visits hms).bare rfl
  · cases hlast
  · refine ⟨ms, r.1, r.2.1, by rwa [hcalled], ?_, ?_, ?_, ?_⟩
    · obtain rfl : r.2.1 = callee := (Report.execution.inj (Stage.reporting.inj (Moment.mk.inj hlast).1)).2
      rw [hcalled]
      exact congrArg (fun values => r.1.map fun _ => values) hresult
    · intro before after outcome p ps frame t heq hnone hp
      exact body_goes_on hfirst hms rfl heq hnone hp
    · intro before m after heq hr
      exact body_finishes hfirst hms rfl rfl rfl heq hr
    · intro m hm hcall
      obtain ⟨before, after, heq⟩ := List.append_of_mem hm
      obtain ⟨hbefore, -⟩ := Visits.at_mid (heq ▸ hms)
      exact (hfirst.visits hbefore).elsewhere hcall

/-- In a body of `return(a)` and `return(b)` the first is the last one that is dispatched. -/
theorem call_yields_last_return_first :
    let s : State Empty Unit := State.initial [] [] [] ()
    let host : Host Empty Unit := fun key _ => key.elim
    let returning (text : String) : Program :=
      ⟨"return", [.literal text, .unquoted 1, .call "return" 1], none, none⟩
    let f : ScriptFunction := ⟨"f", [], [returning "a", returning "b"]⟩
    let own := (enterFunction f s.topFrame [] s).1.scope.own
    s.top.own < s.store.maps.size ∧
      ∃ ms, (returned own ms).getLast?.getD [] = ["a"] ∧ EndsByReturn {} host own ms := by
  intro s host returning f own
  have htop : s.top.own < s.store.maps.size := by decide
  refine ⟨htop, ?_⟩
  have hresult : (callFunction (evaluatorAt {} host s.depth) f s.topFrame [] s).1 = .ok ["a"] := by
    let entered := enterFunction f s.topFrame [] s
    let after : Frame := { entered.1 with result := ["a"], returned := true }
    let reply := evaluatorAt {} host s.depth (returning "a") { entered.1 with location := none } false entered.2
    have hreply : reply = (.ok [], after, reply.2.2) := rfl
    have hrun : executeFrom (evaluatorAt {} host s.depth) [] f.body entered.1 entered.2 =
        (.ok [], after, reply.2.2) := by
      refine (executeFrom_invocation (by decide) (by decide)).trans ?_
      show (match reply with
        | (.ok results, frame, s) => executeFrom _ results [returning "b"] frame s
        | (.error failure, frame, s) => (.error failure, frame, s)) = _
      rw [hreply]
      exact executeFrom_returned rfl
    exact congrArg (fun r => r.1.map fun _ => r.2.1.result) hrun
  obtain ⟨hfew, -⟩ | ⟨ms, result, callee, -, hcalled, hends⟩ := call_yields_last_return {} host f s.topFrame [] s htop
  · exact absurd hfew (Nat.not_lt_zero _)
  · rw [hresult] at hcalled
    cases result with
    | error => cases hcalled
    | ok => exact ⟨ms, (Except.ok.inj hcalled).symm, hends⟩

end CommandScript.Running
