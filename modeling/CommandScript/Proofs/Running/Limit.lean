import CommandScript.Proofs.Running.Failures

/-! The limit on how deep evaluations nest. A step asks for it only when an evaluation is to begin, and one that is
refused fails all that waits for it. So a run either never meets the limit, and is the same under any larger one, or
ends with the refusal. -/

namespace CommandScript.Running

open Text Syntax Code Command Machine Session

variable {κ ω : Type} {cfg : Config} {host : Host κ ω}

/-! ### Room for evaluations -/

theorem Leads.depth_le {m m' : Moment κ ω} (h : Leads cfg host m m') (hm : m.state.depth ≤ cfg.maxDepth) :
    m'.state.depth ≤ cfg.maxDepth := by
  induction h with
  | refl => exact hm
  | tail _ hstep ih =>
    cases next?_changes hstep with
    | stay _ _ hdepth | invoke _ _ _ _ _ _ hdepth =>
      rw [hdepth]
      exact ih
    | evaluate _ _ _ _ hroom _ hdepth => omega
    | finish _ hdepth => omega

section Larger

variable {limit : Int} (hle : cfg.maxDepth ≤ limit) (hfits : stackAtRest + limit * callsPerLevel ≤ largestStack)
include hle hfits

/-- A step that refuses nothing is the same under a larger limit. -/
theorem next?_larger {m : Moment κ ω} (hroom : ∀ p, ¬m.Refuses cfg p) :
    m.next? { cfg with maxDepth := limit } host = m.next? cfg host := by
  obtain ⟨stage, waiting, s⟩ := m
  match stage, waiting with
  | .reporting report, [] => rfl
  | .reporting report, w :: waiting => rfl
  | .doing job, waiting =>
    cases job with
    | evaluate p frame onlyResolve =>
      have h : ¬cfg.maxDepth ≤ s.depth := fun h => hroom p ⟨frame, onlyResolve, rfl, h⟩
      have h' : ¬limit ≤ s.depth := by omega
      have hfit : ¬(s.depth = 0 ∧ largestStack < stackAtRest + cfg.maxDepth * callsPerLevel) := by
        unfold callsPerLevel at hfits ⊢
        omega
      have hfit' : ¬(s.depth = 0 ∧ largestStack < stackAtRest + limit * callsPerLevel) := by omega
      simp only [Moment.next?, start, startEvaluation, if_neg h, if_neg h', if_neg hfit, if_neg hfit']
    | _ => rfl

theorem Leads.larger {m m' : Moment κ ω} (h : Leads cfg host m m')
    (hroom : ∀ m₁, Leads cfg host m m₁ → ∀ p, ¬m₁.Refuses cfg p) :
    Leads { cfg with maxDepth := limit } host m m' := by
  induction h with
  | refl => exact .refl
  | tail hlead hstep ih => exact ih.tail ((next?_larger hle hfits (hroom _ hlead)).trans hstep)

end Larger

/-! ### Whole runs -/

/-- The failure of a program whose evaluation was refused at this limit. It keeps the program's name and place if the
program has a place, and is attributed to a place that waits for it otherwise. -/
def RefusedAt (limit : Int) (p : Program) (f : Failure) : Prop :=
  f.cause = .nestingLimit limit limit.toNat p.name ∧ (p.location.isSome → f.name = p.name ∧ f.location = p.location)

/-- A refusal is what a run ends with. -/
theorem Moment.Refuses.reported (hhost : host.StaysOutside) {first m : Moment κ ω} {r : Report} {t : State κ ω}
    (hlets : LetsThrough first) (hdepth : first.state.depth ≤ cfg.maxDepth)
    (hends : Leads cfg host first ⟨.reporting r, [], t⟩) (hlead : Leads cfg host first m) {p : Program}
    (hm : m.Refuses cfg p) : ∃ f, r.result = .error f ∧ RefusedAt cfg.maxDepth p f := by
  obtain ⟨m', hstep, hreports⟩ := hm.next host
  have hlead' : Leads cfg host first m' := hlead.tail hstep
  obtain ⟨_, f, hreport, hresult, hcause, hsame⟩ :=
    (hlets.leads hhost hlead').reports hhost rfl (fun heq => Cause.noConfusion heq) hreports (hlead'.to_end hends rfl)
  obtain rfl := Stage.reporting.inj hreport
  have hlimit : m.state.depth = cfg.maxDepth.toNat := by
    have hbelow := hlead.depth_le hdepth
    obtain ⟨_, _, _, habove⟩ := hm
    omega
  refine ⟨f, hresult, ?_, fun hplace => ?_⟩
  · rw [hcause, refusal, hlimit]
  · rw [hsame hplace]
    exact ⟨rfl, rfl⟩

end CommandScript.Running
