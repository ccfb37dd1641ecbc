import CommandScript.Proofs.Running.Agreement
import CommandScript.Proofs.Comparing.Moments

/-! Runs side by side. Two runs that begin alike go on alike, step by step, and so they end alike, as long as no host
command is told of a failure and goes on otherwise than with one that looks the same. -/

namespace CommandScript.Running

open Text Syntax Code Command Machine Session

variable {κ ω : Type} {v : View} {counted : Bool} {cfg cfg' : Config} {host : Host κ ω} {m m' : Moment κ ω}

/-- A report, if one is made, is no failure that a host command tells from one that looks the same. -/
def Moment.Heeds (v : View) (m : Moment κ ω) : Prop :=
  ∀ r w ws, m.stage = .reporting r → m.waiting = w :: ws → w.Heeds v r

/-! ### Steps -/

theorem seenWaiting_seenWaiting (ws : List (Waiting ω)) :
    seenWaiting v counted (seenWaiting v counted ws) = seenWaiting v counted ws := by
  induction ws with
  | nil => rfl
  | cons w ws ih => simp only [seenWaiting, ih, countsWithin_seenWaiting, Waiting.seenBy_seenBy]

/-- A moment as it looks goes on like the moment. -/
theorem next?_seen (hcfg : cfg.Alike v cfg') {t : State κ ω} (h : m.state.Alike v (countsWithin counted m.waiting) t)
    (hm : m.Heeds v) : Option.Rel (Moment.Alike v counted) (m.next? cfg host)
      (Moment.next? cfg' host ⟨m.stage.seenBy v, seenWaiting v counted m.waiting, t⟩) := by
  obtain ⟨stage, waiting, s⟩ := m
  match stage, waiting with
  | .doing job, waiting =>
    have hbegun := begun_alike h hcfg host job
    exact .some (hbegun.before (seenWaiting_seenWaiting waiting).symm)
  | .reporting report, [] => exact .none
  | .reporting report, w :: waiting =>
    have hresume := resume_alike hcfg host (hm report w waiting rfl rfl) h
    simp only [Moment.next?, Stage.seenBy, seenWaiting]
    generalize resume cfg host s w report = x at hresume ⊢
    generalize resume cfg' host t _ _ = y at hresume ⊢
    cases hresume with
    | none => exact .none
    | some hnext => exact .some (hnext.before (seenWaiting_seenWaiting waiting).symm)

/-- Moments that are alike go on alike. -/
theorem Moment.Alike.next (h : m.Alike v counted m') (hcfg : cfg.Alike v cfg') (hm : m.Heeds v) (hm' : m'.Heeds v) :
    Option.Rel (Moment.Alike v counted) (m.next? cfg host) (m'.next? cfg' host) := by
  -- Both go on like the moment that is as they look, in the state of the second.
  have hseen : Option.Rel _ (m.next? cfg host) _ := next?_seen hcfg h.state hm
  have hseen' : Option.Rel _ (m'.next? cfg' host) _ := next?_seen (.refl cfg') (h.symm.trans h).state hm'
  rw [h.stage, h.waiting] at hseen
  generalize m.next? cfg host = x at hseen ⊢
  generalize m'.next? cfg' host = y at hseen' ⊢
  generalize Moment.next? cfg' host _ = z at hseen hseen'
  cases hseen with
  | none =>
    cases hseen'
    exact .none
  | some hx =>
    cases hseen' with
    | some hy => exact .some (hx.trans hy.symm)

/-! ### Runs -/

section Runs

variable (hcfg : cfg.Alike v cfg') (hm : ∀ n, Leads cfg host m n → n.Heeds v)
  (hm' : ∀ n, Leads cfg' host m' n → n.Heeds v)
include hcfg hm hm'

theorem Moment.Alike.leads (h : m.Alike v counted m') {n : Moment κ ω} (hleads : Leads cfg host m n) :
    ∃ n', Leads cfg' host m' n' ∧ n.Alike v counted n' := by
  induction hleads with
  | refl => exact ⟨m', .refl, h⟩
  | tail hleads hstep ih =>
    obtain ⟨n, hleads', hn⟩ := ih
    have hnext : Option.Rel _ (Moment.next? cfg host _) (n.next? cfg' host) :=
      hn.next hcfg (hm _ hleads) (hm' _ hleads')
    rw [hstep] at hnext
    generalize hx : n.next? cfg' host = x at hnext
    cases hnext with
    | some hnext => exact ⟨_, hleads'.tail hx, hnext⟩

/-- Runs that begin alike end alike. -/
theorem Moment.Alike.ends (h : m.Alike v counted m') {last last' : Moment κ ω} (hlast : Leads cfg host m last)
    (hend : last.next? cfg host = none) (hlast' : Leads cfg' host m' last') (hend' : last'.next? cfg' host = none) :
    last.Alike v counted last' := by
  obtain ⟨n, hn, halike⟩ := h.leads hcfg hm hm' hlast
  have hnext : Option.Rel _ (last.next? cfg host) (n.next? cfg' host) := halike.next hcfg (hm _ hlast) (hm' _ hn)
  rw [hend] at hnext
  generalize hx : n.next? cfg' host = x at hnext
  cases hnext
  rw [hlast'.end_unique hn hend' hx]
  exact halike

end Runs

end CommandScript.Running
