import CommandScript.Proofs.Running.Discipline
import CommandScript.Proofs.Comparing.Runs

/-! Host commands that do not look at failures. Whatever they ask for, if it fails they go on as with any failure that
looks the same. In a session with no other host commands, nothing that happens depends on more than how failures
look. -/

namespace CommandScript

open Session

variable {v : View} {κ ω : Type}

namespace Session

variable (v) in
/-- What a host command does that cannot tell failures apart that look the same. -/
inductive Action.IsBlind : Action ω → Prop where
  | finish (value : Command.Value) : IsBlind (.finish value)
  | fail (failure : Failure) : IsBlind (.fail failure)
  | update (change : ω → ω) {next : Action ω} (h : IsBlind next) : IsBlind (.update change next)
  | ask (request : Request) {next : Except Failure (List String) → Action ω} (hnext : ∀ result, IsBlind (next result))
    (halike : ∀ failure, GoesOnAlike v next failure) : IsBlind (.ask request next)

/-- A host command is blind if it fails the way that what it asked for does. -/
theorem Action.IsBlind.request {request : Request} {next : List String → Action ω}
    (h : ∀ values, (next values).IsBlind v) : (Action.request request next).IsBlind v := by
  refine .ask request (fun result => ?_) fun failure => ?_
  · cases result with
    | ok values => exact h values
    | error failure => exact .fail failure
  · exact congrArg Action.fail failure.seenBy_seenBy.symm

variable (v) in
/-- The rules of blind host commands. -/
def blindness : Discipline ω where
  allows := Action.IsBlind v
  awaits next := (∀ result, (next result).IsBlind v) ∧ ∀ failure, GoesOnAlike v next failure
  raises _ := True
  fail _ := trivial
  update := fun (.update _ h) => h
  ask := fun (.ask _ hnext halike) => ⟨hnext, halike⟩
  answer hnext _ := hnext.1 _
  ordinary _ := trivial

end Session

namespace Running

variable {cfg : Config} {host : Host κ ω} {m m' : Moment κ ω}

theorem Moment.Obeys.heeds (hm : m.Obeys (blindness v)) : m.Heeds v := by
  intro r w ws _ hwaiting bound arguments next failure hw _
  have hblind : w.Obeys (blindness v) := hm.waiting w (hwaiting ▸ List.mem_cons_self)
  subst hw
  exact hblind.2 failure

/-- Where all host commands are blind, no moment depends on more than how failures look. -/
theorem heeds_of_leads (hhost : ∀ key call, (host key call).IsBlind v) {job : Job ω} (hjob : job.action? = none)
    {s : State κ ω} (h : Leads cfg host ⟨.doing job, [], s⟩ m) : m.Heeds v :=
  (Moment.Obeys.leads (d := blindness v) hhost (.of_job hjob s) h).heeds

end Running

end CommandScript
