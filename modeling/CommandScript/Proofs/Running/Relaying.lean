import CommandScript.Proofs.Running.Discipline

/-! Host commands that let failures pass. Whatever they ask for, if it fails then so do they, and they do not run out of
stack by themselves. So no evaluation is ever told that a host command ran out of stack. -/

namespace CommandScript

namespace Session

variable {ω : Type}

/-! ### Actions -/

/-- What a host command does that has nothing more to ask and fails in this way. -/
inductive Action.FailsWith (f : Failure) : Action ω → Prop where
  | fail : FailsWith f (.fail f)
  | update (change : ω → ω) {next : Action ω} (h : FailsWith f next) : FailsWith f (.update change next)

/-- What a host command does that lets failures of what it asks pass, and does not run out of stack by itself. -/
inductive Action.Relays : Action ω → Prop where
  | finish (value : Command.Value) : Relays (.finish value)
  | fail {failure : Failure} (h : failure.cause ≠ .hostExhausted) : Relays (.fail failure)
  | update (change : ω → ω) {next : Action ω} (h : Relays next) : Relays (.update change next)
  | ask (request : Request) {next : Except Failure (List String) → Action ω}
    (hok : ∀ values, Relays (next (.ok values)))
    (herror : ∀ failure, (next (.error failure)).FailsWith failure) : Relays (.ask request next)

theorem Action.FailsWith.relays {f : Failure} {action : Action ω} (h : action.FailsWith f)
    (hf : f.cause ≠ .hostExhausted) : action.Relays := by
  induction h with
  | fail => exact .fail hf
  | update change _ ih => exact .update change ih

/-- The rules of host commands that relay. -/
def relaying : Discipline ω where
  allows := Action.Relays
  awaits next := (∀ values, (next (.ok values)).Relays) ∧ ∀ failure, (next (.error failure)).FailsWith failure
  raises cause := cause ≠ .hostExhausted
  fail := fun (.fail h) => h
  update := fun (.update _ h) => h
  ask := fun (.ask _ hok herror) => ⟨hok, herror⟩
  answer {_ result} hnext h := match result with
    | .ok values => hnext.1 values
    | .error failure => (hnext.2 failure).relays (h failure rfl)
  ordinary := id

end Session

namespace Running

/-- A moment in which no host command is about to catch a failure. -/
abbrev Relays {κ ω : Type} (m : Moment κ ω) : Prop := m.Obeys Session.relaying

end Running

end CommandScript
