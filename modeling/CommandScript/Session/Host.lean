import CommandScript.Command.Value
import CommandScript.Failure

/-! Commands that the program around a session provides. Such a command may keep a state of its own and may ask the
session to do something before it answers. -/

namespace CommandScript.Session

open Text Command

/-- What a host command can ask for. Every answer is a list of texts. -/
inductive Request where
  /-- Runs a script. -/
  | run (source : String) (file : Option String)
  /-- Runs a script with statistics of its own, and answers its numbers of calls and steps. -/
  | measure (source : String)
  /-- Resolves the arguments of a single invocation. -/
  | expand (source : String)
  /-- Invokes the command that the host command's own arguments name behind the first `skip`, on those that follow. -/
  | forward (skip : Nat)
  | define (function : String) (parameters : List String) (body : String)
  | lookup (name : String)

/-- What a host command does, given answers to what it asks. -/
inductive Action (ω : Type) where
  | finish (value : Value)
  | fail (failure : Failure)
  | update (change : ω → ω) (next : Action ω)
  | ask (request : Request) (next : Except Failure (List String) → Action ω)

/-- Asks, and fails if that fails. -/
def Action.request {ω : Type} (request : Request) (next : List String → Action ω) : Action ω :=
  .ask request fun
    | .ok answer => next answer
    | .error failure => .fail failure

/-- The invocation that a host command answers. -/
structure HostCall where
  arguments : List String
  function : Option String
  location : Option Location
  depth : Nat

/-- The commands of a host, by what they are told apart. -/
abbrev Host (κ ω : Type) := κ → HostCall → Action ω

end CommandScript.Session
