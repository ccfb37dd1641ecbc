import CommandScript.Machine.Stacks
import CommandScript.Code.Program

/-! Running instructions. The machine keeps the two stacks; variables, commands and whoever watches are outside, in
a state of any kind that only the surroundings know. -/

namespace CommandScript.Machine

open Text Syntax Code

/-- What the machine tells whoever watches it. -/
inductive Notice where
  /-- Before a step: its number, the instructions that are left, and the stacks. -/
  | stepping (step : Nat) (program : List Instruction) (held : Stacks String)
  | finished (step : Nat) (held : Stacks String)
  | dispatching (command : String) (arguments : List String)
  /-- A command refused its invocation without stopping the evaluation. -/
  | recovered (location : Option Location) (message : String)
  | undefined (location : Option Location) (name : String)
  /-- A command was dispatched and the evaluation goes on. -/
  | dispatched
  /-- All instructions of a program were executed. -/
  | completed (instructions : Nat)

/-- What a command hands back. Results must all be texts. -/
inductive Reply where
  | texts (results : List String)
  | mixed

/-- What an evaluation needs from outside. A command is invoked by the name in its instruction, if it has one. -/
structure Surroundings (σ : Type) where
  lookup : Namespace → String → σ → Option String
  invoke : Option String → List String → Task σ Reply
  observe : Notice → σ → σ

variable {σ : Type}

/-- Dispatches the command of an instruction. A refusal that is not fatal counts as no results. -/
def dispatch (w : Surroundings σ) (i : Instruction) (arguments : List String) : Task σ (List String) := fun s =>
  let s := w.observe (.dispatching i.commandLabel arguments) s
  match w.invoke i.name arguments s with
  | (.ok (.texts results), s) => (.ok results, w.observe .dispatched s)
  | (.ok .mixed, s) => (.error { cause := .nonTextResults i.commandLabel }, s)
  | (.error failure, s) =>
    if failure.cause.isRefusal then
      let failure := failure.completeFrom i
      if failure.cause.isFatal then (.error failure, s)
      else (.ok [], w.observe .dispatched (w.observe (.recovered i.location failure.cause.message) s))
    else (.error failure, s)

/-- The value of a variable reference; an undefined variable is empty. -/
def reference (w : Surroundings σ) (i : Instruction) (name : String) (s : σ) : String × σ :=
  match w.lookup (Namespace.ofLabel i.name) name s with
  | some value => (value, s)
  | none => ("", w.observe (.undefined i.location name) s)

/-- The values of an unquoted argument. -/
def expandOperands (expansion : Option Expansion) (operands : List (Operand String)) : Except Cause (List String) :=
  match expansion with
  | some .list => match operands with | [[value]] => .ok (ItemList.split value) | _ => .error .operandCount
  | some .values => match operands with | [values] => .ok values | _ => .error .operandCount
  | some (.other _) | none => .ok [concatenate operands]

/-- What one instruction leads to: more stacks, or the arguments of the call, if that is not to be dispatched. -/
inductive Progress (α : Type) where
  | moved (held : Stacks α)
  | resolved (arguments : List α)

/-- Why an irregular instruction cannot be executed: its operand is of the wrong kind, or its code is unknown. -/
def irregularity (i : Instruction) (code : Int) : Cause :=
  if code = 1 then .numberForText 0
  else if 1 < code ∧ code ≤ 6 then .textForNumber
  else .unknownInstruction i

/-- Executes one instruction. `onlyResolve` keeps calls from being dispatched, and `isLast` says whether the program
ends with this instruction. -/
def execute (w : Surroundings σ) (onlyResolve isLast : Bool) (i : Instruction) (st : Stacks String) :
    Task σ (Progress String) :=
  fun s =>
    let withOperands := fun (n : Int)
        (use : List (Operand String) → Stacks String → Except Failure (Progress String) × σ) =>
      match st.pop n with
      | .ok (operands, st) => use operands st
      | .error cause => (.error { cause }, s)
    let invoke := fun operands (st : Stacks String) =>
      match dispatch w i (List.flatten operands) s with
      | (.ok results, s) => (.ok (.moved (st.push results)), s)
      | (.error failure, s) => (.error failure, s)
    match i.operation with
    | .literal text => (.ok (.moved (st.push [text])), s)
    | .variable n => withOperands n fun operands st =>
      let (value, s) := reference w i (concatenate operands) s
      (.ok (.moved (st.push [value])), s)
    | .quoted n => withOperands n fun operands st => (.ok (.moved (st.push [concatenate operands])), s)
    | .unquoted n => withOperands n fun operands st =>
      match expandOperands i.expansion operands with
      | .ok values => (.ok (.moved (st.push values)), s)
      | .error cause => (.error { cause }, s)
    | .commandReference n => withOperands n invoke
    | .call n => withOperands n fun operands st =>
      if onlyResolve then
        if isLast then (.ok (.resolved operands.flatten), s) else (.error { cause := .callBeforeEnd }, s)
      else invoke operands st
    | .irregular code _ => (.error { cause := irregularity i code }, s)

/-- Executes instructions from the given step on. The values left at the end are the result. -/
def runFrom (w : Surroundings σ) (onlyResolve : Bool) (step : Nat) (st : Stacks String) :
    List Instruction → Task σ (List String)
  | [], s =>
    if total st.counts = st.values.length then
      (.ok st.values, w.observe (.completed step) (w.observe (.finished step st) s))
    else (.error { cause := .stacksDisagree }, s)
  | i :: rest, s =>
    match execute w onlyResolve rest.isEmpty i st (w.observe (.stepping step (i :: rest) st) s) with
    | (.ok (.moved st), s) => runFrom w onlyResolve (step + 1) st rest s
    | (.ok (.resolved arguments), s) => (.ok arguments, s)
    | (.error failure, s) => (.error (failure.attributeTo i), s)

/-- Runs a program of texts. With `onlyResolve` the arguments of the outermost invocation are the result, and it is not
dispatched. -/
def run (w : Surroundings σ) (onlyResolve : Bool) (instructions : List Instruction) : Task σ (List String) :=
  runFrom w onlyResolve 0 {} instructions

end CommandScript.Machine
