import CommandScript.Machine.Run

/-! Running any programs, also those in which numbers stand in the place of texts. No script reads as such a program; it
is put together by hand. A number is left on the stack, handed on and handed back as a text is, but whatever would join,
split, show or dispatch it fails. Programs of texts are run in the same way as without numbers. -/

namespace CommandScript.Machine

open Text Code

/-! ### Values -/

/-- The texts that values are, if all of them are texts. Otherwise the first number is at fault. -/
def requireTexts (values : List Datum) : Except Cause (List String) :=
  match values.findIdx? Datum.isNumber with
  | some i => .error (.numberForText i)
  | none => .ok (values.map Datum.plain)

/-- Several values as one: a single one stays as it is. -/
def flattenData : Operand Datum → Except Cause Datum
  | [value] => .ok value
  | values => (requireTexts values).map fun texts => .text (ItemList.join texts)

/-- Operands as one text, each flattened on its own. -/
def concatenateData (operands : List (Operand Datum)) : Except Cause String := do
  return String.join (← requireTexts (← operands.mapM flattenData))

/-- The values of an unquoted argument with a number among its operands. As a list, zero has no items. -/
def expandData (expansion : Option Expansion) (operands : List (Operand Datum)) : Except Cause (List Datum) :=
  match expansion, operands with
  | some .values, [values] => .ok values
  | some .list, [[.number n]] => if n = 0 then .ok [] else .error .numberAsList
  | some .values, _ | some .list, _ => .error .operandCount
  | some (.other _), _ | none, _ => (concatenateData operands).map fun text => [.text text]

/-! ### Instructions -/

/-- What an instruction makes of operands with a number among them. -/
def handOn (onlyResolve isLast : Bool) (i : Instruction) (operands : List (Operand Datum)) :
    Except Cause (Progress Datum) :=
  let leave := fun (values : List Datum) => Progress.moved (Stacks.push {} values)
  match i.operation with
  | .unquoted _ => (expandData i.expansion operands).map leave
  | .variable _ | .quoted _ => (concatenateData operands).map fun text => leave [.text text]
  | .call _ =>
    if onlyResolve then if isLast then .ok (.resolved operands.flatten) else .error .callBeforeEnd
    else (requireTexts operands.flatten).map fun texts => leave (texts.map .text)
  | .literal _ | .commandReference _ | .irregular .. =>
    (requireTexts operands.flatten).map fun texts => leave (texts.map .text)

/-- Stacks of texts, as stacks on which numbers may stand too. -/
def Stacks.ofTexts (st : Stacks String) : Stacks Datum := ⟨st.values.map .text, st.counts⟩

namespace Progress

def ofTexts : Progress String → Progress Datum
  | moved held => moved held.ofTexts
  | resolved arguments => resolved (arguments.map .text)

/-- Progress on stacks that stand on others. -/
def above {α : Type} (below : Stacks α) : Progress α → Progress α
  | moved held => moved ⟨below.values ++ held.values, below.counts ++ held.counts⟩
  | resolved arguments => resolved arguments

end Progress

variable {σ : Type}

/-- Executes one instruction: as ever on operands that are texts, by its rule for numbers on others. -/
def executeMixed (w : Surroundings σ) (onlyResolve isLast : Bool) (i : Instruction) (st : Stacks Datum) :
    Task σ (Progress Datum) := fun s =>
  match i.operation with
  | .irregular 1 (.number n) => (.ok (.moved (st.push [.number n])), s)
  | operation =>
    match st.pop operation.arity with
    | .error cause => (.error { cause }, s)
    | .ok (operands, below) =>
      match requireTexts operands.flatten with
      | .ok texts =>
        let (result, s) := execute w onlyResolve isLast i ⟨texts, operands.map List.length⟩ s
        (result.map fun progress => progress.ofTexts.above below, s)
      | .error _ =>
        match handOn onlyResolve isLast i operands with
        | .ok progress => (.ok (progress.above below), s)
        | .error cause => (.error { cause }, s)

/-! ### Programs -/

/-- How a trace line is begun before an instruction or at the end of a program, where one is due. -/
abbrev TraceStart (σ : Type) := Nat → Option Instruction → σ → Option σ

/-- Tells whoever watches of a step. A trace line on which a number would have to be shown is begun and not finished. -/
def announce (w : Surroundings σ) (start : TraceStart σ) (step : Nat) (i : Option Instruction)
    (notice : Stacks String → Notice) (st : Stacks Datum) : Task σ Unit := fun s =>
  match requireTexts st.values with
  | .ok texts => (.ok (), w.observe (notice ⟨texts, st.counts⟩) s)
  | .error _ =>
    match start step i s with
    | some s => (.error { cause := .numberInTrace }, s)
    | none => (.ok (), s)

/-- Runs instructions from the given step on. -/
def runMixedFrom (w : Surroundings σ) (start : TraceStart σ) (onlyResolve : Bool) (step : Nat) (st : Stacks Datum) :
    List Instruction → Task σ (List Datum)
  | [], s =>
    if total st.counts = st.values.length then
      match announce w start (max 1 step) none (.finished step) st s with
      | (.ok (), s) => (.ok st.values, w.observe (.completed step) s)
      | (.error failure, s) => (.error failure, s)
    else (.error { cause := .stacksDisagree }, s)
  | i :: rest, s =>
    match announce w start step i (.stepping step (i :: rest)) st s with
    | (.error failure, s) => (.error failure, s)
    | (.ok (), s) =>
      match executeMixed w onlyResolve rest.isEmpty i st s with
      | (.ok (.moved st), s) => runMixedFrom w start onlyResolve (step + 1) st rest s
      | (.ok (.resolved arguments), s) => (.ok arguments, s)
      | (.error failure, s) => (.error (failure.attributeTo i), s)

/-- Runs a program, whether or not numbers stand in the place of texts. Where none does, it comes to what `run` does. -/
def runMixed (w : Surroundings σ) (start : TraceStart σ) (onlyResolve : Bool) (instructions : List Instruction) :
    Task σ (List Datum) :=
  runMixedFrom w start onlyResolve 0 {} instructions

end CommandScript.Machine
