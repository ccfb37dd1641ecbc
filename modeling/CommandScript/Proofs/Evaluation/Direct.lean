import CommandScript.Machine.Run

/-! Evaluating an invocation on its tree, without stacks: from left to right, every part and argument at the place
where it stands. Nothing is counted, so nothing can be counted wrongly; the only failures are those of commands. -/

namespace CommandScript.Evaluation

open Text Syntax Code Machine

variable {σ α β : Type}

/-- One computation behind another, which is left out if the first one fails. -/
def andThen (m : Task σ α) (k : α → Task σ β) : Task σ β := fun s =>
  match m s with
  | (.ok a, s) => k a s
  | (.error failure, s) => (.error failure, s)

/-- A computation that only hands on a value. -/
def yield (a : α) : Task σ α := fun s => (.ok a, s)

/-! ### Variables and commands -/

/-- The value of a variable that is named at a place; an undefined one is empty. -/
def variableValue (w : Surroundings σ) (place : Location) (space : Namespace) (name : String) : Task σ String :=
  fun s =>
    match w.lookup space name s with
    | some value => (.ok value, s)
    | none => (.ok "", w.observe (.undefined place name) s)

/-- What the failure of a command becomes. A refusal gets the name and the place it lacks; any other failure gets
both, unless it has a place. -/
def blame (place : Location) (name : String) (failure : Failure) : Failure :=
  if failure.cause.isRefusal then
    { failure with name := failure.name <|> some name, location := failure.location <|> some place }
  else if failure.location.isNone then { failure with name, location := place }
  else failure

/-- Dispatches a command that is named at a place. A refusal that is not fatal is reported and leaves no results. -/
def command (w : Surroundings σ) (place : Location) (name : String) (arguments : List String) :
    Task σ (List String) := fun s =>
  match w.invoke name arguments (w.observe (.dispatching name arguments) s) with
  | (.ok (.texts results), s) => (.ok results, w.observe .dispatched s)
  | (.ok .mixed, s) => (.error ⟨.nonTextResults name, name, place⟩, s)
  | (.error failure, s) =>
    if failure.cause.isRefusal && !failure.cause.isFatal then
      (.ok [], w.observe .dispatched (w.observe (.recovered place failure.cause.message) s))
    else (.error (blame place name failure), s)

/-! ### Trees -/

section Trees

variable (w : Surroundings σ) (file : Option String)

mutual

/-- The values of a part. -/
def partValues : Part → Task σ (List String)
  | .text _ value => yield [value]
  | .variable p space parts =>
    andThen (partsText parts) fun name =>
      andThen (variableValue w (p.inFile file) space name) fun value => yield [value]
  | .command p name arguments => andThen (argumentsValues arguments) (command w (p.inFile file) name)

/-- The text of some parts: the values of each are joined with `;`, and the parts are put one behind another. -/
def partsText : List Part → Task σ String
  | [] => yield ""
  | part :: parts =>
    andThen (partValues part) fun values =>
      andThen (partsText parts) fun text => yield (ItemList.flatten values ++ text)

/-- The values of an argument. A quoted or bracketed one is always a single value; an unquoted one is the items of a
variable or the results of a command if that is all there is, and a single value otherwise. -/
def argumentValues : Argument → Task σ (List String)
  | .quoted _ parts => andThen (partsText parts) fun text => yield [text]
  | .bracket _ content => yield [content]
  | .group _ inner _ => andThen (argumentsValues inner) fun values => yield ("(" :: (values ++ [")"]))
  | .unquoted (.variable p space parts) [] =>
    andThen (partsText parts) fun name =>
      andThen (variableValue w (p.inFile file) space name) fun value => yield (ItemList.split value)
  | .unquoted (.command p name arguments) [] =>
    andThen (argumentsValues arguments) (command w (p.inFile file) name)
  | .unquoted first others =>
    andThen (partValues first) fun values =>
      andThen (partsText others) fun text => yield [ItemList.flatten values ++ text]

/-- The values of all arguments of a list. -/
def argumentsValues : List Argument → Task σ (List String)
  | [] => yield []
  | argument :: arguments =>
    andThen (argumentValues argument) fun values =>
      andThen (argumentsValues arguments) fun others => yield (values ++ others)

end

/-- The results of an invocation: its command is dispatched with the values of its arguments. -/
def evaluate (i : Invocation) : Task σ (List String) :=
  andThen (argumentsValues w file i.arguments) (command w (i.start.inFile file) i.name)

end Trees

end CommandScript.Evaluation
