import CommandScript.Command.Documentation
import CommandScript.Failure
import CommandScript.Text.Identifier

/-! Signatures of functions, and what a caller has to know about them. A function whose first parameter is named
`frame` is given the frame of execution and the list of its arguments; any other is given the arguments one by one.
Not every list of parameters is a signature: names have a form and differ, and kinds and defaults have an order. -/

namespace CommandScript.Command

inductive ParameterKind where
  /-- Given by position only, or by position or by name. -/
  | positionOnly | positionOrName
  /-- All further positions. -/
  | positions
  /-- Given by name only. -/
  | nameOnly
  /-- All further names. -/
  | names
  deriving DecidableEq

namespace ParameterKind

def isPosition : ParameterKind → Bool
  | positionOnly | positionOrName => true
  | _ => false

/-- Whether it stands for any number of arguments. -/
def isRest : ParameterKind → Bool
  | positions | names => true
  | _ => false

/-- The place of a kind among the parameters of a function. -/
def rank : ParameterKind → Nat
  | positionOnly => 0
  | positionOrName => 1
  | positions => 2
  | nameOnly => 3
  | names => 4

end ParameterKind

structure Parameter where
  name : String
  kind : ParameterKind
  hasDefault : Bool := false
  deriving DecidableEq

/-- What keeps a list of parameters from being a signature. -/
inductive SignatureFault where
  /-- What stands for the rest has a default. -/
  | defaultForRest
  | emptyName
  /-- A name without the form of one, or a reserved word where a caller would have to write it. -/
  | unusableName
  /-- A parameter stands behind one that it cannot follow. -/
  | misplaced
  deriving DecidableEq

/-- The words that cannot stand for a name where a function is called. -/
def reservedWords : List String := [
  "False", "None", "True", "and", "as", "assert", "async", "await", "break", "class", "continue", "def", "del", "elif",
  "else", "except", "finally", "for", "from", "global", "if", "import", "in", "is", "lambda", "nonlocal", "not", "or",
  "pass", "raise", "return", "try", "while", "with", "yield"]

namespace Parameter

/-- A dot and a number in place of a name make a position that has no name of its own. -/
def named (p : Parameter) : Parameter :=
  match p.kind, p.name.toList with
  | .positionOrName, '.' :: d :: ds =>
    if (d :: ds).all Text.isIdentifierDigit then
      { p with name := "implicit" ++ String.ofList (d :: ds), kind := .positionOnly }
    else p
  | _, _ => p

/-- A reserved word can name what is never given by name. -/
def HasUsableName (p : Parameter) : Prop :=
  Text.isIdentifier p.name ∧ (p.kind = .positionOnly ∨ p.name ∉ reservedWords)

instance (p : Parameter) : Decidable p.HasUsableName := inferInstanceAs (Decidable (_ ∧ _))

/-- The parameter that is written as `p`. -/
def check (p : Parameter) : Except SignatureFault Parameter :=
  if p.kind.isRest && p.hasDefault then .error .defaultForRest
  else if p.name = "" then .error .emptyName
  else if p.named.HasUsableName then .ok p.named
  else .error .unusableName

/-- Whether one parameter may stand anywhere before another: their names differ, kinds come in order, and of two
positions of one kind the one that has to be given comes first. -/
def MayPrecede (a b : Parameter) : Prop :=
  a.name ≠ b.name ∧ a.kind.rank ≤ b.kind.rank ∧
    (a.hasDefault → a.kind = b.kind → b.kind.isPosition → b.hasDefault)

instance (a b : Parameter) : Decidable (MayPrecede a b) := inferInstanceAs (Decidable (_ ∧ _ ∧ (_ → _ → _)))

end Parameter

abbrev Signature := List Parameter

/-- What is known about a command: its name, whether it is given the frame, how many arguments it takes and what its
documentation says. -/
structure Summary where
  name : String
  takesFrame : Bool
  arity : Option Nat
  required : Nat
  documentation : String
  deriving DecidableEq

namespace Signature

def takesFrame (s : Signature) : Bool :=
  match s with
  | first :: _ => first.name = "frame"
  | [] => false

def positions (s : Signature) : Signature := s.filter fun p => p.kind.isPosition

/-- A function that is given the frame takes its arguments as one list, of any length. -/
def summary (s : Signature) (name documentation : String) : Summary :=
  if s.takesFrame then ⟨name, true, none, 0, cleanDocumentation documentation⟩
  else
    let positions := s.positions
    let isOpen := s.any fun p => p.kind = .positions
    { name
      takesFrame := false
      arity := if isOpen then none else some positions.length
      required := (positions.filter fun p => !p.hasDefault).length
      documentation := cleanDocumentation documentation }

/-- The signature that is written as `s`. -/
def check (s : Signature) : Except SignatureFault Signature := do
  let s ← s.mapM Parameter.check
  if s.Pairwise Parameter.MayPrecede then .ok s else .error .misplaced

/-- The summary of a function with the parameters `s`. -/
def summarize (s : Signature) (name documentation : String) : Except SignatureFault Summary :=
  s.check.map (·.summary name documentation)

end Signature

/-- How many arguments a command takes. -/
def Summary.arguments (s : Summary) : ArgumentRange := ⟨s.required, s.arity⟩

end CommandScript.Command
