import CommandScript.Syntax.Token
import CommandScript.Text.Literal

/-! The instructions a script is evaluated by. Each instruction ends a sub-expression: it takes the results of the
sub-expressions directly before it as its operands and leaves the result of the whole. -/

namespace CommandScript.Code

open Text Syntax

/-- A text or a number: what is written in an instruction beside its code. -/
inductive Datum where
  | text (value : String)
  | number (value : Int)
  deriving DecidableEq

namespace Datum

/-- As a literal. -/
def render : Datum → String
  | text value => literal value
  | number value => toString value

/-- As it is. -/
def plain : Datum → String
  | text value => value
  | number value => toString value

def isNumber : Datum → Bool
  | text _ => false
  | number _ => true

end Datum

/-- What an instruction does; all but a literal say how many operands they take. An instruction that was not made by
reading a script may have any code, a text in place of a number, and a number in place of a text. -/
inductive Operation where
  | literal (text : String)
  | variable (operands : Int)
  | commandReference (operands : Int)
  | quoted (operands : Int)
  | unquoted (operands : Int)
  | call (operands : Int)
  | irregular (code : Int) (operand : Datum)
  deriving DecidableEq

namespace Operation

/-- The operation of a code. -/
def ofCode (code : Int) (operand : Datum) : Operation :=
  match operand with
  | .text value => if code = 1 then literal value else irregular code operand
  | .number n =>
    if code = 2 then .variable n
    else if code = 3 then commandReference n
    else if code = 4 then quoted n
    else if code = 5 then unquoted n
    else if code = 6 then call n
    else irregular code operand

def code : Operation → Int
  | literal _ => 1
  | .variable _ => 2
  | commandReference _ => 3
  | quoted _ => 4
  | unquoted _ => 5
  | call _ => 6
  | irregular code _ => code

def operand : Operation → Datum
  | literal text => .text text
  | .variable n | commandReference n | quoted n | unquoted n | call n => .number n
  | irregular _ operand => operand

/-- How many operands it takes. What cannot be executed takes none. -/
def arity : Operation → Int
  | .variable n | commandReference n | quoted n | unquoted n | call n => n
  | literal _ | irregular .. => 0

end Operation

/-- How an unquoted argument that is a single reference becomes several: by splitting the value as a list, or by
passing the values on one by one. Any other word changes nothing. -/
inductive Expansion where
  | list
  | values
  | other (word : String)
  deriving DecidableEq

def Expansion.label : Expansion → String
  | list => "list"
  | values => "values"
  | other word => word

/-- The name is that of the command, or the label of a variable's namespace. -/
structure Instruction where
  operation : Operation
  name : Option String := none
  expansion : Option Expansion := none
  location : Option Location := none
  deriving DecidableEq

namespace Instruction

def literal (text : String) (location : Option Location := none) : Instruction := ⟨.literal text, none, none, location⟩

def variableReference (space : Namespace) (operands : Int) (location : Option Location := none) : Instruction :=
  ⟨.variable operands, some space.label, none, location⟩

def commandReference (name : String) (operands : Int) (location : Option Location := none) : Instruction :=
  ⟨.commandReference operands, some name, none, location⟩

def quoted (operands : Int) (location : Option Location := none) : Instruction :=
  ⟨.quoted operands, none, none, location⟩

def unquoted (operands : Int) (expansion : Option Expansion := none) (location : Option Location := none) :
    Instruction := ⟨.unquoted operands, none, expansion, location⟩

def call (name : String) (operands : Int) (location : Option Location := none) : Instruction :=
  ⟨.call operands, some name, none, location⟩

/-- Two instructions do the same if they differ in their locations only. -/
def sameAction (a b : Instruction) : Bool :=
  a.operation = b.operation && a.name = b.name && a.expansion = b.expansion

/-- Whether it is a literal with a number in place of its text. -/
def holdsNumber (i : Instruction) : Bool :=
  match i.operation with
  | .irregular 1 (.number _) => true
  | _ => false

/-- A command without a name is shown as `None`. -/
def commandLabel (i : Instruction) : String := i.name.getD "None"

/-- A label behind a separator; no label and an empty one leave no trace. -/
def suffixed (separator : String) : Option String → String
  | none | some "" => ""
  | some label => separator ++ label

/-- An instruction is shown by its code, whatever its operand is. -/
def renderIrregular (i : Instruction) (code : Int) (operand : Datum) : String :=
  if code = 1 then "Literal(" ++ operand.render ++ ")"
  else if code = 2 then "VarRef" ++ suffixed "." i.name ++ "(" ++ operand.plain ++ ")"
  else if code = 3 then "CmdRef(" ++ i.commandLabel ++ ", " ++ operand.plain ++ ")"
  else if code = 4 then "QuotedArg(" ++ operand.plain ++ ")"
  else if code = 5 then
    "UnquotedArg(" ++ operand.plain ++ suffixed ", " (i.expansion.map Expansion.label) ++ ")"
  else if code = 6 then "Call(" ++ i.commandLabel ++ ", " ++ operand.plain ++ ")"
  else "Instruction(" ++ toString code ++ ", " ++ operand.render ++ ")"

def render (i : Instruction) : String :=
  match i.operation with
  | .literal text => "Literal(" ++ Text.literal text ++ ")"
  | .variable n => "VarRef" ++ suffixed "." i.name ++ "(" ++ toString n ++ ")"
  | .commandReference n => "CmdRef(" ++ i.commandLabel ++ ", " ++ toString n ++ ")"
  | .quoted n => "QuotedArg(" ++ toString n ++ ")"
  | .unquoted n => "UnquotedArg(" ++ toString n ++ suffixed ", " (i.expansion.map Expansion.label) ++ ")"
  | .call n => "Call(" ++ i.commandLabel ++ ", " ++ toString n ++ ")"
  | .irregular code operand => i.renderIrregular code operand

end Instruction

end CommandScript.Code
