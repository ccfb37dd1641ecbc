import CommandScript.Code.Instruction
import CommandScript.Syntax.Parse

/-! Programs: the instructions of one invocation, operands before what uses them. The call of the invocation is the
last instruction. -/

namespace CommandScript.Code

open Text Syntax

/-- One invocation, ready to be evaluated. -/
structure Program where
  name : String
  instructions : List Instruction
  location : Option Location := none
  source : Option String := none
  deriving DecidableEq

/-! ### From trees to instructions -/

/-- A single reference in an unquoted argument is expanded by its kind. -/
def expansionOf : Part → List Part → Option Expansion
  | .variable .., [] => some .list
  | .command .., [] => some .values
  | _, _ => none

mutual

/-- How many arguments a tree contributes to the list it stands in: a group counts its two parentheses and what
they hold, every other argument is one. -/
def width : Argument → Nat
  | .group _ inner _ => widths inner + 2
  | .quoted .. | .unquoted .. | .bracket .. => 1

def widths : List Argument → Nat
  | [] => 0
  | argument :: arguments => width argument + widths arguments

end

mutual

def partCode (file : Option String) : Part → List Instruction
  | .text p value => [.literal value (p.inFile file)]
  | .variable p space parts => partsCode file parts ++ [.variableReference space parts.length (p.inFile file)]
  | .command p name arguments =>
    argumentsCode file arguments ++ [.commandReference name (widths arguments) (p.inFile file)]

def partsCode (file : Option String) : List Part → List Instruction
  | [] => []
  | part :: parts => partCode file part ++ partsCode file parts

def argumentCode (file : Option String) : Argument → List Instruction
  | .quoted p parts => partsCode file parts ++ [.quoted parts.length (p.inFile file)]
  | .unquoted first others =>
    partCode file first ++ partsCode file others ++
      [.unquoted (others.length + 1) (expansionOf first others) (first.position.inFile file)]
  | .bracket p content => [.literal content (p.inFile file), .quoted 1 (p.inFile file)]
  | .group opener inner closer =>
    [.literal "(" (opener.inFile file), .unquoted 1 none (opener.inFile file)] ++ argumentsCode file inner ++
      [.literal ")" (closer.inFile file), .unquoted 1 none (closer.inFile file)]

def argumentsCode (file : Option String) : List Argument → List Instruction
  | [] => []
  | argument :: arguments => argumentCode file argument ++ argumentsCode file arguments

end

/-- The characters of a text from one place up to another. -/
def slice (text : List Char) (start stop : Position) : String :=
  String.ofList ((text.drop start.offset).take (stop.offset - start.offset))

/-- The program of an invocation in a text. -/
def Program.ofInvocation (text : List Char) (file : Option String) (i : Invocation) : Program where
  name := i.name
  instructions :=
    argumentsCode file i.arguments ++ [.call i.name (widths i.arguments) (i.start.inFile file)]
  location := i.start.inFile file
  source := slice text i.start i.stop

/-! ### Reading -/

/-- The programs of a text in normal form, one for each invocation. -/
def programsOfText (text : List Char) (file : Option String) : Except Fault (List Program) :=
  (parseText text file).map fun invocations => invocations.map (Program.ofInvocation text file)

/-- A text that must hold a single invocation. The second one is at fault if there are more. -/
def programOfText (text : List Char) (file : Option String) : Except Fault Program :=
  match programsOfText text file with
  | .error fault => .error fault
  | .ok [program] => .ok program
  | .ok programs =>
    let place := (programs[1]?.bind Program.location).getD ⟨1, 1, none⟩
    .error ⟨.invocationCount programs.length, { place with file }⟩

end CommandScript.Code
