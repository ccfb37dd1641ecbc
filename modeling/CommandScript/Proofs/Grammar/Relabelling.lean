import CommandScript.Code.Program

/-! Scripts that stand at other places, or name their commands otherwise. Nothing that is built of tokens depends on
where they stand or on the names of commands, so trees and instructions change in no other way than the tokens do. -/

namespace CommandScript

open Text Syntax Code

/-- Other places and other names of commands. -/
structure Relabelling where
  place : Position → Position := id
  name : String → String := id

/-- The places of one file are moved in this way to places of another. -/
def Relabelling.Moves (r : Relabelling) (file file' : Option String) (locate : Location → Location) : Prop :=
  ∀ p : Position, (r.place p).inFile file' = locate (p.inFile file)

namespace Syntax

section Relabel

variable (r : Relabelling)

def Lexeme.relabel : Lexeme → Lexeme
  | .name n => .name (r.name n)
  | lexeme => lexeme

def Token.relabel (t : Token) : Token := ⟨t.lexeme.relabel r, r.place t.start, r.place t.stop⟩

mutual

def Part.relabel : Part → Part
  | .text p value => .text (r.place p) value
  | .variable p space parts => .variable (r.place p) space (relabelParts parts)
  | .command p name arguments => .command (r.place p) (r.name name) (relabelArguments arguments)

def relabelParts : List Part → List Part
  | [] => []
  | part :: parts => part.relabel :: relabelParts parts

def Argument.relabel : Argument → Argument
  | .quoted p parts => .quoted (r.place p) (relabelParts parts)
  | .unquoted first others => .unquoted first.relabel (relabelParts others)
  | .bracket p content => .bracket (r.place p) content
  | .group opener inner closer => .group (r.place opener) (relabelArguments inner) (r.place closer)

def relabelArguments : List Argument → List Argument
  | [] => []
  | argument :: arguments => argument.relabel :: relabelArguments arguments

end

def Invocation.relabel (i : Invocation) : Invocation :=
  ⟨r.name i.name, r.place i.start, r.place i.stop, relabelArguments r i.arguments⟩

def OpenTree.relabel : OpenTree → OpenTree
  | named name start => named (r.name name) (r.place start)
  | call name start arguments => call (r.name name) (r.place start) (relabelArguments r arguments)
  | group opener arguments => group (r.place opener) (relabelArguments r arguments)
  | quoted p parts => quoted (r.place p) (relabelParts r parts)
  | unquoted parts => unquoted (relabelParts r parts)
  | .variable p space parts => .variable (r.place p) space (relabelParts r parts)
  | reference => reference
  | referenceNamed p name => referenceNamed (r.place p) (r.name name)
  | referenceCall p name arguments => referenceCall (r.place p) (r.name name) (relabelArguments r arguments)
  | referenceListed p name arguments => referenceListed (r.place p) (r.name name) (relabelArguments r arguments)

/-- What is built of relabelled tokens, with invocations complete before. -/
def Builder.relabel (before : List Invocation) (b : Builder) : Builder :=
  ⟨b.done.map (Invocation.relabel r) ++ before, b.opened.map (OpenTree.relabel r)⟩

end Relabel

variable {r : Relabelling}

/-! ### Trees -/

theorem relabelParts_eq_map (parts : List Part) : relabelParts r parts = parts.map (Part.relabel r) := by
  induction parts with
  | nil => rfl
  | cons part parts ih => rw [relabelParts, ih, List.map_cons]

theorem relabelArguments_eq_map (arguments : List Argument) :
    relabelArguments r arguments = arguments.map (Argument.relabel r) := by
  induction arguments with
  | nil => rfl
  | cons argument arguments ih => rw [relabelArguments, ih, List.map_cons]

theorem relabelParts_reverse (parts : List Part) :
    relabelParts r parts.reverse = (relabelParts r parts).reverse := by
  rw [relabelParts_eq_map, relabelParts_eq_map, List.map_reverse]

theorem relabelArguments_reverse (arguments : List Argument) :
    relabelArguments r arguments.reverse = (relabelArguments r arguments).reverse := by
  rw [relabelArguments_eq_map, relabelArguments_eq_map, List.map_reverse]

theorem addPart_relabel (part : Part) (opened : List OpenTree) :
    OpenTree.addPart (part.relabel r) (opened.map (OpenTree.relabel r)) =
      (OpenTree.addPart part opened).map (OpenTree.relabel r) := by
  cases opened with
  | nil => rfl
  | cons x outer => cases x <;> rfl

theorem addArgument_relabel (argument : Argument) (opened : List OpenTree) :
    OpenTree.addArgument (argument.relabel r) (opened.map (OpenTree.relabel r)) =
      (OpenTree.addArgument argument opened).map (OpenTree.relabel r) := by
  cases opened with
  | nil => rfl
  | cons x outer => cases x <;> rfl

theorem feedPart_relabel (t : Token) (opened : List OpenTree) :
    OpenTree.feedPart (t.relabel r) (opened.map (OpenTree.relabel r)) =
      (OpenTree.feedPart t opened).map (List.map (OpenTree.relabel r)) := by
  obtain ⟨lexeme, p, q⟩ := t
  cases lexeme with
  | text value => exact congrArg some (addPart_relabel (.text p value) opened)
  | _ => rfl

theorem feedArgument_relabel (t : Token) (opened : List OpenTree) :
    OpenTree.feedArgument (t.relabel r) (opened.map (OpenTree.relabel r)) =
      (OpenTree.feedArgument t opened).map (List.map (OpenTree.relabel r)) := by
  have hpart := feedPart_relabel (r := r) t (.unquoted [] :: opened)
  obtain ⟨lexeme, p, q⟩ := t
  cases lexeme with
  | bracket content => exact congrArg some (addArgument_relabel (.bracket p content) opened)
  | leftParen => rfl
  | quote => rfl
  | _ => exact hpart

/-- A relabelled token is taken as the token is, whatever was complete before. -/
theorem feed?_relabel (before : List Invocation) (b : Builder) (t : Token) :
    (b.relabel r before).feed? (t.relabel r) = (b.feed? t).map (Builder.relabel r before) := by
  obtain ⟨done, opened⟩ := b
  obtain ⟨lexeme, p, q⟩ := t
  have hpart (opened : List OpenTree) :
      (OpenTree.feedPart (Token.relabel r ⟨lexeme, p, q⟩) (opened.map (OpenTree.relabel r))).map
          (fun x => (⟨done.map (Invocation.relabel r) ++ before, x⟩ : Builder)) =
        ((OpenTree.feedPart ⟨lexeme, p, q⟩ opened).map fun x => (⟨done, x⟩ : Builder)).map
          (Builder.relabel r before) := by
    rw [feedPart_relabel]
    cases OpenTree.feedPart ⟨lexeme, p, q⟩ opened <;> rfl
  have hargument (opened : List OpenTree) :
      (OpenTree.feedArgument (Token.relabel r ⟨lexeme, p, q⟩) (opened.map (OpenTree.relabel r))).map
          (fun x => (⟨done.map (Invocation.relabel r) ++ before, x⟩ : Builder)) =
        ((OpenTree.feedArgument ⟨lexeme, p, q⟩ opened).map fun x => (⟨done, x⟩ : Builder)).map
          (Builder.relabel r before) := by
    rw [feedArgument_relabel]
    cases OpenTree.feedArgument ⟨lexeme, p, q⟩ opened <;> rfl
  cases opened with
  | nil => cases lexeme <;> rfl
  | cons x outer =>
    cases x with
    | named name start => cases lexeme <;> rfl
    | call name start arguments =>
      cases lexeme with
      | rightParen =>
        simp only [Builder.relabel, List.map_cons, OpenTree.relabel, Builder.feed?, Token.relabel, Lexeme.relabel,
          Option.map_some, Invocation.relabel, relabelArguments_reverse, List.cons_append]
      | _ => exact hargument (.call name start arguments :: outer)
    | group opener arguments =>
      cases lexeme with
      | rightParen =>
        have h := addArgument_relabel (r := r) (.group opener arguments.reverse p) outer
        simp only [Builder.relabel, List.map_cons, OpenTree.relabel, Builder.feed?, Token.relabel, Lexeme.relabel,
          Option.map_some, ← h, Argument.relabel, relabelArguments_reverse]
      | _ => exact hargument (.group opener arguments :: outer)
    | quoted p' parts =>
      cases lexeme with
      | quote =>
        have h := addArgument_relabel (r := r) (.quoted p' parts.reverse) outer
        simp only [Builder.relabel, List.map_cons, OpenTree.relabel, Builder.feed?, Token.relabel, Lexeme.relabel,
          Option.map_some, ← h, Argument.relabel, relabelParts_reverse]
      | _ => exact hpart (.quoted p' parts :: outer)
    | unquoted parts =>
      cases lexeme with
      | argumentEnd =>
        simp only [Builder.relabel, List.map_cons, OpenTree.relabel, Builder.feed?, Token.relabel, Lexeme.relabel,
          ← relabelParts_reverse]
        cases parts.reverse with
        | nil => rfl
        | cons first others =>
          have h := addArgument_relabel (r := r) (.unquoted first others) outer
          simp only [relabelParts, Option.map_some, Builder.relabel, ← h, Argument.relabel]
      | _ => exact hpart (.unquoted parts :: outer)
    | «variable» p' space parts =>
      cases lexeme with
      | referenceClose =>
        have h := addPart_relabel (r := r) (.variable p' space parts.reverse) outer
        simp only [Builder.relabel, List.map_cons, OpenTree.relabel, Builder.feed?, Token.relabel, Lexeme.relabel,
          Option.map_some, ← h, Part.relabel, relabelParts_reverse]
      | _ => exact hpart (.variable p' space parts :: outer)
    | reference => cases lexeme <;> rfl
    | referenceNamed p' name => cases lexeme <;> rfl
    | referenceCall p' name arguments =>
      cases lexeme with
      | rightParen => rfl
      | _ => exact hargument (.referenceCall p' name arguments :: outer)
    | referenceListed p' name arguments =>
      cases lexeme with
      | referenceClose =>
        have h := addPart_relabel (r := r) (.command p' name arguments.reverse) outer
        simp only [Builder.relabel, List.map_cons, OpenTree.relabel, Builder.feed?, Token.relabel, Lexeme.relabel,
          Option.map_some, ← h, Part.relabel, relabelArguments_reverse]
      | _ => rfl

theorem expected_relabel (before : List Invocation) (b : Builder) : (b.relabel r before).expected = b.expected := by
  obtain ⟨done, opened⟩ := b
  cases opened with
  | nil => rfl
  | cons x outer => cases x <;> rfl

/-- Relabelled tokens are all taken, or the same one is refused. -/
theorem feedAll_relabel (before : List Invocation) (b : Builder) (ts : List Token) :
    (b.relabel r before).feedAll (ts.map (Token.relabel r)) =
      ((b.feedAll ts).map (Builder.relabel r before)).mapError fun (t, expected) => (t.relabel r, expected) := by
  induction ts generalizing b with
  | nil => rfl
  | cons t ts ih =>
    rw [List.map_cons, Builder.feedAll, Builder.feedAll, feed?_relabel]
    cases b.feed? t with
    | none => exact congrArg (fun expected => Except.error (t.relabel r, expected)) (expected_relabel before b)
    | some b => exact ih b

end Syntax

/-! ### Instructions -/

namespace Code

/-- Whether it invokes a command, if only its operands are there. -/
def Instruction.isCommand (i : Instruction) : Bool :=
  match i.operation with
  | .commandReference _ | .call _ => true
  | _ => false

/-- An instruction at another place. The name of a variable's namespace is no name of a command. -/
def Instruction.relabel (name : String → String) (locate : Location → Location) (i : Instruction) : Instruction :=
  { i with name := if i.isCommand then i.name.map name else i.name, location := i.location.map locate }

section Instructions

variable {r : Relabelling} {file file' : Option String} {locate : Location → Location}

theorem expansionOf_relabel (first : Part) (others : List Part) :
    expansionOf (first.relabel r) (relabelParts r others) = expansionOf first others := by
  cases others with
  | nil => cases first <;> rfl
  | cons part parts => cases first <;> rfl

mutual

theorem width_relabel : ∀ a : Argument, width (a.relabel r) = width a
  | .quoted .. | .unquoted .. | .bracket .. => rfl
  | .group p inner q => by rw [Argument.relabel, width, width, widths_relabel inner]

theorem widths_relabel : ∀ as : List Argument, widths (relabelArguments r as) = widths as
  | [] => rfl
  | a :: as => by rw [relabelArguments, widths, widths, width_relabel a, widths_relabel as]

end

theorem length_relabelParts (parts : List Part) : (relabelParts r parts).length = parts.length := by
  rw [relabelParts_eq_map, List.length_map]

theorem position_relabel (part : Part) : (part.relabel r).position = r.place part.position := by
  cases part <;> rfl

mutual

theorem partCode_relabel (hr : r.Moves file file' locate) : ∀ part : Part, partCode file' (part.relabel r) =
    (partCode file part).map (Instruction.relabel r.name locate)
  | .text p value => by
    simp [Part.relabel, partCode, hr p, Instruction.relabel, Instruction.isCommand, Instruction.literal]
  | .variable p space parts => by
    simp [Part.relabel, partCode, hr p, Instruction.relabel, Instruction.isCommand, Instruction.variableReference,
      partsCode_relabel hr parts, length_relabelParts]
  | .command p name arguments => by
    simp [Part.relabel, partCode, hr p, Instruction.relabel, Instruction.isCommand, Instruction.commandReference,
      argumentsCode_relabel hr arguments, widths_relabel]

theorem partsCode_relabel (hr : r.Moves file file' locate) : ∀ parts : List Part,
    partsCode file' (relabelParts r parts) = (partsCode file parts).map (Instruction.relabel r.name locate)
  | [] => rfl
  | part :: parts => by
    rw [relabelParts, partsCode, partsCode, List.map_append, partCode_relabel hr part, partsCode_relabel hr parts]

theorem argumentCode_relabel (hr : r.Moves file file' locate) : ∀ argument : Argument,
    argumentCode file' (argument.relabel r) = (argumentCode file argument).map (Instruction.relabel r.name locate)
  | .quoted p parts => by
    simp [Argument.relabel, argumentCode, hr p, Instruction.relabel, Instruction.isCommand, Instruction.quoted,
      partsCode_relabel hr parts, length_relabelParts]
  | .unquoted first others => by
    simp [Argument.relabel, argumentCode, hr first.position, Instruction.relabel, Instruction.isCommand,
      Instruction.unquoted, partCode_relabel hr first, partsCode_relabel hr others, length_relabelParts,
      expansionOf_relabel, position_relabel]
  | .bracket p content => by
    simp [Argument.relabel, argumentCode, hr p, Instruction.relabel, Instruction.isCommand, Instruction.literal,
      Instruction.quoted]
  | .group opener inner closer => by
    simp [Argument.relabel, argumentCode, hr opener, hr closer, Instruction.relabel, Instruction.isCommand,
      Instruction.literal, Instruction.unquoted, argumentsCode_relabel hr inner]

theorem argumentsCode_relabel (hr : r.Moves file file' locate) : ∀ arguments : List Argument,
    argumentsCode file' (relabelArguments r arguments) =
      (argumentsCode file arguments).map (Instruction.relabel r.name locate)
  | [] => rfl
  | argument :: arguments => by
    rw [relabelArguments, argumentsCode, argumentsCode, List.map_append, argumentCode_relabel hr argument,
      argumentsCode_relabel hr arguments]

end

end Instructions

end Code

end CommandScript
