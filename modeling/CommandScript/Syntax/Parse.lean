import CommandScript.Syntax.Fault
import CommandScript.Syntax.Tree
import CommandScript.Text.Source

/-! Building the invocations of a script from its tokens. The builder takes one token at a time and keeps the trees
that are still open; a token that cannot come next is refused together with what could. -/

namespace CommandScript.Syntax

open Text

/-- A tree that is still open. Children are kept last first. -/
inductive OpenTree where
  /-- A command name at top level, before its parenthesis. -/
  | named (name : String) (start : Position)
  | call (name : String) (start : Position) (arguments : List Argument)
  | group (opener : Position) (arguments : List Argument)
  | quoted (position : Position) (parts : List Part)
  | unquoted (parts : List Part)
  | variable (position : Position) (space : Namespace) (parts : List Part)
  /-- A command reference before its name, before its parenthesis, in its arguments, and before its brace. -/
  | reference
  | referenceNamed (position : Position) (name : String)
  | referenceCall (position : Position) (name : String) (arguments : List Argument)
  | referenceListed (position : Position) (name : String) (arguments : List Argument)

/-- The invocations that are complete, last first, and the open trees, innermost first. -/
structure Builder where
  done : List Invocation := []
  opened : List OpenTree := []

namespace OpenTree

/-- Hands a finished part to the tree around it. -/
def addPart (part : Part) : List OpenTree → List OpenTree
  | quoted p parts :: outer => quoted p (part :: parts) :: outer
  | unquoted parts :: outer => unquoted (part :: parts) :: outer
  | .variable p space parts :: outer => .variable p space (part :: parts) :: outer
  | opened => opened

/-- Hands a finished argument to the list around it. -/
def addArgument (argument : Argument) : List OpenTree → List OpenTree
  | call name start arguments :: outer => call name start (argument :: arguments) :: outer
  | group opener arguments :: outer => group opener (argument :: arguments) :: outer
  | referenceCall p name arguments :: outer => referenceCall p name (argument :: arguments) :: outer
  | opened => opened

/-- Begins a part, or is one: what a token does where a part may stand. -/
def feedPart (t : Token) (opened : List OpenTree) : Option (List OpenTree) :=
  match t.lexeme with
  | .text value => some (addPart (.text t.start value) opened)
  | .variableOpen space => some (.variable t.start space [] :: opened)
  | .commandOpen => some (reference :: opened)
  | _ => none

/-- What a token does in an argument list, the closing parenthesis apart. -/
def feedArgument (t : Token) (opened : List OpenTree) : Option (List OpenTree) :=
  match t.lexeme with
  | .leftParen => some (group t.start [] :: opened)
  | .quote => some (quoted t.start [] :: opened)
  | .bracket content => some (addArgument (.bracket t.start content) opened)
  | _ => feedPart t (unquoted [] :: opened)

end OpenTree

namespace Terminal

/-- The terminals that can begin a part, with the one that ends the parts; in the order of their names. -/
def inQuotes : List Terminal := [quote, text, commandOpen, variableOpen]
def inUnquoted : List Terminal := [text, commandOpen, argumentEnd, variableOpen]
def inVariable : List Terminal := [referenceClose, text, commandOpen, variableOpen]
def inArguments : List Terminal := [quote, leftParen, rightParen, text, bracket, commandOpen, variableOpen]

end Terminal

namespace Builder

open OpenTree

/-- Between invocations. -/
def initial : Builder := {}

/-- What can come next. -/
def expected (b : Builder) : List Terminal :=
  match b.opened with
  | [] => [.name, .endOfInput]
  | .named .. :: _ | .referenceNamed .. :: _ => [.leftParen]
  | .call .. :: _ | .group .. :: _ | .referenceCall .. :: _ => Terminal.inArguments
  | .quoted .. :: _ => Terminal.inQuotes
  | .unquoted _ :: _ => Terminal.inUnquoted
  | .variable .. :: _ => Terminal.inVariable
  | .reference :: _ => [.name]
  | .referenceListed .. :: _ => [.referenceClose]

/-- The builder after one more token, unless the token cannot come next. -/
def feed? (b : Builder) (t : Token) : Option Builder :=
  let still := fun opened => { b with opened }
  match b.opened, t.lexeme with
  | [], .name name => some (still [named name t.start])
  | named name start :: outer, .leftParen => some (still (call name start [] :: outer))
  | call name start arguments :: outer, .rightParen =>
    some ⟨⟨name, start, t.stop, arguments.reverse⟩ :: b.done, outer⟩
  | group opener arguments :: outer, .rightParen =>
    some (still (addArgument (.group opener arguments.reverse t.start) outer))
  | referenceCall p name arguments :: outer, .rightParen => some (still (referenceListed p name arguments :: outer))
  | opened@(call .. :: _), _ | opened@(group .. :: _), _ | opened@(referenceCall .. :: _), _ =>
    (feedArgument t opened).map still
  | quoted p parts :: outer, .quote => some (still (addArgument (.quoted p parts.reverse) outer))
  | unquoted parts :: outer, .argumentEnd =>
    match parts.reverse with
    | [] => none
    | first :: others => some (still (addArgument (.unquoted first others) outer))
  | .variable p space parts :: outer, .referenceClose =>
    some (still (addPart (.variable p space parts.reverse) outer))
  | opened@(quoted .. :: _), _ | opened@(unquoted _ :: _), _ | opened@(.variable .. :: _), _ =>
    (feedPart t opened).map still
  | reference :: outer, .name name => some (still (referenceNamed t.start name :: outer))
  | referenceNamed p name :: outer, .leftParen => some (still (referenceCall p name [] :: outer))
  | referenceListed p name arguments :: outer, .referenceClose =>
    some (still (addPart (.command p name arguments.reverse) outer))
  | _, _ => none

/-- Takes all tokens in order. The first that cannot come next is returned with what could. -/
def feedAll (b : Builder) : List Token → Except (Token × List Terminal) Builder
  | [] => .ok b
  | t :: ts =>
    match b.feed? t with
    | some b => b.feedAll ts
    | none => .error (t, b.expected)

end Builder

/-- The place where the end of the text is reported: that of the last token. -/
def endPosition (tokens : List Token) : Position := (tokens.getLast?.map Token.start).getD .start

/-- The invocations of a text in normal form. A token out of place is reported before a fault behind it. However deep
the text nests, the stack has room for it. -/
def parseText (text : List Char) (file : Option String) : Except Fault (List Invocation) :=
  let read := scan text
  match Builder.initial.feedAll read.tokens with
  | .error (t, expected) => .error ⟨.unexpected (some t.lexeme) expected, t.start.inFile file⟩
  | .ok b =>
    match read.fault with
    | some (fault, p) => .error ⟨.scan fault, p.inFile file⟩
    | none =>
      match b.opened with
      | [] => .ok b.done.reverse
      | _ => .error ⟨.unexpected none b.expected, (endPosition read.tokens).inFile file⟩

/-- The invocations of a text for which the stack may have no room. If it has none, the parser comes to no result: the
stack overflow goes through it as it is, unless a token out of place was met before. -/
def parseWithin (fits : ScanState → Bool) (text : List Char) (file : Option String) :
    Option (Except Fault (List Invocation)) :=
  let read := scanWithin fits text
  match Builder.initial.feedAll read.tokens with
  | .error (t, expected) => some (.error ⟨.unexpected (some t.lexeme) expected, t.start.inFile file⟩)
  | .ok b =>
    match read.ending with
    | .exhausted => none
    | .failed fault p => some (.error ⟨.scan fault, p.inFile file⟩)
    | .finished =>
      match b.opened with
      | [] => some (.ok b.done.reverse)
      | _ => some (.error ⟨.unexpected none b.expected, (endPosition read.tokens).inFile file⟩)

end CommandScript.Syntax
