import CommandScript.Proofs.Grammar.Relabelling
import CommandScript.Proofs.Scanning.Correspondence

/-! Reading a text that stands further down. Scanner and builder only count on from the position they are at, so at a
line start further down in a longer text they read the same tokens and trees, at places that lie further down by as
many characters and lines. -/

/-! ### Places further down -/

namespace CommandScript.Text

/-- The position that lies so many characters and lines further down. -/
def Position.shift (o l : Nat) (p : Position) : Position := ⟨p.offset + o, p.line + l, p.column⟩

end CommandScript.Text

namespace CommandScript.Syntax

open Text

def Token.shift (o l : Nat) (t : Token) : Token := ⟨t.lexeme, t.start.shift o l, t.stop.shift o l⟩

def Cursor.shift (o l : Nat) (c : Cursor) : Cursor := ⟨c.rest, c.position.shift o l⟩

def Context.shift (o l : Nat) : Context → Context
  | .command => .command
  | .arguments opener reference => .arguments (opener.shift o l) (reference.map (Position.shift o l))
  | .unquoted => .unquoted
  | .quoted opener => .quoted (opener.shift o l)
  | .variable opener => .variable (opener.shift o l)
  | .closing opener => .closing (opener.shift o l)

def ScanState.shift (o l : Nat) (s : ScanState) : ScanState :=
  ⟨s.cursor.shift o l, s.contexts.map (Context.shift o l)⟩

mutual

def Part.shift (o l : Nat) : Part → Part
  | .text p value => .text (p.shift o l) value
  | .variable p space parts => .variable (p.shift o l) space (shiftParts o l parts)
  | .command p name arguments => .command (p.shift o l) name (shiftArguments o l arguments)

def shiftParts (o l : Nat) : List Part → List Part
  | [] => []
  | part :: parts => part.shift o l :: shiftParts o l parts

def Argument.shift (o l : Nat) : Argument → Argument
  | .quoted p parts => .quoted (p.shift o l) (shiftParts o l parts)
  | .unquoted first others => .unquoted (first.shift o l) (shiftParts o l others)
  | .bracket p content => .bracket (p.shift o l) content
  | .group opener inner closer => .group (opener.shift o l) (shiftArguments o l inner) (closer.shift o l)

def shiftArguments (o l : Nat) : List Argument → List Argument
  | [] => []
  | argument :: arguments => argument.shift o l :: shiftArguments o l arguments

end

def Invocation.shift (o l : Nat) (i : Invocation) : Invocation :=
  ⟨i.name, i.start.shift o l, i.stop.shift o l, shiftArguments o l i.arguments⟩

def OpenTree.shift (o l : Nat) : OpenTree → OpenTree
  | named name start => named name (start.shift o l)
  | call name start arguments => call name (start.shift o l) (shiftArguments o l arguments)
  | group opener arguments => group (opener.shift o l) (shiftArguments o l arguments)
  | quoted p parts => quoted (p.shift o l) (shiftParts o l parts)
  | unquoted parts => unquoted (shiftParts o l parts)
  | .variable p space parts => .variable (p.shift o l) space (shiftParts o l parts)
  | reference => reference
  | referenceNamed p name => referenceNamed (p.shift o l) name
  | referenceCall p name arguments => referenceCall (p.shift o l) name (shiftArguments o l arguments)
  | referenceListed p name arguments => referenceListed (p.shift o l) name (shiftArguments o l arguments)

/-- What is built further down, with invocations complete before. -/
def Builder.shift (o l : Nat) (before : List Invocation) (b : Builder) : Builder :=
  ⟨b.done.map (Invocation.shift o l) ++ before, b.opened.map (OpenTree.shift o l)⟩

end CommandScript.Syntax

namespace CommandScript.Scanning

open Text Syntax

variable {o l : Nat}

theorem shift_next (p : Position) (x : Char) : (p.shift o l).next x = (p.next x).shift o l := by
  unfold Position.next Position.shift
  split
  · simp only [Position.mk.injEq, and_true]
    omega
  · simp only [Position.mk.injEq, and_true]
    omega

/-- The place that corresponds lies further down. -/
abbrev LiesDown (o l : Nat) (p q : Position) : Prop := q = p.shift o l

theorem shift_corresponds (s : ScanState) : s.Corresponds (LiesDown o l) (s.shift o l) := by
  refine ⟨rfl, rfl, List.forall₂_map_right_iff.2 (List.forall₂_same.2 fun d _ => ?_)⟩
  cases d with
  | arguments opener reference =>
    cases reference with
    | none => exact .arguments ..
    | some p => exact .reference ..
  | command => exact .command
  | unquoted => exact .unquoted
  | quoted => exact .quoted ..
  | «variable» => exact .variable ..
  | closing => exact .closing ..

/-- A text that is read to its end is read likewise further down. -/
theorem scan_shift (s : ScanState) (h : s.scan.fault = none) :
    (s.shift o l).scan = ⟨s.scan.tokens.map (Token.shift o l), none⟩ := by
  have hnext (p q : Position) (x : Char) (hq : LiesDown o l p q) : LiesDown o l (p.next x) (q.next x) := by
    rw [hq]
    exact shift_next p x
  obtain ⟨hfault, htokens⟩ := scan_corresponds hnext s (shift_corresponds s) h
  have hshift : s.scan.tokens.map (Token.shift o l) = (s.shift o l).scan.tokens := by
    rw [← List.forall₂_eq_eq_eq, List.forall₂_map_left_iff]
    refine htokens.imp fun t u htu => ?_
    obtain ⟨lexeme, p, q⟩ := u
    obtain ⟨rfl, rfl, rfl⟩ := htu
    rfl
  rw [hshift, ← hfault]

/-! ### Trees -/

/-- Further down, commands have the same names. -/
abbrev relabellingOfShift (o l : Nat) : Relabelling := { place := Position.shift o l }

theorem tokenShift_eq (t : Token) : t.shift o l = t.relabel (relabellingOfShift o l) := by
  obtain ⟨lexeme, p, q⟩ := t
  cases lexeme <;> rfl

mutual

theorem partShift_eq : ∀ part : Part, part.shift o l = part.relabel (relabellingOfShift o l)
  | .text .. => rfl
  | .variable _ space parts => congrArg (Part.variable _ space) (shiftParts_eq parts)
  | .command _ name arguments => congrArg (Part.command _ name) (shiftArguments_eq arguments)

theorem shiftParts_eq : ∀ parts : List Part, shiftParts o l parts = relabelParts (relabellingOfShift o l) parts
  | [] => rfl
  | part :: parts => by rw [shiftParts, relabelParts, partShift_eq part, shiftParts_eq parts]

theorem argumentShift_eq : ∀ argument : Argument, argument.shift o l = argument.relabel (relabellingOfShift o l)
  | .quoted _ parts => congrArg (Argument.quoted _) (shiftParts_eq parts)
  | .unquoted first others => by rw [Argument.shift, Argument.relabel, partShift_eq first, shiftParts_eq others]
  | .bracket .. => rfl
  | .group _ inner _ => congrArg (Argument.group _ · _) (shiftArguments_eq inner)

theorem shiftArguments_eq : ∀ arguments : List Argument,
    shiftArguments o l arguments = relabelArguments (relabellingOfShift o l) arguments
  | [] => rfl
  | argument :: arguments => by
    rw [shiftArguments, relabelArguments, argumentShift_eq argument, shiftArguments_eq arguments]

end

theorem invocationShift_eq (i : Invocation) : i.shift o l = i.relabel (relabellingOfShift o l) :=
  congrArg (Invocation.mk _ _ _) (shiftArguments_eq i.arguments)

theorem builderShift_eq (before : List Invocation) (b : Builder) :
    b.shift o l before = b.relabel (relabellingOfShift o l) before := by
  have hdone : Invocation.shift o l = Invocation.relabel (relabellingOfShift o l) := funext invocationShift_eq
  have hopened : OpenTree.shift o l = OpenTree.relabel (relabellingOfShift o l) := by
    funext x
    cases x <;> simp [OpenTree.shift, OpenTree.relabel, shiftParts_eq, shiftArguments_eq]
  rw [Builder.shift, Builder.relabel, hdone, hopened]

/-- Tokens are taken the same way further down, whatever was complete before. -/
theorem feedAll_shift (before : List Invocation) (ts : List Token) {b b' : Builder} (h : b.feedAll ts = .ok b') :
    (b.shift o l before).feedAll (ts.map (Token.shift o l)) = .ok (b'.shift o l before) := by
  rw [builderShift_eq, builderShift_eq, funext tokenShift_eq, feedAll_relabel, h]
  rfl

end CommandScript.Scanning
