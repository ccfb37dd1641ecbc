import CommandScript.Proofs.Grammar.Construction
import CommandScript.Proofs.Grammar.Operands

/-! Programs are derivations in post-order. A derivation is read as expressions: an instruction together with its
operands, which are expressions again. Written in post-order, each expression puts its operands before its own
instruction, and the instruction says how many there are; nothing else says how programs look. A script that can be
read has exactly one derivation, and its programs are those of the calls in it, in their order. -/

namespace CommandScript.Grammar

open Text Syntax Code

/-! ### Expressions -/

/-- An instruction that is still to be told the number of its operands, and those operands. -/
inductive Expression where
  | node (instruction : Int → Instruction) (operands : List Expression)

mutual

/-- The operands in their order, and the instruction with their number behind them. -/
def Expression.postorder : Expression → List Instruction
  | .node instruction operands => postorders operands ++ [instruction operands.length]

def postorders : List Expression → List Instruction
  | [] => []
  | e :: es => e.postorder ++ postorders es

end

theorem postorders_append (es fs : List Expression) : postorders (es ++ fs) = postorders es ++ postorders fs := by
  induction es with
  | nil => rfl
  | cons e es ih => simp [postorders, ih]

/-- An expression without operands. -/
def leaf (instruction : Instruction) : Expression := .node (fun _ => instruction) []

section Reading

variable (file : Option String)

/-- The place of a token in the file. -/
def TokenOf.place {kind : Terminal} (t : TokenOf kind) : Location := t.token.start.inFile file

/-- The place at which a part is said to stand; for a command that is its name. -/
def PartDerivation.place : PartDerivation → Location
  | .text t => t.place file
  | .variable opener .. => opener.place file
  | .command _ name .. => name.place file

/-- The only part of an unquoted argument is expanded as a list if it is a variable, and value by value if it is a
command. -/
def expansion : PartDerivation → List PartDerivation → Option Expansion
  | .variable .., [] => some .list
  | .command .., [] => some .values
  | _, _ => none

mutual

def partExpression : PartDerivation → Expression
  | .text t => leaf (.literal t.token.lexeme.value (t.place file))
  | .variable opener parts _ =>
    .node (fun n => .variableReference opener.space n (opener.place file)) (partExpressions parts)
  | .command _ name _ arguments _ _ =>
    .node (fun n => .commandReference name.token.lexeme.value n (name.place file)) (argumentsExpressions arguments)

def partExpressions : List PartDerivation → List Expression
  | [] => []
  | part :: parts => partExpression part :: partExpressions parts

/-- An argument is one expression, but a group is those of its arguments between those of its two parentheses. -/
def argumentExpressions : ArgumentDerivation → List Expression
  | .quoted opener parts _ => [.node (fun n => .quoted n (opener.place file)) (partExpressions parts)]
  | .unquoted first others _ =>
    [.node (fun n => .unquoted n (expansion first others) (first.place file))
      (partExpression first :: partExpressions others)]
  | .bracket t => [.node (fun n => .quoted n (t.place file)) [leaf (.literal t.token.lexeme.value (t.place file))]]
  | .group leftParen arguments rightParen =>
    .node (fun n => .unquoted n none (leftParen.place file)) [leaf (.literal "(" (leftParen.place file))] ::
      (argumentsExpressions arguments ++
        [.node (fun n => .unquoted n none (rightParen.place file)) [leaf (.literal ")" (rightParen.place file))]])

def argumentsExpressions : List ArgumentDerivation → List Expression
  | [] => []
  | argument :: arguments => argumentExpressions argument ++ argumentsExpressions arguments

end

/-- A call is an expression with those of its arguments as operands. -/
def CallDerivation.expression (d : CallDerivation) : Expression :=
  .node (fun n => .call d.name.token.lexeme.value n (d.name.place file)) (argumentsExpressions file d.arguments)

end Reading

/-! ### Code of trees -/

theorem partTree_position (p : PartDerivation) (file : Option String) :
    (partTree p).position.inFile file = p.place file := by
  cases p <;> rfl

theorem expansionOf_trees (p : PartDerivation) (ps : List PartDerivation) :
    expansionOf (partTree p) (partTrees ps) = expansion p ps := by
  cases p <;> cases ps <;> rfl

theorem length_partTrees (ps : List PartDerivation) : (partTrees ps).length = ps.length := by
  rw [partTrees_eq_map, List.length_map]

theorem length_partExpressions (file : Option String) (ps : List PartDerivation) :
    (partExpressions file ps).length = ps.length := by
  induction ps with
  | nil => rfl
  | cons p ps ih => simp [partExpressions, ih]

mutual

theorem width_argumentTree (file : Option String) : ∀ a : ArgumentDerivation,
    width (argumentTree a) = (argumentExpressions file a).length
  | .quoted .. | .unquoted .. | .bracket _ => rfl
  | .group _ as _ => by simp [argumentTree, width, argumentExpressions, widths_argumentTrees file as]

theorem widths_argumentTrees (file : Option String) : ∀ as : List ArgumentDerivation,
    widths (argumentTrees as) = (argumentsExpressions file as).length
  | [] => rfl
  | a :: as => by
    simp [argumentTrees, widths, argumentsExpressions, width_argumentTree file a, widths_argumentTrees file as]

end

mutual

theorem partCode_partTree (file : Option String) : ∀ p : PartDerivation,
    partCode file (partTree p) = (partExpression file p).postorder
  | .text t => rfl
  | .variable opener ps closer => by
    simp only [partTree, partCode, partExpression, Expression.postorder, partsCode_partTrees file ps, length_partTrees,
      length_partExpressions]
    rfl
  | .command opener name leftParen as rightParen closer => by
    simp only [partTree, partCode, partExpression, Expression.postorder, argumentsCode_argumentTrees file as,
      widths_argumentTrees file as]
    rfl

theorem partsCode_partTrees (file : Option String) : ∀ ps : List PartDerivation,
    partsCode file (partTrees ps) = postorders (partExpressions file ps)
  | [] => rfl
  | p :: ps => by
    rw [partTrees, partsCode, partCode_partTree file p, partsCode_partTrees file ps, partExpressions, postorders]

theorem argumentCode_argumentTree (file : Option String) : ∀ a : ArgumentDerivation,
    argumentCode file (argumentTree a) = postorders (argumentExpressions file a)
  | .quoted opener ps closer => by
    simp only [argumentTree, argumentCode, argumentExpressions, postorders, Expression.postorder,
      partsCode_partTrees file ps, length_partTrees, length_partExpressions, List.append_nil]
    rfl
  | .unquoted p ps finish => by
    simp only [argumentTree, argumentCode, argumentExpressions, postorders, Expression.postorder,
      partCode_partTree file p, partsCode_partTrees file ps, length_partTrees, length_partExpressions,
      expansionOf_trees, partTree_position, List.append_nil, List.length_cons]
    rfl
  | .bracket t => rfl
  | .group leftParen as rightParen => by
    simp only [argumentTree, argumentCode, argumentExpressions, postorders, postorders_append,
      argumentsCode_argumentTrees file as, List.append_nil]
    rfl

theorem argumentsCode_argumentTrees (file : Option String) : ∀ as : List ArgumentDerivation,
    argumentsCode file (argumentTrees as) = postorders (argumentsExpressions file as)
  | [] => rfl
  | a :: as => by
    rw [argumentTrees, argumentsCode, argumentCode_argumentTree file a, argumentsCode_argumentTrees file as,
      argumentsExpressions, postorders_append]

end

/-! ### Programs -/

/-- The program of a call: its expression in post-order, under the name of the command. -/
def CallDerivation.program (text : List Char) (file : Option String) (d : CallDerivation) : Program where
  name := d.name.token.lexeme.value
  instructions := (d.expression file).postorder
  location := d.name.place file
  source := slice text d.name.token.start d.rightParen.token.stop

theorem ofInvocation_tree (text : List Char) (file : Option String) (d : CallDerivation) :
    Program.ofInvocation text file d.tree = d.program text file := by
  simp only [Program.ofInvocation, CallDerivation.tree, CallDerivation.program, CallDerivation.expression,
    Expression.postorder, argumentsCode_argumentTrees, widths_argumentTrees file d.arguments]
  rfl

theorem isCall_argumentsExpressions (file : Option String) (as : List ArgumentDerivation) :
    ∀ i ∈ postorders (argumentsExpressions file as), isCall i = false := by
  rw [← argumentsCode_argumentTrees]
  exact (leaves_arguments file _).calls

/-- The instructions of a program end with its call, and no other of them is a call. -/
theorem CallDerivation.instructions_program (text : List Char) (file : Option String) (d : CallDerivation) :
    ∃ operands, (d.program text file).instructions =
        operands ++ [.call (d.program text file).name (argumentsExpressions file d.arguments).length
          (d.program text file).location] ∧
      ∀ i ∈ operands, isCall i = false :=
  ⟨postorders (argumentsExpressions file d.arguments), rfl, isCall_argumentsExpressions file d.arguments⟩

/-- A text that can be read was scanned to its end into tokens that the builder takes, and nothing is left open. -/
theorem parseText_ok {text : List Char} {file : Option String} {invocations : List Invocation}
    (h : parseText text file = .ok invocations) : (scan text).fault = none ∧
      ∃ b, Builder.initial.feedAll (scan text).tokens = .ok b ∧ b.opened = [] ∧ b.done.reverse = invocations := by
  simp only [parseText] at h
  split at h
  · cases h
  · rename_i b hb
    split at h
    · cases h
    · rename_i hf
      split at h
      · rename_i ho
        cases h
        exact ⟨hf, b, hb, ho, rfl⟩
      · cases h

/-- The programs of a script that can be read are those of its invocations. -/
theorem exists_invocations {text : List Char} {file : Option String} {ps : List Program}
    (h : programsOfText text file = .ok ps) :
    ∃ is, parseText text file = .ok is ∧ is.map (Program.ofInvocation text file) = ps := by
  rw [programsOfText] at h
  cases hp : parseText text file with
  | error fault => rw [hp] at h; cases h
  | ok is => rw [hp] at h; cases h; exact ⟨is, rfl, rfl⟩

/-- The tokens of a script that can be read have one derivation and no other. Its calls, in their order, are the
programs of the script: each is its expression in post-order, in which the call comes last and is the only one. -/
theorem programsOfText_linearise {text : List Char} {file : Option String} {ps : List Program}
    (h : programsOfText text file = .ok ps) :
    (scan text).fault = none ∧
      ∃ ds, (scriptTokens ds = (scan text).tokens ∧ ∀ ds', scriptTokens ds' = (scan text).tokens → ds' = ds) ∧
      ps = ds.map (CallDerivation.program text file) ∧
      ∀ p ∈ ps, ∃ operands arity, p.instructions = operands ++ [.call p.name arity p.location] ∧
        ∀ i ∈ operands, isCall i = false := by
  obtain ⟨invocations, hi, rfl⟩ := exists_invocations h
  obtain ⟨hf, b, hb, ho, rfl⟩ := parseText_ok hi
  obtain ⟨ds, hds, ht⟩ := exists_derivation hb ho
  have hps : b.done.reverse.map (Program.ofInvocation text file) = ds.map (CallDerivation.program text file) := by
    rw [ht, List.map_map]
    exact List.map_congr_left fun d _ => ofInvocation_tree text file d
  refine ⟨hf, ds, ⟨hds, fun ds' hds' => scriptTokens_injective (hds'.trans hds.symm)⟩, hps, ?_⟩
  intro p hp
  rw [hps] at hp
  obtain ⟨d, -, rfl⟩ := List.mem_map.1 hp
  obtain ⟨operands, hd⟩ := d.instructions_program text file
  exact ⟨operands, _, hd⟩

/-- An invocation with one argument that is one text. -/
theorem programsOfText_linearise_single :
    ∃ ds, (scriptTokens ds = (scan "a(b)".toList).tokens ∧
        ∀ ds', scriptTokens ds' = (scan "a(b)".toList).tokens → ds' = ds) ∧
      [⟨"a", [.literal "b" (some ⟨1, 3, none⟩), .unquoted 1 none (some ⟨1, 3, none⟩), .call "a" 1 (some ⟨1, 1, none⟩)],
        some ⟨1, 1, none⟩, some "a(b)"⟩] = ds.map (CallDerivation.program "a(b)".toList none) := by
  have h : programsOfText "a(b)".toList none = .ok
      [⟨"a", [.literal "b" (some ⟨1, 3, none⟩), .unquoted 1 none (some ⟨1, 3, none⟩), .call "a" 1 (some ⟨1, 1, none⟩)],
        some ⟨1, 1, none⟩, some "a(b)"⟩] := by decide +kernel
  obtain ⟨-, ds, hds, hps, -⟩ := programsOfText_linearise h
  exact ⟨ds, hds, hps⟩

end CommandScript.Grammar
