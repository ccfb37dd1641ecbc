import CommandScript.Proofs.Grammar.Linearisation
import CommandScript.Proofs.Scanning.Lexing

/-! What the instructions look like that reading a script makes. None is irregular: the operands are counted, a variable
is looked up in one of the three namespaces, and a reference is expanded in one of the two ways. The name of a command
is a token that was scanned as a name, so it has no other characters than names have. -/

namespace CommandScript.Scanning

open Text Syntax

/-! ### Names -/

/-- All characters of the text can stand in the name of a command. -/
def OfNameCharacters (text : String) : Prop := ∀ c ∈ text.toList, isNameCharacter c

/-- A lexeme that is of name characters if it is a name. -/
def ProperlyNamed (x : Lexeme) : Prop := ∀ text, x = .name text → OfNameCharacters text

theorem ofNameCharacters_of_identifier? {cs name rest : List Char} (h : identifier? cs = some (name, rest)) :
    OfNameCharacters (String.ofList name) := by
  rw [OfNameCharacters, String.toList_ofList]
  exact (identifier?_eq_append h).2

theorem LexesPart.properlyNamed {kind : PartKind} {p : Position} {contexts contexts' : List Context} {ps : List Piece}
    {rest : List Char} (h : LexesPart kind p contexts ps rest contexts') : ∀ x ∈ ps, ProperlyNamed x.lexeme := by
  cases h with
  | command h => simp [ProperlyNamed, ofNameCharacters_of_identifier? h]
  | «variable» | text => simp [ProperlyNamed]

theorem Lexes.properlyNamed {p : Position} {contexts contexts' : List Context} {ps : List Piece} {rest : List Char}
    (h : Lexes p contexts ps rest contexts') : ∀ x ∈ ps, ProperlyNamed x.lexeme := by
  cases h with
  | name h => simp [ProperlyNamed, ofNameCharacters_of_identifier? h]
  | argument _ _ _ h | part _ _ _ h => exact h.properlyNamed
  | _ => simp [ProperlyNamed]

theorem properlyNamed_of_tokensFrom {p : Position} {ps : List Piece} (h : ∀ x ∈ ps, ProperlyNamed x.lexeme) :
    ∀ t ∈ tokensFrom p ps, ProperlyNamed t.lexeme := by
  induction ps generalizing p with
  | nil => simp [tokensFrom]
  | cons x ps ih =>
    obtain ⟨hx, hps⟩ := List.forall_mem_cons.1 h
    rw [tokensFrom]
    exact List.forall_mem_cons.2 ⟨hx, ih hps⟩

theorem properlyNamed_of_scan (s : ScanState) : ∀ t ∈ s.scan.tokens, ProperlyNamed t.lexeme := by
  induction s using ScanState.scan.induct with
  | case1 s hs => simp [ScanState.scan_finished hs]
  | case2 s fault p hs => simp [ScanState.scan_failed hs]
  | case3 s ts next hs ih =>
    rw [ScanState.scan_moved hs]
    obtain ⟨p, ps, -, -, rfl, hlexes⟩ := step_eq_moved_iff.1 hs
    exact List.forall_mem_append.2 ⟨properlyNamed_of_tokensFrom hlexes.properlyNamed, ih⟩

end CommandScript.Scanning

namespace CommandScript.Code

open Text Syntax Scanning

/-- An instruction that reading a script can make. -/
inductive Instruction.IsRegular : Instruction → Prop where
  | literal (text : String) (place : Option Location) : IsRegular (.literal text place)
  | variableReference (space : Namespace) (n : Nat) (place : Option Location) :
    IsRegular (.variableReference space n place)
  | commandReference {name : String} (hname : OfNameCharacters name) (n : Nat) (place : Option Location) :
    IsRegular (.commandReference name n place)
  | quoted (n : Nat) (place : Option Location) : IsRegular (.quoted n place)
  | unquoted (n : Nat) {expansion : Option Expansion} (hexpansion : expansion ∈ [none, some .list, some .values])
    (place : Option Location) : IsRegular (.unquoted n expansion place)
  | call {name : String} (hname : OfNameCharacters name) (n : Nat) (place : Option Location) :
    IsRegular (.call name n place)

/-- The line and the column of a program that has a place, without the name of the file. -/
def Program.point (p : Program) : Option (Int × Int) := p.location.map fun l => (l.line, l.column)

/-- A program that reading a script can make: it stands at a line and a column of a text. -/
structure Program.IsRegular (p : Program) : Prop where
  name : OfNameCharacters p.name
  point : ∃ line column : Nat, p.point = some (↑line, ↑column)
  instructions : ∀ i ∈ p.instructions, i.IsRegular

end CommandScript.Code

namespace CommandScript.Grammar

open Text Syntax Code Scanning

/-! ### Derivations -/

theorem TokenOf.ofNameCharacters (t : TokenOf .name) (h : ProperlyNamed t.token.lexeme) :
    OfNameCharacters t.token.lexeme.value := by
  obtain ⟨⟨lexeme, start, stop⟩, hkind⟩ := t
  cases lexeme with
  | name text => exact h text rfl
  | _ => cases hkind

theorem expansionOf_mem (part : Part) (parts : List Part) :
    expansionOf part parts ∈ [none, some .list, some .values] := by
  unfold expansionOf
  split <;> decide

mutual

theorem isRegular_part (file : Option String) : ∀ p : PartDerivation, (∀ t ∈ partTokens p, ProperlyNamed t.lexeme) →
    ∀ i ∈ partCode file (partTree p), i.IsRegular
  | .text t, _ => List.forall_mem_singleton.2 (.literal _ _)
  | .variable opener ps closer, h => by
    obtain ⟨hps, -⟩ := List.forall_mem_append.1 (List.forall_mem_cons.1 h).2
    exact List.forall_mem_append.2 ⟨isRegular_parts file ps hps, List.forall_mem_singleton.2 (.variableReference _ _ _)⟩
  | .command opener name leftParen as rightParen closer, h => by
    simp only [partTokens, List.forall_mem_cons, List.forall_mem_append] at h
    obtain ⟨-, hname, -, has, -⟩ := h
    exact List.forall_mem_append.2 ⟨isRegular_arguments file as has,
      List.forall_mem_singleton.2 (.commandReference (name.ofNameCharacters hname) _ _)⟩

theorem isRegular_parts (file : Option String) : ∀ ps : List PartDerivation,
    (∀ t ∈ partsTokens ps, ProperlyNamed t.lexeme) → ∀ i ∈ partsCode file (partTrees ps), i.IsRegular
  | [], _ => List.forall_mem_nil _
  | p :: ps, h => by
    obtain ⟨hp, hps⟩ := List.forall_mem_append.1 h
    exact List.forall_mem_append.2 ⟨isRegular_part file p hp, isRegular_parts file ps hps⟩

theorem isRegular_argument (file : Option String) : ∀ a : ArgumentDerivation,
    (∀ t ∈ argumentTokens a, ProperlyNamed t.lexeme) → ∀ i ∈ argumentCode file (argumentTree a), i.IsRegular
  | .quoted opener ps closer, h => by
    obtain ⟨hps, -⟩ := List.forall_mem_append.1 (List.forall_mem_cons.1 h).2
    exact List.forall_mem_append.2 ⟨isRegular_parts file ps hps, List.forall_mem_singleton.2 (.quoted _ _)⟩
  | .unquoted p ps finish, h => by
    obtain ⟨hp, hps⟩ := List.forall_mem_append.1 h
    obtain ⟨hps, -⟩ := List.forall_mem_append.1 hps
    have hparts := List.forall_mem_append.2 ⟨isRegular_part file p hp, isRegular_parts file ps hps⟩
    exact List.forall_mem_append.2 ⟨hparts, List.forall_mem_singleton.2 (.unquoted _ (expansionOf_mem _ _) _)⟩
  | .bracket t, _ => List.forall_mem_cons.2 ⟨.literal _ _, List.forall_mem_singleton.2 (.quoted 1 _)⟩
  | .group leftParen as rightParen, h => by
    obtain ⟨has, -⟩ := List.forall_mem_append.1 (List.forall_mem_cons.1 h).2
    have hparen (text : String) (place : Location) :
        ∀ i ∈ [Instruction.literal text place, .unquoted 1 none place], i.IsRegular :=
      List.forall_mem_cons.2 ⟨.literal _ _, List.forall_mem_singleton.2 (.unquoted 1 (by decide) _)⟩
    exact List.forall_mem_append.2
      ⟨List.forall_mem_append.2 ⟨hparen _ _, isRegular_arguments file as has⟩, hparen _ _⟩

theorem isRegular_arguments (file : Option String) : ∀ as : List ArgumentDerivation,
    (∀ t ∈ argumentsTokens as, ProperlyNamed t.lexeme) → ∀ i ∈ argumentsCode file (argumentTrees as), i.IsRegular
  | [], _ => List.forall_mem_nil _
  | a :: as, h => by
    obtain ⟨ha, has⟩ := List.forall_mem_append.1 h
    exact List.forall_mem_append.2 ⟨isRegular_argument file a ha, isRegular_arguments file as has⟩

end

/-! ### Programs -/

theorem CallDerivation.isRegular (text : List Char) (file : Option String) (d : CallDerivation)
    (h : ∀ t ∈ callTokens d, ProperlyNamed t.lexeme) : (Program.ofInvocation text file d.tree).IsRegular := by
  simp only [callTokens, List.forall_mem_cons, List.forall_mem_append] at h
  obtain ⟨hname, -, has, -⟩ := h
  have hname := d.name.ofNameCharacters hname
  exact ⟨hname, ⟨d.name.token.start.line, d.name.token.start.column, rfl⟩, List.forall_mem_append.2
    ⟨isRegular_arguments file d.arguments has, List.forall_mem_singleton.2 (.call hname _ _)⟩⟩

/-- All programs that are read are regular. -/
theorem isRegular_of_read {text : List Char} {file : Option String} {ps : List Program}
    (h : programsOfText text file = .ok ps) : ∀ p ∈ ps, p.IsRegular := by
  obtain ⟨is, his, rfl⟩ := exists_invocations h
  obtain ⟨-, b, hb, ho, rfl⟩ := parseText_ok his
  obtain ⟨ds, htokens, htrees⟩ := exists_derivation hb ho
  have hscan : ∀ t ∈ scriptTokens ds, ProperlyNamed t.lexeme := by
    rw [htokens]
    exact properlyNamed_of_scan _
  rw [htrees, List.map_map]
  refine List.forall_mem_map.2 fun d hd => d.isRegular text file fun t ht => ?_
  exact hscan t (List.mem_flatMap.2 ⟨d, hd, ht⟩)

end CommandScript.Grammar
