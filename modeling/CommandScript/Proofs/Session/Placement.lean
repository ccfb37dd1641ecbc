import CommandScript.Proofs.Grammar.Linearisation
import CommandScript.Proofs.Grammar.Relabelling
import CommandScript.Proofs.Session.Cache

/-! The places of what is read. Every program of a script has a place, and so has each of its instructions; those that
invoke a command also have its name. -/

namespace CommandScript

open Text Syntax Code

/-! ### Instructions and their places -/

namespace Code

/-- An instruction with a place, and with a name if it invokes a command. -/
structure Instruction.IsPlaced (i : Instruction) : Prop where
  location : i.location.isSome
  name : i.isCommand → i.name.isSome

/-- A program as scripts are read: it has a place, and so do its instructions. -/
structure Program.IsPlaced (p : Program) : Prop where
  location : p.location.isSome
  instructions : ∀ i ∈ p.instructions, i.IsPlaced

section Reading

variable (file : Option String)

mutual

theorem partCode_isPlaced : ∀ part : Part, ∀ i ∈ partCode file part, i.IsPlaced
  | .text p value => by
    rw [partCode, List.forall_mem_singleton]
    exact ⟨rfl, fun h => by cases h⟩
  | .variable p space parts => by
    rw [partCode, List.forall_mem_append, List.forall_mem_singleton]
    exact ⟨partsCode_isPlaced parts, rfl, fun _ => rfl⟩
  | .command p name arguments => by
    rw [partCode, List.forall_mem_append, List.forall_mem_singleton]
    exact ⟨argumentsCode_isPlaced arguments, rfl, fun _ => rfl⟩

theorem partsCode_isPlaced : ∀ parts : List Part, ∀ i ∈ partsCode file parts, i.IsPlaced
  | [] => fun _ hi => (List.not_mem_nil hi).elim
  | part :: parts => by
    rw [partsCode, List.forall_mem_append]
    exact ⟨partCode_isPlaced part, partsCode_isPlaced parts⟩

theorem argumentCode_isPlaced : ∀ argument : Argument, ∀ i ∈ argumentCode file argument, i.IsPlaced
  | .quoted p parts => by
    rw [argumentCode, List.forall_mem_append, List.forall_mem_singleton]
    exact ⟨partsCode_isPlaced parts, rfl, fun h => by cases h⟩
  | .unquoted first others => by
    rw [argumentCode, List.forall_mem_append, List.forall_mem_append, List.forall_mem_singleton]
    exact ⟨⟨partCode_isPlaced first, partsCode_isPlaced others⟩, rfl, fun h => by cases h⟩
  | .bracket p content => by
    rw [argumentCode, List.forall_mem_cons, List.forall_mem_singleton]
    exact ⟨⟨rfl, fun h => by cases h⟩, rfl, fun h => by cases h⟩
  | .group opener inner closer => by
    rw [argumentCode, List.forall_mem_append, List.forall_mem_append, List.forall_mem_cons, List.forall_mem_singleton,
      List.forall_mem_cons, List.forall_mem_singleton]
    exact ⟨⟨⟨⟨rfl, fun h => by cases h⟩, rfl, fun h => by cases h⟩, argumentsCode_isPlaced inner⟩,
      ⟨rfl, fun h => by cases h⟩, rfl, fun h => by cases h⟩

theorem argumentsCode_isPlaced : ∀ arguments : List Argument, ∀ i ∈ argumentsCode file arguments, i.IsPlaced
  | [] => fun _ hi => (List.not_mem_nil hi).elim
  | argument :: arguments => by
    rw [argumentsCode, List.forall_mem_append]
    exact ⟨argumentCode_isPlaced argument, argumentsCode_isPlaced arguments⟩

end

theorem ofInvocation_isPlaced (text : List Char) (i : Invocation) : (Program.ofInvocation text file i).IsPlaced := by
  refine ⟨rfl, ?_⟩
  rw [Program.ofInvocation, List.forall_mem_append, List.forall_mem_singleton]
  exact ⟨argumentsCode_isPlaced file i.arguments, rfl, fun _ => rfl⟩

end Reading

end Code

theorem isPlaced_of_readScript (key : Session.ScriptKey) (ps : List Program) (h : Session.readScript key = .ok ps) :
    ∀ p ∈ ps, p.IsPlaced := by
  obtain ⟨text, -, hps, -⟩ := Session.readScript_ok h
  obtain ⟨invocations, -, rfl⟩ := Grammar.exists_invocations hps
  intro p hp
  obtain ⟨i, -, rfl⟩ := List.mem_map.1 hp
  exact ofInvocation_isPlaced key.file text i

end CommandScript
