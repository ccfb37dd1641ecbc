import CommandScript.Machine.Run

/-! Why an instruction fails by itself, and not because of a command: its operands are missing, there are not as many as
it can expand, or it cannot be executed at all. -/

namespace CommandScript.Machine

open Code

theorem cause_of_pop {α : Type} {held : Stacks α} {n : Int} {cause : Cause} (h : held.pop n = .error cause) :
    (∃ length needed, cause = .tooFewCounts length needed) ∨ ∃ length needed, cause = .tooFewValues length needed := by
  unfold Stacks.pop at h
  simp only at h
  split at h
  · cases h
    exact .inl ⟨_, _, rfl⟩
  · split at h
    · cases h
      exact .inr ⟨_, _, rfl⟩
    · cases h

theorem cause_of_expandOperands {expansion : Option Expansion} {operands : List (Operand String)} {cause : Cause}
    (h : expandOperands expansion operands = .error cause) : cause = .operandCount := by
  unfold expandOperands at h
  split at h
  · split at h <;> cases h
    rfl
  · split at h <;> cases h
    rfl
  · cases h
  · cases h

theorem irregularity_cases (i : Instruction) (code : Int) :
    irregularity i code = .numberForText 0 ∨ irregularity i code = .textForNumber ∨
      irregularity i code = .unknownInstruction i := by
  unfold irregularity
  split
  · exact .inl rfl
  · split
    · exact .inr (.inl rfl)
    · exact .inr (.inr rfl)

end CommandScript.Machine
