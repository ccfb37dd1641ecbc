import CommandScript.Machine.Stacks

/-! The stacks behind several finished sub-expressions, and taking the results of all of them back. -/

namespace CommandScript.Machine

variable {α : Type}

theorem total_map_length (operands : List (Operand α)) :
    total (operands.map List.length) = operands.flatten.length := by
  induction operands with
  | nil => rfl
  | cons operand operands ih =>
    simp only [total, List.map_cons, List.foldr_cons, List.flatten_cons, List.length_append] at ih ⊢
    rw [ih]

theorem regroup_map_length (operands : List (Operand α)) :
    regroup (operands.map List.length) operands.flatten = operands := by
  induction operands with
  | nil => rfl
  | cons operand operands ih => simp [regroup, ih]

namespace Stacks

/-- The stacks behind some sub-expressions, each of which leaves one operand. -/
def pushAll (st : Stacks α) (operands : List (Operand α)) : Stacks α :=
  ⟨st.values ++ operands.flatten, st.counts ++ operands.map List.length⟩

@[simp] theorem pushAll_nil (st : Stacks α) : st.pushAll [] = st := by simp [pushAll]

theorem pushAll_append (st : Stacks α) (as bs : List (Operand α)) :
    st.pushAll (as ++ bs) = (st.pushAll as).pushAll bs := by
  simp [pushAll, List.append_assoc]

theorem pushAll_singleton (st : Stacks α) (operand : Operand α) : st.pushAll [operand] = st.push operand := by
  simp [pushAll, push]

/-- Taking as many operands as were left gives them back, whatever lies below. -/
theorem pop_pushAll (st : Stacks α) (operands : List (Operand α)) :
    (st.pushAll operands).pop operands.length = .ok (operands, st) := by
  have hv : (st.values ++ operands.flatten).length - operands.flatten.length = st.values.length := by simp
  have hc : (st.counts ++ operands.map List.length).length - operands.length = st.counts.length := by simp
  simp only [pop, pushAll, Int.toNat_natCast, hc, List.drop_left, List.take_left, total_map_length, hv,
    regroup_map_length]
  rw [if_neg (by simp), if_neg (by simp)]

end Stacks

end CommandScript.Machine
