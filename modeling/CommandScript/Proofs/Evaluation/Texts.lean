import CommandScript.Machine.Mixed
import CommandScript.Proofs.Evaluation.Heights

/-! Programs of texts. Where no number stands in the place of a text, running a program with numbers allowed is the same
as running it without: every instruction finds texts and leaves texts, and what it does depends on its operands only. -/

namespace CommandScript.Machine

open Text Code Stacks

variable {σ : Type}

/-! ### Values -/

@[simp] theorem requireTexts_texts (texts : List String) : requireTexts (texts.map .text) = .ok texts := by
  have hnumber : (texts.map Datum.text).findIdx? Datum.isNumber = none := by
    simp [Datum.isNumber]
  simp [requireTexts, hnumber, Function.comp_def, Datum.plain]

/-- Operands that are texts. -/
def operandsOfTexts (operands : List (Operand String)) : List (Operand Datum) := operands.map (List.map .text)

@[simp] theorem length_operandsOfTexts (operands : List (Operand String)) :
    (operandsOfTexts operands).length = operands.length := List.length_map _

@[simp] theorem flatten_operandsOfTexts (operands : List (Operand String)) :
    (operandsOfTexts operands).flatten = operands.flatten.map .text := by
  rw [operandsOfTexts, List.map_flatten]

theorem ofTexts_holding (operands : List (Operand String)) :
    (holding operands).ofTexts = holding (operandsOfTexts operands) := by
  simp [Stacks.ofTexts, pushAll, operandsOfTexts, List.map_flatten, Function.comp_def]

/-! ### One instruction -/

/-- Whatever is below, the same values are put on top of it. -/
theorem above_push (below : List (Operand String)) (values : List String) :
    (Progress.moved ((holding []).push values)).above (holding below) = .moved ((holding below).push values) := by
  simp [Progress.above, push, pushAll]

/-- An instruction takes its operands and leaves what is below them as it is. -/
theorem execute_above (w : Surroundings σ) (onlyResolve isLast : Bool) (i : Instruction)
    (below taken : List (Operand String)) (s : σ) (h : i.operation.arity.toNat = taken.length) :
    execute w onlyResolve isLast i (holding (below ++ taken)) s =
      ((execute w onlyResolve isLast i (holding taken) s).1.map (Progress.above (holding below)),
        (execute w onlyResolve isLast i (holding taken) s).2) := by
  have hpop := pop_covered below taken h
  have hpop' := pop_covered [] taken h
  rw [List.nil_append] at hpop'
  unfold execute
  cases hop : i.operation <;> simp only [hop, Operation.arity] at h hpop hpop' ⊢
  case literal text =>
    obtain rfl : taken = [] := List.length_eq_zero_iff.1 h.symm
    simp only [Except.map, above_push, List.append_nil]
  case «variable» n | quoted n => simp only [hpop, hpop', Except.map, above_push]
  case unquoted n =>
    simp only [hpop, hpop']
    cases expandOperands i.expansion taken with
    | ok values => simp only [Except.map, above_push]
    | error cause => rfl
  case commandReference n =>
    simp only [hpop, hpop']
    rcases dispatch w i taken.flatten s with ⟨failure | results, t⟩
    · rfl
    · simp only [Except.map, above_push]
  case call n =>
    simp only [hpop, hpop']
    cases onlyResolve with
    | false =>
      rcases dispatch w i taken.flatten s with ⟨failure | results, t⟩
      · rfl
      · simp only [Bool.false_eq_true, if_false, Except.map, above_push]
    | true => cases isLast <;> rfl
  case irregular code operand => rfl

theorem executeMixed_short (w : Surroundings σ) (onlyResolve isLast : Bool) {i : Instruction}
    (hi : i.holdsNumber = false) {st : Stacks Datum} {cause : Cause} (h : st.pop i.operation.arity = .error cause)
    (s : σ) : executeMixed w onlyResolve isLast i st s = (.error { cause }, s) := by
  unfold executeMixed
  split
  · rename_i n hop
    simp [Instruction.holdsNumber, hop] at hi
  · simp only [h]

theorem executeMixed_covered (w : Surroundings σ) (onlyResolve isLast : Bool) {i : Instruction}
    (hi : i.holdsNumber = false) {st below : Stacks Datum} {operands : List (Operand Datum)} {texts : List String}
    (h : st.pop i.operation.arity = .ok (operands, below)) (ht : requireTexts operands.flatten = .ok texts) (s : σ) :
    executeMixed w onlyResolve isLast i st s =
      ((execute w onlyResolve isLast i ⟨texts, operands.map List.length⟩ s).1.map (Progress.above below ·.ofTexts),
        (execute w onlyResolve isLast i ⟨texts, operands.map List.length⟩ s).2) := by
  unfold executeMixed
  split
  · rename_i n hop
    simp [Instruction.holdsNumber, hop] at hi
  · simp only [h, ht]

/-- An instruction that finds texts does the same whether or not it might find numbers. -/
theorem executeMixed_texts (w : Surroundings σ) (onlyResolve isLast : Bool) {i : Instruction}
    (hi : i.holdsNumber = false) (operands : List (Operand String)) (s : σ) :
    executeMixed w onlyResolve isLast i (holding (operandsOfTexts operands)) s =
      ((execute w onlyResolve isLast i (holding operands) s).1.map Progress.ofTexts,
        (execute w onlyResolve isLast i (holding operands) s).2) := by
  by_cases h : operands.length < i.operation.arity
  · have hshort : (operandsOfTexts operands).length < i.operation.arity := by rwa [length_operandsOfTexts]
    rw [executeMixed_short w onlyResolve isLast hi (pop_short hshort), length_operandsOfTexts,
      execute_short w onlyResolve isLast i operands s h]
    rfl
  · obtain ⟨below, taken, rfl, htaken⟩ := exists_taken h
    have hpop := pop_covered (operandsOfTexts below) (operandsOfTexts taken)
      (htaken.trans (length_operandsOfTexts taken).symm)
    have hsplit : operandsOfTexts (below ++ taken) = operandsOfTexts below ++ operandsOfTexts taken := List.map_append
    have hown : (⟨taken.flatten, (operandsOfTexts taken).map List.length⟩ : Stacks String) = holding taken := by
      simp [pushAll, operandsOfTexts, Function.comp_def]
    have htexts : requireTexts (operandsOfTexts taken).flatten = .ok taken.flatten := by
      rw [flatten_operandsOfTexts, requireTexts_texts]
    rw [hsplit, executeMixed_covered w onlyResolve isLast hi hpop htexts, hown,
      execute_above w onlyResolve isLast i below taken s htaken]
    rcases (execute w onlyResolve isLast i (holding taken) s).1 with failure | held | arguments
    · rfl
    · simp [Except.map, Progress.above, Progress.ofTexts, ← ofTexts_holding, Stacks.ofTexts]
    · rfl

/-! ### Programs -/

theorem runMixedFrom_texts (w : Surroundings σ) (start : TraceStart σ) (onlyResolve : Bool) {is : List Instruction}
    (his : ∀ i ∈ is, i.holdsNumber = false) (step : Nat) (operands : List (Operand String)) (s : σ) :
    runMixedFrom w start onlyResolve step (holding (operandsOfTexts operands)) is s =
      ((runFrom w onlyResolve step (holding operands) is s).1.map (List.map .text),
        (runFrom w onlyResolve step (holding operands) is s).2) := by
  -- nothing but texts is shown, so every step is announced in full
  have hannounce (step : Nat) (i : Option Instruction) (notice : Stacks String → Notice)
      (operands : List (Operand String)) (s : σ) :
      announce w start step i notice (holding (operandsOfTexts operands)) s =
        (.ok (), w.observe (notice (holding operands)) s) := by
    simp only [announce, ← ofTexts_holding, Stacks.ofTexts, requireTexts_texts]
  induction is generalizing step operands s with
  | nil =>
    rw [runMixedFrom, runFrom, if_pos (total_counts_holding _), if_pos (total_counts_holding _), hannounce]
    simp only [← ofTexts_holding]
    rfl
  | cons i rest ih =>
    obtain ⟨hi, hrest⟩ := List.forall_mem_cons.1 his
    rw [runMixedFrom, runFrom, hannounce]
    simp only [executeMixed_texts w onlyResolve rest.isEmpty hi]
    generalize w.observe (.stepping step (i :: rest) (holding operands)) s = s
    obtain ⟨-, hshort⟩ | ⟨below, taken, -, -, heffect⟩ := execute_holding w onlyResolve rest.isEmpty i operands s
    · rw [hshort]
      rfl
    · generalize execute w onlyResolve rest.isEmpty i (holding operands) s = x at heffect ⊢
      cases heffect with
      | moved values t =>
        have hmoved := ih hrest (step + 1) (below ++ [values]) t
        rw [← ofTexts_holding] at hmoved
        exact hmoved
      | resolved arguments t => rfl
      | failed raised t => rfl

/-- A program of texts is run the same whether or not numbers are allowed. -/
theorem runMixed_eq_run (w : Surroundings σ) (start : TraceStart σ) (onlyResolve : Bool) {is : List Instruction}
    (his : ∀ i ∈ is, i.holdsNumber = false) (s : σ) :
    runMixed w start onlyResolve is s =
      ((run w onlyResolve is s).1.map (List.map .text), (run w onlyResolve is s).2) :=
  runMixedFrom_texts w start onlyResolve his 0 [] s

end CommandScript.Machine
