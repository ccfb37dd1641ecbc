import CommandScript.Code.Program

/-! What the code of a tree leaves behind. Each instruction uses up the operands it takes and leaves one of its own, so
how many there are behind some code is the same whenever it is run. The code of an argument leaves as many as the
argument is wide, and none of its instructions is a call. -/

namespace CommandScript.Code

/-- How many operands some instructions leave: each leaves one, and uses up as many as it takes. A negative number takes
none. -/
def height : List Instruction → Int
  | [] => 0
  | i :: code => 1 - i.operation.arity.toNat + height code

@[simp] theorem height_append (front back : List Instruction) :
    height (front ++ back) = height front + height back := by
  induction front with
  | nil => simp [height]
  | cons i front ih =>
    rw [List.cons_append, height, height, ih]
    omega

@[simp] theorem height_singleton (i : Instruction) : height [i] = 1 - i.operation.arity.toNat := by
  rw [height, height, Int.add_zero]

end CommandScript.Code

namespace CommandScript.Grammar

open Text Syntax Code

/-- Whether an instruction is the call of an invocation. -/
def isCall (i : Instruction) : Bool := i.operation matches .call _

/-- Code that holds no call and leaves a number of operands. -/
structure Leaves (code : List Instruction) (n : Nat) : Prop where
  height : height code = n
  calls : ∀ i ∈ code, isCall i = false

theorem Leaves.nil : Leaves [] 0 := ⟨rfl, by simp⟩

theorem Leaves.append {front back : List Instruction} {m n : Nat} (hm : Leaves front m) (hn : Leaves back n) :
    Leaves (front ++ back) (m + n) where
  height := by rw [height_append, hm.height, hn.height, Int.natCast_add]
  calls i hi := (List.mem_append.1 hi).elim (hm.calls i) (hn.calls i)

/-- An instruction behind the code of its operands. -/
theorem Leaves.instruction {code : List Instruction} {n : Nat} (h : Leaves code n) (i : Instruction)
    (hcall : isCall i = false) (harity : i.operation.arity = n) : Leaves (code ++ [i]) 1 where
  height := by
    rw [height_append, height_singleton, h.height, harity]
    omega
  calls := by
    simp only [List.mem_append, List.mem_singleton]
    rintro j (hj | rfl)
    · exact h.calls j hj
    · exact hcall

theorem Leaves.literal (text : String) (place : Option Location) : Leaves [.literal text place] 1 :=
  Leaves.nil.instruction (.literal text place) rfl rfl

mutual

theorem leaves_part (file : Option String) : ∀ part : Part, Leaves (partCode file part) 1
  | .text _ value => Leaves.literal value _
  | .variable _ _ parts => (leaves_parts file parts).instruction _ rfl rfl
  | .command _ _ arguments => (leaves_arguments file arguments).instruction _ rfl rfl

theorem leaves_parts (file : Option String) : ∀ parts : List Part, Leaves (partsCode file parts) parts.length
  | [] => Leaves.nil
  | part :: parts => by
    rw [partsCode, List.length_cons, Nat.add_comm]
    exact (leaves_part file part).append (leaves_parts file parts)

theorem leaves_argument (file : Option String) : ∀ argument : Argument,
    Leaves (argumentCode file argument) (width argument)
  | .quoted _ parts => (leaves_parts file parts).instruction _ rfl rfl
  | .unquoted first others =>
    ((leaves_part file first).append (leaves_parts file others)).instruction _ rfl (Int.add_comm _ _)
  | .bracket p content => (Leaves.literal content _).instruction (.quoted 1 (p.inFile file)) rfl rfl
  | .group opener inner closer => by
    have parenthesis (text : String) (place : Option Location) :
        Leaves [.literal text place, .unquoted 1 none place] 1 :=
      (Leaves.literal text place).instruction (.unquoted 1 none place) rfl rfl
    rw [width, show widths inner + 2 = 1 + widths inner + 1 by omega]
    exact ((parenthesis "(" _).append (leaves_arguments file inner)).append (parenthesis ")" _)

theorem leaves_arguments (file : Option String) : ∀ arguments : List Argument,
    Leaves (argumentsCode file arguments) (widths arguments)
  | [] => Leaves.nil
  | argument :: arguments => (leaves_argument file argument).append (leaves_arguments file arguments)

end

end CommandScript.Grammar
