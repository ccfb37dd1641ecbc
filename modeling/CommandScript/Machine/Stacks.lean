import CommandScript.Failure
import CommandScript.Text.ItemList

/-! The two stacks an evaluation works on. A finished sub-expression leaves any number of values on one, and that
number on the other. Both are written bottom first. Values are texts, save where a program was put together by hand. -/

namespace CommandScript.Machine

open Text

structure Stacks (α : Type) where
  values : List α := []
  counts : List Nat := []
  deriving DecidableEq

variable {α : Type}

/-- The values left by one sub-expression. -/
abbrev Operand (α : Type) := List α

/-- Cuts values into groups of the given sizes. -/
def regroup : List Nat → List α → List (Operand α)
  | [], _ => []
  | size :: sizes, values => values.take size :: regroup sizes (values.drop size)

/-- How many values there are in groups of the given sizes. -/
def total (sizes : List Nat) : Nat := sizes.foldr (· + ·) 0

/-- Operands as one text, each flattened on its own. -/
def concatenate (operands : List (Operand String)) : String := String.join (operands.map ItemList.flatten)

namespace Stacks

/-- The stacks behind a sub-expression that leaves these values. -/
def push (s : Stacks α) (values : List α) : Stacks α :=
  ⟨s.values ++ values, s.counts ++ [values.length]⟩

/-- Takes the results of the last `n` sub-expressions, oldest first. A negative number takes none. -/
def pop (s : Stacks α) (n : Int) : Except Cause (List (Operand α) × Stacks α) :=
  let needed := n.toNat
  if s.counts.length < needed then .error (.tooFewCounts s.counts.length needed)
  else
    let kept := s.counts.length - needed
    let sizes := s.counts.drop kept
    if s.values.length < total sizes then .error (.tooFewValues s.values.length (total sizes))
    else
      let below := s.values.length - total sizes
      .ok (regroup sizes (s.values.drop below), ⟨s.values.take below, s.counts.take kept⟩)

end Stacks

end CommandScript.Machine
