import CommandScript.Code.Listing
import CommandScript.Text.Columns
import CommandScript.Text.Quoted

/-! The trace of an evaluation: before each step the stacks on the left and the rest of the program on the right. -/

namespace CommandScript.Machine

open Text Code

/-- What is shown for nothing. -/
def emptyMark : String := "∅"

/-- Values in groups, given the sizes from the last group back and where that group ends. Counts that do not fit the
values give groups with values missing. -/
def groupsFrom (values : List String) (stop : Int) : List Int → List String
  | [] => []
  | size :: sizes =>
    let group := excerpt values (stop - size) stop
    groupsFrom values (stop - size) sizes ++ ["\x7b" ++ " ".intercalate (group.map showValueShort) ++ "\x7d"]

/-- The values of the stack in braces, one group for each count. -/
def showGroups (values : List String) (counts : List Int) : String :=
  if counts.isEmpty then emptyMark
  else " ".intercalate (groupsFrom values values.length counts.reverse)

/-- The stacks at the right end of a field. What is too long loses its beginning; without a width all is shown. -/
def showStacks (values : List String) (counts : List Int) (width : Option Nat) : String :=
  let text := showGroups values counts
  match width with
  | none => text
  | some width =>
    alignRight width (if width < text.length then "… " ++ textFrom text (2 - width) else text)

/-- The width of either side of a trace line. -/
def traceWidth : Nat := 72

/-- One line with the stacks and the program. What is too long of the program loses its end. -/
def showProgramAndStacks (program : List Instruction) (values : List String) (counts : List Int)
    (width : Nat) : String :=
  let text := if program.isEmpty then emptyMark else " ".intercalate (program.map Instruction.render)
  let text := if width < text.length then textUpTo text (width - 2) ++ " …" else text
  showStacks values counts (some traceWidth) ++ " " ++ styled "36" " <=> " ++ " " ++ alignLeft width text

/-- The line before a step. -/
def traceLine (step : Nat) (program : List Instruction) (values : List String) (counts : List Nat) : String :=
  stepLabel 3 step ++ showProgramAndStacks program values (counts.map Int.ofNat) traceWidth ++ "\n"

end CommandScript.Machine
