import CommandScript.Text.Blank

/-! The documentation of a command as it is shown: without the indentation and the empty lines that its place in a
program gave it. -/

namespace CommandScript.Command

open Text

/-- Tabs replaced by blanks up to the next multiple of eight columns. -/
def expandTabs (column : Nat) : List Char → List Char
  | [] => []
  | c :: cs =>
    if c = '\t' then List.replicate (8 - column % 8) ' ' ++ expandTabs 0 cs
    else c :: expandTabs (if c = '\n' || c = '\r' then 0 else column + 1) cs

/-- The common indentation of the lines that hold something else than white space. -/
def margin (lines : List (List Char)) : Option Nat :=
  (lines.filter fun line => !line.all isSpace).foldl
    (fun least line =>
      let indent := (line.takeWhile isSpace).length
      some (match least with | some m => min m indent | none => indent)) none

def dropEmptyEnds (lines : List (List Char)) : List (List Char) :=
  ((lines.reverse.dropWhile List.isEmpty).reverse).dropWhile List.isEmpty

/-- The first line loses all indentation, the others what they have in common. -/
def cleanDocumentation (text : String) : String :=
  let expanded := String.ofList (expandTabs 0 text.toList)
  match (expanded.splitOn "\n").map String.toList with
  | [] => ""
  | first :: others =>
    let others := match margin others with | some m => others.map (·.drop m) | none => others
    "\n".intercalate ((dropEmptyEnds (trimStart first :: others)).map String.ofList)

end CommandScript.Command
