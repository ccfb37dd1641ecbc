import CommandScript.Syntax.Fault
import CommandScript.Text.Columns
import CommandScript.Text.Lines
import CommandScript.Text.Style

/-! The lines of a script around a place, with the token at that place marked. -/

namespace CommandScript.Syntax

open Text

/-- A line with a mark over a token that begins at `column` and is `width` characters wide. -/
def markToken (line : List Char) (column width : Nat) : List Char :=
  let start := column - 1
  line.take start ++ (styleCode "48;5;30" ++ styleCode "1;97").toList ++ (line.drop start).take width ++
    (styleCode "0").toList ++ line.drop (start + width)

/-- One numbered line. The line asked for is bright, and marked if it has the column. -/
def contextLine (lines : List (List Char)) (marked : Int) (column : Option Int) (width index : Nat) : String :=
  let content := ((lines[index]?.getD []).reverse.dropWhile (· = '\n')).reverse
  let number := alignRight 5 (toString (index + 1))
  if (index + 1 : Int) = marked then
    let content :=
      match column with
      | some c => if 0 < c ∧ c ≤ content.length then markToken content c.toNat width else content
      | none => content
    styleCode "97" ++ number ++ " |" ++ styleCode "0" ++ " " ++ String.ofList content
  else styleCode "90" ++ number ++ " |" ++ styleCode "0" ++ " " ++ String.ofList content

/-- Up to two lines before and after the place, under a line that names it. Without a line number the last line is
taken. -/
def errorContext (file : String) (line column : Option Int) (token : Option String) (source : String) : String :=
  let lines := splitLines source.toList
  let line : Int := match line with | some l => if 0 < l then l else lines.length | none => lines.length
  let width := max 1 (token.getD "").length
  let start := (line - 3).toNat
  let stop := min lines.length (line + 2).toNat
  let shown := (List.range' start (stop - start)).map (contextLine lines line column width)
  let header := bright ("  File \"" ++ file ++ "\", line " ++ toString line)
  "\n" ++ "\n".intercalate (header :: shown) ++ "\n"

/-- The context of a fault in the text it was found in. -/
def Fault.context (f : Fault) (file source : String) : String :=
  errorContext file (some f.location.line) (some f.location.column) (some f.token) source

end CommandScript.Syntax
