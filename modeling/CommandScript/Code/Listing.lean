import CommandScript.Code.Program
import CommandScript.Text.Columns
import CommandScript.Text.Style

/-! Programs as they are shown to a reader: as numbered instructions, or as the invocation they came from. -/

namespace CommandScript.Code

open Text

/-- The number of an instruction, set apart from what follows. -/
def stepLabel (width step : Nat) : String := dim (alignRight width (toString step) ++ " :") ++ "  "

/-- The name of the program and one line for each instruction. -/
def Program.listing (p : Program) : String :=
  let header :=
    match p.location with
    | some l => bright p.name ++ " " ++ dim ("(" ++ toString l.line ++ ":" ++ toString l.column ++ ")")
    | none => p.name
  "\n".intercalate (header :: p.instructions.mapIdx fun i instruction => stepLabel 4 i ++ instruction.render)

/-- The text of the invocation, indented, under a line that names a place in it; nothing if the program has no
place. -/
def Program.excerpt (p : Program) (place : Option Location) : String :=
  match p.location with
  | none => ""
  | some l =>
    let l := place.getD l
    let header := bright ("  File \"" ++ l.fileLabel ++ "\", line " ++ toString l.line ++ ", in " ++ p.name) ++ "\n"
    match p.source with
    | none | some "" => header
    | some source =>
      let lines := (source.splitOn "\n").map ("    " ++ ·)
      header ++ "\n".intercalate lines ++ "\n"

end CommandScript.Code
