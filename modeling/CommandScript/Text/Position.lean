/-! Places in a text. A position counts the characters before it and names its line and column, both counted
from one; only a line feed ends a line. A location adds the name of the file, if it has one. -/

namespace CommandScript.Text

/-- A place between two characters of a text. -/
structure Position where
  offset : Nat := 0
  line : Nat := 1
  column : Nat := 1
  deriving DecidableEq

namespace Position

/-- The start of every text. -/
def start : Position := {}

/-- The position after one more character. -/
def next (p : Position) (c : Char) : Position :=
  if c = '\n' then ⟨p.offset + 1, p.line + 1, 1⟩ else ⟨p.offset + 1, p.line, p.column + 1⟩

/-- The position after a run of characters. -/
def after (p : Position) (cs : List Char) : Position := cs.foldl next p

@[simp] theorem after_nil (p : Position) : p.after [] = p := rfl

@[simp] theorem after_cons (p : Position) (c : Char) (cs : List Char) :
    p.after (c :: cs) = (p.next c).after cs := rfl

@[simp] theorem after_append (p : Position) (as bs : List Char) :
    p.after (as ++ bs) = (p.after as).after bs := by
  simp [after, List.foldl_append]

end Position

/-- Where something is said to stand: line and column in a file, or in a text without a name. Whoever says so may
have counted in another way, so both are any whole numbers. -/
structure Location where
  line : Int
  column : Int
  file : Option String := none
  deriving DecidableEq

namespace Location

/-- A text without a name is shown as `<input>`; so is one whose name is empty. -/
def fileLabel (l : Location) : String :=
  match l.file with
  | none | some "" => "<input>"
  | some name => name

/-- The written form `file:line:column`. -/
def render (l : Location) : String :=
  l.fileLabel ++ ":" ++ toString l.line ++ ":" ++ toString l.column

end Location

/-- A position as a location of the named file. -/
def Position.inFile (p : Position) (file : Option String) : Location := ⟨p.line, p.column, file⟩

end CommandScript.Text
