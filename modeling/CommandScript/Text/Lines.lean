/-! Splitting a text into lines: at every line boundary of Unicode, where a carriage return and the line feed after it
are one boundary, or at line feeds alone. -/

namespace CommandScript.Text

/-- The characters that end a line. -/
def endsLine (c : Char) : Bool :=
  c = '\n' || c = '\r' || c = '\x0b' || c = '\x0c' || c = '\x1c' || c = '\x1d' || c = '\x1e' || c = '\x85' ||
    c = '\u2028' || c = '\u2029'

/-- The lines of a text, each with the boundary that ends it. -/
def splitLines : List Char → List (List Char)
  | [] => []
  | '\r' :: '\n' :: r => ['\r', '\n'] :: splitLines r
  | c :: r =>
    if endsLine c then [c] :: splitLines r
    else
      match splitLines r with
      | [] => [[c]]
      | line :: lines => (c :: line) :: lines

/-- The lines of a text in which line feeds alone end lines, each with its own. -/
def splitFeeds : List Char → List (List Char)
  | [] => []
  | c :: r =>
    if c = '\n' then [c] :: splitFeeds r
    else
      match splitFeeds r with
      | [] => [[c]]
      | line :: lines => (c :: line) :: lines

end CommandScript.Text
