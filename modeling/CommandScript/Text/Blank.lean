/-! White space in the sense of Unicode, and trimming it off. -/

namespace CommandScript.Text

/-- Blanks, line boundaries and the information separators. -/
def isSpace (c : Char) : Bool :=
  let n := c.toNat
  (0x09 ≤ n && n ≤ 0x0d) || (0x1c ≤ n && n ≤ 0x20) || n = 0x85 || n = 0xa0 || n = 0x1680 ||
    (0x2000 ≤ n && n ≤ 0x200a) || n = 0x2028 || n = 0x2029 || n = 0x202f || n = 0x205f || n = 0x3000

def trimStart (cs : List Char) : List Char := cs.dropWhile isSpace

def trimEnd (cs : List Char) : List Char := (cs.reverse.dropWhile isSpace).reverse

def trim (s : String) : String := String.ofList (trimEnd (trimStart s.toList))

def isAllSpace (s : String) : Bool := s.toList.all isSpace

end CommandScript.Text
