import CommandScript.Text.Printable

/-! Literals: a text on one line between quotes, with every character that could be mistaken escaped. -/

namespace CommandScript.Text

/-- The last `width` hexadecimal digits of a number, in lower case. -/
def hexadecimal : Nat → Nat → List Char
  | 0, _ => []
  | width + 1, n => hexadecimal width (n / 16) ++ [Nat.digitChar (n % 16)]

/-- The shortest of the three forms that name a character by its code point. -/
def escapeCodePoint (c : Char) : List Char :=
  if c.toNat < 0x100 then '\\' :: 'x' :: hexadecimal 2 c.toNat
  else if c.toNat < 0x10000 then '\\' :: 'u' :: hexadecimal 4 c.toNat
  else '\\' :: 'U' :: hexadecimal 8 c.toNat

/-- A character inside a literal that is closed by `quote`. -/
def escapeChar (printable : Char → Bool) (quote c : Char) : List Char :=
  if c = '\\' || c = quote then ['\\', c]
  else if c = '\n' then ['\\', 'n']
  else if c = '\r' then ['\\', 'r']
  else if c = '\t' then ['\\', 't']
  else if printable c then [c]
  else escapeCodePoint c

/-- Single quotes, unless the text holds one and no double quote. -/
def literalQuote (cs : List Char) : Char := if '\'' ∈ cs ∧ '"' ∉ cs then '"' else '\''

/-- The literal of a text, given which characters are shown as they are. -/
def literalWith (printable : Char → Bool) (cs : List Char) : List Char :=
  let quote := literalQuote cs
  quote :: (cs.flatMap (escapeChar printable quote) ++ [quote])

def literal (s : String) : String := String.ofList (literalWith isPrintable s.toList)

end CommandScript.Text
