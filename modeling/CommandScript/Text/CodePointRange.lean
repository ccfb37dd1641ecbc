/-! Sets of characters as ranges of code points. -/

namespace CommandScript.Text

/-- Whether a character is in one of the ranges, each with its first and last code point. -/
def isIn (ranges : Array (Nat × Nat)) (c : Char) : Bool :=
  ranges.any fun (first, last) => first ≤ c.toNat && c.toNat ≤ last

end CommandScript.Text
