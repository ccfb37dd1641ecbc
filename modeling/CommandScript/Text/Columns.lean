/-! Fitting text into columns. Widths count characters. -/

namespace CommandScript.Text

/-- The first width that is too large for a field. -/
def widthLimit : Int := 0x8000000000000000

/-- A width that a field can have: none is narrower than nothing, and none reaches the limit. -/
def fieldWidth? (width : Int) : Option Nat :=
  if 0 ≤ width ∧ width < widthLimit then some width.toNat else none

/-- The text at the right end of a field of the given width. -/
def alignRight (width : Nat) (s : String) : String :=
  String.ofList (List.replicate (width - s.length) ' ') ++ s

/-- The text at the left end of a field of the given width. -/
def alignLeft (width : Nat) (s : String) : String :=
  s ++ String.ofList (List.replicate (width - s.length) ' ')

/-- A bound of an excerpt as an index: a negative bound counts from the end, and a bound outside the list is moved
to the nearer end. -/
def excerptIndex (length : Nat) (bound : Int) : Nat :=
  min length (if bound < 0 then (length + bound).toNat else bound.toNat)

/-- The elements from one bound up to another. -/
def excerpt (xs : List α) (start stop : Int) : List α :=
  let first := excerptIndex xs.length start
  (xs.drop first).take (excerptIndex xs.length stop - first)

/-- The text from a bound on. -/
def textFrom (s : String) (start : Int) : String :=
  String.ofList (excerpt s.toList start s.length)

/-- The text up to a bound. -/
def textUpTo (s : String) (stop : Int) : String :=
  String.ofList (excerpt s.toList 0 stop)

end CommandScript.Text
