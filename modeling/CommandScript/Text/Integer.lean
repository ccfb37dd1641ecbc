import CommandScript.Text.Blank

/-! Whole numbers in text: reading them in the digits of any script, and writing large ones in groups of three. -/

namespace CommandScript.Text

/-- The zeros of the scripts that have decimal digits. The nine other digits follow each zero. -/
def decimalZeros : Array Nat := #[
  0x30, 0x660, 0x6f0, 0x7c0, 0x966, 0x9e6, 0xa66, 0xae6, 0xb66, 0xbe6, 0xc66, 0xce6, 0xd66, 0xde6, 0xe50, 0xed0,
  0xf20, 0x1040, 0x1090, 0x17e0, 0x1810, 0x1946, 0x19d0, 0x1a80, 0x1a90, 0x1b50, 0x1bb0, 0x1c40, 0x1c50, 0xa620,
  0xa8d0, 0xa900, 0xa9d0, 0xa9f0, 0xaa50, 0xabf0, 0xff10, 0x104a0, 0x10d30, 0x11066, 0x110f0, 0x11136, 0x111d0,
  0x112f0, 0x11450, 0x114d0, 0x11650, 0x116c0, 0x11730, 0x118e0, 0x11950, 0x11c50, 0x11d50, 0x11da0, 0x16a60,
  0x16ac0, 0x16b50, 0x1d7ce, 0x1d7d8, 0x1d7e2, 0x1d7ec, 0x1d7f6, 0x1e140, 0x1e2f0, 0x1e950, 0x1fbf0]

def digitValue? (c : Char) : Option Nat :=
  (decimalZeros.find? fun first => first ≤ c.toNat && c.toNat < first + 10).map fun first => c.toNat - first

/-- Digits behind the value `n` read so far; a single underscore may stand between two digits. -/
def readDigits (n : Nat) : List Char → Option Nat
  | [] => some n
  | '_' :: c :: cs => (digitValue? c).bind fun d => readDigits (10 * n + d) cs
  | c :: cs => (digitValue? c).bind fun d => readDigits (10 * n + d) cs

/-- At least one digit. -/
def readNatural? : List Char → Option Nat
  | [] => none
  | c :: cs => (digitValue? c).bind fun d => readDigits d cs

/-- White space around a number. The information separators are not among it. -/
def isNumberSpace (c : Char) : Bool := isSpace c && !(0x1c ≤ c.toNat && c.toNat ≤ 0x1f)

/-- The most digits a number is read from. -/
def mostDigits : Nat := 4300

/-- A number with a sign or without, perhaps between white space. -/
def readInteger? (s : String) : Option Int :=
  let inner := ((s.toList.dropWhile isNumberSpace).reverse.dropWhile isNumberSpace).reverse
  if mostDigits < (inner.filter fun c => (digitValue? c).isSome).length then none
  else
    match inner with
    | '-' :: cs => (readNatural? cs).map fun n => -(n : Int)
    | '+' :: cs => (readNatural? cs).map Int.ofNat
    | cs => (readNatural? cs).map Int.ofNat

/-- Digits in groups of three, counted from the end. -/
def groupDigits (n : Nat) : String :=
  let digits := (toString n).toList.reverse
  let grouped := digits.mapIdx fun i c => if i ≠ 0 ∧ i % 3 = 0 then [',', c] else [c]
  String.ofList grouped.flatten.reverse

end CommandScript.Text
