/-! Colours and weights on a terminal. A style is switched by an escape character, `[`, numbers separated by
semicolons, and `m`. -/

namespace CommandScript.Text

def escapeCharacter : Char := '\x1b'

/-- The sequence that switches to a style. -/
def styleCode (numbers : String) : String := "\x1b[" ++ numbers ++ "m"

/-- A text in a style, and the plain style behind it. -/
def styled (numbers text : String) : String := styleCode numbers ++ text ++ styleCode "0"

/-- Bright text, for what a report is about. -/
def bright : String → String := styled "97"

/-- Dim text, for what surrounds it. -/
def dim : String → String := styled "90"

/-! ### Taking sequences out -/

/-- What follows a sequence, given what follows its escape character; nothing if there is no such sequence. -/
abbrev SequenceEnd := (cs : List Char) → Option { rest : List Char // rest.length ≤ cs.length }

/-- The text without the sequences of one kind. -/
def removeSequences (ends : SequenceEnd) : List Char → List Char
  | [] => []
  | c :: cs =>
    if c = escapeCharacter then
      match ends cs with
      | some ⟨rest, _⟩ => removeSequences ends rest
      | none => c :: removeSequences ends cs
    else c :: removeSequences ends cs
termination_by cs => cs.length

theorem length_dropWhile_le (p : Char → Bool) (cs : List Char) : (cs.dropWhile p).length ≤ cs.length :=
  (List.dropWhile_sublist p).length_le

def isStyleNumber (c : Char) : Bool := c.isDigit || c = ';'

/-- A style sequence goes on with `[`, digits and semicolons, and `m`. -/
def styleEnd : SequenceEnd
  | '[' :: r =>
    match h : r.dropWhile isStyleNumber with
    | 'm' :: rest => some ⟨rest, by
        have := length_dropWhile_le isStyleNumber r
        rw [h] at this
        simp at this ⊢; omega⟩
    | _ => none
  | _ => none

/-- A control sequence goes on with `[`, parameters, further characters below the digits, and any one character from
`@` to `~`. Style sequences are some of them. -/
def controlEnd : SequenceEnd
  | '[' :: r =>
    let inner := r.dropWhile fun c => '0' ≤ c && c ≤ '?'
    match h : inner.dropWhile fun c => ' ' ≤ c && c ≤ '/' with
    | c :: rest =>
      if '@' ≤ c && c ≤ '~' then some ⟨rest, by
        have outer : inner.length ≤ r.length := length_dropWhile_le _ r
        have := length_dropWhile_le (fun c => ' ' ≤ c && c ≤ '/') inner
        rw [h] at this
        simp at this ⊢; omega⟩
      else none
    | _ => none
  | _ => none

def withoutStyles (s : String) : String := String.ofList (removeSequences styleEnd s.toList)

def withoutControls (s : String) : String := String.ofList (removeSequences controlEnd s.toList)

end CommandScript.Text
