/-! The text of a script as it is handed over, and its normal form: UTF-8 decoded, without a byte-order mark, every
line ended by a line feed alone. -/

namespace CommandScript.Text

/-- A script comes as text or as bytes. -/
inductive Source where
  | text (value : String)
  | bytes (value : List UInt8)
  deriving DecidableEq

/-- The text as it stands, if it is UTF-8. -/
def Source.decode? : Source → Option String
  | text value => some value
  | bytes value => String.fromUTF8? ⟨value.toArray⟩

def byteOrderMark : Char := '\ufeff'

def dropByteOrderMark : List Char → List Char
  | c :: cs => if c = byteOrderMark then cs else c :: cs
  | [] => []

/-- A carriage return directly before a line feed is dropped; a lone one stays. -/
def foldLineEnds : List Char → List Char
  | '\r' :: '\n' :: cs => '\n' :: foldLineEnds cs
  | c :: cs => c :: foldLineEnds cs
  | [] => []

/-- Line ends are folded on each side of a border that does not part a carriage return from its line feed. -/
theorem foldLineEnds_append {cs e : List Char} (h : cs.getLast? = some '\r' → e.head? ≠ some '\n') :
    foldLineEnds (cs ++ e) = foldLineEnds cs ++ foldLineEnds e := by
  induction cs using foldLineEnds.induct with
  | case1 cs ih =>
    have hcs : cs.getLast? = some '\r' → e.head? ≠ some '\n' := by
      intro hl
      apply h
      rw [List.getLast?_cons_cons, List.getLast?_cons, hl]
      rfl
    simp [foldLineEnds, ih hcs]
  | case2 c cs hne ih =>
    have hcs : cs.getLast? = some '\r' → e.head? ≠ some '\n' := by
      intro hl
      apply h
      rw [List.getLast?_cons, hl]
      rfl
    have hne' (r : List Char) (hc : c = '\r') : cs ++ e ≠ '\n' :: r := by
      intro hr
      cases cs with
      | nil =>
        rw [List.nil_append] at hr
        exact h (by rw [hc]; rfl) (by rw [hr]; rfl)
      | cons d cs =>
        cases hr
        exact hne cs hc rfl
    rw [List.cons_append, foldLineEnds.eq_2 c (cs ++ e) (fun r hc => hne' r hc), foldLineEnds.eq_2 c cs hne, ih hcs]
    rfl
  | case3 => rfl

/-- A carriage return that no line feed follows stays. -/
theorem foldLineEnds_of_not_infix {cs : List Char} (h : ¬['\r', '\n'] <:+: cs) : foldLineEnds cs = cs := by
  induction cs using foldLineEnds.induct with
  | case1 cs ih => exact absurd ⟨[], cs, rfl⟩ h
  | case2 c cs hne ih =>
    rw [foldLineEnds.eq_2 c cs hne, ih fun hi => h (hi.trans (List.suffix_cons c cs).isInfix)]
  | case3 => rfl

theorem foldLineEnds_of_not_mem {cs : List Char} (h : '\r' ∉ cs) : foldLineEnds cs = cs :=
  foldLineEnds_of_not_infix fun hi => h (hi.subset List.mem_cons_self)

theorem foldLineEnds_append_of_not_mem {cs : List Char} (h : '\r' ∉ cs) (e : List Char) :
    foldLineEnds (cs ++ e) = cs ++ foldLineEnds e := by
  rw [foldLineEnds_append fun hl => absurd (List.mem_of_getLast? hl) h, foldLineEnds_of_not_mem h]

theorem getLast?_foldLineEnds (cs : List Char) : (foldLineEnds cs).getLast? = cs.getLast? := by
  induction cs using foldLineEnds.induct with
  | case1 cs ih =>
    rw [foldLineEnds, List.getLast?_cons_cons, List.getLast?_cons, List.getLast?_cons, ih]
  | case2 c cs hne ih => rw [foldLineEnds.eq_2 c cs hne, List.getLast?_cons, List.getLast?_cons, ih]
  | case3 => rfl

theorem dropByteOrderMark_append {cs e : List Char} (h : cs ≠ [] ∨ e.head? ≠ some byteOrderMark) :
    dropByteOrderMark (cs ++ e) = dropByteOrderMark cs ++ e := by
  cases cs with
  | nil =>
    cases e with
    | nil => rfl
    | cons x e =>
      have hx : x ≠ byteOrderMark := by simpa using h
      simp [dropByteOrderMark, hx]
  | cons c cs =>
    simp only [List.cons_append, dropByteOrderMark]
    split <;> rfl

def normalizeText (cs : List Char) : List Char := foldLineEnds (dropByteOrderMark cs)

/-- The normal form. Bytes lose one byte-order mark more than text does; bytes that are not UTF-8 have none. -/
def Source.normalize? : Source → Option (List Char)
  | text value => some (normalizeText value.toList)
  | bytes value =>
    (String.fromUTF8? ⟨value.toArray⟩).map fun s => normalizeText (dropByteOrderMark s.toList)

end CommandScript.Text
