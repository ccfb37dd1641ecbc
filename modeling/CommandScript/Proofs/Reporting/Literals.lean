import CommandScript.Text.Literal
import Mathlib.Algebra.Group.Nat.Defs

/-! Literals can be read back. Whatever counts as printable, the characters of a literal come apart again one by one,
each with its escape, and none of them looks like the quote that closes it. So a literal tells its text and where it
ends, with anything behind it, and it never holds a line feed. -/

namespace CommandScript.Text

/-! ### Code points -/

def hexDigitValue (c : Char) : Nat := if c.isDigit then c.toNat - '0'.toNat else c.toNat - 'a'.toNat + 10

/-- The number that hexadecimal digits stand for. -/
def hexValue (ds : List Char) : Nat := ds.foldl (fun n d => n * 16 + hexDigitValue d) 0

theorem hexDigitValue_digitChar : ∀ d < 16, hexDigitValue (Nat.digitChar d) = d := by decide

theorem length_hexadecimal (width n : Nat) : (hexadecimal width n).length = width := by
  induction width generalizing n with
  | zero => rfl
  | succ width ih => rw [hexadecimal, List.length_append, ih, List.length_singleton]

theorem hexValue_hexadecimal (width n : Nat) : hexValue (hexadecimal width n) = n % 16 ^ width := by
  induction width generalizing n with
  | zero => rw [Nat.pow_zero, Nat.mod_one]; rfl
  | succ width ih =>
    have hlast : hexDigitValue (Nat.digitChar (n % 16)) = n % 16 :=
      hexDigitValue_digitChar _ (Nat.mod_lt _ (by decide))
    have hfront : (hexadecimal width (n / 16)).foldl (fun n d => n * 16 + hexDigitValue d) 0 = n / 16 % 16 ^ width :=
      ih (n / 16)
    rw [hexadecimal, hexValue, List.foldl_append, hfront, List.foldl_cons, List.foldl_nil, hlast, Nat.pow_succ,
      Nat.mul_comm (16 ^ width), Nat.mod_mul]
    omega

theorem newline_not_mem_hexadecimal (width n : Nat) : '\n' ∉ hexadecimal width n := by
  have hdigits : ∀ d < 16, Nat.digitChar d ≠ '\n' := by decide
  induction width generalizing n with
  | zero => exact List.not_mem_nil
  | succ width ih =>
    rw [hexadecimal, List.mem_append, List.mem_singleton, not_or]
    exact ⟨ih (n / 16), (hdigits _ (Nat.mod_lt _ (by decide))).symm⟩

/-! ### Characters -/

/-- A character named by so many digits, and what is behind them. -/
def readCodePoint (width : Nat) (cs : List Char) : Char × List Char :=
  (Char.ofNat (hexValue (cs.take width)), cs.drop width)

/-- The first character of a literal that goes on like this, and the rest of it. -/
def readChar? : List Char → Option (Char × List Char)
  | [] => none
  | '\\' :: 'n' :: rest => some ('\n', rest)
  | '\\' :: 'r' :: rest => some ('\r', rest)
  | '\\' :: 't' :: rest => some ('\t', rest)
  | '\\' :: 'x' :: rest => some (readCodePoint 2 rest)
  | '\\' :: 'u' :: rest => some (readCodePoint 4 rest)
  | '\\' :: 'U' :: rest => some (readCodePoint 8 rest)
  | '\\' :: c :: rest => some (c, rest)
  | c :: rest => some (c, rest)

theorem readChar?_plain {c : Char} (h : c ≠ '\\') (rest : List Char) : readChar? (c :: rest) = some (c, rest) := by
  unfold readChar?
  split
  case h_9 heq =>
    obtain ⟨rfl, rfl⟩ := List.cons.inj heq
    rfl
  case h_1 heq => cases heq
  all_goals
    rename_i heq
    exact absurd (List.cons.inj heq).1 h

theorem readCodePoint_hexadecimal {width : Nat} {c : Char} (h : c.toNat < 16 ^ width) (rest : List Char) :
    readCodePoint width (hexadecimal width c.toNat ++ rest) = (c, rest) := by
  have hlength := length_hexadecimal width c.toNat
  rw [readCodePoint, List.take_left' hlength, List.drop_left' hlength, hexValue_hexadecimal, Nat.mod_eq_of_lt h,
    Char.ofNat_toNat]

/-- The characters that close literals. -/
def IsQuote (c : Char) : Prop := c = '\'' ∨ c = '"'

theorem isQuote_literalQuote (cs : List Char) : IsQuote (literalQuote cs) := by
  unfold literalQuote
  split
  · exact .inr rfl
  · exact .inl rfl

/-- How a character stands in a literal: as it is, or behind a backslash in a form that can be read back. -/
inductive Escaped (quote c : Char) : List Char → Prop where
  | plain (hescape : c ≠ '\\') (hquote : c ≠ quote) (hfeed : c ≠ '\n') : Escaped quote c [c]
  | behind {form : List Char} (hfeed : '\n' ∉ form)
    (hread : ∀ rest, readChar? ('\\' :: (form ++ rest)) = some (c, rest)) : Escaped quote c ('\\' :: form)

theorem escaped_escapeCodePoint (quote c : Char) : Escaped quote c (escapeCodePoint c) := by
  have hvalid : c.toNat < 16 ^ 8 := by
    have := c.valid
    simp only [UInt32.isValidChar, Nat.isValidChar, Char.toNat] at this ⊢
    omega
  have form {letter : Char} {width : Nat} (hletter : letter ≠ '\n') (h : c.toNat < 16 ^ width)
      (hread : ∀ rest, readChar? ('\\' :: letter :: rest) = some (readCodePoint width rest)) :
      Escaped quote c ('\\' :: letter :: hexadecimal width c.toNat) :=
    .behind (List.not_mem_cons_of_ne_of_not_mem hletter.symm (newline_not_mem_hexadecimal width c.toNat)) fun rest =>
      (hread _).trans (congrArg some (readCodePoint_hexadecimal h rest))
  unfold escapeCodePoint
  split
  · exact form (by decide) (by omega) fun _ => rfl
  · split
    · exact form (by decide) (by omega) fun _ => rfl
    · exact form (by decide) hvalid fun _ => rfl

theorem escaped_escapeChar (printable : Char → Bool) {quote : Char} (hq : IsQuote quote) (c : Char) :
    Escaped quote c (escapeChar printable quote c) := by
  unfold escapeChar
  by_cases hself : c = '\\' ∨ c = quote
  · rw [if_pos (by simpa using hself)]
    obtain rfl | rfl := hself
    · exact .behind (by decide) fun _ => rfl
    · obtain rfl | rfl := hq
      · exact .behind (by decide) fun _ => rfl
      · exact .behind (by decide) fun _ => rfl
  · rw [if_neg (by simpa using hself)]
    obtain ⟨hescape, hquote⟩ := not_or.1 hself
    by_cases hfeed : c = '\n'
    · rw [if_pos hfeed]
      exact .behind (by decide) fun _ => hfeed ▸ rfl
    · rw [if_neg hfeed]
      split
      · rename_i h
        exact .behind (by decide) fun _ => h ▸ rfl
      · split
        · rename_i h
          exact .behind (by decide) fun _ => h ▸ rfl
        · split
          · exact .plain hescape hquote hfeed
          · exact escaped_escapeCodePoint quote c

namespace Escaped

variable {quote c : Char} {cs : List Char}

/-- A character comes back from its form, with anything behind it. -/
theorem readChar?_append (h : Escaped quote c cs) (rest : List Char) : readChar? (cs ++ rest) = some (c, rest) := by
  cases h with
  | plain hescape => exact readChar?_plain hescape rest
  | behind _ hread => exact hread rest

/-- No form begins like the end of the literal. -/
theorem head_ne (h : Escaped quote c cs) (hq : IsQuote quote) (rest rest' : List Char) :
    cs ++ rest ≠ quote :: rest' := by
  intro heq
  cases h with
  | plain _ hquote => exact hquote (List.cons.inj heq).1
  | behind =>
    obtain rfl := (List.cons.inj heq).1
    obtain h | h := hq <;> cases h

theorem newline_not_mem (h : Escaped quote c cs) : '\n' ∉ cs := by
  cases h with
  | plain _ _ hfeed => exact List.not_mem_cons_of_ne_of_not_mem hfeed.symm List.not_mem_nil
  | behind hfeed => exact List.not_mem_cons_of_ne_of_not_mem (by decide) hfeed

end Escaped

/-! ### Literals -/

section Literals

variable (printable : Char → Bool)

/-- Escaped characters up to a quote are told apart, with anything behind it. -/
theorem escaped_append_inj {quote : Char} (hq : IsQuote quote) {cs ds r t : List Char}
    (h : cs.flatMap (escapeChar printable quote) ++ quote :: r =
      ds.flatMap (escapeChar printable quote) ++ quote :: t) : cs = ds ∧ r = t := by
  have form (c : Char) := escaped_escapeChar printable hq c
  induction cs generalizing ds with
  | nil =>
    cases ds with
    | nil => exact ⟨rfl, (List.cons.inj h).2⟩
    | cons d ds =>
      rw [List.flatMap_cons, List.append_assoc] at h
      exact absurd h.symm ((form d).head_ne hq _ _)
  | cons c cs ih =>
    cases ds with
    | nil =>
      rw [List.flatMap_cons, List.append_assoc] at h
      exact absurd h ((form c).head_ne hq _ _)
    | cons d ds =>
      rw [List.flatMap_cons, List.flatMap_cons, List.append_assoc, List.append_assoc] at h
      have hread := congrArg readChar? h
      rw [(form c).readChar?_append, (form d).readChar?_append] at hread
      obtain ⟨rfl, hrest⟩ := Prod.mk.inj (Option.some.inj hread)
      obtain ⟨rfl, rfl⟩ := ih hrest
      exact ⟨rfl, rfl⟩

/-- A literal tells its text and where it ends, whatever counts as printable and whatever is behind it. -/
theorem literalWith_append_inj {cs ds r t : List Char}
    (h : literalWith printable cs ++ r = literalWith printable ds ++ t) : cs = ds ∧ r = t := by
  simp only [literalWith, List.cons_append, List.append_assoc, List.nil_append] at h
  obtain ⟨hquote, hrest⟩ := List.cons.inj h
  rw [← hquote] at hrest
  exact escaped_append_inj printable (isQuote_literalQuote cs) hrest

theorem newline_not_mem_literalWith (cs : List Char) : '\n' ∉ literalWith printable cs := by
  have hq := isQuote_literalQuote cs
  have hquote : '\n' ≠ literalQuote cs := by
    intro heq
    rw [← heq] at hq
    obtain h | h := hq <;> cases h
  rw [literalWith, List.mem_cons, List.mem_append, List.mem_singleton, List.mem_flatMap]
  rintro (h | ⟨c, -, hc⟩ | h)
  · exact hquote h
  · exact (escaped_escapeChar printable hq c).newline_not_mem hc
  · exact hquote h

end Literals

end CommandScript.Text
