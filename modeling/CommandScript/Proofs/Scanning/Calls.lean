import CommandScript.Proofs.Scanning.Seam
import CommandScript.Proofs.Scanning.Separations

/-! How a call is read by itself: its name and the parenthesis that opens it, then its arguments, and the parenthesis
that closes it. -/

namespace CommandScript.Scanning

open Text Syntax

/-- Separation in front of what is none is passed over where it may stand. -/
theorem parted_of_separation {contexts : List Context} (hs : separates contexts) {gap cs : List Char} {x : Char}
    (hgap : Separation (x :: cs) gap) (hx : isBlank x = false ∧ x ≠ '#') (p : Position) :
    Parted contexts ⟨gap ++ x :: cs, p⟩ ⟨x :: cs, p.after gap⟩ := by
  rw [Parted, if_pos hs, skip_of_separation hgap]
  apply skip_of_stands
  rintro y ⟨⟩
  exact hx

/-- The scanner in the arguments of a call, and the builder with some of them complete. -/
abbrev inside (opener : Position) (rest : List Char) (p : Position) : ScanState :=
  ⟨⟨rest, p⟩, [.arguments opener none]⟩

abbrev calling (name : String) (start : Position) (arguments : List Argument) : Builder :=
  { opened := [.call name start arguments] }

/-! ### Names -/

theorem stands_of_nameStart {c : Cursor} (h : ∃ x ∈ c.rest.head?, isNameStart x) : Stands c := by
  obtain ⟨x, hx, hname⟩ := h
  intro y hy
  obtain rfl : x = y := Option.some.inj (hx.symm.trans hy)
  constructor
  · have hblank : isBlank x → isNameStart x = false := by
      intro hb
      have hx : x = ' ' ∨ x = '\t' ∨ x = '\r' ∨ x = '\n' := by simpa [isBlank, or_assoc] using hb
      rcases hx with rfl | rfl | rfl | rfl <;> decide
    cases hb : isBlank x with
    | false => rfl
    | true => rw [hblank hb] at hname; cases hname
  · rintro rfl
    revert hname
    decide

theorem head?_of_identifier? {cs name rest : List Char} (h : identifier? cs = some (name, rest)) :
    ∃ x ∈ name.head?, isNameStart x := by
  unfold identifier? at h
  split at h
  · cases h
  · split at h
    · cases h
      exact ⟨_, rfl, ‹_›⟩
    · cases h

/-- A name is read as far as it goes. -/
theorem identifier?_of_self {name rest : List Char} (h : identifier? name = some (name, []))
    (hr : ∀ x ∈ rest.head?, isNameCharacter x = false) : identifier? (name ++ rest) = some (name, rest) := by
  cases name with
  | nil => cases h
  | cons c name =>
    have hall := (identifier?_eq_append h).2
    obtain ⟨htake, hdrop⟩ := span_eq (fun x hx => hall x (List.mem_cons_of_mem c hx)) hr
    have hstart : isNameStart c := by
      simp only [identifier?] at h
      split at h
      · assumption
      · cases h
    rw [List.cons_append, identifier?, if_pos hstart, htake, hdrop]

/-! ### Parentheses -/

/-- A call as it is written: a name, and arguments in parentheses. -/
def callText (name arguments : List Char) : List Char := name ++ '(' :: (arguments ++ [')'])

/-- From its name on, a call is read up to its arguments. -/
theorem reads_opening {name : List Char} (hname : identifier? name = some (name, [])) (rest : List Char)
    (p : Position) : Reads ⟨⟨name ++ '(' :: rest, p⟩, []⟩ .initial
      (inside (p.after name) rest ((p.after name).next '(')) (calling (String.ofList name) p []) := by
  have hi : identifier? (name ++ '(' :: rest) = some (name, '(' :: rest) :=
    identifier?_of_self hname fun x hx => by cases hx; decide
  have hhead : ∃ x ∈ (name ++ '(' :: rest).head?, isNameStart x := by
    obtain ⟨x, hx, hstart⟩ := head?_of_identifier? hname
    exact ⟨x, mem_head?_append hx _, hstart⟩
  have hstep : (ScanState.mk ⟨name ++ '(' :: rest, p⟩ []).step =
      .moved [⟨.name (String.ofList name), p, p.after name⟩] ⟨⟨'(' :: rest, p.after name⟩, [.command]⟩ := by
    refine step_eq_moved_iff.2 ⟨p, [⟨.name (String.ofList name), name⟩], ?_, by simp, rfl, .name hi⟩
    simpa [Parted, separates] using skip_of_stands (stands_of_nameStart hhead)
  exact .step hstep rfl
    (.step (Lexes.opened.step_eq (parted_of_separation rfl .nil (by decide) _)) rfl (.refl _ _))

/-- The parenthesis that closes a call completes it. -/
theorem reads_closing (name : String) (start opener : Position) (arguments : List Argument) (rest : List Char)
    {gap : List Char} (hgap : Separation (')' :: rest) gap) (p : Position) :
    Reads (inside opener (gap ++ ')' :: rest) p) (calling name start arguments)
      ⟨⟨rest, (p.after gap).next ')'⟩, []⟩ ⟨[⟨name, start, (p.after gap).next ')', arguments.reverse⟩], []⟩ :=
  .step (Lexes.closed.step_eq (parted_of_separation rfl hgap (by decide) p)) rfl (.refl _ _)

/-- What succeeds goes on to do so wherever it was read to. -/
theorem Reads.succeeds_iff {s s' : ScanState} {b b' b'' : Builder} (h : Reads s b s' b') :
    Succeeds s b b'' ↔ Succeeds s' b' b'' := by
  obtain ⟨hfault, htokens⟩ := h.scan_eq
  exact ⟨fun ⟨hf, ht, ho⟩ => ⟨hfault ▸ hf, htokens ▸ ht, ho⟩, fun ⟨hf, ht, ho⟩ => ⟨hfault ▸ hf, htokens ▸ ht, ho⟩⟩

end CommandScript.Scanning
