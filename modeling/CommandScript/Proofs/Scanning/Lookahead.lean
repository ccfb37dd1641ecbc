import CommandScript.Syntax.Scan

/-! What the scanner recognises at the head of a text is decided by the text itself: more text behind it changes
nothing, provided that the border between the two does not run through something to be recognised. It does not if a
character stands there, on either side, that no opener, no closer and no name goes on with. -/

namespace CommandScript.Scanning

open Text Syntax

/-! ### Borders -/

/-- Whether a character can be in no name, opener or closer. -/
def isNeutral (c : Char) : Bool :=
  !isNameCharacter c && c ≠ '(' && c ≠ '\x7b' && c ≠ '[' && c ≠ ']' && c ≠ '=' && c ≠ '$'

/-- Whatever separation begins with is neutral. -/
theorem isNeutral_of_separator {c : Char} (h : isBlank c ∨ c = '#') : isNeutral c := by
  have hc : c = ' ' ∨ c = '\t' ∨ c = '\r' ∨ c = '\n' ∨ c = '#' := by simpa [isBlank, or_assoc] using h
  rcases hc with rfl | rfl | rfl | rfl | rfl <;> decide

theorem isNeutral_of_all {cs : List Char} (h : cs.all fun c => !isNeutral c) : ∀ c ∈ cs, isNeutral c = false := by
  simpa using h

/-- Nothing that is looked for lies across the border between two texts. A comment that the first one only begins would
go on behind the border. -/
def Guarded (cs e : List Char) : Prop :=
  (∀ c ∈ e.head?, isNeutral c) ∨ ∃ c ∈ cs.getLast?, isNeutral c ∧ c ≠ '#'

theorem Guarded.nil {e : List Char} (h : Guarded [] e) : ∀ c ∈ e.head?, isNeutral c := by
  rcases h with h | ⟨c, hc, -⟩
  · exact h
  · simp at hc

theorem Guarded.suffix {cs ds e : List Char} (h : Guarded ds e) (hs : cs <:+ ds) (hcs : cs ≠ []) : Guarded cs e := by
  obtain ⟨w, rfl⟩ := hs
  rcases h with h | ⟨c, hc, hn⟩
  · exact .inl h
  · refine .inr ⟨c, ?_, hn⟩
    obtain ⟨x, hx⟩ := Option.isSome_iff_exists.1 (List.getLast?_isSome.2 hcs)
    rwa [List.getLast?_append, hx, Option.some_or, ← hx] at hc

theorem Guarded.tail {c : Char} {cs e : List Char} (h : Guarded (c :: cs) e) (hc : isNeutral c = false ∨ c = '#') :
    Guarded cs e := by
  by_cases hcs : cs = []
  · subst hcs
    rcases h with h | ⟨x, hx, hn, hx'⟩
    · exact .inl h
    · obtain rfl : c = x := by simpa using hx
      rw [hc.resolve_right hx'] at hn
      cases hn
  · exact h.suffix (List.suffix_cons c cs) hcs

/-- Something in front of a text, none of whose characters is neutral, does not lie across its border. -/
theorem Guarded.eq_append_iff {pattern cs e : List Char} (h : Guarded cs e) (hp : ∀ c ∈ pattern, isNeutral c = false)
    (rest : List Char) : cs ++ e = pattern ++ rest ↔ ∃ r, cs = pattern ++ r ∧ rest = r ++ e := by
  induction pattern generalizing cs with
  | nil =>
    constructor
    · intro he
      exact ⟨cs, rfl, he.symm⟩
    · rintro ⟨r, rfl, rfl⟩
      rfl
  | cons p pattern ih =>
    have hp' := List.forall_mem_cons.1 hp
    cases cs with
    | nil =>
      constructor
      · intro he
        have hn := h.nil p (by rw [List.nil_append] at he; rw [he]; rfl)
        rw [hp'.1] at hn
        cases hn
      · rintro ⟨r, hr, -⟩
        cases hr
    | cons c cs =>
      simp only [List.cons_append, List.cons.injEq]
      constructor
      · rintro ⟨rfl, he⟩
        obtain ⟨r, hr, hrest⟩ := (ih (h.tail (.inl hp'.1)) hp'.2).1 he
        exact ⟨r, ⟨rfl, hr⟩, hrest⟩
      · rintro ⟨r, ⟨rfl, hr⟩, hrest⟩
        exact ⟨rfl, (ih (h.tail (.inl hp'.1)) hp'.2).2 ⟨r, hr, hrest⟩⟩

/-- A run of characters that are not neutral ends before the border or at it. -/
theorem Guarded.span {p : Char → Bool} {cs e : List Char} (h : Guarded cs e) (hp : ∀ c, isNeutral c → p c = false) :
    (cs ++ e).takeWhile p = cs.takeWhile p ∧ (cs ++ e).dropWhile p = cs.dropWhile p ++ e := by
  induction cs with
  | nil =>
    cases e with
    | nil => exact ⟨rfl, rfl⟩
    | cons x e =>
      have hx := hp x (h.nil x rfl)
      simp [hx]
  | cons c cs ih =>
    cases hc : p c with
    | false => simp [hc]
    | true =>
      have hn : isNeutral c = false := by
        rw [← Bool.not_eq_true]
        intro hn
        rw [hp c hn] at hc
        cases hc
      obtain ⟨ht, hd⟩ := ih (h.tail (.inl hn))
      simp [hc, ht, hd]

/-- A run that ends inside a text, or is ended by what is behind it, ends there. -/
theorem span_append {p : Char → Bool} {cs e : List Char} (h : cs.dropWhile p ≠ [] ∨ ∃ x ∈ e.head?, p x = false) :
    (cs ++ e).takeWhile p = cs.takeWhile p ∧ (cs ++ e).dropWhile p = cs.dropWhile p ++ e := by
  induction cs with
  | nil =>
    obtain ⟨x, hx, hp⟩ := h.resolve_left (by simp)
    obtain ⟨e', rfl⟩ : ∃ e', e = x :: e' := List.head?_eq_some_iff.1 hx
    simp [hp]
  | cons c cs ih =>
    cases hc : p c with
    | false => simp [hc]
    | true =>
      obtain ⟨ht, hd⟩ := ih (h.imp_left (by simp [hc]))
      simp [hc, ht, hd]

/-- A run with something behind it that does not go on with it. -/
theorem span_eq {p : Char → Bool} {cs e : List Char} (hcs : ∀ x ∈ cs, p x) (he : ∀ x ∈ e.head?, p x = false) :
    (cs ++ e).takeWhile p = cs ∧ (cs ++ e).dropWhile p = e := by
  have hstop : e.takeWhile p = [] ∧ e.dropWhile p = e := by
    cases e with
    | nil => exact ⟨rfl, rfl⟩
    | cons x e => simp [he x rfl]
  rw [List.takeWhile_append_of_pos hcs, List.dropWhile_append_of_pos hcs, hstop.1, hstop.2, List.append_nil]
  exact ⟨rfl, rfl⟩

/-! ### Names -/

theorem isNeutral_of_name {c : Char} (h : isNameCharacter c) : isNeutral c = false := by
  simp [isNeutral, h]

theorem isNameCharacter_of_start {c : Char} (h : isNameStart c) : isNameCharacter c := by
  simp only [isNameStart, isNameCharacter, Char.isAlphanum, Bool.or_eq_true] at h ⊢
  rcases h with h | h
  · exact .inl (.inl h)
  · exact .inr h

theorem identifier?_append {cs e : List Char} (h : Guarded cs e) :
    identifier? (cs ++ e) = (identifier? cs).map fun (name, rest) => (name, rest ++ e) := by
  have hname (c : Char) (hc : isNeutral c) : isNameCharacter c = false := by
    rw [← Bool.not_eq_true]
    intro hn
    rw [isNeutral_of_name hn] at hc
    cases hc
  cases cs with
  | nil =>
    cases e with
    | nil => rfl
    | cons x e =>
      have hx : isNameStart x = false := by
        rw [← Bool.not_eq_true]
        intro hs
        have := hname x (h.nil x rfl)
        rw [isNameCharacter_of_start hs] at this
        cases this
      simp [identifier?, hx]
  | cons c cs =>
    simp only [List.cons_append, identifier?]
    split
    · rename_i hc
      obtain ⟨ht, hd⟩ := (h.tail (.inl (isNeutral_of_name (isNameCharacter_of_start hc)))).span hname
      rw [ht, hd]
      rfl
    · rfl

/-- A name at the head of a text, and what is behind it. -/
theorem identifier?_eq_append {cs name rest : List Char} (h : identifier? cs = some (name, rest)) :
    cs = name ++ rest ∧ ∀ c ∈ name, isNameCharacter c := by
  cases cs with
  | nil => cases h
  | cons c cs =>
    simp only [identifier?] at h
    split at h
    · rename_i hc
      cases h
      refine ⟨by simp, ?_⟩
      intro x hx
      rcases List.mem_cons.1 hx with rfl | hx
      · exact isNameCharacter_of_start hc
      · exact List.all_eq_true.1 List.all_takeWhile x hx
    · cases h

/-! ### Openers -/

/-- How a variable reference is opened. -/
def variableOpener (space : Namespace) : List Char := '$' :: (space.label.toList ++ ['\x7b'])

theorem variableOpener?_eq_some_iff {cs rest : List Char} {space : Namespace} :
    variableOpener? cs = some (space, rest) ↔ cs = variableOpener space ++ rest := by
  constructor
  · intro h
    unfold variableOpener? at h
    split at h <;> cases h <;> rfl
  · rintro rfl
    cases space <;> rfl

theorem variableOpener?_append {cs e : List Char} (h : Guarded cs e) :
    variableOpener? (cs ++ e) = (variableOpener? cs).map fun (space, rest) => (space, rest ++ e) := by
  ext ⟨space, rest⟩
  have hs : ∀ c ∈ variableOpener space, isNeutral c = false := by
    apply isNeutral_of_all
    cases space <;> decide
  rw [variableOpener?_eq_some_iff, h.eq_append_iff hs]
  simp only [Option.map_eq_some_iff, Prod.mk.injEq, Prod.exists]
  constructor
  · rintro ⟨r, hr, rfl⟩
    exact ⟨space, r, variableOpener?_eq_some_iff.2 hr, rfl, rfl⟩
  · rintro ⟨_, r, hr, rfl, rfl⟩
    exact ⟨r, variableOpener?_eq_some_iff.1 hr, rfl⟩

theorem commandOpener?_eq_some_iff {cs name rest : List Char} : commandOpener? cs = some (name, rest) ↔
    ∃ r, cs = ['$', '\x7b'] ++ r ∧ identifier? r = some (name, rest) ∧ rest.head? = some '(' := by
  constructor
  · intro h
    unfold commandOpener? at h
    split at h
    · rename_i r
      split at h
      · cases h
        exact ⟨r, rfl, ‹_›, rfl⟩
      · cases h
    · cases h
  · rintro ⟨r, rfl, hi, hp⟩
    cases rest with
    | nil => cases hp
    | cons x rest =>
      cases hp
      simp [commandOpener?, hi]

theorem commandOpener?_append {cs e : List Char} (h : Guarded cs e) :
    commandOpener? (cs ++ e) = (commandOpener? cs).map fun (name, rest) => (name, rest ++ e) := by
  ext ⟨name, rest⟩
  rw [commandOpener?_eq_some_iff]
  simp only [Option.map_eq_some_iff, Prod.mk.injEq, Prod.exists, commandOpener?_eq_some_iff]
  constructor
  · rintro ⟨r', hr', hi, hp⟩
    obtain ⟨r, rfl, rfl⟩ := (h.eq_append_iff (isNeutral_of_all (by decide)) r').1 hr'
    have hr : Guarded r e := (h.tail (by decide)).tail (by decide)
    rw [identifier?_append hr] at hi
    obtain ⟨⟨n, b⟩, hb, heq⟩ := Option.map_eq_some_iff.1 hi
    cases heq
    refine ⟨_, b, ⟨r, rfl, hb, ?_⟩, rfl, rfl⟩
    cases b with
    | nil =>
      -- the name reaches the border, so that no parenthesis can be behind it
      obtain ⟨rfl, hname⟩ := identifier?_eq_append hb
      have he : Guarded [] e := by
        rcases hr with he | ⟨c, hc, hneutral, -⟩
        · exact .inl he
        · rw [List.append_nil] at hc
          rw [isNeutral_of_name (hname c (List.mem_of_getLast? hc))] at hneutral
          cases hneutral
      have := he.nil '(' hp
      revert this
      decide
    | cons x b => exact hp
  · rintro ⟨n, b, ⟨r, rfl, hb, hp⟩, rfl, rfl⟩
    refine ⟨r ++ e, by simp, ?_, ?_⟩
    · have hr : Guarded r e := (h.tail (by decide)).tail (by decide)
      rw [identifier?_append hr, hb]
      rfl
    · cases b with
      | nil => cases hp
      | cons x b => exact hp

theorem opensReference_append {cs e : List Char} (h : Guarded cs e) :
    opensReference (cs ++ e) = opensReference cs := by
  rw [opensReference, opensReference, commandOpener?_append h, variableOpener?_append h, Option.isSome_map,
    Option.isSome_map]

theorem bracketOpener?_eq_some_iff {cs body : List Char} {level : Nat} :
    bracketOpener? cs = some (level, body) ↔ cs = bracketOpener level ++ body := by
  constructor
  · intro h
    unfold bracketOpener? at h
    split at h
    · rename_i r
      split at h
      · rename_i b hb
        cases h
        have hall : r.takeWhile (· = '=') = List.replicate (r.takeWhile (· = '=')).length '=' := by
          rw [List.eq_replicate_iff]
          exact ⟨rfl, fun c hc => by simpa using List.all_eq_true.1 List.all_takeWhile c hc⟩
        have hr : r = r.takeWhile (· = '=') ++ '[' :: body := by
          rw [← hb, List.takeWhile_append_dropWhile]
        simp only [bracketOpener, List.cons_append, List.append_assoc, List.nil_append, ← hall, ← hr]
      · cases h
    · cases h
  · rintro rfl
    simp [bracketOpener, bracketOpener?]

theorem isNeutral_bracketOpener (level : Nat) : ∀ c ∈ bracketOpener level, isNeutral c = false := by
  intro c hc
  simp only [bracketOpener, List.mem_cons, List.mem_append, List.mem_replicate, List.not_mem_nil, or_false] at hc
  rcases hc with rfl | ⟨-, rfl⟩ | rfl <;> decide

theorem bracketOpener?_append {cs e : List Char} (h : Guarded cs e) :
    bracketOpener? (cs ++ e) = (bracketOpener? cs).map fun (level, body) => (level, body ++ e) := by
  ext ⟨level, body⟩
  rw [bracketOpener?_eq_some_iff, h.eq_append_iff (isNeutral_bracketOpener level)]
  simp only [Option.map_eq_some_iff, Prod.mk.injEq, Prod.exists]
  constructor
  · rintro ⟨r, hr, rfl⟩
    exact ⟨level, r, bracketOpener?_eq_some_iff.2 hr, rfl, rfl⟩
  · rintro ⟨_, r, hr, rfl, rfl⟩
    exact ⟨r, bracketOpener?_eq_some_iff.1 hr, rfl⟩

/-! ### Closers -/

theorem isNeutral_bracketCloser (level : Nat) : ∀ c ∈ bracketCloser level, isNeutral c = false := by
  intro c hc
  simp only [bracketCloser, List.mem_cons, List.mem_append, List.mem_replicate, List.not_mem_nil, or_false] at hc
  rcases hc with rfl | ⟨-, rfl⟩ | rfl <;> decide

theorem splitAtFirst_eq_append {pattern : List Char} : ∀ {cs before rest : List Char},
    splitAtFirst pattern cs = some (before, rest) → cs = before ++ pattern ++ rest
  | [], before, rest, h => by
    rw [splitAtFirst] at h
    split at h
    · rename_i hp
      cases h
      simpa using hp
    · cases h
  | c :: cs, before, rest, h => by
    rw [splitAtFirst] at h
    split at h
    · rename_i hp
      cases h
      obtain ⟨r, hr⟩ := List.isPrefixOf_iff_prefix.1 hp
      simp [← hr]
    · obtain ⟨⟨b, r⟩, hb, heq⟩ := Option.map_eq_some_iff.1 h
      cases heq
      rw [splitAtFirst_eq_append hb]
      simp

theorem splitAtFirst_self {pattern : List Char} (hp : pattern ≠ []) (k : List Char) :
    splitAtFirst pattern (pattern ++ k) = some ([], k) := by
  cases pattern with
  | nil => exact absurd rfl hp
  | cons c pattern =>
    have hpre : (c :: pattern).isPrefixOf (c :: (pattern ++ k)) := List.isPrefixOf_iff_prefix.2 ⟨k, rfl⟩
    rw [List.cons_append, splitAtFirst, if_pos hpre, ← List.cons_append, List.drop_left]

/-- The first occurrence stays the first. -/
theorem splitAtFirst_append {pattern : List Char} (hp : pattern ≠ []) (e : List Char) : ∀ {cs before rest : List Char},
    splitAtFirst pattern cs = some (before, rest) → splitAtFirst pattern (cs ++ e) = some (before, rest ++ e)
  | [], before, rest, h => by
    rw [splitAtFirst] at h
    split at h
    · rename_i hn
      exact absurd (List.isEmpty_iff.1 hn) hp
    · cases h
  | c :: cs, before, rest, h => by
    rw [splitAtFirst] at h
    rw [List.cons_append, splitAtFirst]
    split at h
    · rename_i hpre
      cases h
      obtain ⟨r, hr⟩ := List.isPrefixOf_iff_prefix.1 hpre
      rw [← List.cons_append, ← hr, List.append_assoc, if_pos (List.isPrefixOf_iff_prefix.2 ⟨_, rfl⟩)]
      simp
    · rename_i hpre
      obtain ⟨⟨b, r⟩, hb, heq⟩ := Option.map_eq_some_iff.1 h
      cases heq
      have hlen : pattern.length ≤ (c :: cs).length := by
        rw [splitAtFirst_eq_append hb]
        simp; omega
      rw [if_neg, splitAtFirst_append hp e hb]
      · rfl
      · intro hp'
        apply hpre
        rw [List.isPrefixOf_iff_prefix] at hp' ⊢
        exact List.prefix_of_prefix_length_le hp' (List.prefix_append (c :: cs) e) hlen

/-- Neutral characters complete no closer. -/
theorem splitAtFirst_neutral {level : Nat} {d : List Char} (hd : ∀ x ∈ d, isNeutral x) : ∀ cs : List Char,
    splitAtFirst (bracketCloser level) (cs ++ d) =
      (splitAtFirst (bracketCloser level) cs).map fun (before, rest) => (before, rest ++ d)
  | [] => by
    have hnone : splitAtFirst (bracketCloser level) d = none := by
      induction d with
      | nil => rfl
      | cons x d ih =>
        have hx : ¬ (bracketCloser level).isPrefixOf (x :: d) := by
          intro hp
          obtain ⟨r, hr⟩ := List.isPrefixOf_iff_prefix.1 hp
          cases hr
          have hn := hd ']' List.mem_cons_self
          revert hn
          decide
        rw [splitAtFirst, if_neg hx, ih fun y hy => hd y (List.mem_cons_of_mem x hy)]
        rfl
    rw [List.nil_append, hnone]
    rfl
  | c :: cs => by
    have hg : Guarded (c :: cs) d := .inl fun x hx => hd x (List.mem_of_mem_head? hx)
    have hpre : (bracketCloser level).isPrefixOf (c :: (cs ++ d)) = (bracketCloser level).isPrefixOf (c :: cs) := by
      rw [Bool.eq_iff_iff, List.isPrefixOf_iff_prefix, List.isPrefixOf_iff_prefix]
      constructor
      · rintro ⟨r, hr⟩
        obtain ⟨r', hr', -⟩ := (hg.eq_append_iff (isNeutral_bracketCloser level) r).1 hr.symm
        exact ⟨r', hr'.symm⟩
      · rintro ⟨r, hr⟩
        exact ⟨r ++ d, by rw [← List.append_assoc, hr, List.cons_append]⟩
    rw [List.cons_append, splitAtFirst, splitAtFirst, hpre, splitAtFirst_neutral hd cs]
    split
    · rename_i hp
      obtain ⟨r, hr⟩ := List.isPrefixOf_iff_prefix.1 hp
      rw [← List.cons_append, ← hr, List.append_assoc, List.drop_left, Option.map_some, List.drop_left]
    · simp only [Option.map_map]
      rfl

/-- A closer that is missing is found once it is written behind a neutral character. -/
theorem splitAtFirst_of_none {level : Nat} {x : Char} (hx : isNeutral x) (k : List Char) : ∀ {cs : List Char},
    splitAtFirst (bracketCloser level) cs = none →
      splitAtFirst (bracketCloser level) (cs ++ x :: (bracketCloser level ++ k)) = some (cs ++ [x], k)
  | [], _ => by
    have hne : x ≠ ']' := by rintro rfl; revert hx; decide
    rw [List.nil_append, splitAtFirst, if_neg, splitAtFirst_self (by simp [bracketCloser])]
    · rfl
    · rw [List.isPrefixOf_iff_prefix]
      rintro ⟨r, hr⟩
      rw [bracketCloser, List.cons_append, List.cons.injEq] at hr
      exact hne hr.1.symm
  | c :: cs, h => by
    rw [splitAtFirst] at h
    split at h
    · cases h
    · rename_i hpre
      rw [List.cons_append, splitAtFirst, if_neg, splitAtFirst_of_none hx k (Option.map_eq_none_iff.1 h)]
      · rfl
      · intro hp
        obtain ⟨r, hr⟩ := List.isPrefixOf_iff_prefix.1 hp
        have hg : Guarded (c :: cs) (x :: (bracketCloser level ++ k)) := .inl (by simpa using hx)
        obtain ⟨r', hr', -⟩ := (hg.eq_append_iff (isNeutral_bracketCloser level) r).1 hr.symm
        exact hpre (List.isPrefixOf_iff_prefix.2 ⟨r', hr'.symm⟩)

end CommandScript.Scanning
