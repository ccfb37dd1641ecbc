import CommandScript.Proofs.Scanning.Lookahead
import CommandScript.Syntax.Fault

/-! Steps of the scanner on a text that goes on. What a step does is decided by the part of the text that it reads,
so it does the same if more text is written behind, as long as it stops before the border or what is written there
stops it. -/

namespace CommandScript.Syntax

open Text

/-- More text behind the rest of a text. -/
def Cursor.extend (c : Cursor) (e : List Char) : Cursor := ⟨c.rest ++ e, c.position⟩

def ScanState.extend (s : ScanState) (e : List Char) : ScanState := ⟨s.cursor.extend e, s.contexts⟩

end CommandScript.Syntax

namespace CommandScript.Scanning

open Text Syntax

theorem ne_nil_of_suffix {cs ds : List Char} (h : cs <:+ ds) (hcs : cs ≠ []) : ds ≠ [] := by
  rintro rfl
  exact hcs (List.suffix_nil.1 h)

/-! ### Separation -/

/-- Passing over blanks and comments, not necessarily all that are there. -/
inductive Skips : Cursor → Cursor → Prop where
  | refl (c : Cursor) : Skips c c
  | blank {x : Char} {r : List Char} {p : Position} {c : Cursor} (hx : isBlank x) (h : Skips ⟨r, p.next x⟩ c) :
    Skips ⟨x :: r, p⟩ c
  | line {r : List Char} {p : Position} {c : Cursor} (hb : bracketOpener? r = none)
    (h : Skips ⟨r.dropWhile (· ≠ '\n'), p.after ('#' :: r.takeWhile (· ≠ '\n'))⟩ c) : Skips ⟨'#' :: r, p⟩ c
  | bracket {r body content rest : List Char} {level : Nat} {p : Position} {c : Cursor}
    (hb : bracketOpener? r = some (level, body))
    (hs : splitAtFirst (bracketCloser level) body = some (content, rest))
    (h : Skips ⟨rest, p.after ('#' :: (bracketOpener level ++ content ++ bracketCloser level))⟩ c) :
    Skips ⟨'#' :: r, p⟩ c

/-- A cursor at which separation ends: at the end of the text, or at something that is not part of it. -/
def Stands (c : Cursor) : Prop := ∀ x ∈ c.rest.head?, isBlank x = false ∧ x ≠ '#'

theorem skip_of_stands {c : Cursor} (h : Stands c) : skipSeparation c = .ok c := by
  obtain ⟨cs, p⟩ := c
  rw [skipSeparation]
  cases cs with
  | nil => rfl
  | cons x r =>
    obtain ⟨hx, hx'⟩ := h x rfl
    simp [hx, hx']

theorem Skips.skip_eq {c c' : Cursor} (h : Skips c c') : skipSeparation c = skipSeparation c' := by
  induction h with
  | refl => rfl
  | blank hx _ ih =>
    rw [← ih, skipSeparation]
    simp [hx, Cursor.pass]
  | line hb _ ih =>
    rw [← ih, skipSeparation]
    simp only [show isBlank '#' = false by decide, Bool.false_eq_true, if_false, if_true]
    split
    · rename_i hb'
      rw [hb] at hb'
      cases hb'
    · rfl
  | bracket hb hs _ ih =>
    rw [← ih, skipSeparation]
    simp only [show isBlank '#' = false by decide, Bool.false_eq_true, if_false, if_true]
    split
    · rename_i hb'
      rw [hb] at hb'
      cases hb'
      split
      · rename_i hs'
        rw [hs] at hs'
        cases hs'
        rfl
      · rename_i hs'
        rw [hs] at hs'
        cases hs'
    · rename_i hb'
      rw [hb] at hb'
      cases hb'

/-- All separation is passed, unless a bracket comment in it does not end. -/
theorem skip_spec (c : Cursor) : (∃ c', skipSeparation c = .ok c' ∧ Skips c c' ∧ Stands c') ∨
    ∃ level r body p, skipSeparation c = .error (.unclosedBracketComment level, p) ∧ Skips c ⟨'#' :: r, p⟩ ∧
      bracketOpener? r = some (level, body) ∧ splitAtFirst (bracketCloser level) body = none := by
  fun_induction skipSeparation c with
  | case1 c hr => exact .inl ⟨c, rfl, .refl c, by simp [Stands, hr]⟩
  | case2 c x r hr hx ih =>
    obtain ⟨cs, p⟩ := c
    cases hr
    rcases ih with ⟨c', h, hs, hc⟩ | ⟨level, r, body, q, h, hs, hb⟩
    · exact .inl ⟨c', h, .blank hx hs, hc⟩
    · exact .inr ⟨level, r, body, q, h, .blank hx hs, hb⟩
  | case3 c r level body hb content rest hsplit hr _ ih =>
    obtain ⟨cs, p⟩ := c
    cases hr
    rcases ih with ⟨c', h, hs, hc⟩ | ⟨level', r', body', q, h, hs, hb'⟩
    · exact .inl ⟨c', h, .bracket hb hsplit hs, hc⟩
    · exact .inr ⟨level', r', body', q, h, .bracket hb hsplit hs, hb'⟩
  | case4 c r level body hb hsplit hr =>
    obtain ⟨cs, p⟩ := c
    cases hr
    exact .inr ⟨level, r, body, p, rfl, .refl _, hb, hsplit⟩
  | case5 c r hb hr _ ih =>
    obtain ⟨cs, p⟩ := c
    cases hr
    rcases ih with ⟨c', h, hs, hc⟩ | ⟨level', r', body', q, h, hs, hb'⟩
    · exact .inl ⟨c', h, .line hb hs, hc⟩
    · exact .inr ⟨level', r', body', q, h, .line hb hs, hb'⟩
  | case6 c x r hr hx hx' =>
    refine .inl ⟨c, rfl, .refl c, ?_⟩
    intro y hy
    obtain rfl : x = y := by simpa [hr] using hy
    exact ⟨by simpa using hx, hx'⟩

theorem Skips.suffix {c c' : Cursor} (h : Skips c c') : c'.rest <:+ c.rest := by
  induction h with
  | refl => exact List.suffix_refl _
  | blank _ _ ih => exact ih.trans (List.suffix_cons _ _)
  | line _ _ ih => exact ih.trans ((List.dropWhile_suffix _).trans (List.suffix_cons _ _))
  | @bracket r body content rest level p c hb hs _ ih =>
    refine ih.trans ⟨'#' :: (bracketOpener level ++ content ++ bracketCloser level), ?_⟩
    rw [bracketOpener?_eq_some_iff.1 hb, splitAtFirst_eq_append hs]
    simp only [List.cons_append, List.append_assoc]

/-- Passing over separation inside a text is the same whatever is behind the text. -/
theorem Skips.extend {c c' : Cursor} {e : List Char} (h : Skips c c') (hg : Guarded c.rest e) (hc : c'.rest ≠ []) :
    Skips (c.extend e) (c'.extend e) := by
  induction h with
  | refl c => exact .refl _
  | blank hx h ih =>
    have hr := ne_nil_of_suffix h.suffix hc
    exact .blank hx (ih (hg.suffix (List.suffix_cons _ _) hr) hc)
  | @line r p c hb h ih =>
    have hr := ne_nil_of_suffix h.suffix hc
    obtain ⟨ht, hd⟩ := span_append (p := (· ≠ '\n')) (.inl hr) (e := e)
    have hb' : bracketOpener? (r ++ e) = none := by rw [bracketOpener?_append (hg.tail (by decide)), hb]; rfl
    have hstep : Skips ⟨'#' :: (r ++ e), p⟩ (c.extend e) := by
      refine .line hb' ?_
      rw [ht, hd]
      exact ih (hg.suffix ((List.dropWhile_suffix _).trans (List.suffix_cons _ _)) hr) hc
    exact hstep
  | @bracket r body content rest level p c hb hs h ih =>
    have hr := ne_nil_of_suffix h.suffix hc
    have hb' : bracketOpener? (r ++ e) = some (level, body ++ e) := by
      rw [bracketOpener?_append (hg.tail (by decide)), hb]
      rfl
    refine Skips.bracket hb' (splitAtFirst_append (by simp [bracketCloser]) e hs) ?_
    refine ih (hg.suffix ⟨'#' :: (bracketOpener level ++ content ++ bracketCloser level), ?_⟩ hr) hc
    rw [bracketOpener?_eq_some_iff.1 hb, splitAtFirst_eq_append hs]
    simp only [List.cons_append, List.append_assoc]

theorem skip_suffix {c c' : Cursor} (h : skipSeparation c = .ok c') : c'.rest <:+ c.rest := by
  rcases skip_spec c with ⟨d, hd, hs, -⟩ | ⟨level, r, body, p, he, -⟩
  · rw [hd] at h
    cases h
    exact hs.suffix
  · rw [he] at h
    cases h

theorem skip_extend {c c' : Cursor} {e : List Char} (h : skipSeparation c = .ok c') (hg : Guarded c.rest e)
    (hc : c'.rest ≠ []) : skipSeparation (c.extend e) = .ok (c'.extend e) := by
  rcases skip_spec c with ⟨d, hd, hs, hstands⟩ | ⟨level, r, body, p, he, -⟩
  · rw [hd] at h
    cases h
    rw [(hs.extend hg hc).skip_eq]
    refine skip_of_stands fun x hx => hstands x ?_
    obtain ⟨y, ys, hy⟩ := List.exists_cons_of_ne_nil hc
    rw [Cursor.extend, hy] at hx
    rwa [hy]
  · rw [he] at h
    cases h

/-! ### Runs -/

/-- Whether a character stands for itself in a run, if no reference begins with it. -/
def isPlain (kind : PartKind) (x : Char) : Bool :=
  !kind.endsAt x && x ≠ '\\' && x ≠ '\x00' && (kind ≠ .variable || isVariableCharacter x)

/-- Passing over text of a run, not necessarily all that is there. -/
inductive Passes (kind : PartKind) : Cursor → List Char → Cursor → Prop where
  | refl (c : Cursor) : Passes kind c [] c
  | escape {x : Char} {r decoded text : List Char} {p : Position} {c : Cursor} (hd : decodeEscape kind x = some decoded)
    (h : Passes kind ⟨r, (p.next '\\').next x⟩ text c) : Passes kind ⟨'\\' :: x :: r, p⟩ (decoded ++ text) c
  | plain {x : Char} {r text : List Char} {p : Position} {c : Cursor} (hx : isPlain kind x)
    (ho : opensReference (x :: r) = false) (h : Passes kind ⟨r, p.next x⟩ text c) :
    Passes kind ⟨x :: r, p⟩ (x :: text) c

/-- Where the text of a run ends. -/
def RunEnds (kind : PartKind) (cs : List Char) : Prop :=
  ∀ x ∈ cs.head?, kind.endsAt x || opensReference cs

/-- Where a run cannot be read on. -/
inductive RunFails (kind : PartKind) : List Char → ScanFault → Prop where
  | escapeAtEnd : RunFails kind ['\\'] .escapeAtEnd
  | invalidEscape {x : Char} {r : List Char} (h : decodeEscape kind x = none) :
    RunFails kind ('\\' :: x :: r) (.invalidEscape x)
  | nulCharacter {r : List Char} : RunFails kind ('\x00' :: r) .nulCharacter
  | invalidNameCharacter {x : Char} {r : List Char} (hk : kind = .variable) (hx : isVariableCharacter x = false)
    (he : kind.endsAt x = false) (hx' : x ≠ '\\' ∧ x ≠ '\x00') (ho : opensReference (x :: r) = false) :
    RunFails kind (x :: r) (.invalidNameCharacter x)

theorem endsAt_escape (kind : PartKind) : kind.endsAt '\\' = false := by
  cases kind <;> decide

theorem endsAt_nul (kind : PartKind) : kind.endsAt '\x00' = false := by
  cases kind <;> decide

theorem opensReference_of_ne {x : Char} (hx : x ≠ '$') (r : List Char) : opensReference (x :: r) = false := by
  have hc : commandOpener? (x :: r) = none := by
    unfold commandOpener?
    split
    · rename_i h
      cases h
      exact absurd rfl hx
    · rfl
  have hv : variableOpener? (x :: r) = none := by
    unfold variableOpener?
    split <;> rename_i h <;> first | rfl | (cases h; exact absurd rfl hx)
  simp [opensReference, hc, hv]

theorem readText_of_ends {kind : PartKind} {cs : List Char} (h : RunEnds kind cs) (p : Position) :
    readText kind p cs = .ok ([], ⟨cs, p⟩) := by
  cases cs with
  | nil => rw [readText]
  | cons x r =>
    rw [readText.eq_def]
    simp only [h x rfl, if_true]

theorem readText_of_fails {kind : PartKind} {cs : List Char} {f : ScanFault} (h : RunFails kind cs f) (p : Position) :
    readText kind p cs = .error (f, p) := by
  rw [readText.eq_def]
  cases h with
  | escapeAtEnd => simp [endsAt_escape, opensReference_of_ne]
  | invalidEscape h => simp [endsAt_escape, opensReference_of_ne, h]
  | nulCharacter => simp [endsAt_nul, opensReference_of_ne]
  | invalidNameCharacter hk hx he hx' ho => simp [hk ▸ he, ho, hx'.1, hx'.2, hk, hx]

theorem Passes.readText_eq {kind : PartKind} {c c' : Cursor} {text : List Char} (h : Passes kind c text c') :
    readText kind c.position c.rest =
      (readText kind c'.position c'.rest).map fun (more, behind) => (text ++ more, behind) := by
  induction h with
  | refl c => cases readText kind c.position c.rest <;> rfl
  | @escape x r decoded text p c hd h ih =>
    simp only at ih
    rw [readText.eq_def]
    simp only [endsAt_escape, opensReference_of_ne (show '\\' ≠ '$' by decide), hd, ih]
    cases readText kind c.position c.rest with
    | error f => rfl
    | ok r => simp [Except.map]
  | @plain x r text p c hx ho h ih =>
    simp only [isPlain, Bool.and_eq_true, Bool.not_eq_true', decide_eq_true_eq, Bool.or_eq_true] at hx
    obtain ⟨⟨⟨he, hx₁⟩, hx₂⟩, hx₃⟩ := hx
    have hk : (decide (kind = .variable) && !isVariableCharacter x) = false := by
      rcases hx₃ with hk | hv
      · simp [hk]
      · simp [hv]
    simp only at ih
    rw [readText.eq_def]
    simp only [he, ho, hx₁, hx₂, hk, Bool.or_self, Bool.false_eq_true, if_false, ih]
    cases readText kind c.position c.rest with
    | error f => rfl
    | ok r => rfl

/-- A run can be passed over up to where it ends, or up to where it cannot be read on. -/
theorem exists_passes (kind : PartKind) (cs : List Char) (p : Position) : ∃ text c, Passes kind ⟨cs, p⟩ text c ∧
    (RunEnds kind c.rest ∨ ∃ f, RunFails kind c.rest f) := by
  match cs with
  | [] => exact ⟨[], _, .refl _, .inl (by simp [RunEnds])⟩
  | x :: r =>
    by_cases he : kind.endsAt x || opensReference (x :: r)
    · refine ⟨[], _, .refl _, .inl ?_⟩
      intro y hy
      cases hy
      exact he
    · simp only [Bool.or_eq_true, not_or, Bool.not_eq_true] at he
      by_cases hx : x = '\\'
      · subst hx
        match r with
        | [] => exact ⟨[], _, .refl _, .inr ⟨_, .escapeAtEnd⟩⟩
        | y :: r =>
          cases hd : decodeEscape kind y with
          | none => exact ⟨[], _, .refl _, .inr ⟨_, .invalidEscape hd⟩⟩
          | some decoded =>
            obtain ⟨text, c, hp, hc⟩ := exists_passes kind r ((p.next '\\').next y)
            exact ⟨_, c, .escape hd hp, hc⟩
      · by_cases hn : x = '\x00'
        · subst hn
          exact ⟨[], _, .refl _, .inr ⟨_, .nulCharacter⟩⟩
        · by_cases hv : kind = .variable ∧ isVariableCharacter x = false
          · exact ⟨[], _, .refl _, .inr ⟨_, .invalidNameCharacter hv.1 hv.2 he.1 ⟨hx, hn⟩ he.2⟩⟩
          · have hplain : isPlain kind x := by
              simp only [isPlain, he.1, Bool.and_eq_true, Bool.not_false, decide_eq_true_eq, Bool.or_eq_true]
              refine ⟨⟨⟨trivial, hx⟩, hn⟩, ?_⟩
              by_cases hk : kind = .variable
              · exact .inr (by simpa using fun h => hv ⟨hk, h⟩)
              · exact .inl hk
            obtain ⟨text, c, hp, hc⟩ := exists_passes kind r (p.next x)
            exact ⟨_, c, .plain hplain he.2 hp, hc⟩
termination_by cs.length

/-- A run is read up to where it ends, or up to where it cannot be read on. -/
theorem readText_spec (kind : PartKind) (c : Cursor) : ∃ text c', Passes kind c text c' ∧
    ((RunEnds kind c'.rest ∧ readText kind c.position c.rest = .ok (text, c')) ∨
      ∃ f, RunFails kind c'.rest f ∧ readText kind c.position c.rest = .error (f, c'.position)) := by
  obtain ⟨text, c', hp, hc⟩ := exists_passes kind c.rest c.position
  refine ⟨text, c', hp, ?_⟩
  rw [hp.readText_eq]
  rcases hc with he | ⟨f, hf⟩
  · left
    rw [readText_of_ends he]
    exact ⟨he, by simp [Except.map]⟩
  · right
    rw [readText_of_fails hf]
    exact ⟨f, hf, rfl⟩

theorem Passes.suffix {kind : PartKind} {c c' : Cursor} {text : List Char} (h : Passes kind c text c') :
    c'.rest <:+ c.rest := by
  induction h with
  | refl => exact List.suffix_refl _
  | escape _ _ ih => exact ih.trans ((List.suffix_cons _ _).trans (List.suffix_cons _ _))
  | plain _ _ _ ih => exact ih.trans (List.suffix_cons _ _)

/-- A border that nothing lies across, also when all of the text is read. -/
theorem Guarded.suffix_or {cs ds e : List Char} (h : Guarded ds e) (hs : cs <:+ ds)
    (hcs : cs ≠ [] ∨ ∀ c ∈ e.head?, isNeutral c) : Guarded cs e := by
  rcases hcs with hcs | he
  · exact h.suffix hs hcs
  · exact .inl he

/-- Passing over text of a run is the same whatever is behind the text. -/
theorem Passes.extend {kind : PartKind} {c c' : Cursor} {text e : List Char} (h : Passes kind c text c')
    (hg : Guarded c.rest e) (hc : c'.rest ≠ [] ∨ ∀ x ∈ e.head?, isNeutral x) :
    Passes kind (c.extend e) text (c'.extend e) := by
  induction h with
  | refl c => exact .refl _
  | escape hd h ih =>
    have hr := hc.imp_left (ne_nil_of_suffix h.suffix)
    exact .escape hd (ih (hg.suffix_or ((List.suffix_cons _ _).trans (List.suffix_cons _ _)) hr) hc)
  | plain hx ho h ih =>
    have hr := hc.imp_left (ne_nil_of_suffix h.suffix)
    exact .plain hx ((opensReference_append hg).trans ho) (ih (hg.suffix_or (List.suffix_cons _ _) hr) hc)

theorem RunEnds.extend {kind : PartKind} {cs e : List Char} (h : RunEnds kind cs) (hg : Guarded cs e)
    (hc : cs ≠ [] ∨ ∃ x ∈ e.head?, kind.endsAt x) : RunEnds kind (cs ++ e) := by
  cases cs with
  | nil =>
    obtain ⟨x, hx, hk⟩ := hc.resolve_left (by simp)
    intro y hy
    rw [List.nil_append] at hy
    cases (Option.mem_unique hx hy)
    simp [hk]
  | cons x r =>
    intro y hy
    cases hy
    rw [opensReference_append hg]
    exact h x rfl

/-- Text of a run that is read to its end is read likewise if something that ends it is written behind. -/
theorem readText_extend {kind : PartKind} {c behind : Cursor} {text e : List Char}
    (h : readText kind c.position c.rest = .ok (text, behind)) (hg : Guarded c.rest e)
    (hc : behind.rest ≠ [] ∨ ∃ x ∈ e.head?, kind.endsAt x ∧ isNeutral x) :
    readText kind c.position (c.rest ++ e) = .ok (text, behind.extend e) := by
  obtain ⟨text', c', hp, ⟨hends, hok⟩ | ⟨f, -, he⟩⟩ := readText_spec kind c
  · obtain ⟨rfl, rfl⟩ : text' = text ∧ c' = behind := by simpa [hok] using h
    have hneutral : c'.rest ≠ [] ∨ ∀ x ∈ e.head?, isNeutral x := by
      refine hc.imp_right ?_
      rintro ⟨x, hx, -, hn⟩ y hy
      rwa [Option.mem_unique hy hx]
    have hends' : RunEnds kind (c'.rest ++ e) :=
      hends.extend (hg.suffix_or hp.suffix hneutral) (hc.imp_right fun ⟨x, hx, hk, _⟩ => ⟨x, hx, hk⟩)
    have hext := (hp.extend hg hneutral).readText_eq
    simp only [Cursor.extend] at hext
    rw [hext, readText_of_ends hends']
    simp [Except.map, Cursor.extend]
  · rw [he] at h
    cases h

theorem RunFails.extend {kind : PartKind} {cs e : List Char} {f : ScanFault} (h : RunFails kind cs f)
    (hg : Guarded cs e) (hf : f.isOpenEnded = false) : RunFails kind (cs ++ e) f := by
  cases h with
  | escapeAtEnd => cases hf
  | invalidEscape h => exact .invalidEscape h
  | nulCharacter => exact .nulCharacter
  | invalidNameCharacter hk hx he hx' ho =>
    exact .invalidNameCharacter hk hx he hx' ((opensReference_append hg).trans ho)

/-- A fault that more text cannot mend stays. -/
theorem readText_extend_error {kind : PartKind} {c : Cursor} {f : ScanFault} {q : Position} {e : List Char}
    (h : readText kind c.position c.rest = .error (f, q)) (hg : Guarded c.rest e) (hf : f.isOpenEnded = false) :
    readText kind c.position (c.rest ++ e) = .error (f, q) := by
  obtain ⟨text, c', hp, ⟨-, hok⟩ | ⟨g, hfails, he⟩⟩ := readText_spec kind c
  · rw [hok] at h
    cases h
  · obtain ⟨rfl, rfl⟩ : g = f ∧ c'.position = q := by simpa [he] using h
    have hc : c'.rest ≠ [] := by
      intro hc
      rw [hc] at hfails
      cases hfails
    have hext := (hp.extend hg (.inl hc)).readText_eq
    simp only [Cursor.extend] at hext
    rw [hext, readText_of_fails (hfails.extend (hg.suffix hp.suffix hc) hf)]
    rfl

/-! ### Steps -/

/-- A character that ends what was read last, if the given constructs are open behind it. -/
def ender : List Context → Char
  | .quoted _ :: _ => '"'
  | .variable _ :: _ | .closing _ :: _ => '\x7d'
  | _ => ' '

theorem isNeutral_ender (cs : List Context) : isNeutral (ender cs) := by
  unfold ender
  split <;> decide

theorem stepPart_extend {kind : PartKind} {c : Cursor} {cs : List Context} {ts : List Token} {next : ScanState}
    {e : List Char} (h : ScanState.stepPart kind c cs = .moved ts next) (hg : Guarded c.rest e)
    (hn : next.cursor.rest ≠ [] ∨ (next.contexts = cs → ∃ x ∈ e.head?, kind.endsAt x ∧ isNeutral x)) :
    ScanState.stepPart kind (c.extend e) cs = .moved ts (next.extend e) := by
  have hrest : (c.extend e).rest = c.rest ++ e := rfl
  unfold ScanState.stepPart at h ⊢
  rw [hrest, commandOpener?_append hg, variableOpener?_append hg]
  cases hc : commandOpener? c.rest with
  | some r =>
    obtain ⟨name, rest⟩ := r
    rw [hc] at h
    cases h
    obtain ⟨_, -, -, hp⟩ := commandOpener?_eq_some_iff.1 hc
    obtain ⟨rest, rfl⟩ := List.head?_eq_some_iff.1 hp
    rfl
  | none =>
    rw [hc] at h
    cases hv : variableOpener? c.rest with
    | some r =>
      obtain ⟨space, rest⟩ := r
      rw [hv] at h
      cases h
      rfl
    | none =>
      rw [hv] at h
      simp only at h
      split at h
      · rename_i text behind ht
        cases h
        have := readText_extend ht hg (hn.imp_right fun hn => hn rfl)
        simp only [Option.map_none, Cursor.extend] at this ⊢
        rw [this]
        rfl
      · cases h

theorem stepTop_extend {c : Cursor} {ts : List Token} {next : ScanState} {e : List Char}
    (h : ScanState.stepTop c = .moved ts next) (hg : Guarded c.rest e)
    (hn : next.cursor.rest ≠ [] ∨ e.head? = some (ender next.contexts)) :
    ScanState.stepTop (c.extend e) = .moved ts (next.extend e) := by
  unfold ScanState.stepTop at h ⊢
  split at h
  · cases h
  · rename_i c' hk
    split at h
    · cases h
    · rename_i x r hr
      have hc' : c'.rest ≠ [] := by simp [hr]
      have hg' : Guarded (x :: r) e := hr ▸ hg.suffix (skip_suffix hk) hc'
      have hrest : (c'.extend e).rest = x :: r ++ e := congrArg (· ++ e) hr
      have hid := identifier?_append hg'
      rw [skip_extend hk hg hc']
      simp only [hrest]
      rw [List.cons_append] at hid ⊢
      simp only [hid]
      split at h
      · rename_i name rest hi
        cases h
        rw [hi]
        rfl
      · rename_i hi
        cases h
        have hends : r.dropWhile (fun c => !isBlank c && decide (c ≠ '#')) ≠ [] ∨
            ∃ x ∈ e.head?, (!isBlank x && decide (x ≠ '#')) = false := hn.imp_right fun he => ⟨' ', he, by decide⟩
        obtain ⟨ht, hd⟩ := span_append hends
        simp only [hi, Option.map_none, ht, hd]
        rfl

theorem stepCommand_extend {c : Cursor} {outer : List Context} {ts : List Token} {next : ScanState} {e : List Char}
    (h : ScanState.stepCommand c outer = .moved ts next) (hg : Guarded c.rest e)
    (hn : next.cursor.rest ≠ [] ∨ ts ≠ []) :
    ScanState.stepCommand (c.extend e) outer = .moved ts (next.extend e) := by
  unfold ScanState.stepCommand at h ⊢
  split at h
  · cases h
  · rename_i c' hk
    split at h
    · rename_i rest hr
      have hrest : (c'.extend e).rest = '(' :: (rest ++ e) := congrArg (· ++ e) hr
      rw [skip_extend hk hg (by simp [hr])]
      cases h
      simp only [hrest]
      rfl
    · rename_i hparen
      cases h
      obtain ⟨x, r, hr⟩ := List.exists_cons_of_ne_nil (hn.resolve_right (by simp))
      have hr' : c'.rest = x :: r := hr
      have hrest : (c'.extend e).rest = x :: (r ++ e) := congrArg (· ++ e) hr'
      rw [skip_extend hk hg (by simp [hr'])]
      have hx : x ≠ '(' := fun hx => hparen r (hx ▸ hr')
      simp only [hrest]
      split
      · rename_i heq
        cases heq
        exact absurd rfl hx
      · rfl

theorem stepArguments_extend {c : Cursor} {p : Position} {reference : Option Position} {outer : List Context}
    {ts : List Token} {next : ScanState} {e : List Char}
    (h : ScanState.stepArguments c p reference outer = .moved ts next) (hg : Guarded c.rest e)
    (hn : next.cursor.rest ≠ [] ∨ e.head? = some (ender next.contexts)) :
    ScanState.stepArguments (c.extend e) p reference outer = .moved ts (next.extend e) := by
  unfold ScanState.stepArguments at h ⊢
  split at h
  · cases h
  · rename_i c' hk
    split at h
    · cases h
    · rename_i x r hr
      have hc' : c'.rest ≠ [] := by simp [hr]
      have hg' : Guarded (x :: r) e := hr ▸ hg.suffix (skip_suffix hk) hc'
      have hrest : (c'.extend e).rest = x :: (r ++ e) := congrArg (· ++ e) hr
      rw [skip_extend hk hg hc']
      simp only [hrest]
      split at h
      · rename_i hx
        rw [if_pos hx]
        cases h
        rfl
      · rename_i hx
        rw [if_neg hx]
        split at h
        · rename_i hx'
          rw [if_pos hx']
          cases h
          rfl
        · rename_i hx'
          rw [if_neg hx']
          split at h
          · rename_i hx''
            rw [if_pos hx'']
            cases h
            rfl
          · rename_i hx''
            rw [if_neg hx'']
            have hb := bracketOpener?_append hg'
            rw [List.cons_append] at hb
            rw [hb]
            cases hob : bracketOpener? (x :: r) with
            | some b =>
              obtain ⟨level, body⟩ := b
              rw [hob] at h
              simp only at h
              split at h
              · rename_i content rest hs
                simp only [Option.map_some, splitAtFirst_append (by simp [bracketCloser]) e hs]
                cases h
                rfl
              · cases h
            | none =>
              rw [hob] at h
              have hgc : Guarded c'.rest e := hr ▸ hg'
              refine stepPart_extend h hgc (hn.imp_right fun he hcs => ⟨_, he, ?_, isNeutral_ender _⟩)
              rw [hcs]
              rfl

/-- A step does the same if more text is behind, provided that it stops before the border or is stopped there. -/
theorem step_extend {s next : ScanState} {ts : List Token} {e : List Char} (h : s.step = .moved ts next)
    (hg : Guarded s.cursor.rest e)
    (hn : next.cursor.rest ≠ [] ∨ (s.cursor.rest ≠ [] ∧ (∀ outer, s.contexts = .command :: outer → ts ≠ []) ∧
      e.head? = some (ender next.contexts))) :
    (s.extend e).step = .moved ts (next.extend e) := by
  obtain ⟨⟨cs, p⟩, contexts⟩ := s
  have hpart {kind : PartKind} {d : Context} {ds : List Context} (hd : kind.endsAt (ender (d :: ds)))
      (h : ScanState.stepPart kind ⟨cs, p⟩ (d :: ds) = .moved ts next) :
      ScanState.stepPart kind ⟨cs ++ e, p⟩ (d :: ds) = .moved ts (next.extend e) := by
    refine stepPart_extend (c := ⟨cs, p⟩) h hg (hn.imp_right fun ⟨_, _, he⟩ hcs => ⟨_, he, ?_, isNeutral_ender _⟩)
    rwa [hcs]
  unfold ScanState.step at h ⊢
  cases contexts with
  | nil => exact stepTop_extend h hg (hn.imp_right fun hn => hn.2.2)
  | cons d outer =>
    cases d with
    | command => exact stepCommand_extend h hg (hn.imp_right fun hn => hn.2.1 outer rfl)
    | arguments q reference => exact stepArguments_extend h hg (hn.imp_right fun hn => hn.2.2)
    | unquoted =>
      cases cs with
      | nil =>
        cases h
        simp [Cursor.pass] at hn
      | cons x r =>
        simp only [ScanState.extend, Cursor.extend, List.cons_append] at h ⊢
        split at h
        · rename_i hx
          rw [if_pos hx]
          cases h
          rfl
        · rename_i hx
          rw [if_neg hx]
          exact hpart rfl h
    | quoted q | «variable» q =>
      cases cs with
      | nil => cases h
      | cons x r =>
        simp only [ScanState.extend, Cursor.extend, List.cons_append] at h ⊢
        split at h
        · rename_i hx
          rw [if_pos hx]
          cases h
          rfl
        · rename_i hx
          rw [if_neg hx]
          exact hpart rfl h
    | closing q =>
      cases cs with
      | nil => cases h
      | cons x r =>
        simp only [ScanState.extend, Cursor.extend, List.cons_append] at h ⊢
        split at h
        · rename_i hx
          rw [if_pos hx]
          cases h
          rfl
        · cases h

/-- Separation that cannot be passed over only lacks a closer. -/
theorem isOpenEnded_of_skip {c : Cursor} {f : ScanFault} {q : Position} (h : skipSeparation c = .error (f, q)) :
    f.isOpenEnded := by
  rcases skip_spec c with ⟨d, hd, -⟩ | ⟨level, r, body, p, he, -⟩
  · rw [hd] at h
    cases h
  · rw [he] at h
    cases h
    rfl

theorem stepPart_failed {kind : PartKind} {c : Cursor} {cs : List Context} {f : ScanFault} {q : Position}
    (h : ScanState.stepPart kind c cs = .failed f q) : commandOpener? c.rest = none ∧ variableOpener? c.rest = none ∧
      readText kind c.position c.rest = .error (f, q) := by
  unfold ScanState.stepPart at h
  split at h
  · cases h
  · rename_i hc
    split at h
    · cases h
    · rename_i hv
      split at h
      · cases h
      · rename_i ht
        cases h
        exact ⟨hc, hv, ht⟩

theorem stepPart_extend_failed {kind : PartKind} {c : Cursor} {cs : List Context} {f : ScanFault} {q : Position}
    {e : List Char} (h : ScanState.stepPart kind c cs = .failed f q) (hg : Guarded c.rest e)
    (hf : f.isOpenEnded = false) : ScanState.stepPart kind (c.extend e) cs = .failed f q := by
  obtain ⟨hc, hv, ht⟩ := stepPart_failed h
  have hrest : (c.extend e).rest = c.rest ++ e := rfl
  unfold ScanState.stepPart
  rw [hrest, commandOpener?_append hg, variableOpener?_append hg, hc, hv]
  simp only [Option.map_none, Cursor.extend, readText_extend_error ht hg hf]

theorem stepArguments_extend_failed {c : Cursor} {p : Position} {reference : Option Position} {outer : List Context}
    {f : ScanFault} {q : Position} {e : List Char} (h : ScanState.stepArguments c p reference outer = .failed f q)
    (hg : Guarded c.rest e) (hf : f.isOpenEnded = false) :
    ScanState.stepArguments (c.extend e) p reference outer = .failed f q := by
  unfold ScanState.stepArguments at h ⊢
  split at h
  · rename_i hk
    cases h
    rw [isOpenEnded_of_skip hk] at hf
    cases hf
  · rename_i c' hk
    split at h
    · cases h
      cases hf
    · rename_i x r hr
      have hc' : c'.rest ≠ [] := by simp [hr]
      have hg' : Guarded (x :: r) e := hr ▸ hg.suffix (skip_suffix hk) hc'
      have hrest : (c'.extend e).rest = x :: (r ++ e) := congrArg (· ++ e) hr
      have hb := bracketOpener?_append hg'
      rw [List.cons_append] at hb
      rw [skip_extend hk hg hc']
      simp only [hrest]
      split at h
      · cases h
      · rename_i hx
        split at h
        · cases h
        · rename_i hx'
          split at h
          · cases h
          · rename_i hx''
            split at h
            · split at h
              · cases h
              · cases h
                cases hf
            · rename_i hob
              rw [if_neg hx, if_neg hx', if_neg hx'', hb, hob]
              have hgc : Guarded c'.rest e := hr ▸ hg'
              exact stepPart_extend_failed h hgc hf

/-- A fault that more text cannot mend is met again. -/
theorem step_extend_failed {s : ScanState} {f : ScanFault} {q : Position} {e : List Char} (h : s.step = .failed f q)
    (hg : Guarded s.cursor.rest e) (hf : f.isOpenEnded = false) : (s.extend e).step = .failed f q := by
  obtain ⟨⟨cs, p⟩, contexts⟩ := s
  have hpart {kind : PartKind} {ds : List Context} (h : ScanState.stepPart kind ⟨cs, p⟩ ds = .failed f q) :
      ScanState.stepPart kind ⟨cs ++ e, p⟩ ds = .failed f q := stepPart_extend_failed (c := ⟨cs, p⟩) h hg hf
  unfold ScanState.step at h ⊢
  cases contexts with
  | nil =>
    simp only [ScanState.stepTop] at h
    split at h
    · rename_i hk
      cases h
      rw [isOpenEnded_of_skip hk] at hf
      cases hf
    · split at h
      · cases h
      · split at h <;> cases h
  | cons d outer =>
    cases d with
    | command =>
      simp only [ScanState.stepCommand] at h
      split at h
      · rename_i hk
        cases h
        rw [isOpenEnded_of_skip hk] at hf
        cases hf
      · split at h <;> cases h
    | arguments q reference => exact stepArguments_extend_failed h hg hf
    | _ =>
      cases cs with
      | nil => cases h <;> cases hf
      | cons x r =>
        simp only [ScanState.extend, Cursor.extend, List.cons_append] at h ⊢
        split at h
        · cases h
        · rename_i hx
          rw [if_neg hx]
          first | exact hpart h | exact h

/-! ### Suffixes -/

theorem stepPart_suffix {kind : PartKind} {c : Cursor} {cs : List Context} {ts : List Token} {next : ScanState}
    (h : ScanState.stepPart kind c cs = .moved ts next) : next.cursor.rest <:+ c.rest := by
  unfold ScanState.stepPart at h
  split at h
  · rename_i name rest hc
    cases h
    obtain ⟨r, hr, hi, -⟩ := commandOpener?_eq_some_iff.1 hc
    obtain ⟨rfl, -⟩ := identifier?_eq_append hi
    rw [hr]
    exact (List.drop_suffix _ _).trans ⟨['$', '\x7b'] ++ name, by simp⟩
  · split at h
    · rename_i hv
      cases h
      exact ⟨_, (variableOpener?_eq_some_iff.1 hv).symm⟩
    · split at h
      · rename_i ht
        cases h
        obtain ⟨text, c', hp, ⟨-, hok⟩ | ⟨f, -, he⟩⟩ := readText_spec kind c
        · rw [hok] at ht
          cases ht
          exact hp.suffix
        · rw [he] at ht
          cases ht
      · cases h

theorem stepTop_suffix {c : Cursor} {ts : List Token} {next : ScanState} (h : ScanState.stepTop c = .moved ts next) :
    next.cursor.rest <:+ c.rest := by
  unfold ScanState.stepTop at h
  split at h
  · cases h
  · rename_i hk
    refine List.IsSuffix.trans ?_ (skip_suffix hk)
    split at h
    · cases h
    · rename_i hr
      rw [hr]
      split at h
      · rename_i hi
        cases h
        exact ⟨_, (identifier?_eq_append hi).1.symm⟩
      · cases h
        exact (List.dropWhile_suffix _).trans (List.suffix_cons _ _)

theorem stepCommand_suffix {c : Cursor} {outer : List Context} {ts : List Token} {next : ScanState}
    (h : ScanState.stepCommand c outer = .moved ts next) : next.cursor.rest <:+ c.rest := by
  unfold ScanState.stepCommand at h
  split at h
  · cases h
  · rename_i hk
    refine List.IsSuffix.trans ?_ (skip_suffix hk)
    split at h
    · rename_i hr
      cases h
      rw [hr]
      exact List.suffix_cons _ _
    · cases h
      exact List.suffix_refl _

theorem stepArguments_suffix {c : Cursor} {p : Position} {reference : Option Position} {outer : List Context}
    {ts : List Token} {next : ScanState} (h : ScanState.stepArguments c p reference outer = .moved ts next) :
    next.cursor.rest <:+ c.rest := by
  unfold ScanState.stepArguments at h
  split at h
  · cases h
  · rename_i hk
    refine List.IsSuffix.trans ?_ (skip_suffix hk)
    split at h
    · cases h
    · rename_i hr
      rw [hr]
      split at h
      · cases h
        exact List.suffix_cons _ _
      · split at h
        · cases h
          exact List.suffix_cons _ _
        · split at h
          · cases h
            exact List.suffix_cons _ _
          · split at h
            · rename_i hb
              split at h
              · rename_i level body _ content rest hs
                cases h
                rw [bracketOpener?_eq_some_iff.1 hb, splitAtFirst_eq_append hs]
                exact ⟨bracketOpener level ++ content ++ bracketCloser level, by simp [Cursor.pass]⟩
              · cases h
            · rw [← hr]
              exact stepPart_suffix h

/-- A step leaves a suffix of the text. -/
theorem step_suffix {s next : ScanState} {ts : List Token} (h : s.step = .moved ts next) :
    next.cursor.rest <:+ s.cursor.rest := by
  obtain ⟨⟨cs, p⟩, contexts⟩ := s
  unfold ScanState.step at h
  cases contexts with
  | nil => exact stepTop_suffix h
  | cons d outer =>
    cases d with
    | command => exact stepCommand_suffix h
    | arguments q reference => exact stepArguments_suffix h
    | _ =>
      cases cs with
      | nil => first | (cases h; done) | (cases h; exact List.suffix_refl _)
      | cons x r =>
        simp only at h
        split at h
        · cases h
          first | exact List.suffix_cons _ _ | exact List.suffix_refl _
        · first | exact stepPart_suffix (c := ⟨x :: r, p⟩) h | cases h

end CommandScript.Scanning
