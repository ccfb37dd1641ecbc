import CommandScript.Proofs.Scanning.Seam

/-! What stands behind an argument. A closing parenthesis ends an argument, and so do a blank and a comment. None of
them can be part of what is read in front of it, so that the steps in front of a closing parenthesis are the same with
something else in its place that ends an argument, too. -/

namespace CommandScript.Scanning

open Text Syntax

/-- A character that ends an argument and cannot be in front of another one. -/
def isBorder (c : Char) : Bool := isBlank c || c = '#' || c = ')'

theorem isBorder_cases {c : Char} (h : isBorder c) :
    c = ' ' ∨ c = '\t' ∨ c = '\r' ∨ c = '\n' ∨ c = '#' ∨ c = ')' := by
  simpa [isBorder, isBlank, or_assoc] using h

theorem endsAt_of_isBorder {c : Char} (h : isBorder c) : PartKind.unquoted.endsAt c := by
  rcases isBorder_cases h with rfl | rfl | rfl | rfl | rfl | rfl <;> decide

theorem guarded_of_border {e : List Char} (he : ∃ x ∈ e.head?, isBorder x) (cs : List Char) : Guarded cs e := by
  obtain ⟨x, hx, hborder⟩ := he
  refine .inl fun y hy => ?_
  rw [← Option.mem_unique hx hy]
  rcases isBorder_cases hborder with rfl | rfl | rfl | rfl | rfl | rfl <;> decide

theorem border_paren (after : List Char) : ∃ x ∈ (')' :: after).head?, isBorder x := ⟨')', rfl, by decide⟩

section Exchange

variable {after e : List Char} (he : ∃ x ∈ e.head?, isBorder x)

include he

theorem identifier?_exchange {cs name rest : List Char}
    (h : identifier? (cs ++ ')' :: after) = some (name, rest ++ ')' :: after)) :
    identifier? (cs ++ e) = some (name, rest ++ e) := by
  rw [identifier?_append (guarded_of_border he cs),
    identifier?_restrict (guarded_of_border (border_paren after) cs) h]
  rfl

theorem opensReference_exchange (cs : List Char) : opensReference (cs ++ e) = opensReference (cs ++ ')' :: after) := by
  rw [opensReference_append (guarded_of_border he cs),
    opensReference_append (guarded_of_border (border_paren after) cs)]

theorem Passes.exchange {kind : PartKind} {cs cs' text : List Char} {p p' : Position}
    (h : Passes kind ⟨cs ++ ')' :: after, p⟩ text ⟨cs' ++ ')' :: after, p'⟩) :
    Passes kind ⟨cs ++ e, p⟩ text ⟨cs' ++ e, p'⟩ :=
  have hbefore : Passes kind ⟨cs, p⟩ text ⟨cs', p'⟩ :=
    h.restrict (d := ')' :: after) (guarded_of_border (border_paren after) cs) rfl rfl
      (.inr (guarded_of_border (border_paren after) []).nil)
  hbefore.extend (guarded_of_border he cs) (.inr (guarded_of_border he []).nil)

/-- Only a run without quotes ends at the border. -/
theorem RunEnds.exchange {kind : PartKind} {cs : List Char} (h : RunEnds kind (cs ++ ')' :: after)) :
    RunEnds kind (cs ++ e) := by
  cases cs with
  | nil =>
    have hparen : kind.endsAt ')' := by
      have hend := h ')' rfl
      rwa [List.nil_append, opensReference_of_ne (by decide), Bool.or_false] at hend
    obtain rfl : kind = .unquoted := by cases kind <;> first | rfl | cases hparen
    obtain ⟨x, hx, hborder⟩ := he
    intro y hy
    rw [← Option.mem_unique hx hy, endsAt_of_isBorder hborder, Bool.true_or]
  | cons x cs =>
    have hbefore : RunEnds kind (x :: cs) := h.restrict (guarded_of_border (border_paren after) _)
    exact hbefore.extend (guarded_of_border he _) (.inl (by simp))

theorem LexesPart.exchange {kind : PartKind} {p : Position} {contexts contexts' : List Context} {ps : List Piece}
    {rest : List Char} (h : LexesPart kind p contexts ps (rest ++ ')' :: after) contexts') :
    LexesPart kind p contexts ps (rest ++ e) contexts' := by
  cases h with
  | @command name _ h =>
    refine .command ?_
    have hname : identifier? (name ++ '(' :: rest ++ ')' :: after) = some (name, '(' :: rest ++ ')' :: after) := by
      simpa using h
    simpa using identifier?_exchange he hname
  | @«variable» space _ h =>
    refine .variable ?_
    rw [← List.append_assoc] at h ⊢
    rw [commandOpener?_append (guarded_of_border (border_paren after) _), Option.map_eq_none_iff] at h
    rw [commandOpener?_append (guarded_of_border he _), h]
    rfl
  | @text taken text _ ho hp hends =>
    rw [← List.append_assoc] at ho hp
    refine .text ?_ ?_ (hends.exchange he)
    · rw [← List.append_assoc]
      exact (opensReference_exchange he _).trans ho
    · rw [← List.append_assoc]
      exact hp.exchange he

omit he in
/-- A part takes at least one character, unless the run ends where it begins. -/
theorem LexesPart.written_ne_nil {kind : PartKind} {p : Position} {contexts contexts' : List Context}
    {ps : List Piece} {x : Char} {rest : List Char} (h : LexesPart kind p contexts ps (x :: rest) contexts')
    (hx : kind.endsAt x = false) : written ps ≠ [] := by
  cases h with
  | command => simp
  | @«variable» space => cases space <;> simp [variableOpener]
  | @text taken _ _ ho _ hends =>
    rintro hnil
    obtain rfl : taken = [] := by simpa using hnil
    have hend := hends x rfl
    rw [hx, Bool.false_or] at hend
    rw [List.nil_append, hend] at ho
    cases ho

theorem Lexes.exchange {p : Position} {contexts contexts' : List Context} {ps : List Piece} {rest : List Char}
    (h : Lexes p contexts ps (rest ++ ')' :: after) contexts') (hps : ps ≠ []) :
    Lexes p contexts ps (rest ++ e) contexts' := by
  have hhead {x : Char} {r : List Char} (hr : written ps ++ (rest ++ ')' :: after) = x :: r) :
      (x = ')' ∧ written ps = [] ∧ rest = []) ∨ ∃ r', x :: r = (x :: r') ++ ')' :: after ∧
        written ps ++ (rest ++ e) = x :: (r' ++ e) := by
    rw [← List.append_assoc] at hr
    cases hbefore : written ps ++ rest with
    | nil =>
      rw [hbefore] at hr
      cases hr
      exact .inl ⟨rfl, List.append_eq_nil_iff.1 hbefore⟩
    | cons y r' =>
      rw [hbefore] at hr
      cases hr
      exact .inr ⟨r', rfl, by rw [← List.append_assoc, hbefore]; rfl⟩
  cases h with
  | @name name _ h =>
    rw [← List.append_assoc] at h
    refine .name ?_
    rw [← List.append_assoc]
    exact identifier?_exchange he h
  | @stray taken _ hne hi ht hr =>
    refine .stray hne ?_ ht ?_
    · rw [← List.append_assoc, identifier?_append (guarded_of_border (border_paren after) _),
        Option.map_eq_none_iff] at hi
      rw [← List.append_assoc, identifier?_append (guarded_of_border he _), hi]
      rfl
    · cases rest with
      | nil => exact absurd (hr ')' rfl) (by decide)
      | cons x rest => exact hr
  | opened => exact .opened
  | forgotten => exact absurd rfl hps
  | closed => exact .closed
  | called => exact .called
  | group => exact .group
  | quote => exact .quote
  | bracket h =>
    rw [← List.append_assoc] at h
    refine .bracket ?_
    rw [← List.append_assoc]
    exact splitAtFirst_append (by simp [bracketCloser]) e (splitAtFirst_restrict h)
  | argument hr hx hb h =>
    obtain ⟨rfl, -⟩ | ⟨r', hcons, hr'⟩ := hhead hr
    · exact absurd rfl hx.1
    · refine .argument hr' hx ?_ (h.exchange he)
      rw [hcons] at hb
      rw [← List.cons_append, bracketOpener?_append (guarded_of_border he _), bracketOpener?_restrict hb]
      rfl
  | argumentEnd h =>
    refine .argumentEnd ?_
    cases rest with
    | nil =>
      obtain ⟨x, hx, hborder⟩ := he
      intro y hy
      rw [← Option.mem_unique hx hy]
      exact endsAt_of_isBorder hborder
    | cons x rest => exact h
  | endQuote => exact .endQuote
  | endVariable => exact .endVariable
  | endCommand => exact .endCommand
  | part hk hr hx h =>
    obtain ⟨rfl, hwritten, rfl⟩ | ⟨r', -, hr'⟩ := hhead hr
    · exact absurd hwritten (h.written_ne_nil hx)
    · exact .part hk hr' hx (h.exchange he)

omit he in
/-- Where separation may stand, what is read behind it is in front of the border, if it is anything. -/
theorem Lexes.before_ne_nil {p : Position} {contexts contexts' : List Context} {ps : List Piece} {rest : List Char}
    (h : Lexes p contexts ps (rest ++ ')' :: after) contexts') (hs : separates contexts) (hps : ps ≠ []) :
    written ps ++ rest ≠ [] := by
  intro hnil
  obtain ⟨hwritten, rfl⟩ := List.append_eq_nil_iff.1 hnil
  cases h with
  | @name name _ h =>
    obtain rfl : name = [] := by simpa using hwritten
    exact absurd (length_of_identifier? h) (by simp)
  | stray hne =>
    refine hne ?_
    simpa using hwritten
  | forgotten => exact hps rfl
  | argument hr hx =>
    rw [hwritten] at hr
    cases hr
    exact hx.1 rfl
  | argumentEnd => cases hs
  | part _ hr hx h =>
    rw [hwritten] at hr
    cases hr
    exact h.written_ne_nil hx hwritten
  | _ => simp [bracketOpener] at hwritten

/-- A step in front of a closing parenthesis is one in front of anything else that ends an argument. -/
theorem step_exchange {s next : ScanState} {ts : List Token}
    (h : (s.extend (')' :: after)).step = .moved ts (next.extend (')' :: after))) (hts : ts ≠ []) :
    (s.extend e).step = .moved ts (next.extend e) := by
  obtain ⟨⟨cs, q⟩, contexts⟩ := s
  obtain ⟨⟨rest, q'⟩, contexts'⟩ := next
  obtain ⟨p, ps, hparted, hp, rfl, hl⟩ := step_eq_moved_iff.1 h
  have hps : ps ≠ [] := by
    rintro rfl
    exact hts rfl
  simp only [ScanState.extend, Cursor.extend] at hparted hp hl
  refine step_eq_moved_iff.2 ⟨p, ps, ?_, hp, rfl, hl.exchange he hps⟩
  simp only [ScanState.extend, Cursor.extend]
  rw [← List.append_assoc] at hparted ⊢
  unfold Parted at hparted ⊢
  split
  · rename_i hs
    rw [if_pos hs] at hparted
    have hne := hl.before_ne_nil hs hps
    have hskip : skipSeparation ⟨cs, q⟩ = .ok ⟨written ps ++ rest, p⟩ := skip_restrict hparted hne
    exact skip_extend hskip (guarded_of_border he cs) hne
  · rename_i hs
    rw [if_neg hs] at hparted
    obtain ⟨hrest, rfl⟩ := Cursor.mk.inj hparted
    rw [List.append_cancel_right hrest]

end Exchange

end CommandScript.Scanning
