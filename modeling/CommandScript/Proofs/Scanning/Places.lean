import CommandScript.Proofs.Scanning.Lexing

/-! The places that the scanner keeps. A position that was reached by counting characters one by one is the number of
characters, line feeds and characters of the last line before it. Open constructs remember where they began, so that a
fault is always reported at a character of the text, and at the one that it is about. -/

namespace CommandScript.Scanning

open Text Syntax

/-! ### Counting -/

/-- The position is in the text. Its line is one more than the line feeds before it, and its column one more than the
characters behind the last of them, or behind the start of the text if there is none. -/
structure Marks (text : List Char) (p : Position) : Prop where
  offset_le : p.offset ≤ text.length
  line_eq : p.line = 1 + (text.take p.offset).count '\n'
  column_eq : p.column = 1 + ((text.take p.offset).reverse.takeWhile (· ≠ '\n')).length

theorem next_eq (p : Position) (x : Char) : p.next x =
    ⟨p.offset + 1, p.line + (if x = '\n' then 1 else 0), if x = '\n' then 1 else p.column + 1⟩ := by
  unfold Position.next
  split <;> rfl

theorem offset_after (p : Position) (cs : List Char) : (p.after cs).offset = p.offset + cs.length := by
  induction cs generalizing p with
  | nil => rfl
  | cons x cs ih =>
    rw [Position.after_cons, ih, next_eq]
    simp only [List.length_cons]
    omega

theorem offset_after_start (cs : List Char) : (Position.start.after cs).offset = cs.length := by
  rw [offset_after]
  exact Nat.zero_add _

theorem line_after (p : Position) (cs : List Char) : (p.after cs).line = p.line + cs.count '\n' := by
  induction cs generalizing p with
  | nil => rfl
  | cons x cs ih =>
    rw [Position.after_cons, ih, next_eq]
    simp only [List.count_cons, beq_iff_eq]
    omega

theorem column_after_start (cs : List Char) :
    (Position.start.after cs).column = 1 + (cs.reverse.takeWhile (· ≠ '\n')).length := by
  -- the last character decides, so the induction is on the characters from the end
  suffices h : ∀ rs : List Char, (Position.start.after rs.reverse).column = 1 + (rs.takeWhile (· ≠ '\n')).length by
    simpa using h cs.reverse
  intro rs
  induction rs with
  | nil => rfl
  | cons x rs ih =>
    rw [List.reverse_cons, Position.after_append, Position.after_cons, Position.after_nil, next_eq]
    by_cases hx : x = '\n'
    · simp [hx]
    · simp [hx, ih]
      omega

theorem marks_after (before rest : List Char) : Marks (before ++ rest) (Position.start.after before) := by
  have htake : (before ++ rest).take (Position.start.after before).offset = before := by
    rw [offset_after_start, List.take_left]
  refine ⟨?_, ?_, ?_⟩
  · rw [offset_after_start, List.length_append]
    exact Nat.le_add_right _ _
  · rw [htake, line_after]
    rfl
  · rw [htake, column_after_start]

/-! ### Faults -/

/-- The character stands in the text behind the place. -/
def StandsAt (text : List Char) (p : Position) (x : Char) : Prop :=
  ∃ before rest, text = before ++ x :: rest ∧ p = Position.start.after before

theorem StandsAt.marks {text : List Char} {p : Position} {x : Char} (h : StandsAt text p x) : Marks text p := by
  obtain ⟨before, rest, rfl, rfl⟩ := h
  exact marks_after before (x :: rest)

/-- The places that an open construct keeps, each with the character that stands there. -/
def places : Context → List (Position × Char)
  | .command | .unquoted => []
  | .arguments p none => [(p, '(')]
  | .arguments p (some q) => [(p, '('), (q, '$')]
  | .quoted p => [(p, '"')]
  | .variable p | .closing p => [(p, '$')]

/-- The cursor is in the text, where counting the characters leads to. -/
def Follows (text : List Char) (c : Cursor) : Prop :=
  ∃ before, text = before ++ c.rest ∧ c.position = Position.start.after before

theorem Follows.take {text taken : List Char} {c c' : Cursor} (h : Follows text c) (hr : c.rest = taken ++ c'.rest)
    (hp : c'.position = c.position.after taken) : Follows text c' := by
  obtain ⟨before, ht, hb⟩ := h
  refine ⟨before ++ taken, ?_, ?_⟩
  · rw [ht, hr, List.append_assoc]
  · rw [hp, hb, Position.after_append]

theorem Follows.standsAt {text taken rest : List Char} {c : Cursor} {x : Char} (h : Follows text c)
    (hr : c.rest = taken ++ x :: rest) : StandsAt text (c.position.after taken) x := by
  obtain ⟨before, ht, hb⟩ := h
  refine ⟨before ++ taken, rest, ?_, ?_⟩
  · rw [ht, hr, List.append_assoc]
  · rw [hb, Position.after_append]

theorem Follows.standsAt_head {text rest : List Char} {c : Cursor} {x : Char} (h : Follows text c)
    (hr : c.rest = x :: rest) : StandsAt text c.position x := by
  obtain ⟨before, ht, hb⟩ := h
  exact ⟨before, rest, by rw [ht, hr], hb⟩

/-- All places that open constructs keep are in the text. -/
def Keeps (text : List Char) (contexts : List Context) : Prop :=
  ∀ d ∈ contexts, ∀ x ∈ places d, StandsAt text x.1 x.2

theorem keeps_cons {text : List Char} {d : Context} {contexts : List Context} :
    Keeps text (d :: contexts) ↔ (∀ x ∈ places d, StandsAt text x.1 x.2) ∧ Keeps text contexts :=
  List.forall_mem_cons

theorem LexesPart.keeps {kind : PartKind} {text : List Char} {p : Position} {contexts contexts' : List Context}
    {ps : List Piece} {rest : List Char} (h : LexesPart kind p contexts ps rest contexts')
    (hc : Follows text ⟨written ps ++ rest, p⟩) (hk : Keeps text contexts) : Keeps text contexts' := by
  cases h with
  | command h =>
    rename_i name
    have hdollar : StandsAt text p '$' := hc.standsAt_head rfl
    have hparen : StandsAt text (p.after (['$', '\x7b'] ++ name)) '(' := by
      have hr : written [⟨.commandOpen, ['$', '\x7b']⟩, ⟨.name (String.ofList name), name⟩, ⟨.leftParen, ['(']⟩] ++ rest =
          ['$', '\x7b'] ++ name ++ '(' :: rest := by simp
      exact hc.standsAt hr
    rw [Position.after_append] at hparen
    refine keeps_cons.2 ⟨?_, hk⟩
    intro x hx
    simp only [places, List.mem_cons, List.not_mem_nil, or_false] at hx
    rcases hx with rfl | rfl
    · exact hparen
    · exact hdollar
  | «variable» h =>
    have hdollar : StandsAt text p '$' := hc.standsAt_head rfl
    exact keeps_cons.2 ⟨by simp [places, hdollar], hk⟩
  | text => exact hk

/-- What a step opens begins where the step reads, so its place is in the text as well. -/
theorem Lexes.keeps {text : List Char} {p : Position} {contexts contexts' : List Context} {ps : List Piece}
    {rest : List Char} (h : Lexes p contexts ps rest contexts') (hc : Follows text ⟨written ps ++ rest, p⟩)
    (hk : Keeps text contexts) : Keeps text contexts' := by
  have hhere {x : Char} {r : List Char} (hr : written ps ++ rest = x :: r) : StandsAt text p x :=
    hc.standsAt_head hr
  cases h with
  | name | stray => simp [Keeps, places]
  | opened => exact keeps_cons.2 ⟨by simpa [places] using hhere rfl, (keeps_cons.1 hk).2⟩
  | forgotten | closed | argumentEnd | endQuote | endVariable | endCommand => exact (keeps_cons.1 hk).2
  | called =>
    obtain ⟨hd, hk⟩ := keeps_cons.1 hk
    exact keeps_cons.2 ⟨by simpa [places] using hd _ (List.mem_cons_of_mem _ (List.mem_cons_self)), hk⟩
  | group => exact keeps_cons.2 ⟨by simpa [places] using hhere rfl, hk⟩
  | quote => exact keeps_cons.2 ⟨by simpa [places] using hhere rfl, hk⟩
  | bracket => exact hk
  | argument hr hx hb h => exact h.keeps hc (keeps_cons.2 ⟨by simp [places], hk⟩)
  | part hd hr hx h => exact h.keeps hc hk

theorem Follows.skip {text : List Char} {c c' : Cursor} (hc : Follows text c) (h : skipSeparation c = .ok c') :
    Follows text c' := by
  obtain ⟨taken, hr, hp, -⟩ := separation_of_skip h
  exact hc.take hr hp

theorem Parted.follows {text : List Char} {contexts : List Context} {c c' : Cursor} (h : Parted contexts c c')
    (hc : Follows text c) : Follows text c' := by
  unfold Parted at h
  split at h
  · exact hc.skip h
  · exact h ▸ hc

theorem Moves.follows {text : List Char} {s next : ScanState} {ts : List Token} (h : Moves s ts next)
    (hc : Follows text s.cursor) : Follows text next.cursor := by
  obtain ⟨p, ps, hparted, hp, -, -⟩ := h
  exact (hparted.follows hc).take rfl hp

theorem Moves.keeps {text : List Char} {s next : ScanState} {ts : List Token} (h : Moves s ts next)
    (hc : Follows text s.cursor) (hk : Keeps text s.contexts) : Keeps text next.contexts := by
  obtain ⟨p, ps, hparted, -, -, hl⟩ := h
  exact hl.keeps (hparted.follows hc) hk

/-! ### Where invocations end -/

theorem stop_le_of_tokensFrom {p : Position} {ps : List Piece} : ∀ t ∈ tokensFrom p ps,
    t.stop.offset ≤ (p.after (written ps)).offset := by
  induction ps generalizing p with
  | nil => simp [tokensFrom]
  | cons x ps ih =>
    intro t ht
    rw [tokensFrom] at ht
    rw [written_cons, Position.after_append]
    rcases List.mem_cons.1 ht with rfl | ht
    · simp only [offset_after]
      omega
    · exact ih t ht

theorem Moves.stop_le {s next : ScanState} {ts : List Token} (h : Moves s ts next) :
    ∀ t ∈ ts, t.stop.offset ≤ next.cursor.position.offset := by
  obtain ⟨p, ps, -, hp, rfl, -⟩ := h
  intro t ht
  rw [hp]
  exact stop_le_of_tokensFrom t ht

theorem Moves.exists_taken {s next : ScanState} {ts : List Token} (h : Moves s ts next) :
    ∃ taken, s.cursor.rest = taken ++ next.cursor.rest ∧ next.cursor.position = s.cursor.position.after taken := by
  obtain ⟨p, ps, hparted, hp, -, -⟩ := h
  unfold Parted at hparted
  split at hparted
  · obtain ⟨gap, hr, hgap, -⟩ := separation_of_skip hparted
    refine ⟨gap ++ written ps, hr.trans (List.append_assoc ..).symm, ?_⟩
    rw [hp, Position.after_append, ← hgap]
  · rw [← hparted]
    exact ⟨written ps, rfl, hp⟩

theorem done_of_feed? {b b' : Builder} {t : Token} (h : b.feed? t = some b') :
    b'.done = b.done ∨ ∃ i, i.stop = t.stop ∧ b'.done = i :: b.done := by
  unfold Builder.feed? at h
  simp only at h
  repeat' split at h
  all_goals first
    | (obtain ⟨_, -, rfl⟩ := Option.map_eq_some_iff.1 h; exact .inl rfl)
    | (cases h; done)
    | (cases h; exact .inl rfl)
    | (cases h; exact .inr ⟨_, rfl, rfl⟩)

theorem stop_le_of_feedAll {n : Nat} {ts : List Token} (hts : ∀ t ∈ ts, t.stop.offset ≤ n) : ∀ {b b' : Builder},
    b.feedAll ts = .ok b' → (∀ i ∈ b.done, i.stop.offset ≤ n) → ∀ i ∈ b'.done, i.stop.offset ≤ n := by
  induction ts with
  | nil =>
    intro b b' h hb
    cases h
    exact hb
  | cons t ts ih =>
    intro b b' h hb
    obtain ⟨ht, hts⟩ := List.forall_mem_cons.1 hts
    rw [Builder.feedAll] at h
    split at h
    · rename_i b₁ hfeed
      refine ih hts h fun i hi => ?_
      rcases done_of_feed? hfeed with hd | ⟨j, hj, hd⟩
      · exact hb i (hd ▸ hi)
      · rw [hd] at hi
        rcases List.mem_cons.1 hi with rfl | hi
        · rw [hj]
          exact ht
        · exact hb i hi
    · cases h

theorem Reads.follows {text : List Char} {s s' : ScanState} {b b' : Builder} (h : Reads s b s' b')
    (hc : Follows text s.cursor) : Follows text s'.cursor := by
  induction h with
  | refl => exact hc
  | step hs hb _ ih => exact ih ((step_eq_moved_iff.1 hs).follows hc)

/-- The invocations that are complete end where the text was read to, or before. -/
theorem Reads.stop_le {s s' : ScanState} {b b' : Builder} (h : Reads s b s' b')
    (hb : ∀ i ∈ b.done, i.stop.offset ≤ s.cursor.position.offset) :
    ∀ i ∈ b'.done, i.stop.offset ≤ s'.cursor.position.offset := by
  induction h with
  | refl => exact hb
  | step hs hfeed _ ih =>
    have hm := step_eq_moved_iff.1 hs
    obtain ⟨taken, -, hpos⟩ := hm.exists_taken
    refine ih (stop_le_of_feedAll hm.stop_le hfeed fun i hi => Nat.le_trans (hb i hi) ?_)
    rw [hpos, offset_after]
    exact Nat.le_add_right _ _

/-- What was read of a text in front of more text, and where the invocations end that are complete. -/
theorem Reads.exists_before {cs e g : List Char} {q : Position} {contexts : List Context} {b : Builder}
    (h : Reads ⟨⟨cs ++ e, .start⟩, []⟩ .initial ⟨⟨g ++ e, q⟩, contexts⟩ b) :
    ∃ before, cs = before ++ g ∧ q = Position.start.after before ∧ ∀ i ∈ b.done, i.stop.offset ≤ before.length := by
  have hstart : Follows (cs ++ e) ⟨cs ++ e, .start⟩ := ⟨[], rfl, rfl⟩
  obtain ⟨before, hsplit, rfl⟩ := h.follows hstart
  have hstop := h.stop_le (by simp [Builder.initial])
  simp only [offset_after, Position.start, Nat.zero_add] at hstop
  refine ⟨before, ?_, rfl, hstop⟩
  rw [← List.append_assoc] at hsplit
  exact List.append_cancel_right hsplit

theorem Reads.position_at_end {cs : List Char} {q : Position} {contexts : List Context} {b b' : Builder}
    (h : Reads ⟨⟨cs, .start⟩, []⟩ b ⟨⟨[], q⟩, contexts⟩ b') : q = Position.start.after cs := by
  have hstart : Follows cs ⟨cs, .start⟩ := ⟨[], rfl, rfl⟩
  obtain ⟨before, hsplit, hplace⟩ := h.follows hstart
  rw [hsplit, List.append_nil]
  exact hplace

/-! ### Where a step fails -/

theorem RunFails.head? {kind : PartKind} {cs : List Char} {f : ScanFault} (h : RunFails kind cs f) :
    cs.head? = some f.character := by
  cases h <;> rfl

theorem standsAt_of_skip {text : List Char} {c : Cursor} {f : ScanFault} {q : Position} (hc : Follows text c)
    (h : skipSeparation c = .error (f, q)) : StandsAt text q f.character := by
  rcases skip_spec c with ⟨d, hd, -⟩ | ⟨level, r, body, p, he, hs, -⟩
  · rw [hd] at h
    cases h
  · obtain ⟨rfl, rfl⟩ : .unclosedBracketComment level = f ∧ p = q := by simpa [he] using h
    obtain ⟨taken, hr, rfl, -⟩ := hs.separation
    exact hc.standsAt hr

theorem standsAt_of_stepPart {text : List Char} {kind : PartKind} {c : Cursor} {contexts : List Context}
    {f : ScanFault} {q : Position} (hc : Follows text c) (h : ScanState.stepPart kind c contexts = .failed f q) :
    StandsAt text q f.character := by
  obtain ⟨-, -, he⟩ := stepPart_failed h
  obtain ⟨decoded, c', hp, ⟨-, hok⟩ | ⟨g, hfails, herr⟩⟩ := readText_spec kind c
  · rw [hok] at he
    cases he
  · obtain ⟨rfl, rfl⟩ : g = f ∧ c'.position = q := by simpa [herr] using he
    obtain ⟨taken, hr, hpos, -⟩ := hp.exists_taken
    obtain ⟨rest, hrest⟩ := List.head?_eq_some_iff.1 hfails.head?
    rw [hpos]
    exact hc.standsAt (hr.trans (congrArg (taken ++ ·) hrest))

theorem standsAt_of_stepArguments {text : List Char} {c : Cursor} {p : Position} {reference : Option Position}
    {outer : List Context} {f : ScanFault} {q : Position} (hc : Follows text c) (hp : StandsAt text p '(')
    (h : ScanState.stepArguments c p reference outer = .failed f q) : StandsAt text q f.character := by
  unfold ScanState.stepArguments at h
  split at h
  · rename_i hk
    cases h
    exact standsAt_of_skip hc hk
  · rename_i c' hk
    have hc' : Follows text c' := hc.skip hk
    split at h
    · cases h
      exact hp
    · rename_i x r hr
      split at h
      · cases h
      · split at h
        · cases h
        · split at h
          · cases h
          · split at h
            · rename_i hb
              split at h
              · cases h
              · cases h
                exact hc'.standsAt_head (hr.trans (bracketOpener?_eq_some_iff.1 hb))
            · exact standsAt_of_stepPart hc' h

/-- A fault is met at a character of the text: the one where a construct began, or the one that cannot be read. -/
theorem standsAt_of_step {text : List Char} {s : ScanState} {f : ScanFault} {q : Position}
    (hc : Follows text s.cursor) (hk : Keeps text s.contexts) (h : s.step = .failed f q) :
    StandsAt text q f.character := by
  obtain ⟨⟨cs, p⟩, contexts⟩ := s
  unfold ScanState.step at h
  cases contexts with
  | nil =>
    simp only [ScanState.stepTop] at h
    split at h
    · rename_i hskip
      cases h
      exact standsAt_of_skip hc hskip
    · split at h
      · cases h
      · split at h <;> cases h
  | cons d outer =>
    have hd := (keeps_cons.1 hk).1
    cases d with
    | command =>
      simp only [ScanState.stepCommand] at h
      split at h
      · rename_i hskip
        cases h
        exact standsAt_of_skip hc hskip
      · split at h <;> cases h
    | arguments q' reference =>
      have hparen : StandsAt text q' '(' := by
        cases reference <;> exact hd (q', '(') (by simp [places])
      exact standsAt_of_stepArguments hc hparen h
    | unquoted =>
      cases cs with
      | nil => cases h
      | cons x r =>
        simp only at h
        split at h
        · cases h
        · exact standsAt_of_stepPart hc h
    | quoted q' | «variable» q' =>
      cases cs with
      | nil =>
        cases h
        exact hd _ (List.mem_singleton.2 rfl)
      | cons x r =>
        simp only at h
        split at h
        · cases h
        · exact standsAt_of_stepPart hc h
    | closing q' =>
      cases cs with
      | nil =>
        cases h
        exact hd _ (List.mem_singleton.2 rfl)
      | cons x r =>
        simp only at h
        split at h
        · cases h
        · cases h
          exact hc.standsAt_head rfl

theorem standsAt_of_scan_state {text : List Char} (s : ScanState) (hc : Follows text s.cursor)
    (hk : Keeps text s.contexts) {f : ScanFault} {q : Position} (h : s.scan.fault = some (f, q)) :
    StandsAt text q f.character := by
  induction s using ScanState.scan.induct with
  | case1 s hs =>
    rw [ScanState.scan_finished hs] at h
    cases h
  | case2 s fault p hs =>
    rw [ScanState.scan_failed hs] at h
    cases h
    exact standsAt_of_step hc hk hs
  | case3 s ts next hs ih =>
    rw [ScanState.scan_moved hs] at h
    have hm := step_eq_moved_iff.1 hs
    exact ih (hm.follows hc) (hm.keeps hc hk) h

/-- The fault that cuts a scan off is reported at the character it is about. -/
theorem standsAt_of_scan {text : List Char} {f : ScanFault} {q : Position} (h : (scan text).fault = some (f, q)) :
    StandsAt text q f.character :=
  standsAt_of_scan_state ⟨⟨text, .start⟩, []⟩ ⟨[], rfl, rfl⟩ (by simp [Keeps]) h

end CommandScript.Scanning
