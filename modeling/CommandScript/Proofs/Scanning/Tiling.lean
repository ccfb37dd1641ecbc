import CommandScript.Proofs.Scanning.Places

/-! The tokens of a text tile it. Each is the decoded span of the text that it names, the spans follow one another, and
what lies between two of them is separation, where separation may stand at all. Where it may is said by the tokens
themselves: by the lists, quotes and references that they have opened and not closed. -/

namespace CommandScript.Scanning

open Text Syntax

/-! ### Enclosures -/

/-- What tokens open and close. -/
inductive Enclosure where
  | list | quotes | reference
  deriving DecidableEq

/-- How text directly inside an enclosure is read. -/
def Enclosure.kind : Enclosure → PartKind
  | list => .unquoted
  | quotes => .quoted
  | reference => .variable

/-- What is open behind a lexeme, innermost first. -/
def behind : List Enclosure → Lexeme → List Enclosure
  | es, .leftParen => .list :: es
  | .list :: es, .rightParen => es
  | .quotes :: es, .quote => es
  | es, .quote => .quotes :: es
  | es, .variableOpen _ => .reference :: es
  | es, .commandOpen => .reference :: es
  | .reference :: es, .referenceClose => es
  | es, _ => es

/-- What may lie in front of a token and behind the one before it: nothing at all directly inside quotes and references,
and separation elsewhere. -/
def IsGap (rest : List Char) : List Enclosure → List Char → Prop
  | .quotes :: _, gap | .reference :: _, gap => gap = []
  | _, gap => Separation rest gap

theorem isGap_nil (rest : List Char) (es : List Enclosure) : IsGap rest es [] := by
  unfold IsGap
  split
  · rfl
  · rfl
  · exact .nil

/-- The value of a lexeme is what its span of the text says. Outside all enclosures text is no argument, and is not
decoded. -/
def Spells (es : List Enclosure) (lexeme : Lexeme) (span : List Char) : Prop :=
  match lexeme with
  | .text value =>
    match es with
    | [] => value.toList = span
    | e :: _ => decode e.kind span = some value.toList
  | .bracket value => ∃ level content, ClosesFirst level content ∧
    span = bracketOpener level ++ content ++ bracketCloser level ∧
    value.toList = if content.head? = some '\n' then content.tail else content
  | .variableOpen space => span = '$' :: (space.label.toList ++ ['\x7b'])
  | .argumentEnd => span = []
  | lexeme => lexeme.value.toList = span

/-- Pieces that stand one behind another, and are spelled as they have to be. -/
inductive Spelled : List Enclosure → List Piece → List Enclosure → Prop where
  | nil (es : List Enclosure) : Spelled es [] es
  | cons {es es' : List Enclosure} {x : Piece} {ps : List Piece} (hx : Spells es x.lexeme x.written)
    (h : Spelled (behind es x.lexeme) ps es') : Spelled es (x :: ps) es'

theorem Spelled.single {es : List Enclosure} {lexeme : Lexeme} {span : List Char} (h : Spells es lexeme span) :
    Spelled es [⟨lexeme, span⟩] (behind es lexeme) :=
  .cons h (.nil _)

/-! ### Tilings -/

/-- The characters of a text between two places. -/
def between (text : List Char) (i j : Nat) : List Char := (text.drop i).take (j - i)

/-- Tokens follow one another in a text, from one place to another, and from what is open at the one to what is open at
the other. -/
inductive Tiles (text : List Char) : List Enclosure → Nat → List Token → List Enclosure → Nat → Prop where
  | nil (es : List Enclosure) (i : Nat) : Tiles text es i [] es i
  | cons {es es' : List Enclosure} {i j : Nat} {t : Token} {ts : List Token}
    (horder : i ≤ t.start.offset ∧ t.start.offset ≤ t.stop.offset) (hstart : Marks text t.start)
    (hstop : Marks text t.stop)
    (hgap : IsGap (text.drop t.start.offset) es (between text i t.start.offset))
    (hspan : Spells es t.lexeme (between text t.start.offset t.stop.offset))
    (h : Tiles text (behind es t.lexeme) t.stop.offset ts es' j) : Tiles text es i (t :: ts) es' j

theorem Tiles.trans {text : List Char} {es es' es'' : List Enclosure} {i j k : Nat} {ts us : List Token}
    (h : Tiles text es i ts es' j) (h' : Tiles text es' j us es'' k) : Tiles text es i (ts ++ us) es'' k := by
  induction h with
  | nil => exact h'
  | cons horder hstart hstop hgap hspan _ ih => exact .cons horder hstart hstop hgap hspan (ih h')

theorem between_append (before span rest : List Char) :
    between (before ++ span ++ rest) before.length (before ++ span).length = span := by
  rw [between, List.append_assoc, List.drop_left, List.length_append, Nat.add_sub_cancel_left, List.take_left]

/-- A token over a span of the text, with a gap in front of it. -/
theorem tiles_cons (before : List Char) {gap span rest : List Char} {es es' : List Enclosure} {lexeme : Lexeme}
    {ts : List Token} {j : Nat} (hgap : IsGap (span ++ rest) es gap) (hspan : Spells es lexeme span)
    (h : Tiles (before ++ gap ++ span ++ rest) (behind es lexeme) (before ++ gap ++ span).length ts es' j) :
    Tiles (before ++ gap ++ span ++ rest) es before.length
      (⟨lexeme, Position.start.after (before ++ gap), Position.start.after (before ++ gap ++ span)⟩ :: ts) es' j := by
  have hmarks : Marks (before ++ gap ++ span ++ rest) (Position.start.after (before ++ gap)) := by
    rw [List.append_assoc (before ++ gap)]
    exact marks_after _ _
  have hdrop : (before ++ gap ++ span ++ rest).drop (before ++ gap).length = span ++ rest := by
    rw [List.append_assoc (before ++ gap), List.drop_left]
  have hbetween : between (before ++ gap ++ span ++ rest) before.length (before ++ gap).length = gap := by
    rw [List.append_assoc (before ++ gap)]
    exact between_append before gap (span ++ rest)
  refine .cons ?_ hmarks (marks_after _ _) ?_ ?_ ?_
  · simp only [offset_after_start, List.length_append]
    omega
  · rwa [offset_after_start, hdrop, hbetween]
  · rwa [offset_after_start, offset_after_start, between_append]
  · rwa [offset_after_start]

/-- Pieces directly behind one another. -/
theorem tiles_of_spelled {es es' : List Enclosure} {ps : List Piece} (h : Spelled es ps es') (before rest : List Char) :
    Tiles (before ++ written ps ++ rest) es before.length (tokensFrom (Position.start.after before) ps) es'
      (before ++ written ps).length := by
  induction h generalizing before with
  | nil => rw [written_nil, List.append_nil]; exact .nil _ _
  | @cons es es' x ps hx h ih =>
    have htail : Tiles (before ++ [] ++ x.written ++ (written ps ++ rest)) (behind es x.lexeme)
        (before ++ [] ++ x.written).length (tokensFrom (Position.start.after (before ++ x.written)) ps) es'
        (before ++ x.written ++ written ps).length := by
      simpa using ih (before ++ x.written)
    have hcons := tiles_cons before (isGap_nil (x.written ++ (written ps ++ rest)) es) hx htail
    simpa [tokensFrom] using hcons

/-- Pieces directly behind one another, with a gap in front of the first. -/
theorem tiles_of_spelled_gap {es es' : List Enclosure} {ps : List Piece} (h : Spelled es ps es') (hps : ps ≠ [])
    (before : List Char) {gap rest : List Char} (hgap : IsGap (written ps ++ rest) es gap) :
    Tiles (before ++ gap ++ written ps ++ rest) es before.length (tokensFrom (Position.start.after (before ++ gap)) ps)
      es' (before ++ gap ++ written ps).length := by
  cases h with
  | nil => exact absurd rfl hps
  | @cons _ _ x ps hx h =>
    have htail : Tiles (before ++ gap ++ x.written ++ (written ps ++ rest)) (behind es x.lexeme)
        (before ++ gap ++ x.written).length (tokensFrom (Position.start.after (before ++ gap ++ x.written)) ps) es'
        (before ++ gap ++ x.written ++ written ps).length := by
      simpa using tiles_of_spelled h (before ++ gap ++ x.written) rest
    have hgap' : IsGap (x.written ++ (written ps ++ rest)) es gap := by simpa using hgap
    have hcons := tiles_cons before hgap' hx htail
    simpa [tokensFrom] using hcons

/-! ### Steps -/

/-- The tokens that open the constructs that are open, innermost first. -/
def enclosures : List Context → List Enclosure
  | [] => []
  | .command :: outer | .unquoted :: outer => enclosures outer
  | .arguments _ none :: outer => .list :: enclosures outer
  | .arguments _ (some _) :: outer => .list :: .reference :: enclosures outer
  | .quoted _ :: outer => .quotes :: enclosures outer
  | .variable _ :: outer | .closing _ :: outer => .reference :: enclosures outer

/-- A command stands outside of all, and an unquoted argument directly in a list of arguments. -/
def Nests : List Context → Prop
  | [] => True
  | .command :: outer => outer = []
  | .unquoted :: outer => (∃ p reference inner, outer = .arguments p reference :: inner) ∧ Nests outer
  | _ :: outer => Nests outer

/-- Text that is read in a run is decoded as the tokens around it say. -/
theorem kind_of_runKind? {d : Context} {outer : List Context} {kind : PartKind} (hn : Nests (d :: outer))
    (hd : runKind? d = some kind) : ∃ e es, enclosures (d :: outer) = e :: es ∧ e.kind = kind := by
  cases d with
  | unquoted =>
    cases hd
    obtain ⟨⟨p, reference, inner, rfl⟩, -⟩ := hn
    cases reference <;> exact ⟨.list, _, rfl, rfl⟩
  | quoted q =>
    cases hd
    exact ⟨.quotes, _, rfl, rfl⟩
  | «variable» q =>
    cases hd
    exact ⟨.reference, _, rfl, rfl⟩
  | _ => cases hd

theorem LexesPart.spelled {kind : PartKind} {p : Position} {contexts contexts' : List Context} {ps : List Piece}
    {rest : List Char} (h : LexesPart kind p contexts ps rest contexts') (hn : Nests contexts)
    (hk : ∃ e es, enclosures contexts = e :: es ∧ e.kind = kind) :
    Spelled (enclosures contexts) ps (enclosures contexts') ∧ Nests contexts' := by
  obtain ⟨e, es, he, rfl⟩ := hk
  cases h with
  | command h =>
    refine ⟨.cons ?_ (.cons ?_ (.single ?_)), hn⟩ <;> simp [Spells, Lexeme.value]
  | «variable» h => exact ⟨.single rfl, hn⟩
  | text ho hp hends =>
    rename_i span text
    obtain ⟨taken, hr, -, ht⟩ := hp.exists_taken
    obtain rfl : span = taken := List.append_cancel_right hr
    have hdecode : Spells (enclosures contexts) (.text (String.ofList text)) span := by
      rw [he]
      simpa [Spells] using ht
    exact ⟨.single hdecode, hn⟩

/-- What a step reads is spelled as the open constructs say, and they stay nested. -/
theorem Lexes.spelled {p : Position} {contexts contexts' : List Context} {ps : List Piece} {rest : List Char}
    (h : Lexes p contexts ps rest contexts') (hn : Nests contexts) :
    Spelled (enclosures contexts) ps (enclosures contexts') ∧ Nests contexts' := by
  cases h with
  | name h => exact ⟨.single (by simp [Spells, Lexeme.value]), rfl⟩
  | stray => exact ⟨.single (by simp [Spells, enclosures]), trivial⟩
  | opened => exact ⟨.single rfl, hn ▸ trivial⟩
  | forgotten => exact ⟨.nil _, hn ▸ trivial⟩
  | closed => exact ⟨.single rfl, hn⟩
  | called => exact ⟨.single rfl, hn⟩
  | group => exact ⟨.single rfl, hn⟩
  | quote =>
    rename_i q reference outer
    refine ⟨?_, hn⟩
    cases reference <;> exact .single rfl
  | bracket h =>
    rename_i q reference level content outer
    have hspell : Spells (enclosures (.arguments q reference :: outer))
        (.bracket (String.ofList (ScanState.bracketContent content)))
        (bracketOpener level ++ content ++ bracketCloser level) := by
      refine ⟨level, content, closesFirst_of_split h, rfl, ?_⟩
      rw [String.toList_ofList]
      unfold ScanState.bracketContent
      split
      · rfl
      · rename_i hne
        rw [if_neg]
        intro hn
        obtain ⟨r, hr⟩ := List.head?_eq_some_iff.1 hn
        exact hne r hr
    refine ⟨?_, hn⟩
    cases reference <;> exact .single hspell
  | argument hr hx hb h => exact h.spelled ⟨⟨_, _, _, rfl⟩, hn⟩ (kind_of_runKind? ⟨⟨_, _, _, rfl⟩, hn⟩ rfl)
  | argumentEnd =>
    rename_i outer
    obtain ⟨⟨q, reference, inner, rfl⟩, hn⟩ := hn
    refine ⟨?_, hn⟩
    cases reference <;> exact .single rfl
  | endQuote => exact ⟨.single rfl, hn⟩
  | endVariable => exact ⟨.single rfl, hn⟩
  | endCommand => exact ⟨.single rfl, hn⟩
  | part hd hr hx h => exact h.spelled hn (kind_of_runKind? hn hd)

/-- Separation is passed only where the tokens let it stand. -/
theorem Parted.gap {contexts : List Context} {c c' : Cursor} (h : Parted contexts c c') (hn : Nests contexts) :
    ∃ gap, c.rest = gap ++ c'.rest ∧ c'.position = c.position.after gap ∧ IsGap c'.rest (enclosures contexts) gap := by
  unfold Parted at h
  split at h
  · rename_i hsep
    obtain ⟨gap, hr, hp, hs⟩ := separation_of_skip h
    refine ⟨gap, hr, hp, ?_⟩
    match contexts, hsep, hn with
    | [], _, _ => exact hs
    | [.command], _, _ => exact hs
    | .arguments _ none :: _, _, _ => exact hs
    | .arguments _ (some _) :: _, _, _ => exact hs
  · exact ⟨[], by simp [h], by simp [h], isGap_nil _ _⟩

/-! ### Scans -/

/-- All tokens up to a place of the text have been read. Behind a name that begins no invocation, so has separation. -/
structure Scanned (text : List Char) (i : Nat) (s : ScanState) : Prop where
  nests : Nests s.contexts
  split : ∃ before gap, text = before ++ gap ++ s.cursor.rest ∧ i = before.length ∧
    s.cursor.position = Position.start.after (before ++ gap) ∧ Separation s.cursor.rest gap ∧
    (gap ≠ [] → s.contexts = [])

theorem Lexes.eq_command_of_nil {p : Position} {contexts contexts' : List Context} {rest : List Char}
    (h : Lexes p contexts [] rest contexts') : contexts = .command :: contexts' := by
  cases h with
  | forgotten => rfl
  | argument hr hx hb h => cases h
  | part hd hr hx h => cases h

theorem Scanned.moves {text : List Char} {i : Nat} {s next : ScanState} {ts : List Token} (h : Scanned text i s)
    (hm : Moves s ts next) :
    ∃ j, Tiles text (enclosures s.contexts) i ts (enclosures next.contexts) j ∧ Scanned text j next := by
  obtain ⟨before, gap₁, htext, rfl, hpos, hsep₁, hpending⟩ := h.split
  obtain ⟨p, ps, hparted, hnext, rfl, hl⟩ := hm
  obtain ⟨gap₂, hrest, hp, hgap₂⟩ := hparted.gap h.nests
  obtain ⟨hspelled, hnests⟩ := hl.spelled h.nests
  simp only at hrest hp hgap₂
  have hp' : p = Position.start.after (before ++ (gap₁ ++ gap₂)) := by
    rw [hp, hpos, ← Position.after_append, List.append_assoc]
  have htext' : text = before ++ (gap₁ ++ gap₂) ++ written ps ++ next.cursor.rest := by
    rw [htext, hrest]
    simp only [List.append_assoc]
  -- separation that was passed earlier belongs to the gap in front of the next token
  have hgap : IsGap (written ps ++ next.cursor.rest) (enclosures s.contexts) (gap₁ ++ gap₂) := by
    by_cases hg : gap₁ = []
    · rwa [hg, List.nil_append]
    · rw [hpending hg] at hgap₂ ⊢
      rw [hrest] at hsep₁
      exact hsep₁.append hgap₂
  by_cases hps : ps = []
  · subst hps
    have hcommand := hl.eq_command_of_nil
    have houter : next.contexts = [] := by
      have := h.nests
      rw [hcommand] at this
      exact this
    refine ⟨before.length, ?_, hnests, before, gap₁ ++ gap₂, ?_, rfl, ?_, ?_, fun _ => houter⟩
    · rw [hcommand]
      exact .nil _ _
    · simpa using htext'
    · rw [hnext, hp']
      rfl
    · rw [hcommand, houter] at hgap
      exact hgap
  · refine ⟨(before ++ (gap₁ ++ gap₂) ++ written ps).length, ?_, hnests,
      before ++ (gap₁ ++ gap₂) ++ written ps, [], ?_, rfl, ?_, .nil, fun hne => absurd rfl hne⟩
    · rw [htext', hp']
      exact tiles_of_spelled_gap hspelled hps before hgap
    · rw [List.append_nil]
      exact htext'
    · rw [hnext, hp', ← Position.after_append, List.append_nil]

theorem tiles_scan_state {text : List Char} (s : ScanState) {i : Nat} (h : Scanned text i s) :
    ∃ es j, Tiles text (enclosures s.contexts) i s.scan.tokens es j ∧
      (s.scan.fault = none → es = [] ∧ Separation [] (text.drop j)) := by
  induction s using ScanState.scan.induct generalizing i with
  | case1 s hs =>
    obtain ⟨hc, p, hskip⟩ := step_eq_finished_iff.1 hs
    obtain ⟨before, gap, htext, rfl, -, hgap, -⟩ := h.split
    obtain ⟨more, hr, -, hmore⟩ := separation_of_skip hskip
    rw [ScanState.scan_finished hs]
    refine ⟨enclosures s.contexts, before.length, .nil _ _, fun _ => ⟨by rw [hc]; rfl, ?_⟩⟩
    rw [htext, List.append_assoc, List.drop_left, hr, List.append_nil]
    rw [hr] at hgap
    exact hgap.append hmore
  | case2 s fault p hs =>
    rw [ScanState.scan_failed hs]
    refine ⟨_, _, .nil _ _, fun hnone => ?_⟩
    cases hnone
  | case3 s ts next hs ih =>
    obtain ⟨j, htiles, hnext⟩ := h.moves (step_eq_moved_iff.1 hs)
    obtain ⟨es, k, hrest, hend⟩ := ih hnext
    rw [ScanState.scan_moved hs]
    exact ⟨es, k, htiles.trans hrest, hend⟩

/-- The tokens of a text tile it from its start. If the scan is complete, nothing is open at the end, and behind the
last token there is only separation. If it was cut off, the place that is reported is in the text. -/
theorem tiles_scan (text : List Char) :
    ∃ es stop, Tiles text [] 0 (scan text).tokens es stop ∧
      ((scan text).fault = none → es = [] ∧ Separation [] (text.drop stop)) ∧
      ∀ fault p, (scan text).fault = some (fault, p) → Marks text p := by
  have hstart : Scanned text 0 ⟨⟨text, .start⟩, []⟩ :=
    ⟨trivial, [], [], rfl, rfl, rfl, .nil, fun _ => rfl⟩
  obtain ⟨es, stop, htiles, hend⟩ := tiles_scan_state _ hstart
  exact ⟨es, stop, htiles, hend, fun fault p h => (standsAt_of_scan h).marks⟩

end CommandScript.Scanning
