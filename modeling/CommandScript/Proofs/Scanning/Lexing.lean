import CommandScript.Proofs.Scanning.Completion

/-! What one step of the scanner can read. Separation is passed where it may stand, then a few lexemes are read one
behind another, and how they are written decides together with the open constructs what is open behind them. All that a
step does with positions is to count the characters of what it reads. -/

namespace CommandScript.Scanning

open Text Syntax

/-! ### Pieces -/

/-- A lexeme with the characters it was read from. -/
structure Piece where
  lexeme : Lexeme
  written : List Char

/-- The characters of pieces that stand one behind another. -/
def written (ps : List Piece) : List Char := ps.flatMap Piece.written

@[simp] theorem written_nil : written [] = [] := rfl

@[simp] theorem written_cons (x : Piece) (ps : List Piece) : written (x :: ps) = x.written ++ written ps := rfl

/-- The tokens of pieces that stand one behind another. -/
def tokensFrom (p : Position) : List Piece → List Token
  | [] => []
  | x :: ps => ⟨x.lexeme, p, p.after x.written⟩ :: tokensFrom (p.after x.written) ps

/-! ### Separation -/

/-- The closer of a bracket behind this content is the first one that can be read there. -/
def ClosesFirst (level : Nat) (content : List Char) : Prop :=
  ¬ bracketCloser level <:+: content ++ (bracketCloser level).dropLast

/-- Blanks and complete comments, in front of the rest of a text. A comment is complete at the end of its line, which
may be the end of the text, or behind its bracket. -/
inductive Separation (behind : List Char) : List Char → Prop where
  | nil : Separation behind []
  | blank {x : Char} {cs : List Char} (hx : x = ' ' ∨ x = '\t' ∨ x = '\r' ∨ x = '\n') (h : Separation behind cs) :
    Separation behind (x :: cs)
  | line {comment cs : List Char} (hn : '\n' ∉ comment) (hb : bracketOpener? comment = none)
    (he : ∀ x ∈ (cs ++ behind).head?, x = '\n') (h : Separation behind cs) : Separation behind ('#' :: (comment ++ cs))
  | bracket {level : Nat} {content cs : List Char} (hc : ClosesFirst level content) (h : Separation behind cs) :
    Separation behind ('#' :: (bracketOpener level ++ content ++ bracketCloser level ++ cs))

theorem Separation.append {behind cs ds : List Char} (h : Separation (ds ++ behind) cs) (hd : Separation behind ds) :
    Separation behind (cs ++ ds) := by
  induction h with
  | nil => exact hd
  | blank hx h ih => exact .blank hx ih
  | @line comment cs hn hb he h ih =>
    rw [List.cons_append, List.append_assoc]
    refine .line hn hb ?_ ih
    rwa [List.append_assoc]
  | @bracket level content cs hc h ih =>
    rw [List.cons_append, List.append_assoc]
    exact .bracket hc ih

theorem closesFirst_of_split {level : Nat} : ∀ {cs before rest : List Char},
    splitAtFirst (bracketCloser level) cs = some (before, rest) → ClosesFirst level before
  | [], before, rest, h => by simp [splitAtFirst, bracketCloser] at h
  | c :: cs, before, rest, h => by
    have hlong : ¬ bracketCloser level <:+: (bracketCloser level).dropLast := by
      intro hi
      have hlength := hi.length_le
      have hpos : 0 < (bracketCloser level).length := by simp [bracketCloser]
      rw [List.length_dropLast] at hlength
      omega
    rw [splitAtFirst] at h
    split at h
    · cases h
      exact hlong
    · rename_i hpre
      obtain ⟨⟨b, r⟩, hb, heq⟩ := Option.map_eq_some_iff.1 h
      cases heq
      have hcs := splitAtFirst_eq_append hb
      have hlater := closesFirst_of_split hb
      intro hi
      rw [List.cons_append, List.infix_cons_iff] at hi
      rcases hi with hi | hi
      · -- a closer at the front would have been found there
        apply hpre
        rw [List.isPrefixOf_iff_prefix]
        refine hi.trans ?_
        rw [hcs, List.append_assoc, ← List.cons_append, ← List.cons_append]
        exact (List.prefix_append_right_inj _).2 ((List.dropLast_prefix _).trans (List.prefix_append _ _))
      · exact hlater hi

/-- What is passed over is separation. -/
theorem Skips.separation {c c' : Cursor} (h : Skips c c') : ∃ gap, c.rest = gap ++ c'.rest ∧
    c'.position = c.position.after gap ∧ Separation c'.rest gap := by
  induction h with
  | refl c => exact ⟨[], rfl, rfl, .nil⟩
  | @blank x r p c hx h ih =>
    obtain ⟨gap, hr, hp, hs⟩ := ih
    refine ⟨x :: gap, by simpa using hr, hp, .blank ?_ hs⟩
    simpa [isBlank, or_assoc] using hx
  | @line r p c hb h ih =>
    obtain ⟨gap, hr, hp, hs⟩ := ih
    have hsplit : r = r.takeWhile (· ≠ '\n') ++ (gap ++ c.rest) := by rw [← hr, List.takeWhile_append_dropWhile]
    refine ⟨'#' :: (r.takeWhile (· ≠ '\n') ++ gap), ?_, by simpa using hp, .line ?_ ?_ ?_ hs⟩
    · rw [List.cons_append, List.append_assoc, ← hsplit]
    · intro hn
      have := List.all_eq_true.1 List.all_takeWhile _ hn
      simp at this
    · cases hb' : bracketOpener? (r.takeWhile (· ≠ '\n')) with
      | none => rfl
      | some b =>
        -- an opener in the comment is one at the head of the text
        obtain ⟨level, body⟩ := b
        rw [hsplit, bracketOpener?_eq_some_iff.1 hb', List.append_assoc] at hb
        rw [bracketOpener?_eq_some_iff.2 rfl] at hb
        cases hb
    · intro x hx
      have := List.head?_dropWhile_not (· ≠ '\n') r
      simp only at hr
      rw [hr, hx] at this
      simpa using this
  | @bracket r body content rest level p c hb hs h ih =>
    obtain ⟨gap, hr, hp, hsep⟩ := ih
    refine ⟨'#' :: (bracketOpener level ++ content ++ bracketCloser level ++ gap), ?_, by simpa using hp,
      .bracket (closesFirst_of_split hs) hsep⟩
    simp only at hr
    rw [bracketOpener?_eq_some_iff.1 hb, splitAtFirst_eq_append hs, hr]
    simp only [List.cons_append, List.append_assoc]

theorem separation_of_skip {c c' : Cursor} (h : skipSeparation c = .ok c') : ∃ gap, c.rest = gap ++ c'.rest ∧
    c'.position = c.position.after gap ∧ Separation c'.rest gap := by
  rcases skip_spec c with ⟨d, hd, hs, -⟩ | ⟨level, r, body, p, he, -⟩
  · obtain rfl : d = c' := by simpa [hd] using h
    exact hs.separation
  · rw [he] at h
    cases h

/-! ### Parts -/

/-- The text that a run of characters stands for, if no backslash in it is followed by nothing or by a character that
it cannot be followed by. -/
def decode (kind : PartKind) : List Char → Option (List Char)
  | [] => some []
  | ['\\'] => none
  | '\\' :: x :: cs => do
    let decoded ← decodeEscape kind x
    let text ← decode kind cs
    some (decoded ++ text)
  | x :: cs => (decode kind cs).map (x :: ·)

theorem decode_plain {kind : PartKind} {x : Char} (hx : x ≠ '\\') (cs : List Char) :
    decode kind (x :: cs) = (decode kind cs).map (x :: ·) := by
  rw [decode]
  · rintro rfl
    exact absurd rfl hx
  · rintro y ys rfl
    exact absurd rfl hx

theorem Passes.exists_taken {kind : PartKind} {c c' : Cursor} {text : List Char} (h : Passes kind c text c') :
    ∃ taken, c.rest = taken ++ c'.rest ∧ c'.position = c.position.after taken ∧ decode kind taken = some text := by
  induction h with
  | refl c => exact ⟨[], rfl, rfl, rfl⟩
  | @escape x r decoded text p c hd h ih =>
    obtain ⟨taken, hr, hp, ht⟩ := ih
    exact ⟨'\\' :: x :: taken, by simpa using hr, hp, by simp [decode, hd, ht]⟩
  | @plain x r text p c hx ho h ih =>
    obtain ⟨taken, hr, hp, ht⟩ := ih
    have hne : x ≠ '\\' := by
      rintro rfl
      revert hx
      simp [isPlain]
    exact ⟨x :: taken, by simpa using hr, hp, by simp [decode_plain hne, ht]⟩

/-- The next part of a run, in front of the rest of the text. -/
inductive LexesPart (kind : PartKind) (p : Position) (contexts : List Context) :
    List Piece → List Char → List Context → Prop where
  | command {name rest : List Char} (h : identifier? (name ++ '(' :: rest) = some (name, '(' :: rest)) :
    LexesPart kind p contexts [⟨.commandOpen, ['$', '\x7b']⟩, ⟨.name (String.ofList name), name⟩, ⟨.leftParen, ['(']⟩]
      rest (.arguments ((p.after ['$', '\x7b']).after name) (some p) :: contexts)
  | variable {space : Namespace} {rest : List Char} (h : commandOpener? (variableOpener space ++ rest) = none) :
    LexesPart kind p contexts [⟨.variableOpen space, variableOpener space⟩] rest (.variable p :: contexts)
  | text {taken text rest : List Char} (ho : opensReference (taken ++ rest) = false)
    (hp : Passes kind ⟨taken ++ rest, p⟩ text ⟨rest, p.after taken⟩) (he : RunEnds kind rest) :
    LexesPart kind p contexts [⟨.text (String.ofList text), taken⟩] rest contexts

theorem exists_lexesPart {kind : PartKind} {c : Cursor} {contexts : List Context} {ts : List Token} {next : ScanState}
    (h : ScanState.stepPart kind c contexts = .moved ts next) : ∃ ps, c.rest = written ps ++ next.cursor.rest ∧
      next.cursor.position = c.position.after (written ps) ∧ ts = tokensFrom c.position ps ∧
      LexesPart kind c.position contexts ps next.cursor.rest next.contexts := by
  unfold ScanState.stepPart at h
  split at h
  · rename_i name rest hc
    obtain ⟨r, hr, hi, hp⟩ := commandOpener?_eq_some_iff.1 hc
    obtain ⟨rest, rfl⟩ := List.head?_eq_some_iff.1 hp
    have hname : r = name ++ '(' :: rest := (identifier?_eq_append hi).1
    cases h
    refine ⟨[⟨.commandOpen, ['$', '\x7b']⟩, ⟨.name (String.ofList name), name⟩, ⟨.leftParen, ['(']⟩], ?_, ?_, rfl, ?_⟩
    · simp [hr, hname]
    · simp
    · exact .command (hname ▸ hi)
  · rename_i hc
    split at h
    · rename_i space rest hv
      have hr : c.rest = variableOpener space ++ rest := variableOpener?_eq_some_iff.1 hv
      cases h
      refine ⟨[⟨.variableOpen space, variableOpener space⟩], ?_, ?_, rfl, ?_⟩
      · simpa [Cursor.pass] using hr
      · simp [Cursor.pass, variableOpener]
      · exact .variable (hr ▸ hc)
    · rename_i hv
      split at h
      · rename_i text behind ht
        cases h
        obtain ⟨text', c', hp, ⟨he, hok⟩ | ⟨f, -, herr⟩⟩ := readText_spec kind c
        · obtain ⟨rfl, rfl⟩ : text' = text ∧ c' = behind := by simpa [hok] using ht
          obtain ⟨taken, hr, hpos, -⟩ := hp.exists_taken
          have ho : opensReference c.rest = false := by simp [opensReference, hc, hv]
          obtain ⟨cs, p⟩ := c
          obtain ⟨cs', p'⟩ := c'
          obtain rfl : cs = taken ++ cs' := hr
          obtain rfl : p' = p.after taken := hpos
          exact ⟨[⟨.text (String.ofList text'), taken⟩], by simp, by simp, rfl, .text ho hp he⟩
        · rw [herr] at ht
          cases ht
      · cases h

theorem LexesPart.step_eq {kind : PartKind} {p : Position} {contexts contexts' : List Context} {ps : List Piece}
    {rest : List Char} (h : LexesPart kind p contexts ps rest contexts') :
    ScanState.stepPart kind ⟨written ps ++ rest, p⟩ contexts =
      .moved (tokensFrom p ps) ⟨⟨rest, p.after (written ps)⟩, contexts'⟩ := by
  unfold ScanState.stepPart
  cases h with
  | command h =>
    rename_i name
    have hc : commandOpener? ('$' :: '\x7b' :: (name ++ '(' :: rest)) = some (name, '(' :: rest) :=
      commandOpener?_eq_some_iff.2 ⟨_, rfl, h, rfl⟩
    simp [hc, tokensFrom]
  | «variable» h =>
    rename_i space
    have hv : variableOpener? (variableOpener space ++ rest) = some (space, rest) := variableOpener?_eq_some_iff.2 rfl
    simp only [written_cons, written_nil, List.append_nil, h, hv]
    rfl
  | text ho hp he =>
    rename_i taken text
    have hc : commandOpener? (taken ++ rest) = none ∧ variableOpener? (taken ++ rest) = none := by
      simpa [opensReference] using ho
    have hread : readText kind p (taken ++ rest) = .ok (text, ⟨rest, p.after taken⟩) := by
      have := hp.readText_eq
      simp only [readText_of_ends he] at this
      rw [this]
      simp [Except.map]
    simp only [written_cons, written_nil, List.append_nil, hc.1, hc.2, hread]
    rfl

/-! ### Steps -/

/-- Between two cursors lies all the separation that may stand there. -/
def Parted (contexts : List Context) (c c' : Cursor) : Prop :=
  if separates contexts then skipSeparation c = .ok c' else c' = c

/-- The run of text that a construct is read as. -/
def runKind? : Context → Option PartKind
  | .unquoted => some .unquoted
  | .quoted _ => some .quoted
  | .variable _ => some .variable
  | _ => none

/-- What is read from a place on, in front of the rest of the text, and what is open before and behind. -/
inductive Lexes (p : Position) : List Context → List Piece → List Char → List Context → Prop where
  | name {name rest : List Char} (h : identifier? (name ++ rest) = some (name, rest)) :
    Lexes p [] [⟨.name (String.ofList name), name⟩] rest [.command]
  | stray {taken rest : List Char} (hne : taken ≠ []) (hi : identifier? (taken ++ rest) = none)
    (ht : ∀ x ∈ taken, isBlank x = false ∧ x ≠ '#') (hr : ∀ x ∈ rest.head?, isBlank x ∨ x = '#') :
    Lexes p [] [⟨.text (String.ofList taken), taken⟩] rest []
  | opened {rest : List Char} {outer : List Context} :
    Lexes p (.command :: outer) [⟨.leftParen, ['(']⟩] rest (.arguments p none :: outer)
  | forgotten {rest : List Char} {outer : List Context} (h : rest.head? ≠ some '(') :
    Lexes p (.command :: outer) [] rest outer
  | closed {q : Position} {rest : List Char} {outer : List Context} :
    Lexes p (.arguments q none :: outer) [⟨.rightParen, [')']⟩] rest outer
  | called {q q' : Position} {rest : List Char} {outer : List Context} :
    Lexes p (.arguments q (some q') :: outer) [⟨.rightParen, [')']⟩] rest (.closing q' :: outer)
  | group {q : Position} {reference : Option Position} {rest : List Char} {outer : List Context} :
    Lexes p (.arguments q reference :: outer) [⟨.leftParen, ['(']⟩] rest
      (.arguments p none :: .arguments q reference :: outer)
  | quote {q : Position} {reference : Option Position} {rest : List Char} {outer : List Context} :
    Lexes p (.arguments q reference :: outer) [⟨.quote, ['"']⟩] rest (.quoted p :: .arguments q reference :: outer)
  | bracket {q : Position} {reference : Option Position} {level : Nat} {content rest : List Char}
    {outer : List Context}
    (h : splitAtFirst (bracketCloser level) (content ++ bracketCloser level ++ rest) = some (content, rest)) :
    Lexes p (.arguments q reference :: outer)
      [⟨.bracket (String.ofList (ScanState.bracketContent content)),
        bracketOpener level ++ content ++ bracketCloser level⟩] rest (.arguments q reference :: outer)
  | argument {q : Position} {reference : Option Position} {ps : List Piece} {x : Char} {r rest : List Char}
    {outer contexts : List Context} (hr : written ps ++ rest = x :: r) (hx : x ≠ ')' ∧ x ≠ '(' ∧ x ≠ '"')
    (hb : bracketOpener? (x :: r) = none)
    (h : LexesPart .unquoted p (.unquoted :: .arguments q reference :: outer) ps rest contexts) :
    Lexes p (.arguments q reference :: outer) ps rest contexts
  | argumentEnd {rest : List Char} {outer : List Context} (h : ∀ x ∈ rest.head?, PartKind.unquoted.endsAt x) :
    Lexes p (.unquoted :: outer) [⟨.argumentEnd, []⟩] rest outer
  | endQuote {q : Position} {rest : List Char} {outer : List Context} :
    Lexes p (.quoted q :: outer) [⟨.quote, ['"']⟩] rest outer
  | endVariable {q : Position} {rest : List Char} {outer : List Context} :
    Lexes p (.variable q :: outer) [⟨.referenceClose, ['\x7d']⟩] rest outer
  | endCommand {q : Position} {rest : List Char} {outer : List Context} :
    Lexes p (.closing q :: outer) [⟨.referenceClose, ['\x7d']⟩] rest outer
  | part {d : Context} {kind : PartKind} {ps : List Piece} {x : Char} {r rest : List Char}
    {outer contexts : List Context} (hd : runKind? d = some kind) (hr : written ps ++ rest = x :: r)
    (hx : kind.endsAt x = false) (h : LexesPart kind p (d :: outer) ps rest contexts) :
    Lexes p (d :: outer) ps rest contexts

/-- A step that reads what stands behind the separation it passes. -/
def Moves (s : ScanState) (ts : List Token) (next : ScanState) : Prop :=
  ∃ p ps, Parted s.contexts s.cursor ⟨written ps ++ next.cursor.rest, p⟩ ∧
    next.cursor.position = p.after (written ps) ∧ ts = tokensFrom p ps ∧
    Lexes p s.contexts ps next.cursor.rest next.contexts

theorem stands_of_skip {c c' : Cursor} (h : skipSeparation c = .ok c') : Stands c' := by
  intro x hx
  obtain ⟨r, hr⟩ := List.head?_eq_some_iff.1 hx
  exact (skipSeparation_ok c c' h).2 x r hr

theorem moves_of_stepTop {c : Cursor} {ts : List Token} {next : ScanState}
    (h : ScanState.stepTop c = .moved ts next) : Moves ⟨c, []⟩ ts next := by
  unfold ScanState.stepTop at h
  split at h
  · cases h
  · rename_i c' hk
    have hstands := stands_of_skip hk
    obtain ⟨cs, p⟩ := c'
    split at h
    · cases h
    · rename_i x r hr
      cases hr
      split at h
      · rename_i name rest hi
        obtain ⟨heq, -⟩ := identifier?_eq_append hi
        cases h
        refine ⟨p, [⟨.name (String.ofList name), name⟩], ?_, by simp [Cursor.pass], rfl, .name (heq ▸ hi)⟩
        simpa [Parted, separates, Cursor.pass, ← heq] using hk
      · rename_i hi
        cases h
        have hsplit : x :: r.takeWhile (fun c => !isBlank c && decide (c ≠ '#')) ++
            r.dropWhile (fun c => !isBlank c && decide (c ≠ '#')) = x :: r := by simp
        refine ⟨p, [⟨.text (String.ofList (x :: r.takeWhile fun c => !isBlank c && decide (c ≠ '#'))),
          x :: r.takeWhile fun c => !isBlank c && decide (c ≠ '#')⟩], ?_, by simp [Cursor.pass], rfl, ?_⟩
        · simpa [Parted, separates, Cursor.pass] using hk
        · refine .stray (by simp) (hsplit ▸ hi) ?_ ?_
          · intro y hy
            rcases List.mem_cons.1 hy with rfl | hy
            · exact hstands y rfl
            · simpa using List.all_eq_true.1 List.all_takeWhile y hy
          · intro y hy
            have hend := List.head?_dropWhile_not (fun c => !isBlank c && decide (c ≠ '#')) r
            simp only [Cursor.pass] at hy
            rw [hy] at hend
            cases hb : isBlank y with
            | true => exact .inl rfl
            | false => exact .inr (by simpa [hb] using hend)

theorem moves_of_stepCommand {c : Cursor} {outer : List Context} {ts : List Token} {next : ScanState}
    (h : ScanState.stepCommand c outer = .moved ts next) : Moves ⟨c, .command :: outer⟩ ts next := by
  unfold ScanState.stepCommand at h
  split at h
  · cases h
  · rename_i c' hk
    obtain ⟨cs, p⟩ := c'
    split at h
    · rename_i rest hr
      cases hr
      cases h
      exact ⟨p, [⟨.leftParen, ['(']⟩], by simpa [Parted, separates, Cursor.pass] using hk, rfl, rfl, .opened⟩
    · rename_i hne
      cases h
      refine ⟨p, [], by simpa [Parted, separates] using hk, rfl, rfl, .forgotten ?_⟩
      intro hp
      obtain ⟨r, hr⟩ := List.head?_eq_some_iff.1 hp
      exact hne r hr

theorem moves_of_stepArguments {c : Cursor} {q : Position} {reference : Option Position} {outer : List Context}
    {ts : List Token} {next : ScanState} (h : ScanState.stepArguments c q reference outer = .moved ts next) :
    Moves ⟨c, .arguments q reference :: outer⟩ ts next := by
  unfold ScanState.stepArguments at h
  split at h
  · cases h
  · rename_i c' hk
    obtain ⟨cs, p⟩ := c'
    split at h
    · cases h
    · rename_i x r hr
      cases hr
      split at h
      · rename_i hx
        subst hx
        cases h
        cases reference with
        | none =>
          exact ⟨p, [⟨.rightParen, [')']⟩], by simpa [Parted, separates, Cursor.pass] using hk, rfl, rfl, .closed⟩
        | some q' =>
          exact ⟨p, [⟨.rightParen, [')']⟩], by simpa [Parted, separates, Cursor.pass] using hk, rfl, rfl, .called⟩
      · rename_i hx
        split at h
        · rename_i hx'
          subst hx'
          cases h
          exact ⟨p, [⟨.leftParen, ['(']⟩], by simpa [Parted, separates, Cursor.pass] using hk, rfl, rfl, .group⟩
        · rename_i hx'
          split at h
          · rename_i hx''
            subst hx''
            cases h
            exact ⟨p, [⟨.quote, ['"']⟩], by simpa [Parted, separates, Cursor.pass] using hk, rfl, rfl, .quote⟩
          · rename_i hx''
            split at h
            · rename_i level body hb
              split at h
              · rename_i content rest hs
                have hbody := splitAtFirst_eq_append hs
                have hcs := bracketOpener?_eq_some_iff.1 hb
                cases h
                refine ⟨p, [⟨.bracket (String.ofList (ScanState.bracketContent content)),
                  bracketOpener level ++ content ++ bracketCloser level⟩], ?_, by simp [Cursor.pass], rfl,
                  .bracket (hbody ▸ hs)⟩
                simpa [Parted, separates, Cursor.pass, hcs, hbody] using hk
              · cases h
            · rename_i hb
              obtain ⟨ps, hr, hp, ht, hl⟩ := exists_lexesPart h
              refine ⟨p, ps, ?_, hp, ht, .argument hr.symm ⟨hx, hx', hx''⟩ hb hl⟩
              simpa [Parted, separates, ← hr] using hk

theorem moves_of_step {s next : ScanState} {ts : List Token} (h : s.step = .moved ts next) : Moves s ts next := by
  obtain ⟨⟨cs, p⟩, contexts⟩ := s
  have hpart {d : Context} {kind : PartKind} {outer : List Context} {x : Char} {r : List Char} (hcs : cs = x :: r)
      (hd : runKind? d = some kind) (hx : kind.endsAt x = false) (hsep : separates (d :: outer) = false)
      (h : ScanState.stepPart kind ⟨cs, p⟩ (d :: outer) = .moved ts next) : Moves ⟨⟨cs, p⟩, d :: outer⟩ ts next := by
    obtain ⟨ps, hr, hp, ht, hl⟩ := exists_lexesPart h
    refine ⟨p, ps, ?_, hp, ht, .part hd (hr.symm.trans hcs) hx hl⟩
    simp [Parted, hsep, ← hr]
  unfold ScanState.step at h
  cases contexts with
  | nil => exact moves_of_stepTop h
  | cons d outer =>
    cases d with
    | command => exact moves_of_stepCommand h
    | arguments q reference => exact moves_of_stepArguments h
    | unquoted =>
      cases cs with
      | nil =>
        cases h
        exact ⟨p, [⟨.argumentEnd, []⟩], rfl, rfl, rfl, .argumentEnd (by simp [Cursor.pass])⟩
      | cons x r =>
        simp only at h
        split at h
        · rename_i hx
          cases h
          exact ⟨p, [⟨.argumentEnd, []⟩], rfl, rfl, rfl, .argumentEnd (by simpa [Cursor.pass] using hx)⟩
        · rename_i hx
          exact hpart rfl rfl (by simpa using hx) rfl h
    | quoted q =>
      cases cs with
      | nil => cases h
      | cons x r =>
        simp only at h
        split at h
        · rename_i hx
          subst hx
          cases h
          exact ⟨p, [⟨.quote, ['"']⟩], rfl, rfl, rfl, .endQuote⟩
        · rename_i hx
          exact hpart rfl rfl (by simpa [PartKind.endsAt] using hx) rfl h
    | «variable» q =>
      cases cs with
      | nil => cases h
      | cons x r =>
        simp only at h
        split at h
        · rename_i hx
          subst hx
          cases h
          exact ⟨p, [⟨.referenceClose, ['\x7d']⟩], rfl, rfl, rfl, .endVariable⟩
        · rename_i hx
          exact hpart rfl rfl (by simpa [PartKind.endsAt] using hx) rfl h
    | closing q =>
      cases cs with
      | nil => cases h
      | cons x r =>
        simp only at h
        split at h
        · rename_i hx
          subst hx
          cases h
          exact ⟨p, [⟨.referenceClose, ['\x7d']⟩], rfl, rfl, rfl, .endCommand⟩
        · cases h

/-! ### Steps that are possible -/

theorem skip_of_parted {contexts : List Context} {c c' : Cursor} (hs : separates contexts) (h : Parted contexts c c') :
    skipSeparation c = .ok c' := by
  rwa [Parted, if_pos hs] at h

theorem Lexes.stepTop_eq {p : Position} {ps : List Piece} {rest : List Char} {contexts : List Context}
    (h : Lexes p [] ps rest contexts) {c : Cursor} (hc : Parted [] c ⟨written ps ++ rest, p⟩) :
    ScanState.stepTop c = .moved (tokensFrom p ps) ⟨⟨rest, p.after (written ps)⟩, contexts⟩ := by
  have hskip := skip_of_parted rfl hc
  unfold ScanState.stepTop
  rw [hskip]
  cases h with
  | name h =>
    rename_i name
    have hlen := length_of_identifier? h
    cases name with
    | nil =>
      rw [List.nil_append] at hlen
      omega
    | cons x name =>
      simp only [written_cons, written_nil, List.append_nil, List.cons_append] at h ⊢
      simp only [h]
      rfl
  | stray hne hi ht hr =>
    rename_i taken
    cases taken with
    | nil => exact absurd rfl hne
    | cons x taken =>
      have ht' : ∀ y ∈ taken, (!isBlank y && decide (y ≠ '#')) = true := by
        intro y hy
        simpa using ht y (List.mem_cons_of_mem x hy)
      have hr' : ∀ y ∈ rest.head?, (!isBlank y && decide (y ≠ '#')) = false := by
        intro y hy
        rcases hr y hy with hb | rfl
        · simp [hb]
        · rfl
      obtain ⟨htake, hdrop⟩ := span_eq ht' hr'
      simp only [written_cons, written_nil, List.append_nil, List.cons_append] at hi ⊢
      simp only [hi, htake, hdrop]
      rfl

theorem Lexes.stepCommand_eq {p : Position} {outer contexts : List Context} {ps : List Piece} {rest : List Char}
    (h : Lexes p (.command :: outer) ps rest contexts) {c : Cursor}
    (hc : Parted (.command :: outer) c ⟨written ps ++ rest, p⟩) :
    ScanState.stepCommand c outer = .moved (tokensFrom p ps) ⟨⟨rest, p.after (written ps)⟩, contexts⟩ := by
  have hskip := skip_of_parted rfl hc
  unfold ScanState.stepCommand
  rw [hskip]
  cases h with
  | opened => rfl
  | forgotten h =>
    simp only [written_nil, List.nil_append]
    split
    · exact absurd rfl h
    · rfl
  | part hd => cases hd

theorem Lexes.stepArguments_eq {p q : Position} {reference : Option Position} {outer contexts : List Context}
    {ps : List Piece} {rest : List Char} (h : Lexes p (.arguments q reference :: outer) ps rest contexts) {c : Cursor}
    (hc : Parted (.arguments q reference :: outer) c ⟨written ps ++ rest, p⟩) :
    ScanState.stepArguments c q reference outer =
      .moved (tokensFrom p ps) ⟨⟨rest, p.after (written ps)⟩, contexts⟩ := by
  have hskip := skip_of_parted rfl hc
  unfold ScanState.stepArguments
  rw [hskip]
  cases h with
  | closed => rfl
  | called => rfl
  | group => rfl
  | quote => rfl
  | bracket h =>
    rename_i level content
    have hb : bracketOpener? (bracketOpener level ++ (content ++ bracketCloser level ++ rest)) =
        some (level, content ++ bracketCloser level ++ rest) := bracketOpener?_eq_some_iff.2 rfl
    simp only [bracketOpener, List.cons_append, List.append_assoc, List.nil_append] at h hb ⊢
    simp [hb, h, ScanState.emit, Cursor.pass, tokensFrom]
  | argument hr hx hb h =>
    rw [hr]
    simp only [hx, hb, if_false]
    rw [← hr]
    exact h.step_eq
  | part hd => cases hd

/-- What can be read is read by a step. -/
theorem Lexes.step_eq {p : Position} {contexts contexts' : List Context} {ps : List Piece} {rest : List Char}
    (h : Lexes p contexts ps rest contexts') {c : Cursor} (hc : Parted contexts c ⟨written ps ++ rest, p⟩) :
    (ScanState.mk c contexts).step = .moved (tokensFrom p ps) ⟨⟨rest, p.after (written ps)⟩, contexts'⟩ := by
  unfold ScanState.step
  cases contexts with
  | nil => exact h.stepTop_eq hc
  | cons d outer =>
    cases d with
    | command => exact h.stepCommand_eq hc
    | arguments q reference => exact h.stepArguments_eq hc
    | unquoted =>
      obtain rfl : ⟨written ps ++ rest, p⟩ = c := hc
      cases h with
      | argumentEnd h =>
        cases rest with
        | nil => rfl
        | cons x r =>
          have hx := h x rfl
          simp only [written_cons, written_nil, List.nil_append, List.append_nil, hx, if_true]
          rfl
      | part hd hr hx h =>
        cases hd
        simp only [hr, hx, Bool.false_eq_true, if_false]
        rw [← hr]
        exact h.step_eq
    | quoted q =>
      obtain rfl : ⟨written ps ++ rest, p⟩ = c := hc
      cases h with
      | endQuote => rfl
      | part hd hr hx h =>
        cases hd
        simp only [PartKind.endsAt, decide_eq_false_iff_not] at hx
        simp only [hr, hx, if_false]
        rw [← hr]
        exact h.step_eq
    | «variable» q =>
      obtain rfl : ⟨written ps ++ rest, p⟩ = c := hc
      cases h with
      | endVariable => rfl
      | part hd hr hx h =>
        cases hd
        simp only [PartKind.endsAt, decide_eq_false_iff_not] at hx
        simp only [hr, hx, if_false]
        rw [← hr]
        exact h.step_eq
    | closing q =>
      obtain rfl : ⟨written ps ++ rest, p⟩ = c := hc
      cases h with
      | endCommand => rfl
      | part hd => cases hd

/-- The steps of the scanner are those that read something. -/
theorem step_eq_moved_iff {s next : ScanState} {ts : List Token} : s.step = .moved ts next ↔ Moves s ts next := by
  constructor
  · exact moves_of_step
  · obtain ⟨c, contexts⟩ := s
    obtain ⟨⟨rest, q⟩, contexts'⟩ := next
    rintro ⟨p, ps, hc, hq, rfl, hl⟩
    simp only at hq
    rw [hq]
    exact hl.step_eq hc

/-- The scanner finishes where nothing is open and only separation is left. -/
theorem step_eq_finished_iff {s : ScanState} :
    s.step = .finished ↔ s.contexts = [] ∧ ∃ p, skipSeparation s.cursor = .ok ⟨[], p⟩ := by
  constructor
  · intro h
    have hc := contexts_of_finished h
    obtain ⟨c, contexts⟩ := s
    obtain rfl : contexts = [] := hc
    simp only [ScanState.step, ScanState.stepTop] at h
    refine ⟨rfl, ?_⟩
    split at h
    · cases h
    · rename_i c' hk
      obtain ⟨cs, p⟩ := c'
      split at h
      · rename_i hr
        cases hr
        exact ⟨p, hk⟩
      · split at h <;> cases h
  · rintro ⟨hc, p, hskip⟩
    obtain ⟨c, contexts⟩ := s
    obtain rfl : contexts = [] := hc
    simp only at hskip
    simp only [ScanState.step, ScanState.stepTop, hskip]

end CommandScript.Scanning
