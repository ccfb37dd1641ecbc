import CommandScript.Syntax.Token

/-! Reading a text into tokens. Whether a character is text or structure depends on what is open around it, so the
scanner is an automaton with a stack of open constructs. Each step consumes a character or closes a construct, and
reports a construct that never closes at the place where it was opened. -/

namespace CommandScript.Syntax

open Text

/-- Why a text cannot be read on. The last place named is where the fault is reported. -/
inductive ScanFault where
  | unclosedBracketComment (level : Nat)
  | unclosedBracketArgument (level : Nat)
  | unclosedParenthesis
  | unclosedQuote
  | unclosedCommandReference
  | unclosedVariableReference
  | textAfterCommandReference (found : Char)
  | nulCharacter
  | invalidNameCharacter (found : Char)
  | escapeAtEnd
  | invalidEscape (found : Char)
  deriving DecidableEq

/-! ### Characters -/

def isBlank (c : Char) : Bool := c = ' ' || c = '\t' || c = '\r' || c = '\n'

def isNameStart (c : Char) : Bool := c.isAlpha || c = '_'

def isNameCharacter (c : Char) : Bool := c.isAlphanum || c = '_'

/-- Characters that may stand in the name of a variable reference. -/
def isVariableCharacter (c : Char) : Bool :=
  c.isAlphanum || c = '/' || c = '_' || c = '.' || c = '+' || c = '-'

/-- Where a run of text and references is read. -/
inductive PartKind where
  | unquoted | quoted | variable
  deriving DecidableEq

/-- The characters that end a run. -/
def PartKind.endsAt : PartKind → Char → Bool
  | .unquoted, c => isBlank c || c = '(' || c = ')' || c = '#' || c = '"'
  | .quoted, c => c = '"'
  | .variable, c => c = '\x7d'

/-- What a backslash and the character after it stand for. A list separator stays escaped, a line end inside
quotes is joined over, and letters and digits other than `t`, `n` and `r` are refused. -/
def decodeEscape (kind : PartKind) (c : Char) : Option (List Char) :=
  if c = 't' then some ['\t']
  else if c = 'n' then some ['\n']
  else if c = 'r' then some ['\r']
  else if c = ';' then some ['\\', ';']
  else if c = '\n' ∧ kind = .quoted then some []
  else if c.isAlphanum then none
  else some [c]

/-! ### Openers -/

/-- A command name at the head of the text, and what follows it. -/
def identifier? (cs : List Char) : Option (List Char × List Char) :=
  match cs with
  | [] => none
  | c :: r => if isNameStart c then some (c :: r.takeWhile isNameCharacter, r.dropWhile isNameCharacter) else none

/-- `[`, any number of `=`, and `[`: the number of `=`, and what follows. -/
def bracketOpener? : List Char → Option (Nat × List Char)
  | '[' :: r =>
    match r.dropWhile (· = '=') with
    | '[' :: body => some ((r.takeWhile (· = '=')).length, body)
    | _ => none
  | _ => none

def bracketOpener (level : Nat) : List Char := '[' :: (List.replicate level '=' ++ ['['])

def bracketCloser (level : Nat) : List Char := ']' :: (List.replicate level '=' ++ [']'])

/-- The text before the first occurrence of `pattern`, and the text after that occurrence. -/
def splitAtFirst (pattern : List Char) : List Char → Option (List Char × List Char)
  | [] => if pattern.isEmpty then some ([], []) else none
  | c :: r =>
    if pattern.isPrefixOf (c :: r) then some ([], (c :: r).drop pattern.length)
    else (splitAtFirst pattern r).map fun (before, rest) => (c :: before, rest)

/-- A dollar sign, a brace and a name directly followed by `(`: the name, and the text from the parenthesis on. -/
def commandOpener? : List Char → Option (List Char × List Char)
  | '$' :: '\x7b' :: r =>
    match identifier? r with
    | some (name, '(' :: rest) => some (name, '(' :: rest)
    | _ => none
  | _ => none

/-- A dollar sign, perhaps the label of a namespace, and a brace. -/
def variableOpener? : List Char → Option (Namespace × List Char)
  | '$' :: '\x7b' :: r => some (.plain, r)
  | '$' :: 'E' :: 'N' :: 'V' :: '\x7b' :: r => some (.environment, r)
  | '$' :: 'C' :: 'A' :: 'C' :: 'H' :: 'E' :: '\x7b' :: r => some (.cache, r)
  | _ => none

def opensReference (cs : List Char) : Bool := (commandOpener? cs).isSome || (variableOpener? cs).isSome

theorem length_takeWhile_add_dropWhile (p : Char → Bool) (cs : List Char) :
    (cs.takeWhile p).length + (cs.dropWhile p).length = cs.length := by
  rw [← List.length_append, List.takeWhile_append_dropWhile]

theorem length_of_identifier? {cs name rest : List Char} (h : identifier? cs = some (name, rest)) :
    rest.length < cs.length := by
  cases cs with
  | nil => simp [identifier?] at h
  | cons c r =>
    have := length_takeWhile_add_dropWhile isNameCharacter r
    simp only [identifier?] at h
    split at h <;> simp at h
    obtain ⟨-, rfl⟩ := h
    simp; omega

theorem length_of_bracketOpener? {cs body : List Char} {level : Nat} (h : bracketOpener? cs = some (level, body)) :
    body.length + 2 ≤ cs.length := by
  unfold bracketOpener? at h
  split at h
  · rename_i r
    have := length_takeWhile_add_dropWhile (· = '=') r
    split at h <;> simp at h
    rename_i heq
    obtain ⟨-, rfl⟩ := h
    rw [heq] at this
    simp at this ⊢; omega
  · simp at h

theorem length_of_splitAtFirst {pattern : List Char} : ∀ {cs before rest : List Char},
    splitAtFirst pattern cs = some (before, rest) → rest.length ≤ cs.length
  | [], before, rest, h => by
    simp only [splitAtFirst] at h
    split at h <;> simp at h
    simp [h.2]
  | c :: r, before, rest, h => by
    simp only [splitAtFirst] at h
    split at h
    · simp only [Option.some.injEq, Prod.mk.injEq] at h
      rw [← h.2, List.length_drop]; omega
    · obtain ⟨⟨b, t⟩, ht, heq⟩ := Option.map_eq_some_iff.1 h
      simp only [Prod.mk.injEq] at heq
      have := length_of_splitAtFirst ht
      rw [← heq.2, List.length_cons]; omega

theorem length_of_commandOpener? {cs name rest : List Char} (h : commandOpener? cs = some (name, rest)) :
    rest.length + 3 ≤ cs.length := by
  unfold commandOpener? at h
  split at h
  · split at h <;> simp at h
    rename_i hi
    have := length_of_identifier? hi
    rw [← h.2]; simp at this ⊢; omega
  · simp at h

theorem length_of_variableOpener? {cs rest : List Char} {space : Namespace}
    (h : variableOpener? cs = some (space, rest)) : rest.length + 2 ≤ cs.length := by
  unfold variableOpener? at h
  split at h <;> simp at h <;> (rw [← h.2]; simp; try omega)

/-! ### Runs -/

/-- The rest of a text and the place where it begins. -/
structure Cursor where
  rest : List Char
  position : Position

/-- The cursor behind a run that was read. -/
def Cursor.pass (c : Cursor) (taken rest : List Char) : Cursor := ⟨rest, c.position.after taken⟩

/-- Passes over blanks and comments. A comment runs to the end of its line, or to the closing bracket if an
opening bracket follows the `#` directly. -/
def skipSeparation (c : Cursor) : Except (ScanFault × Position) Cursor :=
  match _h : c.rest with
  | [] => .ok c
  | x :: r =>
    if isBlank x then skipSeparation (c.pass [x] r)
    else if x = '#' then
      match _hb : bracketOpener? r with
      | some (level, body) =>
        match _hs : splitAtFirst (bracketCloser level) body with
        | some (content, rest) =>
          skipSeparation (c.pass ('#' :: (bracketOpener level ++ content ++ bracketCloser level)) rest)
        | none => .error (.unclosedBracketComment level, c.position)
      | none => skipSeparation (c.pass ('#' :: r.takeWhile (· ≠ '\n')) (r.dropWhile (· ≠ '\n')))
    else .ok c
termination_by c.rest.length
decreasing_by
  · simp [Cursor.pass, _h]
  · have := length_of_bracketOpener? _hb
    have := length_of_splitAtFirst _hs
    simp [Cursor.pass, _h]; omega
  · have := length_takeWhile_add_dropWhile (· ≠ '\n') r
    simp [Cursor.pass, _h] at this ⊢; omega

/-- Skipping ends at the end of the text, or at a character that is neither blank nor opens a comment. -/
theorem skipSeparation_ok (c c' : Cursor) (h : skipSeparation c = .ok c') :
    c'.rest.length ≤ c.rest.length ∧ ∀ x r, c'.rest = x :: r → isBlank x = false ∧ x ≠ '#' := by
  fun_induction skipSeparation c with
  | case1 c hc => simp_all
  | case2 c x r hc hx ih =>
    refine ⟨Nat.le_trans (ih h).1 ?_, (ih h).2⟩
    simp [Cursor.pass, hc]
  | case3 c r level body hb content rest hs hc _ ih =>
    refine ⟨Nat.le_trans (ih h).1 ?_, (ih h).2⟩
    have := length_of_bracketOpener? hb
    have := length_of_splitAtFirst hs
    simp [Cursor.pass, hc]; omega
  | case4 => simp at h
  | case5 c r _ _ _ ih =>
    refine ⟨Nat.le_trans (ih h).1 ?_, (ih h).2⟩
    have := length_takeWhile_add_dropWhile (· ≠ '\n') r
    simp [Cursor.pass, ‹c.rest = _›] at this ⊢; omega
  | case6 c x r hc hx hs =>
    simp only [Except.ok.injEq] at h
    subst h
    refine ⟨Nat.le_refl _, fun y t hy => ?_⟩
    rw [hc] at hy
    simp only [List.cons.injEq] at hy
    rw [← hy.1]
    exact ⟨by simpa using hx, hs⟩

/-- Reads decoded text up to the end of the run or up to a reference. -/
def readText (kind : PartKind) (p : Position) : List Char → Except (ScanFault × Position) (List Char × Cursor)
  | [] => .ok ([], ⟨[], p⟩)
  | c :: r =>
    if kind.endsAt c || opensReference (c :: r) then .ok ([], ⟨c :: r, p⟩)
    else if c = '\\' then
      match r with
      | [] => .error (.escapeAtEnd, p)
      | e :: r =>
        match decodeEscape kind e with
        | none => .error (.invalidEscape e, p)
        | some decoded =>
          match readText kind ((p.next c).next e) r with
          | .ok (text, cursor) => .ok (decoded ++ text, cursor)
          | .error fault => .error fault
    else if c = '\x00' then .error (.nulCharacter, p)
    else if kind = .variable && !isVariableCharacter c then .error (.invalidNameCharacter c, p)
    else
      match readText kind (p.next c) r with
      | .ok (text, cursor) => .ok (c :: text, cursor)
      | .error fault => .error fault

theorem length_of_readText {kind : PartKind} {p : Position} {cs text : List Char} {behind : Cursor}
    (h : readText kind p cs = .ok (text, behind)) : behind.rest.length ≤ cs.length := by
  fun_induction readText kind p cs generalizing text behind with
  | case1 => simp only [Except.ok.injEq, Prod.mk.injEq] at h; simp [← h.2]
  | case2 => simp only [Except.ok.injEq, Prod.mk.injEq] at h; simp [← h.2]
  | case3 => simp at h
  | case4 => simp at h
  | case5 =>
    simp only [Except.ok.injEq, Prod.mk.injEq] at h
    rename_i ih
    have := ih ‹readText _ _ _ = _›
    rw [← h.2]; simp; omega
  | case6 => simp at h
  | case7 => simp at h
  | case8 => simp at h
  | case9 =>
    simp only [Except.ok.injEq, Prod.mk.injEq] at h
    rename_i ih
    have := ih ‹readText _ _ _ = _›
    rw [← h.2]; simp; omega
  | case10 => simp at h

/-- A run that does not begin at its end takes at least one character. -/
theorem length_of_readText_cons {kind : PartKind} {p : Position} {c : Char} {r text : List Char} {behind : Cursor}
    (hc : kind.endsAt c = false) (ho : opensReference (c :: r) = false)
    (h : readText kind p (c :: r) = .ok (text, behind)) : behind.rest.length ≤ r.length := by
  unfold readText at h
  simp only [hc, ho, Bool.or_false, Bool.false_eq_true, if_false] at h
  split at h
  · split at h
    · simp at h
    · split at h
      · simp at h
      · split at h
        · rename_i heq
          simp only [Except.ok.injEq, Prod.mk.injEq] at h
          have := length_of_readText heq
          rw [← h.2]; simp; omega
        · simp at h
  · split at h
    · simp at h
    · split at h
      · simp at h
      · split at h
        · rename_i heq
          simp only [Except.ok.injEq, Prod.mk.injEq] at h
          have := length_of_readText heq
          rw [← h.2]; exact this
        · simp at h

/-! ### The automaton -/

/-- A construct that has been opened and not closed. Those that can stay open keep the place where they began. -/
inductive Context where
  | command
  | arguments (opener : Position) (reference : Option Position)
  | unquoted
  | quoted (opener : Position)
  | variable (opener : Position)
  | closing (opener : Position)
  deriving DecidableEq

/-- The rest of the text and the open constructs, innermost first. With none open, the scanner stands between
two invocations. -/
structure ScanState where
  cursor : Cursor
  contexts : List Context

inductive ScanStep where
  | finished
  | failed (fault : ScanFault) (position : Position)
  | moved (tokens : List Token) (next : ScanState)

namespace ScanState

/-- One token read over `taken`, with the given constructs open behind it. -/
def emit (lexeme : Lexeme) (c : Cursor) (taken rest : List Char) (contexts : List Context) : ScanStep :=
  let behind := c.pass taken rest
  .moved [⟨lexeme, c.position, behind.position⟩] ⟨behind, contexts⟩

/-- The next part of a run: a reference is opened, or a run of text is read. -/
def stepPart (kind : PartKind) (c : Cursor) (contexts : List Context) : ScanStep :=
  match commandOpener? c.rest with
  | some (name, rest) =>
    let p := c.position
    let named := p.after ['$', '\x7b']
    let listed := named.after name
    let opened := listed.next '('
    .moved [⟨.commandOpen, p, named⟩, ⟨.name (String.ofList name), named, listed⟩, ⟨.leftParen, listed, opened⟩]
      ⟨⟨rest.drop 1, opened⟩, .arguments listed (some p) :: contexts⟩
  | none =>
    match variableOpener? c.rest with
    | some (space, rest) =>
      emit (.variableOpen space) c ('$' :: (space.label.toList ++ ['\x7b'])) rest (.variable c.position :: contexts)
    | none =>
      match readText kind c.position c.rest with
      | .ok (text, behind) =>
        .moved [⟨.text (String.ofList text), c.position, behind.position⟩] ⟨behind, contexts⟩
      | .error (fault, p) => .failed fault p

/-- Between invocations: a command name, or text that is none. -/
def stepTop (c : Cursor) : ScanStep :=
  match skipSeparation c with
  | .error (fault, p) => .failed fault p
  | .ok c =>
    match c.rest with
    | [] => .finished
    | x :: r =>
      match identifier? (x :: r) with
      | some (name, rest) => emit (.name (String.ofList name)) c name rest [.command]
      | none =>
        let outside := fun c => !isBlank c && c ≠ '#'
        let taken := x :: r.takeWhile outside
        emit (.text (String.ofList taken)) c taken (r.dropWhile outside) []

/-- After a command name: its argument list, if a parenthesis comes next. -/
def stepCommand (c : Cursor) (outer : List Context) : ScanStep :=
  match skipSeparation c with
  | .error (fault, p) => .failed fault p
  | .ok c =>
    match c.rest with
    | '(' :: rest => emit .leftParen c ['('] rest (.arguments c.position none :: outer)
    | _ => .moved [] ⟨c, outer⟩

/-- A leading line feed of a bracket is not part of its content. -/
def bracketContent : List Char → List Char
  | '\n' :: content => content
  | content => content

/-- Inside an argument list. -/
def stepArguments (c : Cursor) (opener : Position) (reference : Option Position) (outer : List Context) : ScanStep :=
  match skipSeparation c with
  | .error (fault, p) => .failed fault p
  | .ok c =>
    let here := Context.arguments opener reference :: outer
    match c.rest with
    | [] => .failed .unclosedParenthesis opener
    | x :: r =>
      if x = ')' then
        emit .rightParen c [')'] r (match reference with | some p => .closing p :: outer | none => outer)
      else if x = '(' then emit .leftParen c ['('] r (.arguments c.position none :: here)
      else if x = '"' then emit .quote c ['"'] r (.quoted c.position :: here)
      else
        match bracketOpener? (x :: r) with
        | some (level, body) =>
          match splitAtFirst (bracketCloser level) body with
          | some (content, rest) =>
            emit (.bracket (String.ofList (bracketContent content))) c
              (bracketOpener level ++ content ++ bracketCloser level) rest here
          | none => .failed (.unclosedBracketArgument level) c.position
        | none => stepPart .unquoted c (.unquoted :: here)

/-- The next tokens, by the innermost open construct. -/
def step (s : ScanState) : ScanStep :=
  let c := s.cursor
  match s.contexts with
  | [] => stepTop c
  | .command :: outer => stepCommand c outer
  | .arguments opener reference :: outer => stepArguments c opener reference outer
  | .unquoted :: outer =>
    match c.rest with
    | [] => emit .argumentEnd c [] [] outer
    | x :: r => if PartKind.unquoted.endsAt x then emit .argumentEnd c [] (x :: r) outer
      else stepPart .unquoted c (.unquoted :: outer)
  | .quoted opener :: outer =>
    match c.rest with
    | [] => .failed .unclosedQuote opener
    | x :: r => if x = '"' then emit .quote c ['"'] r outer else stepPart .quoted c (.quoted opener :: outer)
  | .variable opener :: outer =>
    match c.rest with
    | [] => .failed .unclosedVariableReference opener
    | x :: r => if x = '\x7d' then emit .referenceClose c ['\x7d'] r outer
      else stepPart .variable c (.variable opener :: outer)
  | .closing opener :: outer =>
    match c.rest with
    | [] => .failed .unclosedCommandReference opener
    | x :: r => if x = '\x7d' then emit .referenceClose c ['\x7d'] r outer
      else .failed (.textAfterCommandReference x) c.position

/-- What bounds the number of steps: each consumes a character or closes a construct. -/
def measure (s : ScanState) : Nat := 2 * s.cursor.rest.length + s.contexts.length

theorem measure_of_stepPart {kind : PartKind} {c : Cursor} {contexts : List Context} {tokens : List Token}
    {next : ScanState} {x : Char} {r : List Char} (hr : c.rest = x :: r) (hx : kind.endsAt x = false)
    (h : stepPart kind c contexts = .moved tokens next) :
    next.measure + 2 ≤ 2 * c.rest.length + contexts.length := by
  unfold stepPart at h
  split at h
  · rename_i hc
    have := length_of_commandOpener? hc
    simp only [ScanStep.moved.injEq] at h
    rw [← h.2]
    simp [measure]; omega
  · rename_i hc
    split at h
    · rename_i hv
      have := length_of_variableOpener? hv
      simp only [emit, ScanStep.moved.injEq] at h
      rw [← h.2]
      simp [measure, Cursor.pass]; omega
    · rename_i hv
      split at h
      · rename_i ht
        simp only [ScanStep.moved.injEq] at h
        rw [← h.2]
        rw [hr] at ht hc hv
        have := length_of_readText_cons hx (by simp [opensReference, hc, hv]) ht
        rw [hr]; simp [measure]; omega
      · simp at h

theorem measure_of_stepTop {c : Cursor} {tokens : List Token} {next : ScanState}
    (h : stepTop c = .moved tokens next) : next.measure < 2 * c.rest.length := by
  unfold stepTop at h
  split at h
  · simp at h
  · rename_i c' hk
    have hlen := (skipSeparation_ok _ _ hk).1
    split at h
    · simp at h
    · rename_i x r hr
      rw [hr] at hlen
      split at h <;> simp only [emit, ScanStep.moved.injEq] at h <;> rw [← h.2]
      · rename_i hi
        have := length_of_identifier? hi
        simp [measure, Cursor.pass] at hlen this ⊢; omega
      · have := length_takeWhile_add_dropWhile (fun c => !isBlank c && c ≠ '#') r
        simp [measure, Cursor.pass] at hlen this ⊢; omega

theorem measure_of_stepCommand {c : Cursor} {outer : List Context} {tokens : List Token} {next : ScanState}
    (h : stepCommand c outer = .moved tokens next) : next.measure ≤ 2 * c.rest.length + outer.length := by
  unfold stepCommand at h
  split at h
  · simp at h
  · rename_i hk
    have hlen := (skipSeparation_ok _ _ hk).1
    split at h
    · rename_i hr
      rw [hr] at hlen
      simp only [emit, ScanStep.moved.injEq] at h
      rw [← h.2]
      simp [measure, Cursor.pass] at hlen ⊢; omega
    · simp only [ScanStep.moved.injEq] at h
      rw [← h.2]
      simp [measure]; omega

theorem measure_of_stepArguments {c : Cursor} {opener : Position} {reference : Option Position}
    {outer : List Context} {tokens : List Token} {next : ScanState}
    (h : stepArguments c opener reference outer = .moved tokens next) :
    next.measure < 2 * c.rest.length + outer.length + 1 := by
  unfold stepArguments at h
  split at h
  · simp at h
  · rename_i c' hk
    obtain ⟨hlen, hhead⟩ := skipSeparation_ok _ _ hk
    split at h
    · simp at h
    · rename_i x r hr
      have hx := hhead x r hr
      rw [hr] at hlen
      simp only [List.length_cons] at hlen
      split at h
      · simp only [emit, ScanStep.moved.injEq] at h
        rw [← h.2]
        cases reference <;> simp [measure, Cursor.pass] <;> omega
      · split at h
        · simp only [emit, ScanStep.moved.injEq] at h
          rw [← h.2]
          simp [measure, Cursor.pass]; omega
        · split at h
          · simp only [emit, ScanStep.moved.injEq] at h
            rw [← h.2]
            simp [measure, Cursor.pass]; omega
          · split at h
            · rename_i hb
              have hbody := length_of_bracketOpener? hb
              split at h
              · rename_i hs
                have := length_of_splitAtFirst hs
                simp only [emit, ScanStep.moved.injEq] at h
                rw [← h.2]
                simp [measure, Cursor.pass] at hbody ⊢; omega
              · simp at h
            · have hend : PartKind.unquoted.endsAt x = false := by simp [PartKind.endsAt, *]
              have := measure_of_stepPart hr hend h
              rw [hr] at this
              simp at this; omega

theorem measure_of_step {s next : ScanState} {tokens : List Token} (h : s.step = .moved tokens next) :
    next.measure < s.measure := by
  obtain ⟨c, contexts⟩ := s
  unfold step at h
  simp only at h
  split at h
  · have := measure_of_stepTop h
    simpa [measure] using this
  · have := measure_of_stepCommand h
    simp [measure] at this ⊢; omega
  · have := measure_of_stepArguments h
    simp [measure] at this ⊢; omega
  · split at h
    · rename_i hr
      simp only [emit, ScanStep.moved.injEq] at h
      rw [← h.2]; simp [measure, Cursor.pass]; omega
    · rename_i x r hr
      split at h
      · simp only [emit, ScanStep.moved.injEq] at h
        rw [← h.2]; simp [measure, Cursor.pass, hr]
      · rename_i hx
        have := measure_of_stepPart hr (by simpa using hx) h
        simp [measure] at this ⊢; omega
  · split at h
    · simp at h
    · rename_i x r hr
      split at h
      · simp only [emit, ScanStep.moved.injEq] at h
        rw [← h.2]; simp [measure, Cursor.pass, hr]; omega
      · rename_i hx
        have := measure_of_stepPart hr (by simpa [PartKind.endsAt] using hx) h
        simp [measure] at this ⊢; omega
  · split at h
    · simp at h
    · rename_i x r hr
      split at h
      · simp only [emit, ScanStep.moved.injEq] at h
        rw [← h.2]; simp [measure, Cursor.pass, hr]; omega
      · rename_i hx
        have := measure_of_stepPart hr (by simpa [PartKind.endsAt] using hx) h
        simp [measure] at this ⊢; omega
  · split at h
    · simp at h
    · rename_i x r hr
      split at h
      · simp only [emit, ScanStep.moved.injEq] at h
        rw [← h.2]; simp [measure, Cursor.pass, hr]; omega
      · simp at h

end ScanState

/-- All tokens of a text, and the fault that cut them off, if any. However deep it nests, the stack has room for it. -/
structure Scan where
  tokens : List Token
  fault : Option (ScanFault × Position) := none

def ScanState.scan (s : ScanState) : Scan :=
  match _h : s.step with
  | .finished => ⟨[], none⟩
  | .failed fault p => ⟨[], some (fault, p)⟩
  | .moved tokens next =>
    let later := next.scan
    ⟨tokens ++ later.tokens, later.fault⟩
termination_by s.measure
decreasing_by all_goals exact measure_of_step _h

theorem ScanState.scan_finished {s : ScanState} (h : s.step = .finished) : s.scan = ⟨[], none⟩ := by
  rw [scan]
  split <;> simp_all

theorem ScanState.scan_failed {s : ScanState} {fault : ScanFault} {p : Position} (h : s.step = .failed fault p) :
    s.scan = ⟨[], some (fault, p)⟩ := by
  rw [scan]
  split <;> simp_all

theorem ScanState.scan_moved {s next : ScanState} {tokens : List Token} (h : s.step = .moved tokens next) :
    s.scan = ⟨tokens ++ next.scan.tokens, next.scan.fault⟩ := by
  rw [scan]
  split <;> simp_all

/-- Reads a text from its start. -/
def scan (text : List Char) : Scan := ScanState.scan ⟨⟨text, .start⟩, []⟩

/-! ### Running out of stack -/

/-- How many scanners are at work on an open construct: one on every list of arguments, quoted argument and reference,
and one on the parts of an argument or of a variable name. Each is called by the one around it. -/
def Context.scanners : Context → Nat
  | command => 0
  | arguments _ none | unquoted | closing _ => 1
  | arguments _ (some _) | quoted _ | «variable» _ => 2

namespace ScanState

/-- How many scanners are inside the one for the whole text. -/
def scanners (s : ScanState) : Nat := s.contexts.foldr (fun context n => context.scanners + n) 0

/-- Whether the stack has room for the scanners, if it has for so many. -/
def nestsWithin (room : Nat) (s : ScanState) : Bool := s.scanners ≤ room

end ScanState

/-- How a scan ends for which the stack may have no room. -/
inductive ScanEnd where
  | finished
  | failed (fault : ScanFault) (position : Position)
  | exhausted
  deriving DecidableEq

/-- The tokens of a text as far as it was scanned. -/
structure BoundedScan where
  tokens : List Token
  ending : ScanEnd

/-- Scans as long as the stack has room for the scanners and what they call, which `fits` says of a state. -/
def ScanState.scanWithin (fits : ScanState → Bool) (s : ScanState) : BoundedScan :=
  if fits s then
    match _h : s.step with
    | .finished => ⟨[], .finished⟩
    | .failed fault p => ⟨[], .failed fault p⟩
    | .moved tokens next =>
      let later := next.scanWithin fits
      ⟨tokens ++ later.tokens, later.ending⟩
  else ⟨[], .exhausted⟩
termination_by s.measure
decreasing_by exact measure_of_step _h

namespace ScanState

variable {fits : ScanState → Bool} {s : ScanState}

theorem scanWithin_exhausted (hs : fits s = false) : s.scanWithin fits = ⟨[], .exhausted⟩ := by
  rw [scanWithin, if_neg (by simp [hs])]

theorem scanWithin_finished (hs : fits s) (h : s.step = .finished) : s.scanWithin fits = ⟨[], .finished⟩ := by
  rw [scanWithin, if_pos hs]
  split <;> simp_all

theorem scanWithin_failed (hs : fits s) {fault : ScanFault} {p : Position} (h : s.step = .failed fault p) :
    s.scanWithin fits = ⟨[], .failed fault p⟩ := by
  rw [scanWithin, if_pos hs]
  split <;> simp_all

theorem scanWithin_moved (hs : fits s) {tokens : List Token} {next : ScanState} (h : s.step = .moved tokens next) :
    s.scanWithin fits = ⟨tokens ++ (next.scanWithin fits).tokens, (next.scanWithin fits).ending⟩ := by
  rw [scanWithin, if_pos hs]
  split <;> simp_all

end ScanState

def scanWithin (fits : ScanState → Bool) (text : List Char) : BoundedScan :=
  ScanState.scanWithin fits ⟨⟨text, .start⟩, []⟩

end CommandScript.Syntax
