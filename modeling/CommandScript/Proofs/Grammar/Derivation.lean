import CommandScript.Syntax.Fault

/-! The grammar of scripts and its derivations. Every constructor is a rule: its fields are what stands on the right
side, in their order, so that a value of these types is a derivation by being there at all. The tokens at its leaves,
read from left to right, are what it derives. The first token behind what was derived so far tells which rule comes
next, and therefore no tokens have two derivations. -/

namespace CommandScript.Grammar

open Text Syntax

/-- A token of a certain kind. -/
@[ext]
structure TokenOf (kind : Terminal) where
  token : Token
  kind_eq : token.lexeme.terminal = kind

mutual

/-- A part: text, a variable reference around parts, or a command reference around arguments. -/
inductive PartDerivation where
  | text (token : TokenOf .text)
  | variable (opener : TokenOf .variableOpen) (parts : List PartDerivation) (closer : TokenOf .referenceClose)
  | command (opener : TokenOf .commandOpen) (name : TokenOf .name) (leftParen : TokenOf .leftParen)
      (arguments : List ArgumentDerivation) (rightParen : TokenOf .rightParen) (closer : TokenOf .referenceClose)

/-- An argument: any number of parts in quotes, one or more parts without, a bracket, or a group of arguments. -/
inductive ArgumentDerivation where
  | quoted (opener : TokenOf .quote) (parts : List PartDerivation) (closer : TokenOf .quote)
  | unquoted (first : PartDerivation) (others : List PartDerivation) (finish : TokenOf .argumentEnd)
  | bracket (token : TokenOf .bracket)
  | group (leftParen : TokenOf .leftParen) (arguments : List ArgumentDerivation) (rightParen : TokenOf .rightParen)

end

/-- A call: a name and arguments in parentheses. A script is any number of calls. -/
structure CallDerivation where
  name : TokenOf .name
  leftParen : TokenOf .leftParen
  arguments : List ArgumentDerivation
  rightParen : TokenOf .rightParen

/-! ### What is derived -/

mutual

def partTokens : PartDerivation → List Token
  | .text t => [t.token]
  | .variable opener parts closer => opener.token :: (partsTokens parts ++ [closer.token])
  | .command opener name leftParen arguments rightParen closer =>
    opener.token :: name.token :: leftParen.token ::
      (argumentsTokens arguments ++ [rightParen.token, closer.token])

def partsTokens : List PartDerivation → List Token
  | [] => []
  | part :: parts => partTokens part ++ partsTokens parts

def argumentTokens : ArgumentDerivation → List Token
  | .quoted opener parts closer => opener.token :: (partsTokens parts ++ [closer.token])
  | .unquoted first others finish => partTokens first ++ (partsTokens others ++ [finish.token])
  | .bracket t => [t.token]
  | .group leftParen arguments rightParen => leftParen.token :: (argumentsTokens arguments ++ [rightParen.token])

def argumentsTokens : List ArgumentDerivation → List Token
  | [] => []
  | argument :: arguments => argumentTokens argument ++ argumentsTokens arguments

end

def callTokens (d : CallDerivation) : List Token :=
  d.name.token :: d.leftParen.token :: (argumentsTokens d.arguments ++ [d.rightParen.token])

def scriptTokens (ds : List CallDerivation) : List Token := ds.flatMap callTokens

/-! ### First tokens -/

/-- Whether a token can be the first of a part. -/
def beginsPart (t : Token) : Bool :=
  match t.lexeme.terminal with
  | .text | .variableOpen | .commandOpen => true
  | _ => false

/-- Whether a token can be the first of an argument. -/
def beginsArgument (t : Token) : Bool :=
  match t.lexeme.terminal with
  | .quote | .bracket | .leftParen => true
  | _ => beginsPart t

/-- The kind of the first token of a part; it tells the rule of the part. -/
def PartDerivation.first : PartDerivation → Terminal
  | .text _ => .text
  | .variable .. => .variableOpen
  | .command .. => .commandOpen

/-- The kind of the first token of an argument, if that is not a token of a part. -/
def ArgumentDerivation.first : ArgumentDerivation → Option Terminal
  | .quoted .. => some .quote
  | .bracket _ => some .bracket
  | .group .. => some .leftParen
  | .unquoted .. => none

theorem partTokens_eq_cons (p : PartDerivation) : ∃ t ts, partTokens p = t :: ts ∧ t.lexeme.terminal = p.first :=
  match p with
  | .text t => ⟨_, _, rfl, t.kind_eq⟩
  | .variable opener .. => ⟨_, _, rfl, opener.kind_eq⟩
  | .command opener .. => ⟨_, _, rfl, opener.kind_eq⟩

theorem beginsPart_of_first {t : Token} {p : PartDerivation} (h : t.lexeme.terminal = p.first) : beginsPart t = true := by
  rw [beginsPart, h]
  cases p <;> rfl

theorem argumentTokens_eq_cons (a : ArgumentDerivation) : ∃ t ts, argumentTokens a = t :: ts ∧
    beginsArgument t = true ∧ (if beginsPart t then none else some t.lexeme.terminal) = a.first :=
  match a with
  | .quoted opener .. => ⟨_, _, rfl, by simp [beginsArgument, beginsPart, opener.kind_eq, ArgumentDerivation.first]⟩
  | .bracket t => ⟨_, _, rfl, by simp [beginsArgument, beginsPart, t.kind_eq, ArgumentDerivation.first]⟩
  | .group opener .. => ⟨_, _, rfl, by simp [beginsArgument, beginsPart, opener.kind_eq, ArgumentDerivation.first]⟩
  | .unquoted first others finish => by
    obtain ⟨t, ts, ht, hf⟩ := partTokens_eq_cons first
    have hb := beginsPart_of_first hf
    refine ⟨t, _, by rw [argumentTokens, ht, List.cons_append], ?_, by simp [hb, ArgumentDerivation.first]⟩
    rw [beginsArgument, hf]
    cases first <;> exact hb

/-! ### No two derivations -/

/-- Tokens in front of which a list of parts cannot go on. -/
def EndsParts (r : List Token) : Prop := ∀ t ∈ r.head?, beginsPart t = false

/-- Tokens in front of which a list of arguments cannot go on. -/
def EndsArguments (r : List Token) : Prop := ∀ t ∈ r.head?, beginsArgument t = false

theorem TokenOf.endsParts {kind : Terminal} (c : TokenOf kind) (r : List Token)
    (h : kind = .quote ∨ kind = .argumentEnd ∨ kind = .referenceClose) : EndsParts (c.token :: r) := by
  rcases h with rfl | rfl | rfl <;> simp [EndsParts, beginsPart, c.kind_eq]

theorem TokenOf.endsArguments (c : TokenOf .rightParen) (r : List Token) : EndsArguments (c.token :: r) := by
  simp [EndsArguments, beginsArgument, beginsPart, c.kind_eq]

mutual

theorem partTokens_inj (p q : PartDerivation) {r s : List Token} (h : partTokens p ++ r = partTokens q ++ s) :
    p = q ∧ r = s := by
  have hk : p.first = q.first := by
    obtain ⟨t, ts, hp, ht⟩ := partTokens_eq_cons p
    obtain ⟨u, us, hq, hu⟩ := partTokens_eq_cons q
    rw [hp, hq, List.cons_append, List.cons_append] at h
    rw [← ht, ← hu, (List.cons.inj h).1]
  match p, q, hk with
  | .text t, .text u, _ =>
    simp only [partTokens, List.cons_append, List.nil_append, List.cons.injEq] at h
    exact ⟨by rw [TokenOf.ext h.1], h.2⟩
  | .variable o ps c, .variable o' qs c', _ =>
    simp only [partTokens, List.cons_append, List.append_assoc, List.nil_append, List.cons.injEq] at h
    obtain ⟨rfl, hc⟩ := partsTokens_inj ps qs (c.endsParts _ (by simp)) (c'.endsParts _ (by simp)) h.2
    simp only [List.cons.injEq] at hc
    exact ⟨by rw [TokenOf.ext h.1, TokenOf.ext hc.1], hc.2⟩
  | .command o n l as e c, .command o' n' l' bs e' c', _ =>
    simp only [partTokens, List.cons_append, List.append_assoc, List.nil_append, List.cons.injEq] at h
    obtain ⟨ho, hn, hl, h⟩ := h
    obtain ⟨rfl, hc⟩ := argumentsTokens_inj as bs (e.endsArguments _) (e'.endsArguments _) h
    simp only [List.cons.injEq] at hc
    exact ⟨by rw [TokenOf.ext ho, TokenOf.ext hn, TokenOf.ext hl, TokenOf.ext hc.1, TokenOf.ext hc.2.1], hc.2.2⟩

theorem partsTokens_inj (ps qs : List PartDerivation) {r s : List Token} (hr : EndsParts r) (hs : EndsParts s)
    (h : partsTokens ps ++ r = partsTokens qs ++ s) : ps = qs ∧ r = s := by
  match ps, qs with
  | [], [] => exact ⟨rfl, h⟩
  | [], q :: qs =>
    obtain ⟨t, ts, hq, ht⟩ := partTokens_eq_cons q
    rw [partsTokens, partsTokens, hq] at h
    simp only [List.nil_append, List.cons_append] at h
    have := hr t (by simp [h])
    rw [beginsPart_of_first ht] at this
    contradiction
  | p :: ps, [] =>
    obtain ⟨t, ts, hp, ht⟩ := partTokens_eq_cons p
    rw [partsTokens, partsTokens, hp] at h
    simp only [List.nil_append, List.cons_append] at h
    have := hs t (by simp [← h])
    rw [beginsPart_of_first ht] at this
    contradiction
  | p :: ps, q :: qs =>
    rw [partsTokens, partsTokens, List.append_assoc, List.append_assoc] at h
    obtain ⟨rfl, hp⟩ := partTokens_inj p q h
    obtain ⟨rfl, hps⟩ := partsTokens_inj ps qs hr hs hp
    exact ⟨rfl, hps⟩

theorem argumentTokens_inj (a b : ArgumentDerivation) {r s : List Token}
    (h : argumentTokens a ++ r = argumentTokens b ++ s) : a = b ∧ r = s := by
  have hk : a.first = b.first := by
    obtain ⟨t, ts, ha, -, ht⟩ := argumentTokens_eq_cons a
    obtain ⟨u, us, hb, -, hu⟩ := argumentTokens_eq_cons b
    rw [ha, hb, List.cons_append, List.cons_append] at h
    rw [← ht, ← hu, (List.cons.inj h).1]
  match a, b, hk with
  | .quoted o ps c, .quoted o' qs c', _ =>
    simp only [argumentTokens, List.cons_append, List.append_assoc, List.nil_append, List.cons.injEq] at h
    obtain ⟨rfl, hc⟩ := partsTokens_inj ps qs (c.endsParts _ (by simp)) (c'.endsParts _ (by simp)) h.2
    simp only [List.cons.injEq] at hc
    exact ⟨by rw [TokenOf.ext h.1, TokenOf.ext hc.1], hc.2⟩
  | .unquoted p ps c, .unquoted q qs c', _ =>
    simp only [argumentTokens, List.append_assoc, List.cons_append, List.nil_append] at h
    obtain ⟨rfl, hp⟩ := partTokens_inj p q h
    obtain ⟨rfl, hc⟩ := partsTokens_inj ps qs (c.endsParts _ (by simp)) (c'.endsParts _ (by simp)) hp
    simp only [List.cons.injEq] at hc
    exact ⟨by rw [TokenOf.ext hc.1], hc.2⟩
  | .bracket t, .bracket u, _ =>
    simp only [argumentTokens, List.cons_append, List.nil_append, List.cons.injEq] at h
    exact ⟨by rw [TokenOf.ext h.1], h.2⟩
  | .group l as e, .group l' bs e', _ =>
    simp only [argumentTokens, List.cons_append, List.append_assoc, List.nil_append, List.cons.injEq] at h
    obtain ⟨rfl, hc⟩ := argumentsTokens_inj as bs (e.endsArguments _) (e'.endsArguments _) h.2
    simp only [List.cons.injEq] at hc
    exact ⟨by rw [TokenOf.ext h.1, TokenOf.ext hc.1], hc.2⟩

theorem argumentsTokens_inj (as bs : List ArgumentDerivation) {r s : List Token} (hr : EndsArguments r)
    (hs : EndsArguments s) (h : argumentsTokens as ++ r = argumentsTokens bs ++ s) : as = bs ∧ r = s := by
  match as, bs with
  | [], [] => exact ⟨rfl, h⟩
  | [], b :: bs =>
    obtain ⟨t, ts, hb, ht, -⟩ := argumentTokens_eq_cons b
    rw [argumentsTokens, argumentsTokens, hb] at h
    simp only [List.nil_append, List.cons_append] at h
    have := hr t (by simp [h])
    rw [ht] at this
    contradiction
  | a :: as, [] =>
    obtain ⟨t, ts, ha, ht, -⟩ := argumentTokens_eq_cons a
    rw [argumentsTokens, argumentsTokens, ha] at h
    simp only [List.nil_append, List.cons_append] at h
    have := hs t (by simp [← h])
    rw [ht] at this
    contradiction
  | a :: as, b :: bs =>
    rw [argumentsTokens, argumentsTokens, List.append_assoc, List.append_assoc] at h
    obtain ⟨rfl, ha⟩ := argumentTokens_inj a b h
    obtain ⟨rfl, has⟩ := argumentsTokens_inj as bs hr hs ha
    exact ⟨rfl, has⟩

end

theorem callTokens_inj (c d : CallDerivation) {r s : List Token} (h : callTokens c ++ r = callTokens d ++ s) :
    c = d ∧ r = s := by
  obtain ⟨n, l, as, e⟩ := c
  obtain ⟨n', l', bs, e'⟩ := d
  simp only [callTokens, List.cons_append, List.append_assoc, List.nil_append, List.cons.injEq] at h
  obtain ⟨hn, hl, h⟩ := h
  obtain ⟨rfl, he⟩ := argumentsTokens_inj as bs (e.endsArguments _) (e'.endsArguments _) h
  simp only [List.cons.injEq] at he
  exact ⟨by rw [TokenOf.ext hn, TokenOf.ext hl, TokenOf.ext he.1], he.2⟩

/-- Tokens have at most one derivation as a script. -/
theorem scriptTokens_injective : Function.Injective scriptTokens := by
  intro cs ds h
  induction cs generalizing ds with
  | nil =>
    cases ds with
    | nil => rfl
    | cons d ds => simp [scriptTokens, callTokens] at h
  | cons c cs ih =>
    cases ds with
    | nil => simp [scriptTokens, callTokens] at h
    | cons d ds =>
      obtain ⟨rfl, hcs⟩ := callTokens_inj c d h
      rw [ih hcs]

end CommandScript.Grammar
