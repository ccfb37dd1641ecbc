import CommandScript.Syntax.Parse

/-! The scanner and the builder nest alike. Each construct that the scanner has open is a tree that the builder has
open, so that inside the parentheses of a call every token of the scanner is one the builder takes. What is left for
the builder to refuse stands outside: text, and whatever follows a name that is not a parenthesis. From outside only
names and parentheses matter; the outline of a script counts no more than those, and reading a script fails where its
outline does. -/

namespace CommandScript.Scanning

open Text Syntax

/-! ### Outlines -/

/-- Where a reader stands: between two calls, behind the name of a call, or inside its parenthesis and so many more. -/
inductive Outline where
  | between
  | named
  | inside (more : Nat)
  deriving DecidableEq

namespace Outline

/-- Where a token leads to, unless it is refused. Inside parentheses none is. -/
def next? : Outline → Lexeme → Option Outline
  | between, .name _ => some named
  | named, .leftParen => some (inside 0)
  | inside n, .leftParen => some (inside (n + 1))
  | inside 0, .rightParen => some between
  | inside (n + 1), .rightParen => some (inside n)
  | inside n, _ => some (inside n)
  | _, _ => none

/-- What can come next. -/
def expected : Outline → List Terminal
  | between => [.name, .endOfInput]
  | named => [.leftParen]
  | inside _ => []

/-- Follows the tokens. The first that is refused is returned with where it was met. -/
def run (o : Outline) : List Token → Except (Outline × Token) Outline
  | [] => .ok o
  | t :: ts =>
    match o.next? t.lexeme with
    | some o => o.run ts
    | none => .error (o, t)

theorem run_append {o o' : Outline} {ts : List Token} (h : o.run ts = .ok o') (us : List Token) :
    o.run (ts ++ us) = o'.run us := by
  induction ts generalizing o with
  | nil => cases h; rfl
  | cons t ts ih =>
    rw [run] at h
    rw [List.cons_append, run]
    split at h
    · exact ih h
    · cases h

end Outline

theorem feedAll_append {b b' : Builder} {ts : List Token} (h : b.feedAll ts = .ok b') (us : List Token) :
    b.feedAll (ts ++ us) = b'.feedAll us := by
  induction ts generalizing b with
  | nil => cases h; rfl
  | cons t ts ih =>
    rw [Builder.feedAll] at h
    rw [List.cons_append, Builder.feedAll]
    split at h
    · exact ih h
    · cases h

/-! ### Open constructs and open trees -/

def takesArguments : Context → Bool
  | .arguments .. => true
  | _ => false

def takesParts : Context → Bool
  | .unquoted | .quoted _ | .variable _ => true
  | _ => false

/-- The number of lists of arguments among open constructs. -/
def openLists (cs : List Context) : Nat := cs.countP takesArguments

/-- Open constructs inside a call and the open trees they stand for, innermost first. -/
inductive Nested : List Context → List OpenTree → Prop where
  | call {p start : Position} {name : String} {arguments : List Argument} :
    Nested [.arguments p none] [.call name start arguments]
  | group {c : Context} {cs : List Context} {os : List OpenTree} {p q : Position} {arguments : List Argument}
    (h : Nested (c :: cs) os) (hc : takesArguments c) :
    Nested (.arguments p none :: c :: cs) (.group q arguments :: os)
  | quoted {c : Context} {cs : List Context} {os : List OpenTree} {p q : Position} {parts : List Part}
    (h : Nested (c :: cs) os) (hc : takesArguments c) : Nested (.quoted p :: c :: cs) (.quoted q parts :: os)
  | unquoted {c : Context} {cs : List Context} {os : List OpenTree} {parts : List Part}
    (h : Nested (c :: cs) os) (hc : takesArguments c) : Nested (.unquoted :: c :: cs) (.unquoted parts :: os)
  | «variable» {c : Context} {cs : List Context} {os : List OpenTree} {p q : Position} {space : Namespace}
    {parts : List Part} (h : Nested (c :: cs) os) (hc : takesParts c) :
    Nested (.variable p :: c :: cs) (.variable q space parts :: os)
  | referenceCall {c : Context} {cs : List Context} {os : List OpenTree} {p q r : Position} {name : String}
    {arguments : List Argument} (h : Nested (c :: cs) os) (hc : takesParts c) :
    Nested (.arguments p (some q) :: c :: cs) (.referenceCall r name arguments :: os)
  | referenceListed {c : Context} {cs : List Context} {os : List OpenTree} {p q : Position} {name : String}
    {arguments : List Argument} (h : Nested (c :: cs) os) (hc : takesParts c) :
    Nested (.closing p :: c :: cs) (.referenceListed q name arguments :: os)

/-- If the innermost tree is an unquoted argument, then it has a part already, and may end. -/
def HasPart (os : List OpenTree) : Prop := ∀ os', os ≠ .unquoted [] :: os'

/-- Where the scanner stands is where the builder and the outline stand. -/
inductive Tracks : List Context → List OpenTree → Outline → Prop where
  | between : Tracks [] [] .between
  | command {name : String} {start : Position} : Tracks [.command] [.named name start] .named
  | inside {cs : List Context} {os : List OpenTree} {n : Nat} (h : Nested cs os) (hp : HasPart os)
    (hn : openLists cs = n + 1) : Tracks cs os (.inside n)

theorem openLists_pos {cs : List Context} {os : List OpenTree} (h : Nested cs os) : ∃ n, openLists cs = n + 1 := by
  induction h with
  | call => exact ⟨0, rfl⟩
  | group _ _ ih | referenceCall _ _ ih =>
    obtain ⟨n, hn⟩ := ih
    exact ⟨n + 1, by rw [openLists, List.countP_cons]; rw [openLists] at hn; simp [hn, takesArguments]⟩
  | quoted _ _ ih | unquoted _ _ ih | «variable» _ _ ih | referenceListed _ _ ih =>
    obtain ⟨n, hn⟩ := ih
    exact ⟨n, by rw [openLists, List.countP_cons]; rw [openLists] at hn; simp [hn, takesArguments]⟩

theorem nested_addPart {c : Context} {cs : List Context} {os : List OpenTree} (h : Nested (c :: cs) os)
    (hc : takesParts c) (part : Part) :
    Nested (c :: cs) (OpenTree.addPart part os) ∧ HasPart (OpenTree.addPart part os) := by
  cases h with
  | quoted h ho => exact ⟨.quoted h ho, by simp [HasPart, OpenTree.addPart]⟩
  | unquoted h ho => exact ⟨.unquoted h ho, by simp [HasPart, OpenTree.addPart]⟩
  | «variable» h ho => exact ⟨.variable h ho, by simp [HasPart, OpenTree.addPart]⟩
  | _ => cases hc

theorem nested_addArgument {c : Context} {cs : List Context} {os : List OpenTree} (h : Nested (c :: cs) os)
    (hc : takesArguments c) (argument : Argument) :
    Nested (c :: cs) (OpenTree.addArgument argument os) ∧ HasPart (OpenTree.addArgument argument os) := by
  cases h with
  | call => exact ⟨.call, by simp [HasPart, OpenTree.addArgument]⟩
  | group h ho => exact ⟨.group h ho, by simp [HasPart, OpenTree.addArgument]⟩
  | referenceCall h ho => exact ⟨.referenceCall h ho, by simp [HasPart, OpenTree.addArgument]⟩
  | _ => cases hc

/-! ### Tokens that are taken -/

/-- Builder and outline take the tokens, and stand where the scanner stands behind them. -/
def Takes (b : Builder) (o : Outline) (ts : List Token) (cs : List Context) : Prop :=
  ∃ b' o', b.feedAll ts = .ok b' ∧ o.run ts = .ok o' ∧ Tracks cs b'.opened o'

theorem takes_nil {b : Builder} {o : Outline} {cs : List Context} (h : Tracks cs b.opened o) : Takes b o [] cs :=
  ⟨b, o, rfl, rfl, h⟩

theorem takes_cons {b b' : Builder} {o o' : Outline} {t : Token} {ts : List Token} {cs : List Context}
    (hb : b.feed? t = some b') (ho : o.next? t.lexeme = some o') (h : Takes b' o' ts cs) : Takes b o (t :: ts) cs := by
  obtain ⟨b₁, o₁, hf, hr, ht⟩ := h
  refine ⟨b₁, o₁, ?_, ?_, ht⟩
  · rw [Builder.feedAll, hb]
    exact hf
  · rw [Outline.run, ho]
    exact hr

/-- One token that leaves the outline inside the same parentheses. -/
theorem takes_inside {b d : Builder} {n : Nat} {t : Token} {cs : List Context} (hb : b.feed? t = some d)
    (ho : (Outline.inside n).next? t.lexeme = some (.inside n)) (h : Nested cs d.opened) (hp : HasPart d.opened)
    (hn : openLists cs = n + 1) : Takes b (.inside n) [t] cs :=
  takes_cons hb ho (takes_nil (.inside h hp hn))

/-- The lexemes that begin a part. -/
def beginsPart : Lexeme → Bool
  | .text _ | .variableOpen _ | .commandOpen => true
  | _ => false

theorem next?_part {l : Lexeme} (n : Nat) (h : beginsPart l) : (Outline.inside n).next? l = some (.inside n) := by
  cases l with
  | text | variableOpen | commandOpen => cases n <;> rfl
  | _ => cases h

/-- Where parts are taken, the beginning of a part is. -/
theorem feed?_part {c : Context} {cs : List Context} {os os' : List OpenTree} {done : List Invocation} {t : Token}
    (h : Nested (c :: cs) os) (hc : takesParts c) (hl : beginsPart t.lexeme) (ht : OpenTree.feedPart t os = some os') :
    (Builder.mk done os).feed? t = some ⟨done, os'⟩ := by
  obtain ⟨l, p, q⟩ := t
  cases h with
  | quoted | unquoted | «variable» =>
    cases l with
    | text | variableOpen | commandOpen => cases ht; rfl
    | _ => cases hl
  | _ => cases hc

theorem feedArgument_part {os : List OpenTree} {t : Token} (h : beginsPart t.lexeme) :
    OpenTree.feedArgument t os = OpenTree.feedPart t (.unquoted [] :: os) := by
  obtain ⟨l, p, q⟩ := t
  cases l with
  | text | variableOpen | commandOpen => rfl
  | _ => cases h

/-- Where arguments are taken, every token but the closing parenthesis begins an argument. -/
theorem feed?_argument {c : Context} {cs : List Context} {os : List OpenTree} {t : Token} (done : List Invocation)
    (h : Nested (c :: cs) os) (hc : takesArguments c) (ht : t.lexeme ≠ .rightParen) :
    (Builder.mk done os).feed? t = (OpenTree.feedArgument t os).map (Builder.mk done) := by
  obtain ⟨l, p, q⟩ := t
  cases h with
  | call | group | referenceCall =>
    cases l with
    | rightParen => exact absurd rfl ht
    | _ => rfl
  | _ => cases hc

/-- What the scanner reads as the next part: a reference that it opens, or text. -/
theorem stepPart_moved {kind : PartKind} {c : Cursor} {cs : List Context} {ts : List Token} {next : ScanState}
    (h : ScanState.stepPart kind c cs = .moved ts next) :
    (∃ name p q r listed, ts = [⟨.commandOpen, c.position, p⟩, ⟨.name name, p, q⟩, ⟨.leftParen, q, r⟩] ∧
      next.contexts = .arguments listed (some c.position) :: cs) ∨
    (∃ space p, ts = [⟨.variableOpen space, c.position, p⟩] ∧ next.contexts = .variable c.position :: cs) ∨
    (∃ text p, ts = [⟨.text text, c.position, p⟩] ∧ next.contexts = cs) := by
  unfold ScanState.stepPart at h
  split at h
  · cases h
    exact .inl ⟨_, _, _, _, _, rfl, rfl⟩
  · split at h
    · cases h
      exact .inr (.inl ⟨_, _, rfl, rfl⟩)
    · split at h
      · cases h
        exact .inr (.inr ⟨_, _, rfl, rfl⟩)
      · cases h

/-- The tokens of a part are taken where parts are: the first begins it, the others follow. -/
theorem takes_part {kind : PartKind} {c : Cursor} {d : Context} {ds : List Context} {os : List OpenTree} {n : Nat}
    {ts : List Token} {next : ScanState} (done : List Invocation) (hN : Nested (d :: ds) os) (hd : takesParts d)
    (hn : openLists (d :: ds) = n + 1) (h : ScanState.stepPart kind c (d :: ds) = .moved ts next) :
    ∃ t ts' os', ts = t :: ts' ∧ beginsPart t.lexeme ∧ OpenTree.feedPart t os = some os' ∧
      Takes ⟨done, os'⟩ (.inside n) ts' next.contexts := by
  rcases stepPart_moved h with ⟨name, p, q, r, listed, rfl, hc⟩ | ⟨space, p, rfl, hc⟩ | ⟨text, p, rfl, hc⟩
  · refine ⟨_, _, _, rfl, rfl, rfl, ?_⟩
    rw [hc]
    -- the name and the parenthesis of the reference open one more list of arguments
    have hname : (Outline.inside n).next? (.name name) = some (.inside n) := by cases n <;> rfl
    have hparen : (Outline.inside n).next? .leftParen = some (.inside (n + 1)) := by cases n <;> rfl
    refine takes_cons rfl hname (takes_cons rfl hparen (takes_nil (.inside (.referenceCall hN hd) ?_ ?_)))
    · simp [HasPart]
    · rw [openLists, List.countP_cons_of_pos rfl]
      exact congrArg (· + 1) hn
  · refine ⟨_, _, _, rfl, rfl, rfl, takes_nil ?_⟩
    rw [hc]
    refine .inside (.variable hN hd) (by simp [HasPart]) ?_
    rw [openLists, List.countP_cons_of_neg (by simp [takesArguments])]
    exact hn
  · refine ⟨_, _, _, rfl, rfl, rfl, takes_nil ?_⟩
    obtain ⟨hN', hp⟩ := nested_addPart hN hd (.text c.position text)
    rw [hc]
    exact .inside hN' hp hn

/-! ### One step of the scanner -/

/-- A token out of place: a name behind a name, or text, which has no blank and no `#` in it, outside all parentheses. -/
def IsStray (o : Outline) (t : Token) : Prop :=
  (o = .named ∧ ∃ name, t.lexeme = .name name) ∨
    (o = .between ∨ o = .named) ∧
      ∃ c cs, t.lexeme = .text (String.ofList (c :: cs)) ∧ ∀ x ∈ c :: cs, isBlank x = false ∧ x ≠ '#'

theorem IsStray.next?_eq_none {o : Outline} {t : Token} (h : IsStray o t) : o.next? t.lexeme = none := by
  rcases h with ⟨rfl, name, hl⟩ | ⟨rfl | rfl, c, cs, hl, -⟩ <;> rw [hl] <;> rfl

/-- The only token of a step is refused, and builder and outline would have taken the same ones in its place. -/
def Refuses (b : Builder) (o : Outline) (ts : List Token) : Prop :=
  ∃ t, ts = [t] ∧ b.feed? t = none ∧ b.expected = o.expected ∧ IsStray o t

/-- What the scanner reads between calls. -/
theorem stepTop_moved {c : Cursor} {ts : List Token} {next : ScanState} (h : ScanState.stepTop c = .moved ts next) :
    ∃ t, ts = [t] ∧ ((∃ name, t.lexeme = .name name ∧ next.contexts = [.command]) ∨
      ∃ x r, t.lexeme = .text (String.ofList (x :: r)) ∧ ∀ y ∈ x :: r, isBlank y = false ∧ y ≠ '#') := by
  unfold ScanState.stepTop at h
  split at h
  · cases h
  · rename_i c' hk
    split at h
    · cases h
    · rename_i x r hr
      split at h
      · cases h
        exact ⟨_, rfl, .inl ⟨_, rfl, rfl⟩⟩
      · cases h
        refine ⟨_, rfl, .inr ⟨x, _, rfl, ?_⟩⟩
        intro y hy
        rcases List.mem_cons.1 hy with rfl | hy
        · exact (skipSeparation_ok _ _ hk).2 y r hr
        · simpa using List.all_eq_true.1 List.all_takeWhile y hy

/-- Between calls, a name is taken. -/
theorem takes_stepTop {c : Cursor} {b : Builder} {ts : List Token} {next : ScanState} (hb : b.opened = [])
    (hs : ScanState.stepTop c = .moved ts next) : Takes b .between ts next.contexts ∨ Refuses b .between ts := by
  obtain ⟨done, os⟩ := b
  cases hb
  obtain ⟨⟨l, p, q⟩, rfl, ⟨name, rfl, hc⟩ | ⟨x, r, rfl, htext⟩⟩ := stepTop_moved hs
  · rw [hc]
    exact .inl (takes_cons rfl rfl (takes_nil .command))
  · exact .inr ⟨_, rfl, rfl, rfl, .inr ⟨.inl rfl, x, r, rfl, htext⟩⟩

/-- Behind a name that no parenthesis followed, nothing is taken. -/
theorem refuses_stepTop {c : Cursor} {b : Builder} {name : String} {start : Position} {ts : List Token}
    {next : ScanState} (hb : b.opened = [.named name start]) (hs : ScanState.stepTop c = .moved ts next) :
    Refuses b .named ts := by
  obtain ⟨done, os⟩ := b
  cases hb
  obtain ⟨⟨l, p, q⟩, rfl, ⟨found, rfl, -⟩ | ⟨x, r, rfl, htext⟩⟩ := stepTop_moved hs
  · exact ⟨_, rfl, rfl, rfl, .inl ⟨rfl, found, rfl⟩⟩
  · exact ⟨_, rfl, rfl, rfl, .inr ⟨.inr rfl, x, r, rfl, htext⟩⟩

/-- No parenthesis follows a name: the scanner forgets it, but the builder does not. -/
structure Forgets (s : ScanState) (ts : List Token) (next : ScanState) (b : Builder) (o : Outline) : Prop where
  contexts : s.contexts = [.command]
  tokens : ts = []
  next_contexts : next.contexts = []
  skipped : skipSeparation s.cursor = .ok next.cursor
  outline : o = .named
  opened : ∃ name start, b.opened = [.named name start]

theorem takes_stepCommand {s next : ScanState} {outer : List Context} {b : Builder} {o : Outline} {ts : List Token}
    (hc : s.contexts = .command :: outer) (h : Tracks (.command :: outer) b.opened o)
    (hs : ScanState.stepCommand s.cursor outer = .moved ts next) :
    (Takes b o ts next.contexts ∧ ts ≠ []) ∨ Forgets s ts next b o := by
  obtain ⟨done, os⟩ := b
  cases h with
  | inside h => cases h
  | @command name start =>
    unfold ScanState.stepCommand at hs
    split at hs
    · cases hs
    · rename_i hk
      split at hs
      · cases hs
        exact .inl ⟨takes_cons rfl rfl (takes_nil (.inside .call (by simp [HasPart]) rfl)), by simp⟩
      · cases hs
        exact .inr ⟨hc, rfl, rfl, hk, rfl, name, start, rfl⟩

/-- The closing parenthesis of a list of arguments. -/
theorem takes_rightParen {p : Position} {reference : Option Position} {outer : List Context} {os : List OpenTree}
    {done : List Invocation} {n : Nat} {t : Token} : Nested (.arguments p reference :: outer) os →
    openLists (.arguments p reference :: outer) = n + 1 → t.lexeme = .rightParen →
    Takes ⟨done, os⟩ (.inside n) [t] (match reference with | some p => .closing p :: outer | none => outer) := by
  intro hN hn ht
  obtain ⟨l, start, stop⟩ := t
  cases ht
  rw [openLists, List.countP_cons_of_pos rfl] at hn
  cases hN with
  | call =>
    cases hn
    exact takes_cons rfl rfl (takes_nil .between)
  | group hN hc =>
    obtain ⟨hN', hp⟩ := nested_addArgument hN hc (.group _ _ start)
    obtain ⟨m, hm⟩ := openLists_pos hN
    obtain rfl : n = m + 1 := by rw [openLists] at hm; omega
    exact takes_cons rfl rfl (takes_nil (.inside hN' hp hm))
  | referenceCall hN hc =>
    obtain ⟨m, hm⟩ := openLists_pos hN
    obtain rfl : n = m + 1 := by rw [openLists] at hm; omega
    refine takes_cons rfl rfl (takes_nil (.inside (.referenceListed hN hc) (by simp [HasPart]) ?_))
    rw [openLists, List.countP_cons_of_neg (by simp [takesArguments])]
    exact hm

theorem takes_stepArguments {c : Cursor} {p : Position} {reference : Option Position} {outer : List Context}
    {b : Builder} {o : Outline} {ts : List Token} {next : ScanState}
    (h : Tracks (.arguments p reference :: outer) b.opened o)
    (hs : ScanState.stepArguments c p reference outer = .moved ts next) : Takes b o ts next.contexts := by
  obtain ⟨done, os⟩ := b
  cases h with
  | @inside _ _ n hN hp hn =>
    simp only at hN
    unfold ScanState.stepArguments at hs
    split at hs
    · cases hs
    · split at hs
      · cases hs
      · split at hs
        · cases hs
          refine takes_rightParen hN hn ?_
          rfl
        · split at hs
          · cases hs
            have hparen : (Outline.inside n).next? .leftParen = some (.inside (n + 1)) := by cases n <;> rfl
            refine takes_cons (feed?_argument done hN rfl (by simp)) hparen
              (takes_nil (.inside (.group hN rfl) (by simp [HasPart]) ?_))
            rw [openLists, List.countP_cons_of_pos rfl]
            exact congrArg (· + 1) hn
          · split at hs
            · cases hs
              refine takes_inside (feed?_argument done hN rfl (by simp)) (by cases n <;> rfl) (.quoted hN rfl)
                (by simp [HasPart]) ?_
              simpa [openLists, takesArguments] using hn
            · split at hs
              · split at hs
                · cases hs
                  obtain ⟨hN', hp'⟩ := nested_addArgument hN rfl (.bracket _ _)
                  exact takes_inside (feed?_argument done hN rfl (by simp)) (by cases n <;> rfl) hN' hp' hn
                · cases hs
              · have hN' : Nested (.unquoted :: .arguments p reference :: outer) (.unquoted [] :: os) := .unquoted hN rfl
                obtain ⟨t, ts', os', rfl, hl, ht, hT⟩ := takes_part done hN' rfl
                  (by simpa [openLists, takesArguments] using hn) hs
                have hb : (Builder.mk done os).feed? t = some ⟨done, os'⟩ := by
                  rw [feed?_argument done hN rfl (by intro h; rw [h] at hl; cases hl), feedArgument_part hl, ht]
                  rfl
                exact takes_cons hb (next?_part n hl) hT

/-- The token that ends a run closes its tree. -/
theorem takes_runEnd {d : Context} {ds : List Context} {b : Builder} {o : Outline} {t : Token}
    (h : Tracks (d :: ds) b.opened o)
    (ht : (d, t.lexeme) = (.unquoted, .argumentEnd) ∨ (∃ p, (d, t.lexeme) = (.quoted p, .quote)) ∨
      (∃ p, (d, t.lexeme) = (.variable p, .referenceClose)) ∨ ∃ p, (d, t.lexeme) = (.closing p, .referenceClose)) :
    Takes b o [t] ds := by
  obtain ⟨done, os⟩ := b
  obtain ⟨l, start, stop⟩ := t
  cases h with
  | command => simp at ht
  | @inside _ _ n hN hp hn =>
    cases hN with
    | call | group | referenceCall => simp at ht
    | quoted hN hc =>
      obtain rfl : l = .quote := by simpa using ht
      obtain ⟨hN', hp'⟩ := nested_addArgument hN hc (.quoted _ _)
      refine takes_inside (d := ⟨done, _⟩) rfl (by cases n <;> rfl) hN' hp' ?_
      simpa [openLists, takesArguments] using hn
    | @unquoted _ _ os parts hN hc =>
      obtain rfl : l = .argumentEnd := by simpa using ht
      cases hr : parts.reverse with
      | nil =>
        obtain rfl : parts = [] := by simpa using hr
        exact absurd rfl (hp os)
      | cons first others =>
        obtain ⟨hN', hp'⟩ := nested_addArgument hN hc (.unquoted first others)
        have hf : (Builder.mk done (.unquoted parts :: os)).feed? ⟨.argumentEnd, start, stop⟩ =
            some ⟨done, OpenTree.addArgument (.unquoted first others) os⟩ := by
          simp only [Builder.feed?, hr]
        refine takes_inside hf (by cases n <;> rfl) hN' hp' ?_
        simpa [openLists, takesArguments] using hn
    | «variable» hN hc =>
      obtain rfl : l = .referenceClose := by simpa using ht
      obtain ⟨hN', hp'⟩ := nested_addPart hN hc (.variable _ _ _)
      refine takes_inside (d := ⟨done, _⟩) rfl (by cases n <;> rfl) hN' hp' ?_
      simpa [openLists, takesArguments] using hn
    | referenceListed hN hc =>
      obtain rfl : l = .referenceClose := by simpa using ht
      obtain ⟨hN', hp'⟩ := nested_addPart hN hc (.command _ _ _)
      refine takes_inside (d := ⟨done, _⟩) rfl (by cases n <;> rfl) hN' hp' ?_
      simpa [openLists, takesArguments] using hn

/-- Inside a run, the tokens of the next part are taken. -/
theorem takes_stepPart {kind : PartKind} {c : Cursor} {d : Context} {ds : List Context} {b : Builder} {o : Outline}
    {ts : List Token} {next : ScanState} (h : Tracks (d :: ds) b.opened o) (hd : takesParts d)
    (hs : ScanState.stepPart kind c (d :: ds) = .moved ts next) : Takes b o ts next.contexts := by
  obtain ⟨done, os⟩ := b
  cases h with
  | command => cases hd
  | @inside _ _ n hN hp hn =>
    obtain ⟨t, ts', os', rfl, hl, ht, hT⟩ := takes_part done hN hd hn hs
    exact takes_cons (feed?_part hN hd hl ht) (next?_part n hl) hT

/-- One step of the scanner: its tokens are taken, or it forgets a name, or its only token is refused. -/
theorem takes_step {s next : ScanState} {b : Builder} {o : Outline} {ts : List Token}
    (h : Tracks s.contexts b.opened o) (hs : s.step = .moved ts next) :
    (Takes b o ts next.contexts ∧ ∀ outer, s.contexts = .command :: outer → ts ≠ []) ∨ Forgets s ts next b o ∨
      s.contexts = [] ∧ Refuses b o ts := by
  obtain ⟨c, cs⟩ := s
  simp only at h
  cases cs with
  | nil =>
    obtain ⟨hb, rfl⟩ : b.opened = [] ∧ o = .between := by
      generalize b.opened = os at h
      cases h with
      | between => exact ⟨rfl, rfl⟩
      | inside h => cases h
    rcases takes_stepTop hb hs with hT | hR
    · exact .inl ⟨hT, by simp⟩
    · exact .inr (.inr ⟨rfl, hR⟩)
  | cons d outer =>
    by_cases hd : d = .command
    · subst hd
      rcases takes_stepCommand rfl h hs with ⟨hT, hts⟩ | hF
      · exact .inl ⟨hT, fun _ _ => hts⟩
      · exact .inr (.inl hF)
    · left
      refine ⟨?_, fun _ hc => absurd (List.cons.inj hc).1 hd⟩
      unfold ScanState.step at hs
      cases d with
      | command => exact absurd rfl hd
      | arguments p reference => exact takes_stepArguments h hs
      | unquoted =>
        simp only at hs
        split at hs
        · cases hs
          exact takes_runEnd h (.inl rfl)
        · split at hs
          · cases hs
            exact takes_runEnd h (.inl rfl)
          · exact takes_stepPart h rfl hs
      | quoted p =>
        simp only at hs
        split at hs
        · cases hs
        · split at hs
          · cases hs
            exact takes_runEnd h (.inr (.inl ⟨p, rfl⟩))
          · exact takes_stepPart h rfl hs
      | «variable» p =>
        simp only at hs
        split at hs
        · cases hs
        · split at hs
          · cases hs
            exact takes_runEnd h (.inr (.inr (.inl ⟨p, rfl⟩)))
          · exact takes_stepPart h rfl hs
      | closing p =>
        simp only at hs
        split at hs
        · cases hs
        · split at hs
          · cases hs
            exact takes_runEnd h (.inr (.inr (.inr ⟨p, rfl⟩)))
          · cases hs

/-! ### All tokens of a text -/

theorem contexts_of_finished {s : ScanState} (h : s.step = .finished) : s.contexts = [] := by
  obtain ⟨c, cs⟩ := s
  unfold ScanState.step at h
  cases cs with
  | nil => rfl
  | cons d outer =>
    exfalso
    cases d with
    | command =>
      simp only [ScanState.stepCommand] at h
      split at h
      · cases h
      · split at h <;> cases h
    | arguments p reference =>
      simp only [ScanState.stepArguments, ScanState.stepPart, ScanState.emit] at h
      repeat' split at h
      all_goals cases h
    | _ =>
      simp only [ScanState.stepPart, ScanState.emit] at h
      repeat' split at h
      all_goals cases h

/-- At the end of a text nothing is open, unless a name is. -/
def Ends (os : List OpenTree) (o : Outline) : Prop :=
  (os = [] ∧ o = .between) ∨ (∃ name start, os = [.named name start]) ∧ o = .named

/-- Builder and outline are stopped by the same token. -/
def Stopped (b : Builder) (o : Outline) (ts : List Token) : Prop :=
  ∃ o' t, b.feedAll ts = .error (t, o'.expected) ∧ o.run ts = .error (o', t) ∧ IsStray o' t

theorem Refuses.stopped {b : Builder} {o : Outline} {ts : List Token} (h : Refuses b o ts) (us : List Token) :
    Stopped b o (ts ++ us) := by
  obtain ⟨t, rfl, hb, he, hstray⟩ := h
  refine ⟨o, t, ?_, ?_, hstray⟩
  · simp only [List.singleton_append, Builder.feedAll, hb, he]
  · simp only [List.singleton_append, Outline.run, hstray.next?_eq_none]

/-- Behind a name that no parenthesis followed, no token is taken. -/
theorem refuses_forgotten {s next : ScanState} {b : Builder} {name : String} {start : Position} {ts : List Token}
    (hc : s.contexts = []) (hb : b.opened = [.named name start]) (hs : s.step = .moved ts next) :
    Refuses b .named ts := by
  obtain ⟨c, cs⟩ := s
  cases hc
  exact refuses_stepTop hb hs

/-- So nothing but the end of the text can be there. -/
theorem scan_forgotten {s : ScanState} {b : Builder} {name : String} {start : Position} (hc : s.contexts = [])
    (hb : b.opened = [.named name start]) : s.scan.tokens = [] ∨ Stopped b .named s.scan.tokens := by
  cases hs : s.step with
  | finished => exact .inl (by rw [ScanState.scan_finished hs])
  | failed fault p => exact .inl (by rw [ScanState.scan_failed hs])
  | moved ts next =>
    rw [ScanState.scan_moved hs]
    exact .inr ((refuses_forgotten hc hb hs).stopped _)

section Bounded

variable (fits : ScanState → Bool)

theorem scanWithin_forgotten {s : ScanState} {b : Builder} {name : String} {start : Position} (hc : s.contexts = [])
    (hb : b.opened = [.named name start]) :
    (s.scanWithin fits).tokens = [] ∨ Stopped b .named (s.scanWithin fits).tokens := by
  cases hfits : fits s with
  | false => exact .inl (by rw [ScanState.scanWithin_exhausted hfits])
  | true =>
    cases hs : s.step with
    | finished => exact .inl (by rw [ScanState.scanWithin_finished hfits hs])
    | failed fault p => exact .inl (by rw [ScanState.scanWithin_failed hfits hs])
    | moved ts next =>
      rw [ScanState.scanWithin_moved hfits hs]
      exact .inr ((refuses_forgotten hc hb hs).stopped _)

/-- Builder and outline go together to the last token that was scanned, or are both stopped by the same one. -/
theorem run_scanWithin (s : ScanState) : ∀ {b : Builder} {o : Outline}, Tracks s.contexts b.opened o →
    (∃ b' o', b.feedAll (s.scanWithin fits).tokens = .ok b' ∧ o.run (s.scanWithin fits).tokens = .ok o' ∧
      ((s.scanWithin fits).ending = .finished → Ends b'.opened o')) ∨ Stopped b o (s.scanWithin fits).tokens := by
  induction s using ScanState.scanWithin.induct fits with
  | case1 s hfits hs =>
    intro b o h
    rw [ScanState.scanWithin_finished hfits hs]
    refine .inl ⟨b, o, rfl, rfl, fun _ => ?_⟩
    rw [contexts_of_finished hs] at h
    generalize b.opened = os at h
    cases h with
    | between => exact .inl ⟨rfl, rfl⟩
    | inside h => cases h
  | case2 s hfits fault p hs =>
    intro b o h
    rw [ScanState.scanWithin_failed hfits hs]
    exact .inl ⟨b, o, rfl, rfl, fun hf => by cases hf⟩
  | case3 s hfits ts next hs ih =>
    intro b o h
    rw [ScanState.scanWithin_moved hfits hs]
    rcases takes_step h hs with ⟨⟨b₁, o₁, hb, ho, ht⟩, -⟩ | hF | ⟨-, hR⟩
    · simp only [Stopped, feedAll_append hb, Outline.run_append ho]
      exact ih ht
    · obtain ⟨name, start, hopen⟩ := hF.opened
      obtain rfl := hF.outline
      obtain rfl := hF.tokens
      rcases scanWithin_forgotten fits hF.next_contexts hopen with hnone | hstop
      · simp only [List.nil_append, hnone]
        exact .inl ⟨b, .named, rfl, rfl, fun _ => .inr ⟨⟨name, start, hopen⟩, rfl⟩⟩
      · exact .inr hstop
    · exact .inr (hR.stopped _)
  | case4 s hfits =>
    intro b o h
    rw [ScanState.scanWithin_exhausted (Bool.eq_false_iff.2 hfits)]
    exact .inl ⟨b, o, rfl, rfl, fun hf => by cases hf⟩

end Bounded

/-! ### Outside all parentheses -/

/-- The tokens outside all parentheses, each with those behind it. Of the parentheses around the first token, `depth`
are open. -/
def topLevel : Nat → List Token → List (Token × List Token)
  | _, [] => []
  | 0, t :: ts => (t, ts) :: topLevel (if t.lexeme = .leftParen then 1 else 0) ts
  | depth + 1, t :: ts =>
    topLevel (if t.lexeme = .leftParen then depth + 2 else if t.lexeme = .rightParen then depth else depth + 1) ts

def BeginsWithParen (ts : List Token) : Prop := ∃ t us, ts = t :: us ∧ t.lexeme = .leftParen

/-- No text, and no name unless a parenthesis follows. -/
def IsPlaced (x : Token × List Token) : Prop :=
  (∀ text, x.1.lexeme ≠ .text text) ∧ ∀ name, x.1.lexeme = .name name → BeginsWithParen x.2

/-- The parentheses that are open at a place of the outline. -/
def Outline.depth : Outline → Nat
  | between | named => 0
  | inside n => n + 1

theorem topLevel_inside {n : Nat} {t : Token} {o : Outline} (h : (Outline.inside n).next? t.lexeme = some o)
    (ts : List Token) : topLevel (n + 1) (t :: ts) = topLevel o.depth ts ∧ o ≠ .named := by
  obtain ⟨l, p, q⟩ := t
  cases l <;> cases n <;> cases h <;> simp [topLevel, Outline.depth]

/-- An outline that is followed to its end, and not to a name, has every token outside in its place. -/
theorem isPlaced_of_run {o o' : Outline} {ts : List Token} (h : o.run ts = .ok o') (hn : o' ≠ .named) :
    (∀ x ∈ topLevel o.depth ts, IsPlaced x) ∧ (o = .named → BeginsWithParen ts) := by
  induction ts generalizing o with
  | nil =>
    cases h
    exact ⟨by simp [topLevel], fun ho => absurd ho hn⟩
  | cons t ts ih =>
    rw [Outline.run] at h
    split at h
    · rename_i o₁ ho
      obtain ⟨hall, hparen⟩ := ih h
      cases o with
      | between =>
        obtain ⟨l, p, q⟩ := t
        cases l with
        | name name =>
          cases ho
          refine ⟨?_, by simp⟩
          simp only [Outline.depth, topLevel, List.forall_mem_cons]
          exact ⟨⟨by simp, fun _ _ => hparen rfl⟩, hall⟩
        | _ => cases ho
      | named =>
        obtain ⟨l, p, q⟩ := t
        cases l with
        | leftParen =>
          cases ho
          refine ⟨?_, fun _ => ⟨_, _, rfl, rfl⟩⟩
          simp only [Outline.depth, topLevel, List.forall_mem_cons]
          exact ⟨⟨by simp, by simp⟩, hall⟩
        | _ => cases ho
      | inside n =>
        refine ⟨?_, by simp⟩
        rw [Outline.depth, (topLevel_inside ho ts).1]
        exact hall
    · cases h

/-- If every token outside is in its place, then none that is stray stops the outline, and no name ends it. -/
theorem run_of_isPlaced {o : Outline} {ts : List Token} (h : ∀ x ∈ topLevel o.depth ts, IsPlaced x)
    (hn : o = .named → BeginsWithParen ts) :
    o.run ts ≠ .ok .named ∧ ∀ o' t, IsStray o' t → o.run ts ≠ .error (o', t) := by
  induction ts generalizing o with
  | nil =>
    refine ⟨fun ho => ?_, fun o' t _ ho => by cases ho⟩
    cases ho
    obtain ⟨t, us, ht, -⟩ := hn rfl
    cases ht
  | cons t ts ih =>
    have hstep : ∀ o₁, o.next? t.lexeme = some o₁ →
        (∀ x ∈ topLevel o₁.depth ts, IsPlaced x) ∧ (o₁ = .named → BeginsWithParen ts) := by
      intro o₁ ho
      cases o with
      | between =>
        simp only [Outline.depth, topLevel, List.forall_mem_cons] at h
        obtain ⟨l, p, q⟩ := t
        cases l with
        | name name =>
          cases ho
          exact ⟨h.2, fun _ => h.1.2 name rfl⟩
        | _ => cases ho
      | named =>
        simp only [Outline.depth, topLevel, List.forall_mem_cons] at h
        obtain ⟨l, p, q⟩ := t
        cases l with
        | leftParen =>
          cases ho
          exact ⟨h.2, by simp⟩
        | _ => cases ho
      | inside n =>
        obtain ⟨htop, hne⟩ := topLevel_inside ho ts
        rw [Outline.depth, htop] at h
        exact ⟨h, fun hb => absurd hb hne⟩
    rw [Outline.run]
    cases ho : o.next? t.lexeme with
    | some o₁ =>
      obtain ⟨hall, hparen⟩ := hstep o₁ ho
      exact ih hall hparen
    | none =>
      refine ⟨by simp, fun o' u hstray he => ?_⟩
      simp only [Except.error.injEq, Prod.mk.injEq] at he
      obtain ⟨rfl, rfl⟩ := he
      rcases hstray with ⟨rfl, name, hl⟩ | ⟨hout, c, cs, hl, -⟩
      · obtain ⟨v, us, hv, hl'⟩ := hn rfl
        cases hv
        rw [hl'] at hl
        cases hl
      · rcases hout with rfl | rfl <;> simp only [Outline.depth, topLevel, List.forall_mem_cons] at h <;>
          exact h.1.1 _ hl

end CommandScript.Scanning
