import CommandScript.Proofs.Grammar.Derivation
import CommandScript.Syntax.Parse

/-! What the builder builds is the tree of a derivation. Each open tree stands for a rule of which the first symbols
are derived; the tokens that the builder has taken are those of the complete calls and, outermost first, of the open
rules. One more token keeps this so. Once nothing is open, all tokens together have a derivation. -/

namespace CommandScript.Grammar

open Text Syntax

/-! ### Trees of derivations -/

/-- The bindings that a token names which opens a variable reference. -/
def TokenOf.space (t : TokenOf .variableOpen) : Namespace := .ofLabel (some t.token.lexeme.value)

mutual

def partTree : PartDerivation → Part
  | .text t => .text t.token.start t.token.lexeme.value
  | .variable opener parts _ => .variable opener.token.start opener.space (partTrees parts)
  | .command _ name _ arguments _ _ => .command name.token.start name.token.lexeme.value (argumentTrees arguments)

def partTrees : List PartDerivation → List Part
  | [] => []
  | part :: parts => partTree part :: partTrees parts

def argumentTree : ArgumentDerivation → Argument
  | .quoted opener parts _ => .quoted opener.token.start (partTrees parts)
  | .unquoted first others _ => .unquoted (partTree first) (partTrees others)
  | .bracket t => .bracket t.token.start t.token.lexeme.value
  | .group leftParen arguments rightParen =>
    .group leftParen.token.start (argumentTrees arguments) rightParen.token.start

def argumentTrees : List ArgumentDerivation → List Argument
  | [] => []
  | argument :: arguments => argumentTree argument :: argumentTrees arguments

end

/-- From the first character of the name to behind the closing parenthesis. -/
def CallDerivation.tree (d : CallDerivation) : Invocation :=
  ⟨d.name.token.lexeme.value, d.name.token.start, d.rightParen.token.stop, argumentTrees d.arguments⟩

theorem partTrees_eq_map (ps : List PartDerivation) : partTrees ps = ps.map partTree := by
  induction ps with
  | nil => rfl
  | cons p ps ih => rw [partTrees, ih, List.map_cons]

theorem argumentTrees_eq_map (as : List ArgumentDerivation) : argumentTrees as = as.map argumentTree := by
  induction as with
  | nil => rfl
  | cons a as ih => rw [argumentTrees, ih, List.map_cons]

theorem partsTokens_append (ps qs : List PartDerivation) :
    partsTokens (ps ++ qs) = partsTokens ps ++ partsTokens qs := by
  induction ps with
  | nil => rfl
  | cons p ps ih => simp [partsTokens, ih]

theorem argumentsTokens_append (as bs : List ArgumentDerivation) :
    argumentsTokens (as ++ bs) = argumentsTokens as ++ argumentsTokens bs := by
  induction as with
  | nil => rfl
  | cons a as ih => simp [argumentsTokens, ih]

/-! ### Open rules -/

/-- A rule of which some first symbols are derived. -/
inductive OpenDerivation where
  | named (name : TokenOf .name)
  | call (name : TokenOf .name) (leftParen : TokenOf .leftParen) (arguments : List ArgumentDerivation)
  | group (leftParen : TokenOf .leftParen) (arguments : List ArgumentDerivation)
  | quoted (opener : TokenOf .quote) (parts : List PartDerivation)
  | unquoted (parts : List PartDerivation)
  | variable (opener : TokenOf .variableOpen) (parts : List PartDerivation)
  | reference (opener : TokenOf .commandOpen)
  | referenceNamed (opener : TokenOf .commandOpen) (name : TokenOf .name)
  | referenceCall (opener : TokenOf .commandOpen) (name : TokenOf .name) (leftParen : TokenOf .leftParen)
      (arguments : List ArgumentDerivation)
  | referenceListed (opener : TokenOf .commandOpen) (name : TokenOf .name) (leftParen : TokenOf .leftParen)
      (arguments : List ArgumentDerivation) (rightParen : TokenOf .rightParen)

namespace OpenDerivation

def tokens : OpenDerivation → List Token
  | named name => [name.token]
  | call name leftParen arguments => name.token :: leftParen.token :: argumentsTokens arguments
  | group leftParen arguments => leftParen.token :: argumentsTokens arguments
  | quoted opener parts => opener.token :: partsTokens parts
  | unquoted parts => partsTokens parts
  | .variable opener parts => opener.token :: partsTokens parts
  | reference opener => [opener.token]
  | referenceNamed opener name => [opener.token, name.token]
  | referenceCall opener name leftParen arguments =>
    opener.token :: name.token :: leftParen.token :: argumentsTokens arguments
  | referenceListed opener name leftParen arguments rightParen =>
    opener.token :: name.token :: leftParen.token :: (argumentsTokens arguments ++ [rightParen.token])

/-- The open tree, whose children are kept last first. -/
def tree : OpenDerivation → OpenTree
  | named name => .named name.token.lexeme.value name.token.start
  | call name _ arguments => .call name.token.lexeme.value name.token.start (argumentTrees arguments).reverse
  | group leftParen arguments => .group leftParen.token.start (argumentTrees arguments).reverse
  | quoted opener parts => .quoted opener.token.start (partTrees parts).reverse
  | unquoted parts => .unquoted (partTrees parts).reverse
  | .variable opener parts => .variable opener.token.start opener.space (partTrees parts).reverse
  | reference _ => .reference
  | referenceNamed _ name => .referenceNamed name.token.start name.token.lexeme.value
  | referenceCall _ name _ arguments =>
    .referenceCall name.token.start name.token.lexeme.value (argumentTrees arguments).reverse
  | referenceListed _ name _ arguments _ =>
    .referenceListed name.token.start name.token.lexeme.value (argumentTrees arguments).reverse

/-- Whether the rule goes on with arguments. -/
def takesArguments : OpenDerivation → Bool
  | call .. | group .. | referenceCall .. => true
  | _ => false

/-- Whether the rule goes on with parts. -/
def takesParts : OpenDerivation → Bool
  | quoted .. | unquoted _ | .variable .. => true
  | _ => false

end OpenDerivation

/-- Open rules, innermost first, each of which stands where the one around it goes on. -/
def IsNested : List OpenDerivation → Prop
  | [] => True
  | .named _ :: outer | .call .. :: outer => outer = []
  | .group .. :: outer | .quoted .. :: outer | .unquoted _ :: outer =>
    (∃ o os, outer = o :: os ∧ o.takesArguments) ∧ IsNested outer
  | .variable .. :: outer | .reference _ :: outer | .referenceNamed .. :: outer | .referenceCall .. :: outer
  | .referenceListed .. :: outer => (∃ o os, outer = o :: os ∧ o.takesParts) ∧ IsNested outer

/-- The tokens of open rules, from the outermost inwards. -/
def openTokens (os : List OpenDerivation) : List Token := os.reverse.flatMap OpenDerivation.tokens

theorem openTokens_cons (o : OpenDerivation) (os : List OpenDerivation) :
    openTokens (o :: os) = openTokens os ++ o.tokens := by
  simp [openTokens]

/-! ### Adding to an open rule -/

/-- Open rules grow by tokens: their open trees become others, and the new ones are nested again. -/
def Grows (os : List OpenDerivation) (added : List Token) (opened : List OpenTree) : Prop :=
  ∃ os', opened = os'.map OpenDerivation.tree ∧ IsNested os' ∧ openTokens os' = openTokens os ++ added

theorem partTrees_concat (ps : List PartDerivation) (p : PartDerivation) :
    (partTrees (ps ++ [p])).reverse = partTree p :: (partTrees ps).reverse := by
  simp [partTrees_eq_map]

theorem argumentTrees_concat (as : List ArgumentDerivation) (a : ArgumentDerivation) :
    (argumentTrees (as ++ [a])).reverse = argumentTree a :: (argumentTrees as).reverse := by
  simp [argumentTrees_eq_map]

theorem partsTokens_concat (ps : List PartDerivation) (p : PartDerivation) :
    partsTokens (ps ++ [p]) = partsTokens ps ++ partTokens p := by
  simp [partsTokens_append, partsTokens]

theorem argumentsTokens_concat (as : List ArgumentDerivation) (a : ArgumentDerivation) :
    argumentsTokens (as ++ [a]) = argumentsTokens as ++ argumentTokens a := by
  simp [argumentsTokens_append, argumentsTokens]

theorem grows_addPart {o : OpenDerivation} {os : List OpenDerivation} (p : PartDerivation) (ho : o.takesParts)
    (h : IsNested (o :: os)) :
    Grows (o :: os) (partTokens p) (OpenTree.addPart (partTree p) ((o :: os).map OpenDerivation.tree)) := by
  match o, ho with
  | .quoted opener parts, _ =>
    exact ⟨.quoted opener (parts ++ [p]) :: os, by simp [OpenDerivation.tree, OpenTree.addPart, partTrees_concat], h,
      by simp [openTokens_cons, OpenDerivation.tokens, partsTokens_concat]⟩
  | .unquoted parts, _ =>
    exact ⟨.unquoted (parts ++ [p]) :: os, by simp [OpenDerivation.tree, OpenTree.addPart, partTrees_concat], h,
      by simp [openTokens_cons, OpenDerivation.tokens, partsTokens_concat]⟩
  | .variable opener parts, _ =>
    exact ⟨.variable opener (parts ++ [p]) :: os, by simp [OpenDerivation.tree, OpenTree.addPart, partTrees_concat], h,
      by simp [openTokens_cons, OpenDerivation.tokens, partsTokens_concat]⟩

theorem grows_addArgument {o : OpenDerivation} {os : List OpenDerivation} (a : ArgumentDerivation)
    (ho : o.takesArguments) (h : IsNested (o :: os)) :
    Grows (o :: os) (argumentTokens a) (OpenTree.addArgument (argumentTree a) ((o :: os).map OpenDerivation.tree)) := by
  match o, ho with
  | .call name leftParen arguments, _ =>
    exact ⟨.call name leftParen (arguments ++ [a]) :: os,
      by simp [OpenDerivation.tree, OpenTree.addArgument, argumentTrees_concat], h,
      by simp [openTokens_cons, OpenDerivation.tokens, argumentsTokens_concat]⟩
  | .group leftParen arguments, _ =>
    exact ⟨.group leftParen (arguments ++ [a]) :: os,
      by simp [OpenDerivation.tree, OpenTree.addArgument, argumentTrees_concat], h,
      by simp [openTokens_cons, OpenDerivation.tokens, argumentsTokens_concat]⟩
  | .referenceCall opener name leftParen arguments, _ =>
    exact ⟨.referenceCall opener name leftParen (arguments ++ [a]) :: os,
      by simp [OpenDerivation.tree, OpenTree.addArgument, argumentTrees_concat], h,
      by simp [openTokens_cons, OpenDerivation.tokens, argumentsTokens_concat]⟩

/-- A rule that is opened inside the others. -/
theorem grows_open {os : List OpenDerivation} (o : OpenDerivation) (h : IsNested (o :: os)) :
    Grows os o.tokens (o.tree :: os.map OpenDerivation.tree) :=
  ⟨o :: os, rfl, h, openTokens_cons o os⟩

/-! ### One more token -/

theorem grows_feedPart {t : Token} {o : OpenDerivation} {os : List OpenDerivation} {opened : List OpenTree}
    (ho : o.takesParts) (hn : IsNested (o :: os))
    (h : OpenTree.feedPart t ((o :: os).map OpenDerivation.tree) = some opened) : Grows (o :: os) [t] opened := by
  obtain ⟨lexeme, start, stop⟩ := t
  cases lexeme with
  | text value =>
    simp only [OpenTree.feedPart, Option.some.injEq] at h
    exact h ▸ grows_addPart (.text ⟨_, rfl⟩) ho hn
  | variableOpen space =>
    simp only [OpenTree.feedPart, Option.some.injEq] at h
    have ht : (OpenDerivation.variable ⟨⟨.variableOpen space, start, stop⟩, rfl⟩ []).tree = .variable start space [] := by
      simp [OpenDerivation.tree, TokenOf.space, Lexeme.value, partTrees]
    rw [← h, ← ht]
    exact grows_open _ ⟨⟨o, os, rfl, ho⟩, hn⟩
  | commandOpen =>
    simp only [OpenTree.feedPart, Option.some.injEq] at h
    exact h ▸ grows_open (.reference ⟨⟨.commandOpen, start, stop⟩, rfl⟩) ⟨⟨o, os, rfl, ho⟩, hn⟩
  | _ => simp [OpenTree.feedPart] at h

theorem grows_feedArgument {t : Token} {o : OpenDerivation} {os : List OpenDerivation} {opened : List OpenTree}
    (ho : o.takesArguments) (hn : IsNested (o :: os))
    (h : OpenTree.feedArgument t ((o :: os).map OpenDerivation.tree) = some opened) : Grows (o :: os) [t] opened := by
  obtain ⟨lexeme, start, stop⟩ := t
  cases lexeme with
  | leftParen =>
    simp only [OpenTree.feedArgument, Option.some.injEq] at h
    exact h ▸ grows_open (.group ⟨⟨.leftParen, start, stop⟩, rfl⟩ []) ⟨⟨o, os, rfl, ho⟩, hn⟩
  | quote =>
    simp only [OpenTree.feedArgument, Option.some.injEq] at h
    exact h ▸ grows_open (.quoted ⟨⟨.quote, start, stop⟩, rfl⟩ []) ⟨⟨o, os, rfl, ho⟩, hn⟩
  | bracket content =>
    simp only [OpenTree.feedArgument, Option.some.injEq] at h
    exact h ▸ grows_addArgument (.bracket ⟨_, rfl⟩) ho hn
  | _ =>
    -- the token begins an unquoted argument with its first part
    simp only [OpenTree.feedArgument] at h
    obtain ⟨os', hos, hn', ht⟩ := grows_feedPart (o := .unquoted []) rfl ⟨⟨o, os, rfl, ho⟩, hn⟩ h
    exact ⟨os', hos, hn', by simpa [openTokens_cons _ (o :: os), OpenDerivation.tokens, partsTokens] using ht⟩

/-- Closing the innermost rule completes an argument of the rule around it. -/
theorem grows_closeArgument {t : Token} {o : OpenDerivation} {os : List OpenDerivation} (a : ArgumentDerivation)
    (ha : argumentTokens a = o.tokens ++ [t]) (hn : (∃ o' os', os = o' :: os' ∧ o'.takesArguments) ∧ IsNested os) :
    Grows (o :: os) [t] (OpenTree.addArgument (argumentTree a) (os.map OpenDerivation.tree)) := by
  obtain ⟨⟨o', os', rfl, ho⟩, hn⟩ := hn
  obtain ⟨os₂, hos, hn₂, ht⟩ := grows_addArgument a ho hn
  exact ⟨os₂, hos, hn₂, by rw [ht, ha, openTokens_cons _ (o' :: os'), List.append_assoc]⟩

/-- Closing the innermost rule completes a part of the rule around it. -/
theorem grows_closePart {t : Token} {o : OpenDerivation} {os : List OpenDerivation} (p : PartDerivation)
    (hp : partTokens p = o.tokens ++ [t]) (hn : (∃ o' os', os = o' :: os' ∧ o'.takesParts) ∧ IsNested os) :
    Grows (o :: os) [t] (OpenTree.addPart (partTree p) (os.map OpenDerivation.tree)) := by
  obtain ⟨⟨o', os', rfl, ho⟩, hn⟩ := hn
  obtain ⟨os₂, hos, hn₂, ht⟩ := grows_addPart p ho hn
  exact ⟨os₂, hos, hn₂, by rw [ht, hp, openTokens_cons _ (o' :: os'), List.append_assoc]⟩

/-- The innermost rule goes on with one more of its own tokens. -/
theorem grows_replace {t : Token} {o : OpenDerivation} {os : List OpenDerivation} (o' : OpenDerivation)
    (ho : o'.tokens = o.tokens ++ [t]) (hn : IsNested (o' :: os)) :
    Grows (o :: os) [t] (o'.tree :: os.map OpenDerivation.tree) :=
  ⟨o' :: os, rfl, hn, by rw [openTokens_cons, openTokens_cons, ho, List.append_assoc]⟩

/-! ### The builder -/

/-- What the builder holds are the trees of complete calls and of open rules that together derive certain tokens. -/
def Derives (b : Builder) (ts : List Token) : Prop :=
  ∃ ds os, b.done = (ds.map CallDerivation.tree).reverse ∧ b.opened = os.map OpenDerivation.tree ∧ IsNested os ∧
    ts = scriptTokens ds ++ openTokens os

theorem derives_of_grows {ds : List CallDerivation} {os : List OpenDerivation} {t : Token} {opened : List OpenTree}
    (h : Grows os [t] opened) :
    Derives ⟨(ds.map CallDerivation.tree).reverse, opened⟩ (scriptTokens ds ++ openTokens os ++ [t]) := by
  obtain ⟨os', hos, hn, ht⟩ := h
  exact ⟨ds, os', rfl, hos, hn, by rw [ht, List.append_assoc]⟩

theorem derives_of_feedArgument {ds : List CallDerivation} {o : OpenDerivation} {os : List OpenDerivation} {t : Token}
    {b : Builder} (ho : o.takesArguments) (hn : IsNested (o :: os))
    (h : (OpenTree.feedArgument t ((o :: os).map OpenDerivation.tree)).map
      (fun opened => (⟨(ds.map CallDerivation.tree).reverse, opened⟩ : Builder)) = some b) :
    Derives b (scriptTokens ds ++ openTokens (o :: os) ++ [t]) := by
  obtain ⟨opened, hf, rfl⟩ := Option.map_eq_some_iff.1 h
  exact derives_of_grows (grows_feedArgument ho hn hf)

theorem derives_of_feedPart {ds : List CallDerivation} {o : OpenDerivation} {os : List OpenDerivation} {t : Token}
    {b : Builder} (ho : o.takesParts) (hn : IsNested (o :: os))
    (h : (OpenTree.feedPart t ((o :: os).map OpenDerivation.tree)).map
      (fun opened => (⟨(ds.map CallDerivation.tree).reverse, opened⟩ : Builder)) = some b) :
    Derives b (scriptTokens ds ++ openTokens (o :: os) ++ [t]) := by
  obtain ⟨opened, hf, rfl⟩ := Option.map_eq_some_iff.1 h
  exact derives_of_grows (grows_feedPart ho hn hf)

/-- One more token that the builder takes is derived with the others. -/
theorem Derives.feed {b b' : Builder} {ts : List Token} {t : Token} (h : Derives b ts) (hf : b.feed? t = some b') :
    Derives b' (ts ++ [t]) := by
  obtain ⟨ds, os, hd, ho, hn, rfl⟩ := h
  obtain ⟨done, opened⟩ := b
  simp only at hd ho
  subst hd ho
  obtain ⟨lexeme, start, stop⟩ := t
  match os with
  | [] =>
    cases lexeme with
    | name text =>
      cases hf
      exact derives_of_grows (grows_open (.named ⟨⟨.name text, start, stop⟩, rfl⟩) rfl)
    | _ => cases hf
  | .named name :: outer =>
    cases lexeme with
    | leftParen =>
      cases hf
      exact derives_of_grows (grows_replace (.call name ⟨⟨.leftParen, start, stop⟩, rfl⟩ []) rfl hn)
    | _ => cases hf
  | .call name leftParen as :: outer =>
    cases lexeme with
    | rightParen =>
      cases hf
      obtain rfl : outer = [] := hn
      refine ⟨ds ++ [⟨name, leftParen, as, ⟨⟨.rightParen, start, stop⟩, rfl⟩⟩], [], ?_, rfl, trivial, ?_⟩
      · simp [CallDerivation.tree]
      · simp [scriptTokens, callTokens, openTokens, OpenDerivation.tokens]
    | _ => exact derives_of_feedArgument rfl hn hf
  | .group leftParen as :: outer =>
    cases lexeme with
    | rightParen =>
      cases hf
      rw [List.reverse_reverse]
      exact derives_of_grows (grows_closeArgument (.group leftParen as ⟨⟨.rightParen, start, stop⟩, rfl⟩) rfl hn)
    | _ => exact derives_of_feedArgument rfl hn hf
  | .referenceCall opener name leftParen as :: outer =>
    cases lexeme with
    | rightParen =>
      cases hf
      exact derives_of_grows
        (grows_replace (.referenceListed opener name leftParen as ⟨⟨.rightParen, start, stop⟩, rfl⟩) rfl hn)
    | _ => exact derives_of_feedArgument rfl hn hf
  | .quoted opener ps :: outer =>
    cases lexeme with
    | quote =>
      cases hf
      rw [List.reverse_reverse]
      exact derives_of_grows (grows_closeArgument (.quoted opener ps ⟨⟨.quote, start, stop⟩, rfl⟩) rfl hn)
    | _ => exact derives_of_feedPart rfl hn hf
  | .unquoted ps :: outer =>
    cases lexeme with
    | argumentEnd =>
      cases ps with
      | nil => cases hf
      | cons p ps =>
        simp only [Builder.feed?, List.map_cons, OpenDerivation.tree, List.reverse_reverse, partTrees,
          Option.some.injEq] at hf
        cases hf
        refine derives_of_grows (grows_closeArgument (.unquoted p ps ⟨⟨.argumentEnd, start, stop⟩, rfl⟩) ?_ hn)
        simp [argumentTokens, OpenDerivation.tokens, partsTokens]
    | _ => exact derives_of_feedPart rfl hn hf
  | .variable opener ps :: outer =>
    cases lexeme with
    | referenceClose =>
      cases hf
      rw [List.reverse_reverse]
      exact derives_of_grows (grows_closePart (.variable opener ps ⟨⟨.referenceClose, start, stop⟩, rfl⟩) rfl hn)
    | _ => exact derives_of_feedPart rfl hn hf
  | .reference opener :: outer =>
    cases lexeme with
    | name text =>
      cases hf
      exact derives_of_grows (grows_replace (.referenceNamed opener ⟨⟨.name text, start, stop⟩, rfl⟩) rfl hn)
    | _ => cases hf
  | .referenceNamed opener name :: outer =>
    cases lexeme with
    | leftParen =>
      cases hf
      exact derives_of_grows
        (grows_replace (.referenceCall opener name ⟨⟨.leftParen, start, stop⟩, rfl⟩ []) rfl hn)
    | _ => cases hf
  | .referenceListed opener name leftParen as rightParen :: outer =>
    cases lexeme with
    | referenceClose =>
      cases hf
      rw [List.reverse_reverse]
      refine derives_of_grows
        (grows_closePart (.command opener name leftParen as rightParen ⟨⟨.referenceClose, start, stop⟩, rfl⟩) ?_ hn)
      simp [partTokens, OpenDerivation.tokens]
    | _ => cases hf

/-- Whatever tokens the builder has taken are derived by what it holds. -/
theorem Derives.feedAll {b b' : Builder} {us : List Token} (h : Derives b us) :
    ∀ {ts}, b.feedAll ts = .ok b' → Derives b' (us ++ ts) := by
  intro ts hf
  induction ts generalizing b us with
  | nil =>
    cases hf
    rwa [List.append_nil]
  | cons t ts ih =>
    rw [Builder.feedAll] at hf
    split at hf
    · rename_i b₁ hb
      rw [← List.singleton_append, ← List.append_assoc]
      exact ih (h.feed hb) hf
    · cases hf

/-- If the builder takes all tokens and leaves nothing open, they derive as a script, whose trees it has built. -/
theorem exists_derivation {ts : List Token} {b : Builder} (h : Builder.initial.feedAll ts = .ok b)
    (hb : b.opened = []) : ∃ ds, scriptTokens ds = ts ∧ b.done.reverse = ds.map CallDerivation.tree := by
  have hi : Derives Builder.initial [] := ⟨[], [], rfl, rfl, trivial, rfl⟩
  obtain ⟨ds, os, hd, ho, -, ht⟩ := hi.feedAll h
  rw [hb] at ho
  obtain rfl : os = [] := List.map_eq_nil_iff.1 ho.symm
  refine ⟨ds, ?_, by rw [hd, List.reverse_reverse]⟩
  simpa [openTokens] using ht.symm

end CommandScript.Grammar
