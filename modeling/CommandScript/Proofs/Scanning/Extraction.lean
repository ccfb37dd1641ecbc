import CommandScript.Proofs.Scanning.Calls
import CommandScript.Proofs.Scanning.Exchange
import CommandScript.Proofs.Scanning.Places

/-! One invocation taken out of a text. From the first character of its name to its closing parenthesis an invocation is
read as if nothing stood behind it, since that parenthesis is a border that nothing lies across. The builder keeps where
it began in the innermost tree that it has open, which only the closing parenthesis completes. -/

namespace CommandScript.Scanning

open Text Syntax

/-! ### Inside a call -/

/-- Whether an open tree is an invocation, and not a part of one. -/
def isInvocation : OpenTree → Bool
  | .named .. | .call .. => true
  | _ => false

/-- An invocation that begins at this place is open, and trees inside it. -/
inductive Inside (start : Position) : List OpenTree → Prop where
  | named {name : String} : Inside start [.named name start]
  | call {name : String} {arguments : List Argument} : Inside start [.call name start arguments]
  | within {x : OpenTree} {os : List OpenTree} (hx : isInvocation x = false) (h : Inside start os) :
    Inside start (x :: os)

section Inside

variable {start : Position} {os os' : List OpenTree}

theorem Inside.addPart (h : Inside start os) (part : Part) : Inside start (OpenTree.addPart part os) := by
  cases h with
  | named => exact .named
  | call => exact .call
  | @within x os hx h => cases x <;> exact .within hx h

theorem Inside.addArgument (h : Inside start os) (argument : Argument) :
    Inside start (OpenTree.addArgument argument os) := by
  cases h with
  | named => exact .named
  | call => exact .call
  | @within x os hx h => cases x <;> exact .within hx h

theorem Inside.feedPart (h : Inside start os) {t : Token} (ht : OpenTree.feedPart t os = some os') :
    Inside start os' := by
  unfold OpenTree.feedPart at ht
  split at ht
  · cases ht
    exact h.addPart _
  · cases ht
    exact .within rfl h
  · cases ht
    exact .within rfl h
  · cases ht

theorem Inside.feedArgument (h : Inside start os) {t : Token} (ht : OpenTree.feedArgument t os = some os') :
    Inside start os' := by
  unfold OpenTree.feedArgument at ht
  split at ht
  · cases ht
    exact .within rfl h
  · cases ht
    exact .within rfl h
  · cases ht
    exact h.addArgument _
  · exact Inside.feedPart (.within rfl h) ht

/-- A token inside an invocation leaves it open, or is the parenthesis that completes it. -/
theorem Inside.feed? {done : List Invocation} {b : Builder} {t : Token} (h : Inside start os)
    (ht : (Builder.mk done os).feed? t = some b) :
    (b.done = done ∧ Inside start b.opened) ∨
      t.lexeme = .rightParen ∧ ∃ i : Invocation, i.start = start ∧ i.stop = t.stop ∧ b = ⟨i :: done, []⟩ := by
  have harguments {os : List OpenTree} (h : Inside start os)
      (ht : (OpenTree.feedArgument t os).map (Builder.mk done) = some b) : b.done = done ∧ Inside start b.opened := by
    obtain ⟨os', hf, rfl⟩ := Option.map_eq_some_iff.1 ht
    exact ⟨rfl, h.feedArgument hf⟩
  have hparts {os : List OpenTree} (h : Inside start os)
      (ht : (OpenTree.feedPart t os).map (Builder.mk done) = some b) : b.done = done ∧ Inside start b.opened := by
    obtain ⟨os', hf, rfl⟩ := Option.map_eq_some_iff.1 ht
    exact ⟨rfl, h.feedPart hf⟩
  obtain ⟨l, p, q⟩ := t
  cases h with
  | named =>
    cases l with
    | leftParen =>
      cases ht
      exact .inl ⟨rfl, .call⟩
    | _ => cases ht
  | @call name arguments =>
    have hcall : Inside start [.call name start arguments] := .call
    cases l with
    | rightParen =>
      cases ht
      exact .inr ⟨rfl, _, rfl, rfl, rfl⟩
    | _ => exact .inl (harguments hcall ht)
  | @within x os hx h =>
    have hinside : Inside start (x :: os) := .within hx h
    cases x with
    | named | call => cases hx
    | group | referenceCall =>
      cases l with
      | rightParen =>
        cases ht
        first
          | exact .inl ⟨rfl, h.addArgument _⟩
          | exact .inl ⟨rfl, .within rfl h⟩
      | _ => exact .inl (harguments hinside ht)
    | quoted =>
      cases l with
      | quote =>
        cases ht
        exact .inl ⟨rfl, h.addArgument _⟩
      | _ => exact .inl (hparts hinside ht)
    | unquoted parts =>
      cases l with
      | argumentEnd =>
        simp only [Builder.feed?] at ht
        split at ht
        · cases ht
        · cases ht
          exact .inl ⟨rfl, h.addArgument _⟩
      | _ => exact .inl (hparts hinside ht)
    | «variable» =>
      cases l with
      | referenceClose =>
        cases ht
        exact .inl ⟨rfl, h.addPart _⟩
      | _ => exact .inl (hparts hinside ht)
    | reference | referenceNamed | referenceListed =>
      cases l with
      | name | leftParen | referenceClose =>
        first
          | (cases ht; done)
          | (cases ht; exact .inl ⟨rfl, .within rfl h⟩)
          | (cases ht; exact .inl ⟨rfl, h.addPart _⟩)
      | _ => cases ht

end Inside

theorem Inside.feedAll {start : Position} {ts : List Token} (hts : ∀ t ∈ ts, t.lexeme ≠ .rightParen) :
    ∀ {b b' : Builder}, Inside start b.opened → b.feedAll ts = .ok b' → b'.done = b.done ∧ Inside start b'.opened := by
  induction ts with
  | nil =>
    rintro b b' h ⟨⟩
    exact ⟨rfl, h⟩
  | cons t ts ih =>
    intro b b' h hb
    obtain ⟨ht, hts⟩ := List.forall_mem_cons.1 hts
    rw [Builder.feedAll] at hb
    split at hb
    · rename_i b₁ hfeed
      rcases h.feed? hfeed with ⟨hdone, h₁⟩ | ⟨hparen, -⟩
      · obtain ⟨hdone', h'⟩ := ih hts h₁ hb
        exact ⟨hdone'.trans hdone, h'⟩
      · exact absurd hparen ht
    · cases hb

/-! ### Up to the closing parenthesis -/

/-- A closing parenthesis is read by itself. -/
theorem Lexes.rightParen {p : Position} {contexts contexts' : List Context} {ps : List Piece} {rest : List Char}
    (h : Lexes p contexts ps rest contexts') :
    (∀ t ∈ tokensFrom p ps, t.lexeme ≠ .rightParen) ∨ ∃ t, tokensFrom p ps = [t] := by
  have hpart {kind : PartKind} {contexts : List Context} (h : LexesPart kind p contexts ps rest contexts') :
      ∀ t ∈ tokensFrom p ps, t.lexeme ≠ .rightParen := by
    cases h <;> simp [tokensFrom]
  cases h with
  | argument hr hx hb h => exact .inl (hpart h)
  | part hk hr hx h => exact .inl (hpart h)
  | forgotten => exact .inl (by simp [tokensFrom])
  | _ => exact .inr ⟨_, rfl⟩

/-- A step inside an invocation leaves it open, or reads the parenthesis that completes it. -/
theorem Inside.moves {start : Position} {s next : ScanState} {ts : List Token} {b b' : Builder}
    (h : Inside start b.opened) (hm : Moves s ts next) (hb : b.feedAll ts = .ok b') :
    (b'.done = b.done ∧ Inside start b'.opened) ∨
      ∃ i : Invocation, ∃ t, ts = [t] ∧ i.start = start ∧ i.stop = t.stop ∧ b' = ⟨i :: b.done, []⟩ := by
  obtain ⟨p, ps, -, -, rfl, hl⟩ := hm
  rcases hl.rightParen with hts | ⟨t, hts⟩
  · exact .inl (h.feedAll hts hb)
  · rw [hts, Builder.feedAll] at hb
    split at hb
    · rename_i b₁ hfeed
      cases hb
      rcases h.feed? hfeed with hinside | ⟨-, i, hi, hi', hdone⟩
      · exact .inl hinside
      · exact .inr ⟨i, t, hts, hi, hi', hdone⟩
    · cases hb

theorem Tracks.eq_nil_iff {cs : List Context} {os : List OpenTree} {o : Outline} (h : Tracks cs os o) :
    cs = [] ↔ os = [] := by
  cases h with
  | between => simp
  | command => simp
  | inside h => cases h <;> simp

theorem guarded_of_paren (cs d : List Char) : Guarded (cs ++ [')']) d := .inr ⟨')', by simp, by decide⟩

/-- Only a name that no parenthesis follows is left without a token. -/
theorem Moves.tokens_ne_nil {s next : ScanState} {ts : List Token} (h : Moves s ts next)
    (hne : ∀ outer, s.contexts = .command :: outer → ts ≠ []) : ts ≠ [] := by
  obtain ⟨p, ps, -, -, rfl, hl⟩ := h
  obtain ⟨c, contexts⟩ := s
  obtain ⟨c', contexts'⟩ := next
  have hpart {kind : PartKind} {contexts contexts' : List Context} {rest : List Char}
      (h : LexesPart kind p contexts ps rest contexts') : tokensFrom p ps ≠ [] := by
    cases h <;> simp [tokensFrom]
  simp only at hl hne
  cases hl with
  | forgotten => exact hne _ rfl
  | argument _ _ _ h => exact hpart h
  | part _ _ _ h => exact hpart h
  | _ => simp [tokensFrom]

/-- If only one list of arguments is open, it is that of the invocation. -/
theorem Tracks.exists_call {q start : Position} {os : List OpenTree} {o : Outline}
    (h : Tracks [.arguments q none] os o) (hin : Inside start os) :
    ∃ name arguments, os = [.call name start arguments] := by
  cases h with
  | inside h =>
    cases h with
    | call =>
      cases hin with
      | call => exact ⟨_, _, rfl⟩
      | within hx => cases hx

/-- From inside an invocation that is read successfully, its closing parenthesis is reached behind some separation. Up
to there, nothing depends on what is in the place of that parenthesis, if only it ends an argument. -/
theorem Succeeds.exists_closing (S : ScanState) : ∀ {b b' : Builder} {o : Outline} {start : Position},
    Succeeds S b b' → Tracks S.contexts b.opened o → Inside start b.opened →
    ∃ taken gap after opener name arguments, S.cursor.rest = taken ++ (gap ++ ')' :: after) ∧
      Separation (')' :: after) gap ∧
      (∀ e, (∃ x ∈ e.head?, isBorder x) → Reads ⟨⟨taken ++ (gap ++ e), S.cursor.position⟩, S.contexts⟩ b
        (inside opener (gap ++ e) (S.cursor.position.after taken)) ⟨b.done, [.call name start arguments]⟩) ∧
      let stop := ((S.cursor.position.after taken).after gap).next ')'
      Succeeds ⟨⟨after, stop⟩, []⟩ ⟨⟨name, start, stop, arguments.reverse⟩ :: b.done, []⟩ b' := by
  induction S using ScanState.scan.induct with
  | case1 S hs =>
    intro b b' o start h ht hin
    rw [ht.eq_nil_iff.1 (contexts_of_finished hs)] at hin
    cases hin
  | case2 S fault p hs =>
    intro b b' o start h ht hin
    have hfault := h.fault
    rw [ScanState.scan_failed hs] at hfault
    cases hfault
  | case3 S ts next hs ih =>
    intro b b' o start h ht hin
    obtain ⟨⟨b₁, o₁, hb₁, ht₁, h₁⟩, hne⟩ := h.step ht hs
    have hm := step_eq_moved_iff.1 hs
    obtain ⟨before, hrest, hpos⟩ := hm.exists_taken
    rcases hin.moves hm hb₁ with ⟨hdone, hin₁⟩ | ⟨i, t, rfl, -, -, rfl⟩
    · obtain ⟨taken, gap, after, opener, name, arguments, hrest', hgap, hreads, hsucceeds⟩ := ih h₁ ht₁ hin₁
      rw [hpos, ← Position.after_append _ before taken, hdone] at hreads hsucceeds
      refine ⟨before ++ taken, gap, after, opener, name, arguments, ?_, hgap, fun e he => ?_, hsucceeds⟩
      · rw [hrest, hrest', List.append_assoc]
      · obtain ⟨⟨rest, p⟩, contexts⟩ := S
        obtain ⟨⟨rest', p'⟩, contexts'⟩ := next
        simp only at hrest hrest' hpos hreads ⊢
        subst hrest hrest' hpos
        have hfront : ((ScanState.mk ⟨before ++ (taken ++ gap), p⟩ contexts).extend (')' :: after)).step =
            .moved ts ((ScanState.mk ⟨taken ++ gap, p.after before⟩ contexts').extend (')' :: after)) := by
          simpa [ScanState.extend, Cursor.extend] using hs
        have hstep := step_exchange he hfront (hm.tokens_ne_nil hne)
        simp only [ScanState.extend, Cursor.extend, List.append_assoc] at hstep ⊢
        exact .step hstep hb₁ (hreads e he)
    · obtain ⟨⟨rest, p'⟩, contexts'⟩ := next
      obtain rfl : contexts' = [] := ht₁.eq_nil_iff.2 rfl
      obtain ⟨p, opener, hc, hskip, hp, ht'⟩ := closed_of_moves ht hm hb₁ hne rfl
      obtain ⟨⟨rest', q⟩, contexts⟩ := S
      obtain ⟨done, opened⟩ := b
      simp only at hc hskip hp hin ht
      subst hc
      obtain ⟨gap, hrest', hpos', hgap⟩ := separation_of_skip hskip
      simp only at hrest' hpos' hgap
      subst hrest' hp hpos'
      obtain ⟨name, arguments, rfl⟩ := ht.exists_call hin
      cases ht'
      cases hb₁
      exact ⟨[], gap, rest, opener, name, arguments, rfl, hgap, fun e _ => .refl _ _, h₁⟩

/-- From inside an invocation that is read successfully, its closing parenthesis is reached, and what is behind that
does not matter on the way. -/
theorem Succeeds.exists_end {S : ScanState} {b b' : Builder} {o : Outline} {start : Position} (h : Succeeds S b b')
    (ht : Tracks S.contexts b.opened o) (hin : Inside start b.opened) :
    ∃ cs after q, ∃ i : Invocation, S.cursor.rest = cs ++ [')'] ++ after ∧ q = S.cursor.position.after (cs ++ [')']) ∧
      i.start = start ∧ i.stop = q ∧
      Reads ⟨⟨cs ++ [')'], S.cursor.position⟩, S.contexts⟩ b ⟨⟨[], q⟩, []⟩ ⟨i :: b.done, []⟩ ∧
      Succeeds ⟨⟨after, q⟩, []⟩ ⟨i :: b.done, []⟩ b' := by
  obtain ⟨taken, gap, after, opener, name, arguments, hrest, hgap, hreads, hsucceeds⟩ := h.exists_closing S ht hin
  have hclosed : Lexes ((S.cursor.position.after taken).after gap) [.arguments opener none]
      [⟨.rightParen, [')']⟩] [] [] := .closed
  have hstep := hclosed.step_eq
    (parted_of_separation rfl (hgap.exchange [')']) (by decide) (S.cursor.position.after taken))
  refine ⟨taken ++ gap, after, _, ⟨name, start, _, arguments.reverse⟩, by simpa using hrest, ?_, rfl, rfl, ?_,
    hsucceeds⟩
  · rw [Position.after_append, Position.after_append]
    rfl
  · rw [List.append_assoc]
    exact (hreads [')'] (border_paren [])).trans (.step hstep rfl (.refl _ _))

/-! ### Whole invocations -/

/-- The invocation stands in the text, from the first character of its name to its closing parenthesis, and is what is
read there if nothing else is. -/
def Extracts (text : List Char) (i : Invocation) : Prop :=
  ∃ before cs after done, text = before ++ cs ++ after ∧ i.start = Position.start.after before ∧
    i.stop = i.start.after cs ∧ (∃ x ∈ cs.head?, isNameStart x) ∧
    Succeeds ⟨⟨cs, i.start⟩, []⟩ ⟨done, []⟩ ⟨i :: done, []⟩

/-- A text that is read up to its end, with nothing open there, is read successfully. -/
theorem Reads.succeeds {s : ScanState} {b b' : Builder} {q : Position} (h : Reads s b ⟨⟨[], q⟩, []⟩ b')
    (hb : b'.opened = []) : Succeeds s b b' := by
  have hend : (ScanState.mk ⟨[], q⟩ []).step = .finished := step_at_end rfl rfl
  obtain ⟨hfault, htokens⟩ := h.scan_eq
  rw [ScanState.scan_finished hend] at hfault htokens
  exact ⟨hfault, htokens, hb⟩

/-- The name of an invocation is read as it is in front of all that follows. -/
theorem step_name {name cs after : List Char}
    (hi : identifier? (name ++ (cs ++ [')'] ++ after)) = some (name, cs ++ [')'] ++ after)) (p : Position) :
    (∃ x ∈ (name ++ (cs ++ [')'])).head?, isNameStart x) ∧
      (ScanState.mk ⟨name ++ (cs ++ [')']), p⟩ []).step =
        .moved (tokensFrom p [⟨.name (String.ofList name), name⟩]) ⟨⟨cs ++ [')'], p.after name⟩, [.command]⟩ := by
  obtain ⟨x, hx, hstart⟩ := head?_of_identifier? hi
  have hhead : ∃ x ∈ (name ++ (cs ++ [')'])).head?, isNameStart x := ⟨x, mem_head?_append hx _, hstart⟩
  have hi' : identifier? (name ++ (cs ++ [')'])) = some (name, cs ++ [')']) := by
    refine identifier?_restrict (d := after) ?_ ?_
    · rw [← List.append_assoc]
      exact guarded_of_paren _ after
    · rw [List.append_assoc]
      exact hi
  refine ⟨hhead, step_eq_moved_iff.2 ⟨p, [⟨.name (String.ofList name), name⟩], ?_, ?_, rfl, .name hi'⟩⟩
  · simpa [Parted, separates] using skip_of_stands (stands_of_nameStart hhead)
  · simp

/-- Between two invocations of a text that is read successfully, the text ends or the next invocation can be taken out
of it. -/
theorem Succeeds.exists_call {text : List Char} {c : Cursor} {done : List Invocation} {b' : Builder}
    (h : Succeeds ⟨c, []⟩ ⟨done, []⟩ b') (hc : Follows text c) :
    b' = ⟨done, []⟩ ∨ ∃ c' i, c'.rest.length < c.rest.length ∧ Follows text c' ∧ Extracts text i ∧
      Succeeds ⟨c', []⟩ ⟨i :: done, []⟩ b' := by
  cases hs : (ScanState.mk c []).step with
  | finished =>
    have htokens := h.tokens
    rw [ScanState.scan_finished hs] at htokens
    cases htokens
    exact .inl rfl
  | failed fault p =>
    have hfault := h.fault
    rw [ScanState.scan_failed hs] at hfault
    cases hfault
  | moved ts next =>
    obtain ⟨⟨b₁, o₁, hb₁, ht₁, h₁⟩, -⟩ := h.step .between hs
    obtain ⟨p, ps, hparted, hp, rfl, hl⟩ := step_eq_moved_iff.1 hs
    obtain ⟨⟨rest, p'⟩, contexts⟩ := next
    simp only at hparted hp hl
    have hfollows : Follows text ⟨written ps ++ rest, p⟩ := hparted.follows hc
    cases hl with
    | stray => cases hb₁
    | @name name _ hi =>
      cases hb₁
      obtain ⟨cs, after, q, i, rfl, rfl, hstart, hstop, hreads, hsucceeds⟩ := h₁.exists_end ht₁ .named
      simp only [written_cons, written_nil, List.append_nil] at hparted hp hfollows
      simp only at hreads hsucceeds hstop
      obtain ⟨hhead, hstep⟩ := step_name hi p
      rw [← hp] at hstep
      have hrest : name ++ (cs ++ [')'] ++ after) = name ++ (cs ++ [')']) ++ after := (List.append_assoc ..).symm
      have hbehind : Follows text ⟨after, p'.after (cs ++ [')'])⟩ := by
        refine hfollows.take hrest ?_
        rw [hp, Position.after_append _ name]
      obtain ⟨before, htext, hbefore⟩ := hfollows
      simp only at htext hbefore
      refine .inr ⟨⟨after, _⟩, i, ?_, hbehind, ?_, hsucceeds⟩
      · have hlength := (Parted.suffix hparted).length_le
        simp only [List.length_append, List.length_cons] at hlength ⊢
        omega
      · refine ⟨before, name ++ (cs ++ [')']), after, done, ?_, hstart.trans hbefore, ?_, hhead, ?_⟩
        · rw [htext, hrest, ← List.append_assoc]
        · rw [hstop, hstart, hp, Position.after_append _ name]
        · rw [hstart]
          exact (Reads.step hstep rfl hreads).succeeds rfl

/-- Every invocation of a text that is read successfully can be taken out of it. -/
theorem Succeeds.extracts {text : List Char} (n : Nat) : ∀ {c : Cursor} {done : List Invocation} {b' : Builder},
    c.rest.length < n → Succeeds ⟨c, []⟩ ⟨done, []⟩ b' → Follows text c →
    ∀ i ∈ b'.done, i ∈ done ∨ Extracts text i := by
  induction n with
  | zero => intro c done b' hn; omega
  | succ n ih =>
    intro c done b' hn h hc i hi
    rcases h.exists_call hc with rfl | ⟨c', j, hlength, hc', hj, h'⟩
    · exact .inl hi
    · rcases ih (by omega) h' hc' i hi with hmem | hi'
      · obtain rfl | hmem := List.mem_cons.1 hmem
        · exact .inr hj
        · exact .inl hmem
      · exact .inr hi'

end CommandScript.Scanning
