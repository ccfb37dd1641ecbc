import CommandScript.Proofs.Scanning.Lexing

/-! The border between two texts, each of them a script. What is read in the first one is read likewise if something
else stands behind it, as long as that begins with a neutral character: nothing that the scanner looks for lies across
the border. At the border itself nothing is open, since only a closing parenthesis ends an invocation, and none can
come from the blanks that the first text may end with. -/

namespace CommandScript.Scanning

open Text Syntax

theorem isNeutral_of_isBlank {x : Char} (h : isBlank x) : isNeutral x := by
  have hx : x = ' ' ∨ x = '\t' ∨ x = '\r' ∨ x = '\n' := by simpa [isBlank, or_assoc] using h
  rcases hx with rfl | rfl | rfl | rfl <;> decide

theorem guarded_of_neutral {d : List Char} (hd : ∀ x ∈ d, isNeutral x) (cs : List Char) : Guarded cs d :=
  .inl fun x hx => hd x (List.mem_of_mem_head? hx)

/-- A suffix of two texts is one of the second, or more than it. -/
theorem suffix_append_cases {cs ds zs : List Char} (h : zs <:+ cs ++ ds) :
    zs <:+ ds ∨ ∃ r, r ≠ [] ∧ zs = r ++ ds := by
  obtain ⟨w, hw⟩ := h
  rcases List.append_eq_append_iff.1 hw with ⟨a, rfl, rfl⟩ | ⟨c, rfl, rfl⟩
  · by_cases ha : a = []
    · exact .inl (by simp [ha])
    · exact .inr ⟨a, ha, rfl⟩
  · exact .inl (List.suffix_append c zs)

theorem exists_of_suffix {zs ys cs ds : List Char} (h : ys <:+ zs) (hr : ys = cs ++ ds) :
    ∃ w, zs = (w ++ cs) ++ ds := by
  obtain ⟨w, rfl⟩ := h
  exact ⟨w, by rw [hr, List.append_assoc]⟩

theorem mem_head?_append {cs : List Char} {x : Char} (h : x ∈ cs.head?) (ds : List Char) : x ∈ (cs ++ ds).head? := by
  rw [List.head?_append, Option.mem_def.1 h]
  rfl

/-! ### Less text behind -/

section Restriction

variable {d : List Char}

theorem identifier?_restrict {cs name rest : List Char} (hg : Guarded cs d)
    (h : identifier? (cs ++ d) = some (name, rest ++ d)) : identifier? cs = some (name, rest) := by
  rw [identifier?_append hg] at h
  obtain ⟨⟨n, r⟩, hi, heq⟩ := Option.map_eq_some_iff.1 h
  simp only [Prod.mk.injEq, List.append_cancel_right_eq] at heq
  rw [hi, heq.1, heq.2]

/-- A closer in front of the border that is found is found there with nothing behind the border. -/
theorem splitAtFirst_restrict {level : Nat} : ∀ {cs before rest : List Char},
    splitAtFirst (bracketCloser level) (cs ++ d) = some (before, rest ++ d) →
      splitAtFirst (bracketCloser level) cs = some (before, rest)
  | [], before, rest, h => by
    have hlength := congrArg List.length (splitAtFirst_eq_append h)
    simp only [bracketCloser, List.length_append, List.length_cons, List.length_nil] at hlength
    omega
  | c :: cs, before, rest, h => by
    have hsplit : c :: cs = before ++ bracketCloser level ++ rest := by
      have heq := splitAtFirst_eq_append h
      rw [← List.append_assoc] at heq
      exact List.append_cancel_right heq
    rw [List.cons_append, splitAtFirst] at h
    split at h
    · obtain ⟨rfl, -⟩ := Prod.mk.inj (Option.some.inj h)
      rw [hsplit, List.nil_append]
      exact splitAtFirst_self (by simp [bracketCloser]) rest
    · rename_i hpre
      obtain ⟨⟨b, r⟩, hb, heq⟩ := Option.map_eq_some_iff.1 h
      cases heq
      rw [splitAtFirst, if_neg, splitAtFirst_restrict hb]
      · rfl
      · intro hp
        apply hpre
        rw [List.isPrefixOf_iff_prefix] at hp ⊢
        exact hp.trans (List.prefix_append (c :: cs) d)

theorem bracketOpener?_restrict {cs : List Char} (h : bracketOpener? (cs ++ d) = none) : bracketOpener? cs = none := by
  cases hcs : bracketOpener? cs with
  | none => rfl
  | some b =>
    obtain ⟨level, body⟩ := b
    rw [bracketOpener?_eq_some_iff.1 hcs, List.append_assoc, bracketOpener?_eq_some_iff.2 rfl] at h
    cases h

theorem Skips.restrict {c c' : Cursor} (h : Skips c c') {cs cs' : List Char} (hr : c.rest = cs ++ d)
    (hr' : c'.rest = cs' ++ d) (hne : cs' ≠ []) : Skips ⟨cs, c.position⟩ ⟨cs', c'.position⟩ := by
  induction h generalizing cs with
  | refl c =>
    obtain rfl : cs = cs' := List.append_cancel_right (hr.symm.trans hr')
    exact .refl _
  | @blank x r p c hx h ih =>
    obtain ⟨w, hmore⟩ : ∃ w, r = (w ++ cs') ++ d := exists_of_suffix h.suffix hr'
    obtain rfl : x :: (w ++ cs') = cs := List.append_cancel_right ((congrArg (x :: ·) hmore).symm.trans hr)
    exact .blank hx (ih hmore hr')
  | @line r p c hb h ih =>
    obtain ⟨w, hmore⟩ : ∃ w, r.dropWhile (· ≠ '\n') = (w ++ cs') ++ d := exists_of_suffix h.suffix hr'
    have hsplit : r = r.takeWhile (· ≠ '\n') ++ (w ++ cs') ++ d := by
      rw [List.append_assoc, ← hmore, List.takeWhile_append_dropWhile]
    obtain rfl : '#' :: (r.takeWhile (· ≠ '\n') ++ (w ++ cs')) = cs :=
      List.append_cancel_right ((congrArg ('#' :: ·) hsplit).symm.trans hr)
    have hstop : ∀ x ∈ (w ++ cs').head?, decide (x ≠ '\n') = false := by
      intro x hx
      have hhead := List.head?_dropWhile_not (· ≠ '\n') r
      rw [hmore, Option.mem_def.1 (mem_head?_append hx d)] at hhead
      exact hhead
    obtain ⟨htake, hdrop⟩ := span_eq (fun x hx => List.all_eq_true.1 List.all_takeWhile x hx) hstop
    have hb' : bracketOpener? (r.takeWhile (· ≠ '\n') ++ (w ++ cs')) = none := by
      rw [hsplit] at hb
      exact bracketOpener?_restrict hb
    refine .line hb' ?_
    rw [htake, hdrop]
    exact ih hmore hr'
  | @bracket r body content rest level p c hb hs h ih =>
    obtain ⟨w, hmore⟩ : ∃ w, rest = (w ++ cs') ++ d := exists_of_suffix h.suffix hr'
    have hbody : body = (content ++ bracketCloser level ++ (w ++ cs')) ++ d := by
      rw [splitAtFirst_eq_append hs, hmore, ← List.append_assoc]
    have hsplit : r = (bracketOpener level ++ (content ++ bracketCloser level ++ (w ++ cs'))) ++ d := by
      rw [bracketOpener?_eq_some_iff.1 hb, hbody]
      simp only [List.append_assoc]
    obtain rfl : '#' :: (bracketOpener level ++ (content ++ bracketCloser level ++ (w ++ cs'))) = cs :=
      List.append_cancel_right ((congrArg ('#' :: ·) hsplit).symm.trans hr)
    refine .bracket (bracketOpener?_eq_some_iff.2 rfl) (splitAtFirst_restrict (d := d) ?_) (ih hmore hr')
    rw [← hbody, hs, hmore]

theorem skip_restrict {cs cs' : List Char} {p p' : Position}
    (h : skipSeparation ⟨cs ++ d, p⟩ = .ok ⟨cs' ++ d, p'⟩) (hne : cs' ≠ []) :
    skipSeparation ⟨cs, p⟩ = .ok ⟨cs', p'⟩ := by
  rcases skip_spec ⟨cs ++ d, p⟩ with ⟨c, hc, hs, hstands⟩ | ⟨level, r, body, q, he, -⟩
  · obtain rfl : c = ⟨cs' ++ d, p'⟩ := by simpa [hc] using h
    rw [(hs.restrict rfl rfl hne).skip_eq]
    exact skip_of_stands fun x hx => hstands x (mem_head?_append hx d)
  · rw [he] at h
    cases h

theorem Passes.restrict {kind : PartKind} {c c' : Cursor} {text : List Char} (h : Passes kind c text c')
    {cs cs' : List Char} (hg : Guarded cs d) (hr : c.rest = cs ++ d) (hr' : c'.rest = cs' ++ d)
    (hne : cs' ≠ [] ∨ ∀ x ∈ d.head?, isNeutral x) : Passes kind ⟨cs, c.position⟩ text ⟨cs', c'.position⟩ := by
  have hmore (w : List Char) : w ++ cs' ≠ [] ∨ ∀ x ∈ d.head?, isNeutral x := hne.imp_left fun h => by simp [h]
  induction h generalizing cs with
  | refl c =>
    obtain rfl : cs = cs' := List.append_cancel_right (hr.symm.trans hr')
    exact .refl _
  | @escape x r decoded text p c hdec h ih =>
    obtain ⟨w, hw⟩ : ∃ w, r = (w ++ cs') ++ d := exists_of_suffix h.suffix hr'
    obtain rfl : '\\' :: x :: (w ++ cs') = cs :=
      List.append_cancel_right ((congrArg ('\\' :: x :: ·) hw).symm.trans hr)
    exact .escape hdec (ih (hg.suffix_or ((List.suffix_cons _ _).trans (List.suffix_cons _ _)) (hmore w)) hw hr')
  | @plain x r text p c hx ho h ih =>
    obtain ⟨w, hw⟩ : ∃ w, r = (w ++ cs') ++ d := exists_of_suffix h.suffix hr'
    obtain rfl : x :: (w ++ cs') = cs := List.append_cancel_right ((congrArg (x :: ·) hw).symm.trans hr)
    refine .plain hx ?_ (ih (hg.suffix_or (List.suffix_cons _ _) (hmore w)) hw hr')
    rw [hw, ← List.cons_append, opensReference_append hg] at ho
    exact ho

theorem RunEnds.restrict {kind : PartKind} {cs : List Char} (hg : Guarded cs d) (h : RunEnds kind (cs ++ d)) :
    RunEnds kind cs := by
  intro x hx
  rw [← opensReference_append hg]
  exact h x (mem_head?_append hx d)

theorem LexesPart.restrict {kind : PartKind} {p : Position} {contexts contexts' : List Context} {ps : List Piece}
    {rest : List Char} (h : LexesPart kind p contexts ps (rest ++ d) contexts') (hg : Guarded (written ps ++ rest) d)
    (hne : rest ≠ []) : LexesPart kind p contexts ps rest contexts' := by
  cases h with
  | command h =>
    rename_i name
    refine .command (identifier?_restrict (hg.suffix ⟨['$', '\x7b'], by simp⟩ (by simp)) ?_)
    rw [List.append_assoc]
    exact h
  | «variable» h =>
    rename_i space
    refine .variable ?_
    simp only [written_cons, written_nil, List.append_nil] at hg
    rw [← List.append_assoc, commandOpener?_append hg] at h
    exact Option.map_eq_none_iff.1 h
  | text ho hp he =>
    simp only [written_cons, written_nil, List.append_nil] at hg
    rw [← List.append_assoc] at ho hp
    refine .text ?_ (hp.restrict hg rfl rfl (.inl hne)) (he.restrict (hg.suffix (List.suffix_append _ _) hne))
    rw [← opensReference_append hg]
    exact ho

theorem Lexes.restrict {p : Position} {contexts contexts' : List Context} {ps : List Piece} {rest : List Char}
    (h : Lexes p contexts ps (rest ++ d) contexts') (hg : Guarded (written ps ++ rest) d) (hne : rest ≠ []) :
    Lexes p contexts ps rest contexts' := by
  have hhead {x : Char} {r : List Char} (hr : written ps ++ (rest ++ d) = x :: r) :
      ∃ r', written ps ++ rest = x :: r' ∧ x :: r = (x :: r') ++ d := by
    obtain ⟨y, r', hy⟩ := List.exists_cons_of_ne_nil (show written ps ++ rest ≠ [] by simp [hne])
    rw [← List.append_assoc, hy, List.cons_append] at hr
    cases hr
    exact ⟨r', hy, rfl⟩
  have hstop {q : Char → Prop} (hq : ∀ x ∈ (rest ++ d).head?, q x) : ∀ x ∈ rest.head?, q x :=
    fun x hx => hq x (mem_head?_append hx d)
  cases h with
  | name h =>
    simp only [written_cons, written_nil, List.append_nil] at hg
    rw [← List.append_assoc] at h
    exact .name (identifier?_restrict hg h)
  | stray htaken hi ht hr =>
    simp only [written_cons, written_nil, List.append_nil] at hg
    refine .stray htaken ?_ ht (hstop hr)
    rw [← List.append_assoc, identifier?_append hg] at hi
    exact Option.map_eq_none_iff.1 hi
  | opened => exact .opened
  | forgotten h => exact .forgotten fun hp => h (mem_head?_append hp d)
  | closed => exact .closed
  | called => exact .called
  | group => exact .group
  | quote => exact .quote
  | bracket h =>
    rw [← List.append_assoc] at h
    exact .bracket (splitAtFirst_restrict h)
  | argument hr hx hb h =>
    obtain ⟨r', hr', hcons⟩ := hhead hr
    exact .argument hr' hx (bracketOpener?_restrict (hcons ▸ hb)) (h.restrict hg hne)
  | argumentEnd h => exact .argumentEnd (hstop h)
  | endQuote => exact .endQuote
  | endVariable => exact .endVariable
  | endCommand => exact .endCommand
  | part hk hr hx h =>
    obtain ⟨r', hr', -⟩ := hhead hr
    exact .part hk hr' hx (h.restrict hg hne)

theorem Parted.suffix {contexts : List Context} {c c' : Cursor} (h : Parted contexts c c') : c'.rest <:+ c.rest := by
  unfold Parted at h
  split at h
  · exact skip_suffix h
  · exact h ▸ List.suffix_refl _

/-- A step that stops before the border is the same with nothing behind the border. -/
theorem step_restrict {s next : ScanState} {ts : List Token} (h : (s.extend d).step = .moved ts (next.extend d))
    (hg : Guarded s.cursor.rest d) (hne : next.cursor.rest ≠ []) : s.step = .moved ts next := by
  obtain ⟨p, ps, hparted, hp, ht, hl⟩ := step_eq_moved_iff.1 h
  have hne' : written ps ++ next.cursor.rest ≠ [] := by simp [hne]
  have hrest : written ps ++ (next.extend d).cursor.rest = written ps ++ next.cursor.rest ++ d := by
    rw [List.append_assoc]
    rfl
  have hparted' : Parted s.contexts s.cursor ⟨written ps ++ next.cursor.rest, p⟩ := by
    rw [hrest] at hparted
    unfold Parted at hparted ⊢
    split
    · rename_i hs
      rw [if_pos (by exact hs)] at hparted
      exact skip_restrict hparted hne'
    · rename_i hs
      rw [if_neg (by exact hs)] at hparted
      have hcs : written ps ++ next.cursor.rest ++ d = s.cursor.rest ++ d := congrArg Cursor.rest hparted
      have hpos : p = s.cursor.position := congrArg Cursor.position hparted
      rw [List.append_cancel_right hcs, hpos]
  exact step_eq_moved_iff.2 ⟨p, ps, hparted', hp, ht, hl.restrict (hg.suffix (Parted.suffix hparted') hne') hne⟩

end Restriction

/-! ### What ends an invocation -/

/-- The text is read to its end, and the builder takes its tokens and has nothing open then. -/
structure Succeeds (s : ScanState) (b b' : Builder) : Prop where
  fault : s.scan.fault = none
  tokens : b.feedAll s.scan.tokens = .ok b'
  opened : b'.opened = []

/-- On the way to success the tokens of each step are taken, and no name is forgotten. -/
theorem Succeeds.step {s next : ScanState} {b b' : Builder} {o : Outline} {ts : List Token} (h : Succeeds s b b')
    (ht : Tracks s.contexts b.opened o) (hs : s.step = .moved ts next) :
    (∃ b₁ o₁, b.feedAll ts = .ok b₁ ∧ Tracks next.contexts b₁.opened o₁ ∧ Succeeds next b₁ b') ∧
      ∀ outer, s.contexts = .command :: outer → ts ≠ [] := by
  obtain ⟨hfault, htokens, hopened⟩ := h
  rw [ScanState.scan_moved hs] at hfault htokens
  rcases takes_step ht hs with ⟨⟨b₁, o₁, hb₁, -, ht₁⟩, hne⟩ | hF | ⟨-, hR⟩
  · rw [feedAll_append hb₁] at htokens
    exact ⟨⟨b₁, o₁, hb₁, ht₁, hfault, htokens, hopened⟩, hne⟩
  · exfalso
    obtain ⟨name, start, hopen⟩ := hF.opened
    rw [hF.tokens, List.nil_append] at htokens
    rcases scan_forgotten hF.next_contexts hopen with hnone | ⟨o', t, hstop, -, -⟩
    · rw [hnone] at htokens
      cases htokens
      rw [hopen] at hopened
      cases hopened
    · rw [hstop] at htokens
      cases htokens
  · exfalso
    obtain ⟨o', t, hstop, -, -⟩ := hR.stopped next.scan.tokens
    rw [hstop] at htokens
    cases htokens

/-- The only step that is taken and leaves nothing open reads a closing parenthesis. -/
theorem closed_of_moves {s next : ScanState} {b b₁ : Builder} {o : Outline} {ts : List Token}
    (ht : Tracks s.contexts b.opened o) (hm : Moves s ts next) (hb : b.feedAll ts = .ok b₁)
    (hne : ∀ outer, s.contexts = .command :: outer → ts ≠ []) (hc : next.contexts = []) :
    ∃ p q, s.contexts = [.arguments q none] ∧ skipSeparation s.cursor = .ok ⟨')' :: next.cursor.rest, p⟩ ∧
      next.cursor.position = p.next ')' ∧ ts = [⟨.rightParen, p, p.next ')'⟩] := by
  obtain ⟨c, contexts⟩ := s
  obtain ⟨done, os⟩ := b
  obtain ⟨p, ps, hparted, hp, rfl, hl⟩ := hm
  simp only at ht hparted hl hne
  rw [hc] at hl
  cases hl with
  | stray =>
    -- text between invocations is refused
    cases ht with
    | between => cases hb
    | inside h => cases h
  | forgotten => exact absurd rfl (hne [] rfl)
  | closed =>
    rename_i q
    exact ⟨p, q, rfl, skip_of_parted rfl hparted, hp, rfl⟩
  | argumentEnd | endQuote | endVariable | endCommand =>
    cases ht with
    | inside h => cases h
  | argument hr hx hb h => cases h
  | part hd hr hx h => cases h

/-- If no parenthesis is left that could close it, nothing is open. -/
theorem Succeeds.contexts_eq_nil (s : ScanState) : ∀ {b b' : Builder} {o : Outline}, Succeeds s b b' →
    Tracks s.contexts b.opened o → ')' ∉ s.cursor.rest → s.contexts = [] := by
  induction s using ScanState.scan.induct with
  | case1 s hs =>
    intro b b' o h ht hp
    exact contexts_of_finished hs
  | case2 s fault p hs =>
    intro b b' o h ht hp
    have hfault := h.fault
    rw [ScanState.scan_failed hs] at hfault
    cases hfault
  | case3 s ts next hs ih =>
    intro b b' o h ht hp
    obtain ⟨⟨b₁, o₁, hb₁, ht₁, h₁⟩, hne⟩ := h.step ht hs
    have hnext := ih h₁ ht₁ fun hmem => hp ((step_suffix hs).subset hmem)
    obtain ⟨p, q, -, hskip, -, -⟩ := closed_of_moves ht (step_eq_moved_iff.1 hs) hb₁ hne hnext
    exact absurd ((skip_suffix hskip).subset List.mem_cons_self) hp

/-! ### The border -/

section Border

variable {d : List Char} (hd : ∀ x ∈ d, isBlank x)

include hd

/-- On the way to success, a step in front of the border does not depend on what is behind. -/
theorem Succeeds.step_before {s next' : ScanState} {b b' : Builder} {o : Outline} {ts : List Token}
    (h : Succeeds (s.extend d) b b') (ht : Tracks s.contexts b.opened o) (hs : (s.extend d).step = .moved ts next') :
    ∃ next : ScanState, next' = next.extend d ∧
      ∀ e, (∀ x ∈ e.head?, isNeutral x) → (s.extend e).step = .moved ts (next.extend e) := by
  have hneutral : ∀ x ∈ d, isNeutral x := fun x hx => isNeutral_of_isBlank (hd x hx)
  have hparen : ')' ∉ d := by
    intro hmem
    have := hd ')' hmem
    revert this
    decide
  obtain ⟨⟨rest', q'⟩, contexts'⟩ := next'
  rcases suffix_append_cases (step_suffix hs : rest' <:+ s.cursor.rest ++ d) with hsuf | ⟨r, hr, rfl⟩
  · -- only blanks are left, so the step has closed an invocation
    obtain ⟨⟨b₁, o₁, hb₁, ht₁, h₁⟩, hne⟩ := h.step ht hs
    have hnext : contexts' = [] := h₁.contexts_eq_nil _ ht₁ fun hmem => hparen (hsuf.subset hmem)
    subst hnext
    have ht' : Tracks (s.extend d).contexts b.opened o := ht
    obtain ⟨p, q, hc, hskip, hp, rfl⟩ := closed_of_moves ht' (step_eq_moved_iff.1 hs) hb₁ hne rfl
    obtain rfl : q' = p.next ')' := hp
    have hrest : rest' = d := by
      rcases suffix_append_cases (skip_suffix hskip) with hsuf' | ⟨w, hw, heq⟩
      · exact absurd (hsuf'.subset List.mem_cons_self) hparen
      · obtain ⟨x, w, rfl⟩ := List.exists_cons_of_ne_nil hw
        have htail : rest' = w ++ d := (List.cons.inj heq).2
        have hlen : rest'.length ≤ d.length := hsuf.length_le
        rw [htail, List.length_append] at hlen
        rw [htail, List.length_eq_zero_iff.1 (show w.length = 0 by omega), List.nil_append]
    subst hrest
    have hbefore : skipSeparation s.cursor = .ok ⟨[')'], p⟩ := by
      have hsplit : skipSeparation ⟨s.cursor.rest ++ rest', s.cursor.position⟩ = .ok ⟨[')'] ++ rest', p⟩ := hskip
      exact skip_restrict hsplit (by simp)
    refine ⟨⟨⟨[], p.next ')'⟩, []⟩, rfl, fun e he => ?_⟩
    have hskip' : skipSeparation (s.cursor.extend e) = .ok ⟨')' :: e, p⟩ :=
      skip_extend hbefore (.inl he) (by simp)
    refine step_eq_moved_iff.2 ⟨p, [⟨.rightParen, [')']⟩], ?_, rfl, rfl, ?_⟩
    · rw [show (s.extend e).contexts = [.arguments q none] from hc]
      exact hskip'
    · rw [show (s.extend e).contexts = [.arguments q none] from hc]
      exact .closed
  · refine ⟨⟨⟨r, q'⟩, contexts'⟩, rfl, fun e he => ?_⟩
    have hs' : s.step = .moved ts ⟨⟨r, q'⟩, contexts'⟩ := step_restrict hs (guarded_of_neutral hneutral _) hr
    exact step_extend hs' (.inl he) (.inl hr)

/-- A script is read to a place between two invocations in front of the border, whatever is behind it. What is left of
the script there is separation. -/
theorem Succeeds.exists_border (S : ScanState) : ∀ {s : ScanState} {b b' : Builder} {o : Outline}, S = s.extend d →
    Succeeds S b b' → Tracks s.contexts b.opened o → ∃ g q,
      (∀ e, (∀ x ∈ e.head?, isNeutral x) → Reads (s.extend e) b ⟨⟨g ++ e, q⟩, []⟩ b') ∧
      ∃ q', skipSeparation ⟨g ++ d, q⟩ = .ok ⟨[], q'⟩ := by
  induction S using ScanState.scan.induct with
  | case1 S hs =>
    rintro ⟨⟨cs, p⟩, contexts⟩ b b' o rfl h ht
    obtain ⟨hc, q', hskip⟩ := step_eq_finished_iff.1 hs
    obtain rfl : contexts = [] := hc
    have htokens := h.tokens
    rw [ScanState.scan_finished hs] at htokens
    cases htokens
    exact ⟨cs, p, fun e _ => .refl _ _, q', hskip⟩
  | case2 S fault p hs =>
    intro s b b' o hS h ht
    have hfault := h.fault
    rw [ScanState.scan_failed hs] at hfault
    cases hfault
  | case3 S ts next' hs ih =>
    rintro s b b' o rfl h ht
    obtain ⟨⟨b₁, o₁, hb₁, ht₁, h₁⟩, -⟩ := h.step ht hs
    obtain ⟨next, rfl, hstep⟩ := h.step_before hd ht hs
    obtain ⟨g, q, hreads, hskip⟩ := ih rfl h₁ ht₁
    exact ⟨g, q, fun e he => .step (hstep e he) hb₁ (hreads e he), hskip⟩

/-- Separation that ends a script ends with the line feed behind it, too. -/
theorem Skips.next_line {c c' : Cursor} (h : Skips c c') (hc' : c'.rest = []) (e : List Char) {g : List Char}
    (hg : c.rest = g ++ d) : Skips ⟨g ++ '\n' :: e, c.position⟩ ⟨e, (c.position.after g).next '\n'⟩ := by
  have hneutral : ∀ x ∈ d, isNeutral x := fun x hx => isNeutral_of_isBlank (hd x hx)
  have hfeed (p : Position) : Skips ⟨'\n' :: e, p⟩ ⟨e, p.next '\n'⟩ := .blank (by decide) (.refl _)
  have hguard (cs : List Char) : Guarded cs ('\n' :: e) := .inl fun x hx => by cases hx; decide
  induction h generalizing g with
  | refl c =>
    obtain rfl : g = [] := (List.append_eq_nil_iff.1 (hg.symm.trans hc')).1
    exact hfeed c.position
  | @blank x r p c hx h ih =>
    cases g with
    | nil => exact hfeed p
    | cons y g =>
      obtain ⟨rfl, hr⟩ : x = y ∧ r = g ++ d := List.cons.inj hg
      exact .blank hx (ih hc' hr)
  | @line r p c hb h ih =>
    cases g with
    | nil => exact hfeed p
    | cons y g =>
      obtain ⟨rfl, hr⟩ : '#' = y ∧ r = g ++ d := List.cons.inj hg
      subst hr
      have hb' : bracketOpener? (g ++ '\n' :: e) = none := by
        rw [bracketOpener?_append (hguard g), bracketOpener?_restrict hb]
        rfl
      by_cases hlast : g.dropWhile (· ≠ '\n') = []
      · -- the comment reaches the border, and ends with the line feed there
        have hg' : g.takeWhile (· ≠ '\n') = g := by
          have hsplit := List.takeWhile_append_dropWhile (p := (· ≠ '\n')) (l := g)
          rwa [hlast, List.append_nil] at hsplit
        have hall : ∀ x ∈ g, decide (x ≠ '\n') = true := by
          rw [← hg']
          exact fun x hx => List.all_eq_true.1 List.all_takeWhile x hx
        obtain ⟨htake, hdrop⟩ := span_eq hall (e := '\n' :: e) fun x hx => by cases hx; rfl
        have hstep : Skips ⟨'#' :: (g ++ '\n' :: e), p⟩ ⟨e, (p.after ('#' :: g)).next '\n'⟩ := by
          refine .line hb' ?_
          rw [htake, hdrop]
          exact hfeed _
        exact hstep
      · obtain ⟨htake, hdrop⟩ := span_append (p := (· ≠ '\n')) (.inl hlast) (e := d)
        obtain ⟨htake', hdrop'⟩ := span_append (p := (· ≠ '\n')) (.inl hlast) (e := '\n' :: e)
        have hrest := ih hc' hdrop
        have hpos : (p.after ('#' :: g.takeWhile (· ≠ '\n'))).after (g.dropWhile (· ≠ '\n')) = p.after ('#' :: g) := by
          rw [← Position.after_append, List.cons_append, List.takeWhile_append_dropWhile]
        have hstep : Skips ⟨'#' :: (g ++ '\n' :: e), p⟩ ⟨e, (p.after ('#' :: g)).next '\n'⟩ := by
          refine .line hb' ?_
          rw [htake', hdrop']
          simp only [htake, hpos] at hrest
          exact hrest
        exact hstep
  | @bracket r body content rest level p c hb hs h ih =>
    cases g with
    | nil => exact hfeed p
    | cons y g =>
      obtain ⟨rfl, hr⟩ : '#' = y ∧ r = g ++ d := List.cons.inj hg
      subst hr
      rw [bracketOpener?_append (guarded_of_neutral hneutral g)] at hb
      obtain ⟨⟨level', body'⟩, hg', heq⟩ := Option.map_eq_some_iff.1 hb
      cases heq
      rw [splitAtFirst_neutral hneutral] at hs
      obtain ⟨⟨content', rest'⟩, hs', heq⟩ := Option.map_eq_some_iff.1 hs
      cases heq
      have hb' : bracketOpener? (g ++ '\n' :: e) = some (level, body' ++ '\n' :: e) := by
        rw [bracketOpener?_append (hguard g), hg']
        rfl
      have hrest := ih hc' rfl
      have hpos : (p.after ('#' :: (bracketOpener level ++ content ++ bracketCloser level))).after rest' =
          p.after ('#' :: g) := by
        rw [← Position.after_append, bracketOpener?_eq_some_iff.1 hg', splitAtFirst_eq_append hs']
        simp only [List.cons_append, List.append_assoc]
      refine .bracket hb' (splitAtFirst_append (by simp [bracketCloser]) _ hs') ?_
      simp only [hpos] at hrest
      exact hrest

theorem skip_next_line {g : List Char} {q q' : Position} (h : skipSeparation ⟨g ++ d, q⟩ = .ok ⟨[], q'⟩)
    (e : List Char) : skipSeparation ⟨g ++ '\n' :: e, q⟩ = skipSeparation ⟨e, (q.after g).next '\n'⟩ := by
  rcases skip_spec ⟨g ++ d, q⟩ with ⟨c, hc, hs, -⟩ | ⟨level, r, body, p, he, -⟩
  · obtain rfl : c = ⟨[], q'⟩ := by simpa [hc] using h
    exact (hs.next_line hd rfl e rfl).skip_eq
  · rw [he] at h
    cases h

end Border

end CommandScript.Scanning
