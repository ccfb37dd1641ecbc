import CommandScript.Proofs.Scanning.Lexing
import Mathlib.Data.List.Forall2

/-! One text read from two places. The scanner only counts on from the position that it is at, so from places that
correspond it reads the same tokens, at places that correspond again, and leaves the same constructs open. Which places
correspond does not matter, as long as they go on doing so behind every character. -/

namespace CommandScript.Syntax

open Text

/-- The same construct, wherever it was opened. -/
inductive Context.Corresponds : Context → Context → Prop where
  | command : Corresponds .command .command
  | arguments (p q : Position) : Corresponds (.arguments p none) (.arguments q none)
  | reference (p q p' q' : Position) : Corresponds (.arguments p (some p')) (.arguments q (some q'))
  | unquoted : Corresponds .unquoted .unquoted
  | quoted (p q : Position) : Corresponds (.quoted p) (.quoted q)
  | variable (p q : Position) : Corresponds (.variable p) (.variable q)
  | closing (p q : Position) : Corresponds (.closing p) (.closing q)

section Correspondence

variable (R : Position → Position → Prop)

/-- The same token, at places that correspond. -/
structure Token.Corresponds (t u : Token) : Prop where
  lexeme : t.lexeme = u.lexeme
  start : R t.start u.start
  stop : R t.stop u.stop

/-- The same text behind places that correspond, and the same constructs open. -/
structure ScanState.Corresponds (s t : ScanState) : Prop where
  rest : t.cursor.rest = s.cursor.rest
  position : R s.cursor.position t.cursor.position
  contexts : List.Forall₂ Context.Corresponds s.contexts t.contexts

end Correspondence

end CommandScript.Syntax

namespace CommandScript.Scanning

open Text Syntax

/-! ### Reading elsewhere -/

theorem Skips.elsewhere {c c' : Cursor} (h : Skips c c') (q : Position) :
    ∃ q', Skips ⟨c.rest, q⟩ ⟨c'.rest, q'⟩ := by
  induction h generalizing q with
  | refl c => exact ⟨q, .refl _⟩
  | @blank x r p c hx h ih =>
    obtain ⟨q', h'⟩ := ih (q.next x)
    exact ⟨q', .blank hx h'⟩
  | @line r p c hb h ih =>
    obtain ⟨q', h'⟩ := ih (q.after ('#' :: r.takeWhile (· ≠ '\n')))
    exact ⟨q', .line hb h'⟩
  | @bracket r body content rest level p c hb hs h ih =>
    obtain ⟨q', h'⟩ := ih (q.after ('#' :: (bracketOpener level ++ content ++ bracketCloser level)))
    exact ⟨q', .bracket hb hs h'⟩

theorem Passes.elsewhere {kind : PartKind} {c c' : Cursor} {text : List Char} (h : Passes kind c text c')
    (q : Position) : ∃ q', Passes kind ⟨c.rest, q⟩ text ⟨c'.rest, q'⟩ := by
  induction h generalizing q with
  | refl c => exact ⟨q, .refl _⟩
  | @escape x r decoded text p c hd h ih =>
    obtain ⟨q', h'⟩ := ih ((q.next '\\').next x)
    exact ⟨q', .escape hd h'⟩
  | @plain x r text p c hx ho h ih =>
    obtain ⟨q', h'⟩ := ih (q.next x)
    exact ⟨q', .plain hx ho h'⟩

/-- The same separation is passed from every place. -/
theorem skip_elsewhere {cs cs' : List Char} {p p' : Position} (h : skipSeparation ⟨cs, p⟩ = .ok ⟨cs', p'⟩)
    (q : Position) : ∃ gap, p' = p.after gap ∧ skipSeparation ⟨cs, q⟩ = .ok ⟨cs', q.after gap⟩ := by
  rcases skip_spec ⟨cs, p⟩ with ⟨c, hc, hs, hstands⟩ | ⟨level, r, body, p'', he, -⟩
  · obtain rfl : c = ⟨cs', p'⟩ := by simpa [hc] using h
    obtain ⟨q', hs'⟩ := hs.elsewhere q
    have hskip : skipSeparation ⟨cs, q⟩ = .ok ⟨cs', q'⟩ := hs'.skip_eq.trans (skip_of_stands hstands)
    obtain ⟨gap, hr, hp, -⟩ := separation_of_skip h
    obtain ⟨gap', hr', hp', -⟩ := separation_of_skip hskip
    simp only at hr hp hr' hp'
    obtain rfl : gap' = gap := List.append_cancel_right (hr'.symm.trans hr)
    exact ⟨gap', hp, hp' ▸ hskip⟩
  · rw [he] at h
    cases h

theorem separates_corresponds {contexts ds : List Context} (h : List.Forall₂ Context.Corresponds contexts ds) :
    separates ds = separates contexts := by
  cases h with
  | nil => rfl
  | cons h _ => cases h <;> rfl

theorem LexesPart.corresponds {kind : PartKind} {p : Position} {contexts contexts' ds : List Context}
    {ps : List Piece} {rest : List Char} (h : LexesPart kind p contexts ps rest contexts')
    (hd : List.Forall₂ Context.Corresponds contexts ds) (q : Position) :
    ∃ ds', LexesPart kind q ds ps rest ds' ∧ List.Forall₂ Context.Corresponds contexts' ds' := by
  cases h with
  | command h => exact ⟨_, .command h, .cons (.reference ..) hd⟩
  | «variable» h => exact ⟨_, .variable h, .cons (.variable ..) hd⟩
  | text ho hpasses he =>
    rename_i taken text
    obtain ⟨q', hpasses'⟩ := hpasses.elsewhere q
    obtain ⟨taken', hr, hq, -⟩ := hpasses'.exists_taken
    obtain rfl : taken = taken' := List.append_cancel_right hr
    simp only at hq
    subst hq
    exact ⟨ds, .text ho hpasses' he, hd⟩

/-- What is read from one place is read from every other, one case for each thing that can be read. -/
theorem Lexes.corresponds {p : Position} {contexts contexts' ds : List Context} {ps : List Piece} {rest : List Char}
    (h : Lexes p contexts ps rest contexts') (hd : List.Forall₂ Context.Corresponds contexts ds) (q : Position) :
    ∃ ds', Lexes q ds ps rest ds' ∧ List.Forall₂ Context.Corresponds contexts' ds' := by
  cases h with
  | name h =>
    cases hd
    exact ⟨_, .name h, .cons .command .nil⟩
  | stray hne hi ht hr =>
    cases hd
    exact ⟨_, .stray hne hi ht hr, .nil⟩
  | opened =>
    obtain _ | ⟨⟨⟩, hd⟩ := hd
    exact ⟨_, .opened, .cons (.arguments ..) hd⟩
  | forgotten h =>
    obtain _ | ⟨⟨⟩, hd⟩ := hd
    exact ⟨_, .forgotten h, hd⟩
  | closed =>
    obtain _ | ⟨⟨⟩, hd⟩ := hd
    exact ⟨_, .closed, hd⟩
  | called =>
    obtain _ | ⟨⟨⟩, hd⟩ := hd
    exact ⟨_, .called, .cons (.closing ..) hd⟩
  | group =>
    obtain _ | ⟨h, hd⟩ := hd
    cases h with
    | arguments => exact ⟨_, .group, .cons (.arguments ..) (.cons (.arguments ..) hd)⟩
    | reference => exact ⟨_, .group, .cons (.arguments ..) (.cons (.reference ..) hd)⟩
  | quote =>
    obtain _ | ⟨h, hd⟩ := hd
    cases h with
    | arguments => exact ⟨_, .quote, .cons (.quoted ..) (.cons (.arguments ..) hd)⟩
    | reference => exact ⟨_, .quote, .cons (.quoted ..) (.cons (.reference ..) hd)⟩
  | bracket hb =>
    obtain _ | ⟨h, hd⟩ := hd
    cases h with
    | arguments => exact ⟨_, .bracket hb, .cons (.arguments ..) hd⟩
    | reference => exact ⟨_, .bracket hb, .cons (.reference ..) hd⟩
  | argument hr hx hb hpart =>
    obtain _ | ⟨h, hd⟩ := hd
    cases h with
    | arguments =>
      obtain ⟨ds', hpart', hd'⟩ := hpart.corresponds (.cons .unquoted (.cons (.arguments ..) hd)) q
      exact ⟨ds', .argument hr hx hb hpart', hd'⟩
    | reference =>
      obtain ⟨ds', hpart', hd'⟩ := hpart.corresponds (.cons .unquoted (.cons (.reference ..) hd)) q
      exact ⟨ds', .argument hr hx hb hpart', hd'⟩
  | argumentEnd h =>
    obtain _ | ⟨⟨⟩, hd⟩ := hd
    exact ⟨_, .argumentEnd h, hd⟩
  | endQuote =>
    obtain _ | ⟨⟨⟩, hd⟩ := hd
    exact ⟨_, .endQuote, hd⟩
  | endVariable =>
    obtain _ | ⟨⟨⟩, hd⟩ := hd
    exact ⟨_, .endVariable, hd⟩
  | endCommand =>
    obtain _ | ⟨⟨⟩, hd⟩ := hd
    exact ⟨_, .endCommand, hd⟩
  | part hk hr hx hpart =>
    obtain ⟨ds', hpart', hd'⟩ := hpart.corresponds hd q
    obtain _ | ⟨h, hd⟩ := hd
    refine ⟨ds', .part ?_ hr hx hpart', hd'⟩
    cases h <;> exact hk

/-! ### Reading from places that correspond -/

section Steps

variable {R : Position → Position → Prop} (hR : ∀ p q x, R p q → R (p.next x) (q.next x))

include hR

theorem corresponds_after {p q : Position} (h : R p q) (cs : List Char) : R (p.after cs) (q.after cs) := by
  induction cs generalizing p q with
  | nil => exact h
  | cons x cs ih => exact ih (hR p q x h)

theorem tokensFrom_corresponds {p q : Position} (h : R p q) (ps : List Piece) :
    List.Forall₂ (Token.Corresponds R) (tokensFrom p ps) (tokensFrom q ps) := by
  induction ps generalizing p q with
  | nil => exact .nil
  | cons x ps ih =>
    have hx := corresponds_after hR h x.written
    exact .cons ⟨rfl, h, hx⟩ (ih hx)

theorem Parted.corresponds {s t : ScanState} (h : s.Corresponds R t) {cs : List Char} {p : Position}
    (hp : Parted s.contexts s.cursor ⟨cs, p⟩) : ∃ q, R p q ∧ Parted t.contexts t.cursor ⟨cs, q⟩ := by
  obtain ⟨⟨rest, p₀⟩, contexts⟩ := s
  obtain ⟨⟨rest', q₀⟩, ds⟩ := t
  obtain ⟨hrest, hpos, hcontexts⟩ := h
  obtain rfl : rest' = rest := hrest
  unfold Parted at hp ⊢
  rw [separates_corresponds hcontexts]
  split
  · rename_i hs
    rw [if_pos hs] at hp
    obtain ⟨gap, rfl, hskip⟩ := skip_elsewhere hp q₀
    exact ⟨q₀.after gap, corresponds_after hR hpos gap, hskip⟩
  · rename_i hs
    rw [if_neg hs] at hp
    cases hp
    exact ⟨q₀, hpos, rfl⟩

/-- A step from one place is one from the other. -/
theorem step_corresponds {s t next : ScanState} {ts : List Token} (h : s.Corresponds R t)
    (hs : s.step = .moved ts next) : ∃ us next', t.step = .moved us next' ∧
      List.Forall₂ (Token.Corresponds R) ts us ∧ next.Corresponds R next' := by
  obtain ⟨p, ps, hparted, hp, rfl, hl⟩ := step_eq_moved_iff.1 hs
  obtain ⟨q, hq, hparted'⟩ := Parted.corresponds hR h hparted
  obtain ⟨ds', hl', hd'⟩ := hl.corresponds h.contexts q
  refine ⟨_, ⟨⟨next.cursor.rest, q.after (written ps)⟩, ds'⟩, step_eq_moved_iff.2 ⟨q, ps, hparted', rfl, rfl, hl'⟩,
    tokensFrom_corresponds hR hq ps, rfl, ?_, hd'⟩
  rw [hp]
  exact corresponds_after hR hq (written ps)

/-- A text that is read to its end from one place is so from the other. -/
theorem scan_corresponds (s : ScanState) : ∀ {t : ScanState}, s.Corresponds R t → s.scan.fault = none →
    t.scan.fault = none ∧ List.Forall₂ (Token.Corresponds R) s.scan.tokens t.scan.tokens := by
  induction s using ScanState.scan.induct with
  | case1 s hs =>
    intro t h _
    obtain ⟨hc, p, hskip⟩ := step_eq_finished_iff.1 hs
    have hends : Parted s.contexts s.cursor ⟨[], p⟩ := by rwa [hc]
    obtain ⟨q, -, hparted⟩ := Parted.corresponds hR h hends
    have hend : t.contexts = [] := by
      have hcontexts := h.contexts
      rw [hc] at hcontexts
      exact List.forall₂_nil_left_iff.1 hcontexts
    have ht : t.step = .finished := step_eq_finished_iff.2 ⟨hend, q, by rw [Parted, hend] at hparted; exact hparted⟩
    rw [ScanState.scan_finished hs, ScanState.scan_finished ht]
    exact ⟨rfl, .nil⟩
  | case2 s fault p hs =>
    intro t _ hfault
    rw [ScanState.scan_failed hs] at hfault
    cases hfault
  | case3 s ts next hs ih =>
    intro t h hfault
    obtain ⟨us, next', ht, htokens, hnext⟩ := step_corresponds hR h hs
    rw [ScanState.scan_moved hs] at hfault ⊢
    rw [ScanState.scan_moved ht]
    obtain ⟨hfault', hmore⟩ := ih hnext hfault
    exact ⟨hfault', List.rel_append htokens hmore⟩

end Steps

end CommandScript.Scanning
