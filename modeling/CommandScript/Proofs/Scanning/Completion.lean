import CommandScript.Proofs.Scanning.Finality

/-! How a text that ends too early can be completed. What is open at its end tells what to write behind it: first
whatever the last construct lacks, then the closers of the others from the inside out, each on a line of its own where
that is possible, so that no comment swallows it. The scanner and the builder then read on to a place between two
calls. -/

namespace CommandScript.Scanning

open Text Syntax

/-! ### Reading on -/

/-- The scanner goes from one state to another, and the builder takes the tokens on the way. -/
inductive Reads : ScanState → Builder → ScanState → Builder → Prop where
  | refl (s : ScanState) (b : Builder) : Reads s b s b
  | step {s next s' : ScanState} {b b₁ b' : Builder} {ts : List Token} (hs : s.step = .moved ts next)
    (hb : b.feedAll ts = .ok b₁) (h : Reads next b₁ s' b') : Reads s b s' b'

theorem Reads.scan_eq {s s' : ScanState} {b b' : Builder} (h : Reads s b s' b') :
    s.scan.fault = s'.scan.fault ∧ b.feedAll s.scan.tokens = b'.feedAll s'.scan.tokens := by
  induction h with
  | refl => exact ⟨rfl, rfl⟩
  | step hs hb _ ih =>
    rw [ScanState.scan_moved hs]
    exact ⟨ih.1, (feedAll_append hb _).trans ih.2⟩

theorem Reads.trans {s s' s'' : ScanState} {b b' b'' : Builder} (h : Reads s b s' b') (h' : Reads s' b' s'' b'') :
    Reads s b s'' b'' := by
  induction h with
  | refl => exact h'
  | step hs hb _ ih => exact .step hs hb (ih h')

theorem length_done_feed? {b b' : Builder} {t : Token} (h : b.feed? t = some b') :
    b'.done.length ≤ b.done.length + 1 := by
  unfold Builder.feed? at h
  simp only at h
  repeat' split at h
  all_goals first
    | (obtain ⟨_, -, rfl⟩ := Option.map_eq_some_iff.1 h; simp)
    | (cases h <;> simp)

/-! ### Closers -/

/-- Whether blanks and comments may stand where these constructs are open. -/
def separates : List Context → Bool
  | [] | .command :: _ | .arguments .. :: _ => true
  | _ => false

/-- A text on a new line, if it may stand there. -/
def lead (cs : List Context) (k : List Char) : List Char := if separates cs then ' ' :: '\n' :: k else k

/-- What closes all open constructs, in front of a text that follows. -/
def close : List Context → List Char → List Char
  | [], k => k
  | .command :: outer, k => '(' :: ')' :: lead outer (close outer k)
  | .arguments _ none :: outer, k => ')' :: lead outer (close outer k)
  | .arguments _ (some _) :: outer, k => ')' :: '\x7d' :: lead outer (close outer k)
  | .unquoted :: outer, k => lead outer (close outer k)
  | .quoted _ :: outer, k => '"' :: lead outer (close outer k)
  | .variable _ :: outer, k | .closing _ :: outer, k => '\x7d' :: lead outer (close outer k)

/-- The cursor is in front of a text, separation apart where that may stand. -/
def Faces (cs : List Context) (c : Cursor) (k : List Char) : Prop :=
  if separates cs then ∃ p, skipSeparation c = skipSeparation ⟨k, p⟩ else c.rest = k

theorem faces_lead (cs : List Context) (k : List Char) (p : Position) : Faces cs ⟨lead cs k, p⟩ k := by
  unfold Faces lead
  split
  · exact ⟨(p.next ' ').next '\n', (Skips.blank (by decide) (.blank (by decide) (.refl _))).skip_eq⟩
  · rfl

/-- From here, all that is open is closed in front of a text, with no more than so many calls complete. -/
def Closes (b : Builder) (cs : List Context) (c : Cursor) (k : List Char) (calls : Nat) : Prop :=
  ∃ c' b', Reads ⟨c, cs⟩ b ⟨c', []⟩ b' ∧ b'.opened = [] ∧ b'.done.length ≤ calls ∧ Faces [] c' k

theorem Closes.mono {b : Builder} {cs : List Context} {c : Cursor} {k : List Char} {m n : Nat}
    (h : Closes b cs c k m) (hmn : m ≤ n) : Closes b cs c k n := by
  obtain ⟨c', b', hr, ho, hl, hf⟩ := h
  exact ⟨c', b', hr, ho, Nat.le_trans hl hmn, hf⟩

/-- All is closed if it is from behind the next token. -/
theorem closes_of_step {d : Context} {ds : List Context} {c : Cursor} {t : Token} {next : ScanState} {k : List Char}
    {b : Builder} {o : Outline} {n : Nat} (h : Tracks (d :: ds) b.opened o)
    (hs : (ScanState.mk c (d :: ds)).step = .moved [t] next)
    (hn : ∀ b₁ o₁, Tracks next.contexts (Builder.opened b₁) o₁ → b₁.done.length ≤ b.done.length + 1 →
      Closes b₁ next.contexts next.cursor k n) : Closes b (d :: ds) c k n := by
  rcases takes_step (s := ⟨c, d :: ds⟩) h hs with ⟨⟨b₁, o₁, hb, -, ht⟩, -⟩ | hF | ⟨hc, -⟩
  · have hlen : b₁.done.length ≤ b.done.length + 1 := by
      rw [Builder.feedAll] at hb
      split at hb
      · rename_i hfeed
        cases hb
        exact length_done_feed? hfeed
      · cases hb
    obtain ⟨c', b', hr, ho, hl, hf⟩ := hn b₁ o₁ ht hlen
    exact ⟨c', b', .step hs hb hr, ho, hl, hf⟩
  · cases hF.tokens
  · cases hc

theorem skip_of_faces {cs : List Context} {c : Cursor} {x : Char} {r : List Char} (hcs : separates cs)
    (h : Faces cs c (x :: r)) (hx : isBlank x = false) (hx' : x ≠ '#') :
    ∃ p, skipSeparation c = .ok ⟨x :: r, p⟩ := by
  rw [Faces, if_pos hcs] at h
  obtain ⟨p, hp⟩ := h
  refine ⟨p, hp.trans (skip_of_stands fun y hy => ?_)⟩
  cases hy
  exact ⟨hx, hx'⟩

/-- A closing parenthesis in front, in a list of arguments. -/
theorem step_rightParen {p : Position} {reference : Option Position} {outer : List Context} {c : Cursor}
    {r : List Char} : Faces (.arguments p reference :: outer) c (')' :: r) → ∃ p' q,
    (ScanState.mk c (.arguments p reference :: outer)).step =
      .moved [⟨.rightParen, p', q⟩] ⟨⟨r, q⟩, match reference with | some p => .closing p :: outer | none => outer⟩ := by
  intro h
  obtain ⟨q, hq⟩ := skip_of_faces rfl h (by decide) (by decide)
  unfold ScanState.step
  simp only [ScanState.stepArguments, hq, if_true]
  exact ⟨_, _, rfl⟩

/-- Closers close. -/
theorem closes (k : List Char) : ∀ (cs : List Context) {c : Cursor} {b : Builder} {o : Outline},
    Tracks cs b.opened o → Faces cs c (close cs k) → Closes b cs c k (b.done.length + 2 * cs.length + 1)
  | [], c, b, o, h, hf => by
    have hb : b.opened = [] := by
      generalize b.opened = os at h
      cases h with
      | between => rfl
      | inside h => cases h
    exact ⟨c, b, .refl _ _, hb, by simp, hf⟩
  | .command :: outer, c, b, o, h, hf => by
    obtain ⟨q, hq⟩ := skip_of_faces rfl hf (by decide) (by decide)
    have hs : (ScanState.mk c (.command :: outer)).step = .moved [⟨.leftParen, q, q.next '('⟩]
        ⟨⟨')' :: lead outer (close outer k), q.next '('⟩, .arguments q none :: outer⟩ := by
      unfold ScanState.step
      simp only [ScanState.stepCommand, hq]
      rfl
    refine closes_of_step h hs fun b₁ o₁ h₁ hlen => ?_
    have hf₁ : Faces (.arguments q none :: outer) ⟨')' :: lead outer (close outer k), q.next '('⟩
        (')' :: lead outer (close outer k)) := ⟨_, rfl⟩
    obtain ⟨t, q', hs₁⟩ := step_rightParen hf₁
    refine closes_of_step h₁ hs₁ fun b₂ o₂ h₂ hlen₂ => ?_
    refine (closes k outer h₂ (faces_lead _ _ _)).mono ?_
    simp only [List.length_cons]
    omega
  | .arguments p none :: outer, c, b, o, h, hf => by
    obtain ⟨t, q, hs⟩ := step_rightParen hf
    refine closes_of_step h hs fun b₁ o₁ h₁ hlen => ?_
    refine (closes k outer h₁ (faces_lead _ _ _)).mono ?_
    simp only [List.length_cons]
    omega
  | .arguments p (some q) :: outer, c, b, o, h, hf => by
    obtain ⟨t, q', hs⟩ := step_rightParen hf
    refine closes_of_step h hs fun b₁ o₁ h₁ hlen => ?_
    refine closes_of_step h₁ rfl fun b₂ o₂ h₂ hlen₂ => ?_
    refine (closes k outer h₂ (faces_lead _ _ _)).mono ?_
    simp only [List.length_cons]
    omega
  | .unquoted :: outer, c, b, o, h, hf => by
    obtain ⟨cs, q⟩ := c
    cases hf
    have hs : (ScanState.mk ⟨close (.unquoted :: outer) k, q⟩ (.unquoted :: outer)).step =
        .moved [⟨.argumentEnd, q, q⟩] ⟨⟨lead outer (close outer k), q⟩, outer⟩ := by
      -- an unquoted argument stands in a list of arguments, where separation ends it
      have houter : separates outer := by
        generalize b.opened = os at h
        cases h with
        | inside hN =>
          cases hN with
          | @unquoted d ds os parts hN hd =>
            cases d with
            | arguments => rfl
            | _ => cases hd
      unfold ScanState.step
      simp only [close, lead, houter, if_true]
      rfl
    refine closes_of_step h hs fun b₁ o₁ h₁ hlen => ?_
    refine (closes k outer h₁ (faces_lead _ _ _)).mono ?_
    simp only [List.length_cons]
    omega
  | .quoted p :: outer, c, b, o, h, hf => by
    obtain ⟨cs, q⟩ := c
    cases hf
    refine closes_of_step h rfl fun b₁ o₁ h₁ hlen => ?_
    refine (closes k outer h₁ (faces_lead _ _ _)).mono ?_
    simp only [List.length_cons]
    omega
  | .variable p :: outer, c, b, o, h, hf | .closing p :: outer, c, b, o, h, hf => by
    obtain ⟨cs, q⟩ := c
    cases hf
    refine closes_of_step h rfl fun b₁ o₁ h₁ hlen => ?_
    refine (closes k outer h₁ (faces_lead _ _ _)).mono ?_
    simp only [List.length_cons]
    omega

/-! ### Completions -/

/-- What may be written behind any text: it begins with a character that reaches back over no border, and has no
carriage return. -/
def IsCompletion (e : List Char) : Prop :=
  (∃ x r, e = x :: r ∧ x ∈ [' ', '"', '\x7d', '\\']) ∧ '\r' ∉ e

theorem IsCompletion.guarded {e : List Char} (h : IsCompletion e) (cs : List Char) : Guarded cs e := by
  obtain ⟨⟨x, r, rfl, hx⟩, -⟩ := h
  obtain rfl | rfl | rfl | rfl : x = ' ' ∨ x = '"' ∨ x = '\x7d' ∨ x = '\\' := by simpa using hx
  all_goals
    refine .inl fun y hy => ?_
    cases hy
    decide

theorem not_mem_lead {cs : List Context} {k : List Char} (h : '\r' ∉ k) : '\r' ∉ lead cs k := by
  unfold lead
  split <;> simp [h]

theorem not_mem_close {k : List Char} (h : '\r' ∉ k) : ∀ cs : List Context, '\r' ∉ close cs k
  | [] => h
  | .command :: outer => by simp [close, not_mem_lead (not_mem_close h outer)]
  | .arguments _ none :: outer => by simp [close, not_mem_lead (not_mem_close h outer)]
  | .arguments _ (some _) :: outer => by simp [close, not_mem_lead (not_mem_close h outer)]
  | .unquoted :: outer => by simp [close, not_mem_lead (not_mem_close h outer)]
  | .quoted _ :: outer => by simp [close, not_mem_lead (not_mem_close h outer)]
  | .variable _ :: outer => by simp [close, not_mem_lead (not_mem_close h outer)]
  | .closing _ :: outer => by simp [close, not_mem_lead (not_mem_close h outer)]

/-- The closers begin with a character that ends what was read last. -/
theorem lead_close_eq_cons {cs : List Context} {os : List OpenTree} {o : Outline} (h : Tracks cs os o) (k : List Char) :
    ∃ r, lead cs (close cs k) = ender cs :: r := by
  cases h with
  | between => exact ⟨_, rfl⟩
  | command => exact ⟨_, rfl⟩
  | inside hN =>
    cases hN with
    | @unquoted d ds os parts hN hd =>
      cases d with
      | arguments => exact ⟨_, rfl⟩
      | _ => cases hd
    | _ => exact ⟨_, rfl⟩

theorem isCompletion_lead {cs : List Context} {os : List OpenTree} {o : Outline} {k : List Char} (h : Tracks cs os o)
    (hk : '\r' ∉ k) : IsCompletion (lead cs (close cs k)) := by
  refine ⟨?_, not_mem_lead (not_mem_close hk cs)⟩
  obtain ⟨r, hr⟩ := lead_close_eq_cons h k
  refine ⟨_, r, hr, ?_⟩
  unfold ender
  split <;> simp

theorem guarded_blank (cs k : List Char) : Guarded cs (' ' :: k) := by
  refine .inl fun y hy => ?_
  cases hy
  decide

/-- Separation that reaches the end of the text ends on the next line. -/
theorem Skips.complete {c c' : Cursor} (h : Skips c c') (hc : c'.rest = []) (k : List Char) :
    ∃ p, Skips (c.extend (' ' :: '\n' :: k)) ⟨k, p⟩ := by
  have hline (p : Position) : ∃ q, Skips ⟨'\n' :: k, p⟩ ⟨k, q⟩ := ⟨p.next '\n', .blank (by decide) (.refl _)⟩
  induction h with
  | refl c =>
    obtain ⟨cs, p⟩ := c
    cases hc
    obtain ⟨q, hq⟩ := hline (p.next ' ')
    exact ⟨q, .blank (by decide) hq⟩
  | blank hx h ih =>
    obtain ⟨q, hq⟩ := ih hc
    exact ⟨q, .blank hx hq⟩
  | @line r p c hb h ih =>
    have hb' : bracketOpener? (r ++ ' ' :: '\n' :: k) = none := by
      rw [bracketOpener?_append (guarded_blank _ _), hb]
      rfl
    by_cases hr : r.dropWhile (· ≠ '\n') = []
    · -- the comment reaches the border, and ends with the line feed behind it
      have hd : (r ++ ' ' :: '\n' :: k).dropWhile (· ≠ '\n') = '\n' :: k := by
        rw [List.dropWhile_append, hr]
        rfl
      obtain ⟨q, hq⟩ := hline (p.after ('#' :: (r ++ ' ' :: '\n' :: k).takeWhile (· ≠ '\n')))
      have hstep : Skips ⟨'#' :: (r ++ ' ' :: '\n' :: k), p⟩ ⟨k, q⟩ := by
        refine .line hb' ?_
        rw [hd]
        exact hq
      exact ⟨q, hstep⟩
    · obtain ⟨ht, hd⟩ := span_append (p := (· ≠ '\n')) (.inl hr) (e := ' ' :: '\n' :: k)
      obtain ⟨q, hq⟩ := ih hc
      have hstep : Skips ⟨'#' :: (r ++ ' ' :: '\n' :: k), p⟩ ⟨k, q⟩ := by
        refine .line hb' ?_
        rw [ht, hd]
        exact hq
      exact ⟨q, hstep⟩
  | @bracket r body content rest level p c hb hs h ih =>
    have hb' : bracketOpener? (r ++ ' ' :: '\n' :: k) = some (level, body ++ ' ' :: '\n' :: k) := by
      rw [bracketOpener?_append (guarded_blank _ _), hb]
      rfl
    obtain ⟨q, hq⟩ := ih hc
    exact ⟨q, .bracket hb' (splitAtFirst_append (by simp [bracketCloser]) _ hs) hq⟩

theorem not_mem_bracketCloser (level : Nat) : '\r' ∉ bracketCloser level := by
  intro h
  have := isNeutral_bracketCloser level _ h
  revert this
  decide

/-- Separation that is open at the end of the text can be completed. -/
theorem skip_complete {c : Cursor}
    (h : (∃ c', skipSeparation c = .ok c' ∧ c'.rest = []) ∨ ∃ x, skipSeparation c = .error x) :
    ∃ w, ∀ k, '\r' ∉ k → IsCompletion (w ++ k) ∧
      ∃ p, skipSeparation (c.extend (w ++ k)) = skipSeparation ⟨k, p⟩ := by
  rcases skip_spec c with ⟨d, hd, hs, -⟩ | ⟨level, r, body, p, he, hs, hb, hsplit⟩
  · have hrest : d.rest = [] := by
      rcases h with ⟨c', hc', hr⟩ | ⟨x, hx⟩
      · rw [hd] at hc'
        cases hc'
        exact hr
      · rw [hd] at hx
        cases hx
    refine ⟨[' ', '\n'], fun k hk => ⟨⟨⟨' ', '\n' :: k, rfl, by simp⟩, by simp [hk]⟩, ?_⟩⟩
    obtain ⟨p, hp⟩ := hs.complete hrest k
    exact ⟨p, hp.skip_eq⟩
  · refine ⟨' ' :: bracketCloser level, fun k hk => ⟨⟨⟨' ', bracketCloser level ++ k, rfl, by simp⟩, ?_⟩, ?_⟩⟩
    · simp [hk, not_mem_bracketCloser]
    · have hb' : bracketOpener? (r ++ ' ' :: (bracketCloser level ++ k)) =
          some (level, body ++ ' ' :: (bracketCloser level ++ k)) := by
        rw [bracketOpener?_append (guarded_blank _ _), hb]
        rfl
      have hskips := hs.extend (guarded_blank _ (bracketCloser level ++ k)) (by simp)
      rw [List.cons_append, hskips.skip_eq]
      exact ⟨_, (Skips.bracket hb' (splitAtFirst_of_none (by decide) k hsplit) (.refl _)).skip_eq⟩

/-- A run that ends in a lone backslash can be completed by another one. -/
theorem stepPart_complete {kind : PartKind} {c : Cursor} {cs : List Context} {f : ScanFault} {q : Position}
    (h : ScanState.stepPart kind c cs = .failed f q) (hf : f.isOpenEnded) {x : Char} (hx : kind.endsAt x)
    (r : List Char) :
    ∃ t p, ScanState.stepPart kind (c.extend ('\\' :: x :: r)) cs = .moved [t] ⟨⟨x :: r, p⟩, cs⟩ := by
  obtain ⟨hc, hv, ht⟩ := stepPart_failed h
  have hg : Guarded c.rest ('\\' :: x :: r) := by
    refine .inl fun y hy => ?_
    cases hy
    decide
  obtain ⟨text, c', hp, ⟨-, hok⟩ | ⟨g, hfails, he⟩⟩ := readText_spec kind c
  · rw [hok] at ht
    cases ht
  · obtain ⟨rfl, rfl⟩ : g = f ∧ c'.position = q := by simpa [he] using ht
    obtain ⟨cs', p⟩ := c'
    cases hfails with
    | escapeAtEnd =>
      have hdecode : decodeEscape kind '\\' = some ['\\'] := by cases kind <;> decide
      have hends : RunEnds kind (x :: r) := by
        intro y hy
        cases hy
        simp [hx]
      have hlast : readText kind p ('\\' :: '\\' :: x :: r) =
          .ok (['\\'], ⟨x :: r, (p.next '\\').next '\\'⟩) := by
        have := (Passes.escape (p := p) hdecode (.refl ⟨x :: r, (p.next '\\').next '\\'⟩)).readText_eq
        rw [this, readText_of_ends hends]
        rfl
      have hread := (hp.extend hg (.inl (by simp))).readText_eq
      simp only [Cursor.extend, List.cons_append, List.nil_append, hlast, Except.map] at hread
      unfold ScanState.stepPart
      have hrest : (c.extend ('\\' :: x :: r)).rest = c.rest ++ '\\' :: x :: r := rfl
      rw [hrest, commandOpener?_append hg, variableOpener?_append hg, hc, hv]
      simp only [Option.map_none, Cursor.extend, hread]
      exact ⟨_, _, rfl⟩
    | _ => cases hf

/-! ### Completing a scan -/

/-- Something can be written behind the text so that all that is open is closed, in front of whatever follows; the
number of calls that are complete then does not depend on what that is. -/
def Completable (b : Builder) (s : ScanState) : Prop :=
  ∃ calls, ∀ k, '\r' ∉ k → ∃ e, IsCompletion e ∧ Closes b s.contexts (s.cursor.extend e) k calls

theorem completable_at_end {s : ScanState} {b : Builder} {o : Outline} (h : Tracks s.contexts b.opened o)
    (hr : s.cursor.rest = []) : Completable b s := by
  refine ⟨b.done.length + 2 * s.contexts.length + 1, fun k hk => ⟨_, isCompletion_lead h hk, ?_⟩⟩
  refine closes k s.contexts h ?_
  rw [Cursor.extend, hr]
  exact faces_lead _ _ _

theorem completable_separation {s : ScanState} {b : Builder} {o : Outline} (h : Tracks s.contexts b.opened o)
    (hcs : separates s.contexts) (hskip : (∃ c', skipSeparation s.cursor = .ok c' ∧ c'.rest = []) ∨
      ∃ x, skipSeparation s.cursor = .error x) : Completable b s := by
  obtain ⟨w, hw⟩ := skip_complete hskip
  refine ⟨b.done.length + 2 * s.contexts.length + 1, fun k hk => ?_⟩
  obtain ⟨he, p, hp⟩ := hw _ (not_mem_close hk s.contexts)
  refine ⟨_, he, closes k s.contexts h ?_⟩
  rw [Faces, if_pos hcs]
  exact ⟨p, hp⟩

/-- One more token is read before the closers. -/
theorem completable_step (cs : List Context) {c : Cursor} {d : Context} {ds : List Context} {b : Builder} {o : Outline}
    (h : Tracks (d :: ds) b.opened o) (hs : ∀ k, '\r' ∉ k → ∃ e t p, IsCompletion e ∧
      (ScanState.mk (c.extend e) (d :: ds)).step = .moved [t] ⟨⟨lead cs (close cs k), p⟩, cs⟩) :
    Completable b ⟨c, d :: ds⟩ := by
  refine ⟨b.done.length + 2 * cs.length + 2, fun k hk => ?_⟩
  obtain ⟨e, t, p, he, hstep⟩ := hs k hk
  refine ⟨e, he, closes_of_step h hstep fun b₁ o₁ h₁ hlen => ?_⟩
  refine (closes k cs h₁ (faces_lead _ _ _)).mono ?_
  omega

/-- Behind a lone backslash, another one and the closers. -/
theorem isCompletion_escape {cs : List Context} {k : List Char} (hk : '\r' ∉ k) :
    IsCompletion ('\\' :: lead cs (close cs k)) := by
  refine ⟨⟨'\\', _, rfl, by simp⟩, ?_⟩
  simp [not_mem_lead (not_mem_close hk cs)]

theorem completable_stepPart {kind : PartKind} {c : Cursor} {d : Context} {ds : List Context} {b : Builder}
    {o : Outline} {f : ScanFault} {q : Position} (h : Tracks (d :: ds) b.opened o)
    (hstep : ∀ e, (ScanState.mk (c.extend e) (d :: ds)).step = ScanState.stepPart kind (c.extend e) (d :: ds))
    (hd : kind.endsAt (ender (d :: ds))) (hs : ScanState.stepPart kind c (d :: ds) = .failed f q)
    (hf : f.isOpenEnded) : Completable b ⟨c, d :: ds⟩ := by
  refine completable_step (d :: ds) h fun k hk => ?_
  obtain ⟨r, hr⟩ := lead_close_eq_cons h k
  obtain ⟨t, p, hp⟩ := stepPart_complete hs hf hd r
  refine ⟨'\\' :: lead (d :: ds) (close (d :: ds) k), t, p, isCompletion_escape hk, ?_⟩
  rw [hstep, hr]
  exact hp

/-- The next argument, if it is neither quoted nor a group: a bracket, or the first part of one without quotes. -/
def stepPlain (c : Cursor) (here : List Context) : ScanStep :=
  match bracketOpener? c.rest with
  | some (level, body) =>
    match splitAtFirst (bracketCloser level) body with
    | some (content, rest) =>
      ScanState.emit (.bracket (String.ofList (ScanState.bracketContent content))) c
        (bracketOpener level ++ content ++ bracketCloser level) rest here
    | none => .failed (.unclosedBracketArgument level) c.position
  | none => ScanState.stepPart .unquoted c (.unquoted :: here)

theorem stepArguments_eq_stepPlain {c c' : Cursor} {x : Char} {r : List Char} (hk : skipSeparation c = .ok c')
    (hr : c'.rest = x :: r) (hx : x ≠ ')' ∧ x ≠ '(' ∧ x ≠ '"') (p : Position) (reference : Option Position)
    (outer : List Context) :
    ScanState.stepArguments c p reference outer = stepPlain c' (.arguments p reference :: outer) := by
  unfold ScanState.stepArguments stepPlain
  cases hb : bracketOpener? (x :: r) with
  | none => simp only [hk, hr, hb, if_neg hx.1, if_neg hx.2.1, if_neg hx.2.2]
  | some opened =>
    obtain ⟨level, body⟩ := opened
    cases hs : splitAtFirst (bracketCloser level) body with
    | none => simp only [hk, hr, hb, hs, if_neg hx.1, if_neg hx.2.1, if_neg hx.2.2]
    | some found =>
      obtain ⟨content, rest⟩ := found
      simp only [hk, hr, hb, hs, if_neg hx.1, if_neg hx.2.1, if_neg hx.2.2]

/-- An argument that breaks off: a bracket lacks its closer, or a part without quotes ends in a lone backslash. -/
theorem completable_stepPlain {c c' : Cursor} {p : Position} {reference : Option Position} {outer : List Context}
    {b : Builder} {o : Outline} {f : ScanFault} {q : Position} (h : Tracks (.arguments p reference :: outer) b.opened o)
    (hstep : ∀ e, IsCompletion e → (ScanState.mk (c.extend e) (.arguments p reference :: outer)).step =
      stepPlain (c'.extend e) (.arguments p reference :: outer))
    (hs : stepPlain c' (.arguments p reference :: outer) = .failed f q) (hf : f.isOpenEnded) :
    Completable b ⟨c, .arguments p reference :: outer⟩ := by
  unfold stepPlain at hs
  split at hs
  · rename_i level body hb
    split at hs
    · cases hs
    · rename_i hsplit
      refine completable_step (.arguments p reference :: outer) h fun k hk => ?_
      let here := Context.arguments p reference :: outer
      let e := ' ' :: (bracketCloser level ++ lead here (close here k))
      have he : IsCompletion e := by
        refine ⟨⟨' ', _, rfl, by simp⟩, ?_⟩
        simp [e, not_mem_bracketCloser, not_mem_lead (not_mem_close hk here)]
      have hb' : bracketOpener? (c'.extend e).rest = some (level, body ++ e) := by
        rw [Cursor.extend, bracketOpener?_append (he.guarded _), hb]
        rfl
      obtain ⟨t, q', hq⟩ : ∃ t q', stepPlain (c'.extend e) here =
          .moved [t] ⟨⟨lead here (close here k), q'⟩, here⟩ := by
        unfold stepPlain
        rw [hb']
        simp only [e, splitAtFirst_of_none (show isNeutral ' ' by decide) _ hsplit]
        exact ⟨_, _, rfl⟩
      exact ⟨e, t, q', he, (hstep e he).trans hq⟩
  · rename_i hb
    refine completable_step (.unquoted :: .arguments p reference :: outer) h fun k hk => ?_
    let inner := Context.unquoted :: .arguments p reference :: outer
    have he : IsCompletion ('\\' :: lead inner (close inner k)) := isCompletion_escape hk
    obtain ⟨t, q', hq⟩ := stepPart_complete hs hf (show PartKind.unquoted.endsAt ' ' by decide)
      ('\n' :: close (.arguments p reference :: outer) k)
    refine ⟨_, t, q', he, ?_⟩
    rw [hstep _ he, stepPlain, Cursor.extend, bracketOpener?_append (he.guarded _), hb]
    exact hq

theorem completable_stepArguments {c : Cursor} {p : Position} {reference : Option Position} {outer : List Context}
    {b : Builder} {o : Outline} {f : ScanFault} {q : Position} (h : Tracks (.arguments p reference :: outer) b.opened o)
    (hs : ScanState.stepArguments c p reference outer = .failed f q) (hf : f.isOpenEnded) :
    Completable b ⟨c, .arguments p reference :: outer⟩ := by
  cases hk : skipSeparation c with
  | error x => exact completable_separation h rfl (.inr ⟨x, hk⟩)
  | ok c' =>
    cases hr : c'.rest with
    | nil => exact completable_separation h rfl (.inl ⟨c', hk, hr⟩)
    | cons x r =>
      have hx : x ≠ ')' ∧ x ≠ '(' ∧ x ≠ '"' := by
        unfold ScanState.stepArguments at hs
        simp only [hk, hr] at hs
        refine ⟨?_, ?_, ?_⟩ <;> rintro rfl <;> cases hs
      have hstep (e : List Char) (he : IsCompletion e) :
          (ScanState.mk (c.extend e) (.arguments p reference :: outer)).step =
            stepPlain (c'.extend e) (.arguments p reference :: outer) := by
        have hk' := skip_extend hk (he.guarded _) (by simp [hr])
        exact stepArguments_eq_stepPlain hk' (congrArg (· ++ e) hr) hx p reference outer
      rw [stepArguments_eq_stepPlain hk hr hx] at hs
      exact completable_stepPlain h hstep hs hf

theorem completable_failed {s : ScanState} {b : Builder} {o : Outline} {f : ScanFault} {q : Position}
    (h : Tracks s.contexts b.opened o) (hs : s.step = .failed f q) (hf : f.isOpenEnded) : Completable b s := by
  by_cases hr : s.cursor.rest = []
  · exact completable_at_end h hr
  · obtain ⟨⟨cs, p⟩, contexts⟩ := s
    obtain ⟨x, r, rfl⟩ := List.exists_cons_of_ne_nil hr
    unfold ScanState.step at hs
    cases contexts with
    | nil =>
      refine completable_separation h rfl (.inr ?_)
      simp only [ScanState.stepTop] at hs
      split at hs
      · exact ⟨_, ‹_›⟩
      · split at hs
        · cases hs
        · split at hs <;> cases hs
    | cons d outer =>
      cases d with
      | command =>
        refine completable_separation h rfl (.inr ?_)
        simp only [ScanState.stepCommand] at hs
        split at hs
        · exact ⟨_, ‹_›⟩
        · split at hs <;> cases hs
      | arguments p reference => exact completable_stepArguments h hs hf
      | unquoted | quoted q | «variable» q =>
        simp only at hs
        split at hs
        · cases hs
        · rename_i hx
          refine completable_stepPart h (fun e => ?_) rfl hs hf
          simp only [ScanState.step, Cursor.extend, List.cons_append]
          rw [if_neg hx]
      | closing q =>
        simp only at hs
        split at hs
        · cases hs
        · cases hs
          cases hf

/-- A step that reads on can be taken before the rest is completed. -/
theorem Completable.step {s next : ScanState} {ts : List Token} {b b₁ : Builder} (hs : s.step = .moved ts next)
    (hb : b.feedAll ts = .ok b₁) (hnext : next.cursor.rest ≠ []) (h : Completable b₁ next) : Completable b s := by
  obtain ⟨calls, hcalls⟩ := h
  refine ⟨calls, fun k hk => ?_⟩
  obtain ⟨e, he, c', b', hr, ho, hl, hf⟩ := hcalls k hk
  exact ⟨e, he, c', b', .step (step_extend hs (he.guarded _) (.inl hnext)) hb hr, ho, hl, hf⟩

/-- A scan that no token and no fault beyond repair has stopped can be completed. -/
theorem completable (s : ScanState) : ∀ {b b' : Builder} {o : Outline}, Tracks s.contexts b.opened o →
    b.feedAll s.scan.tokens = .ok b' → (∀ f q, s.scan.fault = some (f, q) → f.isOpenEnded) → Completable b s := by
  induction s using ScanState.scan.induct with
  | case1 s hs =>
    intro b b' o h _ _
    have hc := contexts_of_finished hs
    refine completable_separation h (by rw [hc]; rfl) (.inl ?_)
    obtain ⟨c, cs⟩ := s
    cases hc
    simp only [ScanState.step, ScanState.stepTop] at hs
    split at hs
    · cases hs
    · rename_i c' hk
      split at hs
      · exact ⟨c', hk, ‹_›⟩
      · split at hs <;> cases hs
  | case2 s fault p hs =>
    intro b b' o h _ hf
    rw [ScanState.scan_failed hs] at hf
    exact completable_failed h hs (hf fault p rfl)
  | case3 s ts next hs ih =>
    intro b b' o h hb hf
    rw [ScanState.scan_moved hs] at hb hf
    by_cases hr : s.cursor.rest = []
    · exact completable_at_end h hr
    · rcases takes_step h hs with ⟨⟨b₁, o₁, hb₁, -, h₁⟩, hts⟩ | hF | ⟨-, hR⟩
      · rw [feedAll_append hb₁] at hb
        by_cases hnext : next.cursor.rest = []
        · -- the step reaches the border, where the closers end what it reads
          refine ⟨b₁.done.length + 2 * next.contexts.length + 1, fun k hk => ?_⟩
          obtain ⟨r, hcons⟩ := lead_close_eq_cons h₁ k
          have he := isCompletion_lead h₁ hk
          have hstep := step_extend hs (he.guarded _) (.inr ⟨hr, hts, by rw [hcons]; rfl⟩)
          have hf₁ : Faces next.contexts (next.cursor.extend (lead next.contexts (close next.contexts k)))
              (close next.contexts k) := by
            rw [Cursor.extend, hnext]
            exact faces_lead _ _ _
          obtain ⟨c', b'', hreads, ho, hl, hf'⟩ := closes k next.contexts h₁ hf₁
          exact ⟨_, he, c', b'', .step hstep hb₁ hreads, ho, hl, hf'⟩
        · exact (ih h₁ hb hf).step hs hb₁ hnext
      · by_cases hnext : next.cursor.rest = []
        · exact completable_separation h (by rw [hF.contexts]; rfl) (.inl ⟨_, hF.skipped, hnext⟩)
        · obtain ⟨us, after, hus, hR⟩ := hF.refuses hnext
          obtain ⟨o', t, ht, -, -⟩ := hR.stopped after.scan.tokens
          rw [hF.tokens, List.nil_append, ScanState.scan_moved hus, ht] at hb
          cases hb
      · obtain ⟨o', t, ht, -, -⟩ := hR.stopped next.scan.tokens
        rw [ht] at hb
        cases hb

end CommandScript.Scanning
