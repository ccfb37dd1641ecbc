import CommandScript.Proofs.Scanning.Extension
import CommandScript.Proofs.Scanning.Nesting

/-! What a text is refused for at the end of a line, it is refused for whatever follows. A line feed lies on a border
that nothing reaches across, so up to there a longer text is scanned alike. Only constructs that span lines can go on
behind it, and of those the shorter text has nothing to say but that they are not closed. -/

namespace CommandScript.Scanning

open Text Syntax

/-! ### At the end of the text -/

theorem skip_at_end (p : Position) : skipSeparation ⟨[], p⟩ = .ok ⟨[], p⟩ := skip_of_stands (by simp [Stands])

theorem step_at_end {s : ScanState} (hr : s.cursor.rest = []) (hc : s.contexts = []) : s.step = .finished := by
  obtain ⟨⟨cs, p⟩, contexts⟩ := s
  cases hr
  cases hc
  simp only [ScanState.step, ScanState.stepTop, skip_at_end]

theorem isOpenEnded_at_end {s : ScanState} {f : ScanFault} {q : Position} (hr : s.cursor.rest = [])
    (hs : s.step = .failed f q) : f.isOpenEnded := by
  obtain ⟨⟨cs, p⟩, contexts⟩ := s
  cases hr
  unfold ScanState.step at hs
  cases contexts with
  | nil => simp [ScanState.stepTop, skip_at_end] at hs
  | cons d outer =>
    cases d with
    | command => simp [ScanState.stepCommand, skip_at_end] at hs
    | arguments q reference =>
      simp only [ScanState.stepArguments, skip_at_end] at hs
      cases hs
      rfl
    | unquoted => cases hs
    | quoted q | «variable» q | closing q =>
      cases hs
      rfl

/-- Where the text has ended, no token is refused, and no fault is met but that something is not closed. -/
theorem scan_at_end (s : ScanState) : s.cursor.rest = [] → ∀ {b : Builder} {o : Outline},
    Tracks s.contexts b.opened o → (∃ b', b.feedAll s.scan.tokens = .ok b') ∧
      ∀ f q, s.scan.fault = some (f, q) → f.isOpenEnded := by
  induction s using ScanState.scan.induct with
  | case1 s hs =>
    intro _ b o _
    rw [ScanState.scan_finished hs]
    exact ⟨⟨b, rfl⟩, by simp⟩
  | case2 s fault p hs =>
    intro hr b o _
    rw [ScanState.scan_failed hs]
    refine ⟨⟨b, rfl⟩, fun f q hf => ?_⟩
    cases hf
    exact isOpenEnded_at_end hr hs
  | case3 s ts next hs ih =>
    intro hr b o h
    have hnext : next.cursor.rest = [] := List.suffix_nil.1 (hr ▸ step_suffix hs)
    rw [ScanState.scan_moved hs]
    rcases takes_step h hs with ⟨⟨b₁, o₁, hb, -, ht⟩, -⟩ | hF | ⟨hc, -⟩
    · obtain ⟨⟨b', hb'⟩, hf⟩ := ih hnext ht
      exact ⟨⟨b', by rw [feedAll_append hb, hb']⟩, hf⟩
    · rw [ScanState.scan_finished (step_at_end hnext hF.next_contexts), hF.tokens]
      exact ⟨⟨b, rfl⟩, by simp⟩
    · rw [step_at_end hr hc] at hs
      cases hs

/-! ### Behind the last line feed -/

theorem getLast?_of_suffix {cs ds : List Char} {x : Char} (h : cs <:+ ds) (hcs : cs ≠ []) (hd : ds.getLast? = some x) :
    cs.getLast? = some x := by
  obtain ⟨w, rfl⟩ := h
  obtain ⟨y, hy⟩ := Option.isSome_iff_exists.1 (List.getLast?_isSome.2 hcs)
  rwa [List.getLast?_append, hy, Option.some_or, ← hy] at hd

/-- Between calls, no token takes the line feed at the end. -/
theorem stepTop_rest_ne_nil {c : Cursor} {ts : List Token} {next : ScanState}
    (h : ScanState.stepTop c = .moved ts next) (hl : c.rest.getLast? = some '\n') : next.cursor.rest ≠ [] := by
  unfold ScanState.stepTop at h
  split at h
  · cases h
  · rename_i c' hk
    split at h
    · cases h
    · rename_i x r hr
      have hlast : '\n' ∈ x :: r :=
        List.mem_of_getLast? (hr ▸ getLast?_of_suffix (skip_suffix hk) (by simp [hr]) hl)
      split at h
      · rename_i name rest hi
        cases h
        obtain ⟨hname, hall⟩ := identifier?_eq_append hi
        intro hrest
        have hrest' : rest = [] := hrest
        rw [hname, hrest', List.append_nil] at hlast
        have := hall _ hlast
        revert this
        decide
      · cases h
        have hx := (skipSeparation_ok _ _ hk).2 x r hr
        intro hrest
        have hrest' : r.dropWhile (fun c => !isBlank c && decide (c ≠ '#')) = [] := hrest
        rcases List.mem_cons.1 hlast with rfl | hmem
        · revert hx
          decide
        · have hall : r.takeWhile (fun c => !isBlank c && decide (c ≠ '#')) = r := by
            rw [← List.append_nil (r.takeWhile _), ← hrest', List.takeWhile_append_dropWhile]
          have := List.all_eq_true.1 List.all_takeWhile '\n' (hall.symm ▸ hmem)
          revert this
          decide

/-- A token that is refused is refused whatever is behind it. -/
theorem refused_extend {s next : ScanState} {ts : List Token} {e : List Char} {b : Builder} {o : Outline}
    (hs : s.step = .moved ts next) (he : (s.extend e).step = .moved ts (next.extend e)) (hR : Refuses b o ts) :
    (∀ x, b.feedAll s.scan.tokens = .error x → b.feedAll (s.extend e).scan.tokens = .error x) ∧
      ∀ b', b.feedAll s.scan.tokens ≠ .ok b' := by
  obtain ⟨t, rfl, hb, -, -⟩ := hR
  rw [ScanState.scan_moved hs, ScanState.scan_moved he]
  simp [Builder.feedAll, hb]

/-- Behind a name that no parenthesis followed, a text that goes on is refused. -/
theorem Forgets.refuses {s next : ScanState} {ts : List Token} {b : Builder} {o : Outline}
    (h : Forgets s ts next b o) (hr : next.cursor.rest ≠ []) :
    ∃ us after, next.step = .moved us after ∧ Refuses b o us := by
  obtain ⟨c, cs⟩ := next
  cases h.next_contexts
  cases h.outline
  obtain ⟨name, start, hb⟩ := h.opened
  obtain ⟨d, hd, -, hstands⟩ | ⟨level, r, body, p, he, -⟩ := skip_spec s.cursor
  · obtain rfl : d = c := by simpa [hd] using h.skipped
    obtain ⟨x, r, hx⟩ := List.exists_cons_of_ne_nil hr
    have hx' : d.rest = x :: r := hx
    have hmoved : ∃ us after, ScanState.stepTop d = .moved us after := by
      unfold ScanState.stepTop
      rw [skip_of_stands hstands]
      simp only [hx']
      split
      · exact ⟨_, _, rfl⟩
      · exact ⟨_, _, rfl⟩
    obtain ⟨us, after, hus⟩ := hmoved
    exact ⟨us, after, hus, refuses_stepTop hb hus⟩
  · have := h.skipped
    rw [he] at this
    cases this

/-- A text that ends in a line feed is refused for the same as every longer one, if it is refused for a token, and
scanned as every longer one, if it cannot be scanned for a fault that no closer mends. -/
theorem scan_extend (s : ScanState) (e : List Char) : s.cursor.rest.getLast? = some '\n' → ∀ {b : Builder} {o : Outline},
    Tracks s.contexts b.opened o →
    (∀ x, b.feedAll s.scan.tokens = .error x → b.feedAll (s.extend e).scan.tokens = .error x) ∧
      ∀ b' f q, b.feedAll s.scan.tokens = .ok b' → s.scan.fault = some (f, q) → f.isOpenEnded = false →
        (s.extend e).scan = s.scan := by
  induction s using ScanState.scan.induct with
  | case1 s hs =>
    intro _ b o _
    rw [ScanState.scan_finished hs]
    exact ⟨by simp [Builder.feedAll], by simp⟩
  | case2 s fault p hs =>
    intro hl b o _
    rw [ScanState.scan_failed hs]
    refine ⟨by simp [Builder.feedAll], fun b' f q _ hf hopen => ?_⟩
    cases hf
    have hg : Guarded s.cursor.rest e := .inr ⟨'\n', hl, by decide⟩
    rw [ScanState.scan_failed (step_extend_failed hs hg hopen)]
  | case3 s ts next hs ih =>
    intro hl b o h
    have hg : Guarded s.cursor.rest e := .inr ⟨'\n', hl, by decide⟩
    rw [ScanState.scan_moved hs]
    by_cases hnext : next.cursor.rest = []
    · rcases takes_step h hs with ⟨⟨b₁, o₁, hb, -, ht⟩, -⟩ | hF | ⟨hc, -⟩
      · obtain ⟨⟨b', hb'⟩, hf⟩ := scan_at_end next hnext ht
        rw [feedAll_append hb, hb']
        refine ⟨by simp, fun _ f q _ hfault hopen => ?_⟩
        rw [hf f q hfault] at hopen
        cases hopen
      · rw [ScanState.scan_finished (step_at_end hnext hF.next_contexts), hF.tokens]
        exact ⟨by simp [Builder.feedAll], by simp⟩
      · obtain ⟨c, cs⟩ := s
        cases hc
        exact absurd hnext (stepTop_rest_ne_nil hs hl)
    · rw [ScanState.scan_moved (step_extend hs hg (.inl hnext))]
      have hl' := getLast?_of_suffix (step_suffix hs) hnext hl
      rcases takes_step h hs with ⟨⟨b₁, o₁, hb, -, ht⟩, -⟩ | hF | ⟨-, hR⟩
      · obtain ⟨herror, hscan⟩ := ih hl' ht
        simp only [feedAll_append hb]
        refine ⟨herror, fun b' f q hok hfault hopen => ?_⟩
        rw [hscan b' f q hok hfault hopen]
      · obtain ⟨us, after, hus, hR⟩ := hF.refuses hnext
        obtain ⟨c, cs⟩ := next
        cases hF.next_contexts
        cases hF.tokens
        have he := step_extend (e := e) hus (.inr ⟨'\n', hl', by decide⟩) (.inl (stepTop_rest_ne_nil hus hl'))
        obtain ⟨herror, hok⟩ := refused_extend hus he hR
        exact ⟨herror, fun b' f q hb' => absurd hb' (hok b')⟩
      · have he := step_extend hs hg (.inl hnext)
        obtain ⟨herror, hok⟩ := refused_extend hs he hR
        rw [ScanState.scan_moved hs, ScanState.scan_moved he] at herror
        rw [ScanState.scan_moved hs] at hok
        exact ⟨herror, fun b' f q hb' => absurd hb' (hok b')⟩

/-- What a text with a line feed at its end is refused for, every longer text is refused for, unless more text could
mend it. -/
theorem parseText_extend {text : List Char} {file : Option String} {f : Fault} (hl : text.getLast? = some '\n')
    (h : parseText text file = .error f) (hf : f.isOpenEnded = false) (e : List Char) :
    parseText (text ++ e) file = .error f := by
  obtain ⟨herror, hscan⟩ := scan_extend ⟨⟨text, .start⟩, []⟩ e hl (b := Builder.initial) .between
  change ∀ x, Builder.initial.feedAll (scan text).tokens = .error x →
    Builder.initial.feedAll (scan (text ++ e)).tokens = .error x at herror
  change ∀ b' f q, Builder.initial.feedAll (scan text).tokens = .ok b' → (scan text).fault = some (f, q) →
    f.isOpenEnded = false → scan (text ++ e) = scan text at hscan
  unfold parseText at h ⊢
  simp only at h ⊢
  split at h
  · rename_i t expected hb
    rw [herror _ hb]
    exact h
  · rename_i b hb
    split at h
    · rename_i fault p hfault
      cases h
      rw [hscan b fault p hb hfault hf]
      simp only [hb, hfault]
    · split at h
      · cases h
      · cases h
        cases hf

end CommandScript.Scanning
