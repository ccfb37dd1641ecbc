import CommandScript.Proofs.Scanning.Lexing

/-! Separation that is written down is passed over. Blanks and complete comments in front of a text are skipped, and
what is skipped is nothing else; for a bracket is read to the closer that is written behind its content if that is the
first one, and every content has a level at which it is. -/

namespace CommandScript.Scanning

open Text Syntax

/-! ### Brackets -/

/-- A closer that is the first one behind its content is found there. -/
theorem splitAtFirst_of_closesFirst {level : Nat} {content : List Char} (h : ClosesFirst level content)
    (rest : List Char) :
    splitAtFirst (bracketCloser level) (content ++ bracketCloser level ++ rest) = some (content, rest) := by
  induction content with
  | nil => exact splitAtFirst_self (by simp [bracketCloser]) rest
  | cons c content ih =>
    have hlater : ClosesFirst level content := fun hi => h (hi.trans (List.suffix_cons c _).isInfix)
    have hhere : ¬(bracketCloser level).isPrefixOf (c :: (content ++ bracketCloser level ++ rest)) := by
      rw [List.isPrefixOf_iff_prefix]
      intro hp
      -- a closer that began here would end before the one that is written does
      have hbefore : c :: (content ++ (bracketCloser level).dropLast) <+:
          c :: (content ++ bracketCloser level ++ rest) := by
        rw [List.append_assoc, List.prefix_cons_inj, List.prefix_append_right_inj]
        exact (List.dropLast_prefix _).trans (List.prefix_append _ _)
      refine h (List.prefix_of_prefix_length_le hp hbefore ?_).isInfix
      simp only [List.length_cons, List.length_append, List.length_dropLast]
      omega
    rw [List.cons_append, List.cons_append, splitAtFirst, if_neg hhere, ih hlater]
    rfl

/-- A closer that is longer than the content cannot begin in it. -/
theorem closesFirst_length (content : List Char) : ClosesFirst content.length content := by
  rintro ⟨before, after, h⟩
  have hlength := congrArg List.length h
  have hcloser : (bracketCloser content.length).length = content.length + 2 := by simp [bracketCloser]
  simp only [List.length_append, List.length_dropLast, hcloser] at hlength
  -- behind the content stands the first character of a closer, which is none of those that the closer is filled with
  have hat : (before ++ bracketCloser content.length ++ after)[content.length]? =
      (content ++ (bracketCloser content.length).dropLast)[content.length]? := congrArg (·[content.length]?) h
  rw [List.append_assoc, List.getElem?_append_right (by omega), List.getElem?_append_left (by omega),
    List.getElem?_append_right (Nat.le_refl _), Nat.sub_self] at hat
  obtain ⟨n, hn⟩ : ∃ n, content.length - before.length = n + 1 := ⟨content.length - before.length - 1, by omega⟩
  have hfill : (bracketCloser content.length)[n + 1]? = some '=' := by
    rw [bracketCloser, List.getElem?_cons_succ, List.getElem?_append_left (by simp; omega)]
    exact List.getElem?_replicate_of_lt (by omega)
  rw [hn, hfill] at hat
  simp [bracketCloser] at hat

/-! ### Gaps -/

theorem Separation.exists_head {behind gap : List Char} (h : Separation behind gap) (hne : gap ≠ []) :
    ∃ x ∈ gap.head?, isBlank x ∨ x = '#' := by
  cases h with
  | nil => exact absurd rfl hne
  | blank hx => exact ⟨_, rfl, .inl (by simpa [isBlank, or_assoc] using hx)⟩
  | line | bracket => exact ⟨'#', rfl, .inr rfl⟩

/-- Separation in front of a closing parenthesis is separation in front of anything: no comment in it is still open. -/
theorem Separation.exchange {after gap : List Char} (h : Separation (')' :: after) gap) (e : List Char) :
    Separation e gap := by
  induction h with
  | nil => exact .nil
  | blank hx _ ih => exact .blank hx ih
  | @line comment cs hn hb he _ ih =>
    cases cs with
    | nil => exact absurd (he ')' rfl) (by decide)
    | cons x cs => exact .line hn hb he ih
  | bracket hc _ ih => exact .bracket hc ih

/-- Separation in front of a text is passed over. -/
theorem Separation.skips {behind gap : List Char} (h : Separation behind gap) (p : Position) :
    Skips ⟨gap ++ behind, p⟩ ⟨behind, p.after gap⟩ := by
  induction h generalizing p with
  | nil => exact .refl _
  | @blank x cs hx h ih =>
    have hblank : isBlank x := by simpa [isBlank, or_assoc] using hx
    exact .blank hblank (ih (p.next x))
  | @line comment cs hn hb he h ih =>
    have hall : ∀ x ∈ comment, decide (x ≠ '\n') = true := by
      intro x hx
      simp only [decide_eq_true_eq]
      rintro rfl
      exact hn hx
    obtain ⟨htake, hdrop⟩ := span_eq hall (e := cs ++ behind) fun x hx => by simpa using he x hx
    have hguard : Guarded comment (cs ++ behind) := .inl fun x hx => by
      rw [he x hx]
      decide
    have hb' : bracketOpener? (comment ++ (cs ++ behind)) = none := by
      rw [bracketOpener?_append hguard, hb]
      rfl
    have hpos : p.after ('#' :: (comment ++ cs)) = (p.after ('#' :: comment)).after cs :=
      Position.after_append p ('#' :: comment) cs
    rw [List.cons_append, List.append_assoc, hpos]
    refine .line hb' ?_
    rw [htake, hdrop]
    exact ih _
  | @bracket level content cs hc h ih =>
    have hbody := splitAtFirst_of_closesFirst hc (cs ++ behind)
    have hrest : '#' :: (bracketOpener level ++ content ++ bracketCloser level ++ cs) ++ behind =
        '#' :: (bracketOpener level ++ (content ++ bracketCloser level ++ (cs ++ behind))) := by
      simp only [List.cons_append, List.append_assoc]
    have hpos : p.after ('#' :: (bracketOpener level ++ content ++ bracketCloser level ++ cs)) =
        (p.after ('#' :: (bracketOpener level ++ content ++ bracketCloser level))).after cs :=
      Position.after_append p ('#' :: (bracketOpener level ++ content ++ bracketCloser level)) cs
    rw [hrest, hpos]
    exact .bracket (bracketOpener?_eq_some_iff.2 rfl) hbody (ih _)

theorem skip_of_separation {behind gap : List Char} (h : Separation behind gap) (p : Position) :
    skipSeparation ⟨gap ++ behind, p⟩ = skipSeparation ⟨behind, p.after gap⟩ :=
  (h.skips p).skip_eq

/-- Where separation may stand, it only matters what is behind it. -/
theorem step_eq_of_skip_eq {c c' : Cursor} {contexts : List Context} (hs : separates contexts)
    (h : skipSeparation c = skipSeparation c') : (ScanState.mk c contexts).step = (ScanState.mk c' contexts).step := by
  cases contexts with
  | nil => simp only [ScanState.step, ScanState.stepTop, h]
  | cons d outer =>
    cases d with
    | command => simp only [ScanState.step, ScanState.stepCommand, h]
    | arguments => simp only [ScanState.step, ScanState.stepArguments, h]
    | _ => cases hs

theorem Reads.of_skip_eq {c c' : Cursor} {contexts : List Context} {s : ScanState} {b b' : Builder}
    (h : Reads ⟨c', contexts⟩ b s b') (hs : separates contexts) (hskip : skipSeparation c = skipSeparation c')
    (hne : s.contexts ≠ contexts) : Reads ⟨c, contexts⟩ b s b' := by
  cases h with
  | refl => exact absurd rfl hne
  | step hstep hb h => exact .step ((step_eq_of_skip_eq hs hskip).trans hstep) hb h

end CommandScript.Scanning
