import CommandScript.Code.Blocks
import CommandScript.Proofs.Scanning.Completion

/-! Function blocks can be ended from behind. A script in which no part up to the end begins more blocks than it ends
has no block without an end, so a script that can be completed up to a place between two calls becomes one that can
be read if enough calls of `endfunction` follow: as many as there are calls in front of them. -/

namespace CommandScript.Session

open Text Syntax Code Scanning

/-! ### Blocks -/

/-- No part of a script up to its end begins more blocks than it ends. -/
def EndsBlocks (ps : List Program) : Prop :=
  ∀ qs, qs <:+ ps → qs.countP Program.opensFunction ≤ qs.countP Program.closesFunction

theorem closesFunction_of_opensFunction {p : Program} (h : p.opensFunction) : p.closesFunction = false := by
  unfold Program.opensFunction at h
  unfold Program.closesFunction
  rw [of_decide_eq_true h]
  decide

/-- How deep a block stands in others behind a program that does not end it. -/
def depthBehind (depth : Nat) (p : Program) : Nat :=
  if p.opensFunction then depth + 1 else if p.closesFunction then depth - 1 else depth

theorem depthBehind_add {depth : Nat} {p : Program} (h : ¬(p.closesFunction ∧ depth = 0)) :
    depthBehind depth p + (if p.closesFunction then 1 else 0) = depth + (if p.opensFunction then 1 else 0) := by
  unfold depthBehind
  by_cases ho : p.opensFunction
  · simp [ho, closesFunction_of_opensFunction ho]
  · by_cases hc : p.closesFunction
    · have hdepth : depth ≠ 0 := fun hd => h ⟨hc, hd⟩
      simp only [ho, hc, Bool.false_eq_true, ↓reduceIte]
      omega
    · simp [ho, hc]

/-- The next program ends the block, or the block goes on behind it. -/
theorem splitBlock_cons (depth : Nat) (p : Program) (ps : List Program) :
    splitBlock depth (p :: ps) =
      if p.closesFunction ∧ depth = 0 then some ([], ps)
      else (splitBlock (depthBehind depth p) ps).map fun (body, rest) => (p :: body, rest) := by
  simp only [splitBlock, depthBehind]
  by_cases ho : p.opensFunction
  · simp [ho, closesFunction_of_opensFunction ho]
  · by_cases hc : p.closesFunction
    · cases depth <;> simp [ho, hc]
    · simp [ho, hc]

/-- A block ends if more blocks end behind its beginning than begin there. -/
theorem exists_splitBlock {ps : List Program} {depth : Nat}
    (h : depth + ps.countP Program.opensFunction < ps.countP Program.closesFunction) :
    ∃ body rest, splitBlock depth ps = some (body, rest) := by
  induction ps generalizing depth with
  | nil => simp at h
  | cons p ps ih =>
    rw [splitBlock_cons]
    by_cases hend : p.closesFunction ∧ depth = 0
    · rw [if_pos hend]
      exact ⟨[], ps, rfl⟩
    · rw [if_neg hend]
      have hmore : depthBehind depth p + ps.countP Program.opensFunction < ps.countP Program.closesFunction := by
        have hdepth := depthBehind_add hend
        rw [List.countP_cons, List.countP_cons] at h
        omega
      obtain ⟨body, rest, hs⟩ := ih hmore
      exact ⟨p :: body, rest, by rw [hs]; rfl⟩

theorem suffix_of_splitBlock {ps body rest : List Program} {depth : Nat}
    (h : splitBlock depth ps = some (body, rest)) : rest <:+ ps := by
  induction ps generalizing depth body with
  | nil => simp [splitBlock] at h
  | cons p ps ih =>
    rw [splitBlock_cons] at h
    split at h
    · cases h
      exact List.suffix_cons p rest
    · obtain ⟨⟨b, r⟩, hs, he⟩ := Option.map_eq_some_iff.1 h
      cases he
      exact (ih hs).trans (List.suffix_cons p ps)

theorem checkBlocks_of_ended {p : Program} {ps body rest : List Program} (ho : p.opensFunction)
    (hs : splitBlock 0 ps = some (body, rest)) : checkBlocks (p :: ps) = checkBlocks rest := by
  rw [checkBlocks, if_pos ho]
  split
  · rename_i hs'
    rw [hs] at hs'
    cases hs'
    rfl
  · rename_i hs'
    rw [hs] at hs'
    cases hs'

theorem checkBlocks_of_unended {p : Program} {ps : List Program} (ho : p.opensFunction) (hs : splitBlock 0 ps = none) :
    checkBlocks (p :: ps) = .error p.unclosedFunction := by
  rw [checkBlocks, if_pos ho]
  split
  · rename_i hs'
    rw [hs] at hs'
    cases hs'
  · rfl

theorem EndsBlocks.suffix {ps qs : List Program} (h : EndsBlocks ps) (hs : qs <:+ ps) : EndsBlocks qs :=
  fun rs hr => h rs (hr.trans hs)

theorem EndsBlocks.checkBlocks_eq {ps : List Program} (h : EndsBlocks ps) : checkBlocks ps = .ok () := by
  induction ps using checkBlocks.induct with
  | case1 => rw [checkBlocks]
  | case2 p ps ho body rest hs ih =>
    rw [checkBlocks_of_ended ho hs]
    exact ih (h.suffix ((suffix_of_splitBlock hs).trans (List.suffix_cons p ps)))
  | case3 p ps ho hs =>
    -- the block cannot but end
    have hcount := h (p :: ps) (List.suffix_refl _)
    rw [List.countP_cons_of_pos ho, List.countP_cons, closesFunction_of_opensFunction ho] at hcount
    have hmore : 0 + ps.countP Program.opensFunction < ps.countP Program.closesFunction := by
      simp at hcount
      omega
    obtain ⟨body, rest, hs'⟩ := exists_splitBlock hmore
    rw [hs] at hs'
    cases hs'
  | case4 p ps ho ih =>
    rw [checkBlocks, if_neg ho]
    exact ih (h.suffix (List.suffix_cons p ps))

/-- Enough ends behind a script end all its blocks. -/
theorem endsBlocks_append {ps qs : List Program} (hq : ∀ q ∈ qs, q.closesFunction) (hlen : ps.length ≤ qs.length) :
    EndsBlocks (ps ++ qs) := by
  have hopens (q : Program) (h : q ∈ qs) : ¬q.opensFunction := by
    intro ho
    have := hq q h
    rw [closesFunction_of_opensFunction ho] at this
    cases this
  intro rs hr
  rcases List.suffix_or_suffix_of_suffix hr (List.suffix_append ps qs) with hr | ⟨ts, rfl⟩
  · rw [List.countP_eq_zero.2 fun q hmem => hopens q (hr.subset hmem)]
    exact Nat.zero_le _
  · rw [List.countP_append, List.countP_append, List.countP_eq_zero.2 hopens, List.countP_eq_length.2 hq]
    have := List.countP_le_length (p := Program.opensFunction) (l := ts)
    have := (List.suffix_append_self_iff.1 hr).length_le
    omega

/-! ### Reading ends -/

/-- A call that ends a block, on a line of its own. -/
def endLine : List Char := ['e', 'n', 'd', 'f', 'u', 'n', 'c', 't', 'i', 'o', 'n', '(', ')', '\n']

def endLines : Nat → List Char
  | 0 => []
  | n + 1 => endLine ++ endLines n

theorem not_mem_endLines (n : Nat) : '\r' ∉ endLines n := by
  induction n with
  | zero => simp [endLines]
  | succ n ih => simp [endLines, endLine, ih]

theorem identifier?_endLine (k : List Char) :
    identifier? (endLine ++ k) =
      some (['e', 'n', 'd', 'f', 'u', 'n', 'c', 't', 'i', 'o', 'n'], '(' :: ')' :: '\n' :: k) := by
  have h : identifier? endLine = some (['e', 'n', 'd', 'f', 'u', 'n', 'c', 't', 'i', 'o', 'n'], ['(', ')', '\n']) := by
    decide
  rw [identifier?_append (.inr ⟨'\n', rfl, by decide⟩), h]
  rfl

/-- One line is read as one call. -/
theorem reads_endLine {c : Cursor} {b : Builder} {k : List Char} (hf : Faces [] c (endLine ++ k))
    (hb : b.opened = []) : ∃ c' i, Reads ⟨c, []⟩ b ⟨c', []⟩ ⟨i :: b.done, []⟩ ∧ i.name = "endfunction" ∧
      Faces [] c' k := by
  obtain ⟨done, opened⟩ := b
  cases hb
  obtain ⟨p, hp⟩ : ∃ p, skipSeparation c = .ok ⟨'e' :: (endLine.tail ++ k), p⟩ :=
    skip_of_faces rfl hf (by decide) (by decide)
  obtain ⟨q, hname⟩ : ∃ q, (ScanState.mk c []).step = .moved [⟨.name "endfunction", p, q⟩]
      ⟨⟨'(' :: ')' :: '\n' :: k, q⟩, [.command]⟩ := by
    have hi : identifier? ('e' :: (endLine.tail ++ k)) = _ := identifier?_endLine k
    unfold ScanState.step
    simp only [ScanState.stepTop, hp, hi]
    exact ⟨_, rfl⟩
  have hopen : (ScanState.mk ⟨'(' :: ')' :: '\n' :: k, q⟩ [.command]).step =
      .moved [⟨.leftParen, q, q.next '('⟩] ⟨⟨')' :: '\n' :: k, q.next '('⟩, [.arguments q none]⟩ := by
    have hq : skipSeparation ⟨'(' :: ')' :: '\n' :: k, q⟩ = .ok ⟨'(' :: ')' :: '\n' :: k, q⟩ :=
      skip_of_stands fun x hx => by
        cases hx
        decide
    unfold ScanState.step
    simp only [ScanState.stepCommand, hq]
    rfl
  have hf' : Faces [.arguments q none] ⟨')' :: '\n' :: k, q.next '('⟩ (')' :: '\n' :: k) := ⟨_, rfl⟩
  obtain ⟨p', q', hclose⟩ := step_rightParen hf'
  have hblank : Skips ⟨'\n' :: k, q'⟩ ⟨k, q'.next '\n'⟩ := .blank (by decide) (.refl _)
  exact ⟨_, ⟨"endfunction", p, q', []⟩, .step hname rfl (.step hopen rfl (.step hclose rfl (.refl _ _))), rfl,
    ⟨_, hblank.skip_eq⟩⟩

/-- Lines are read as calls, to the end of the text. -/
theorem reads_endLines (n : Nat) {c : Cursor} {b : Builder} (hf : Faces [] c (endLines n)) (hb : b.opened = []) :
    ∃ c' is, Reads ⟨c, []⟩ b ⟨c', []⟩ ⟨is ++ b.done, []⟩ ∧ is.length = n ∧ (∀ i ∈ is, i.name = "endfunction") ∧
      Faces [] c' [] := by
  induction n generalizing c b with
  | zero =>
    obtain ⟨done, opened⟩ := b
    cases hb
    exact ⟨c, [], .refl _ _, rfl, by simp, hf⟩
  | succ n ih =>
    obtain ⟨c₁, i, hr, hi, hf₁⟩ := reads_endLine hf hb
    obtain ⟨c', is, hr', hlen, his, hf'⟩ := ih (b := ⟨i :: b.done, []⟩) hf₁ rfl
    refine ⟨c', is ++ [i], ?_, by simp [hlen], ?_, hf'⟩
    · rw [List.append_assoc]
      exact hr.trans hr'
    · intro j hj
      rcases List.mem_append.1 hj with hj | hj
      · exact his j hj
      · rw [List.mem_singleton.1 hj, hi]

/-! ### Completing a script -/

/-- A text whose fault, if it has any, more text might mend can be completed and followed by as many ends of blocks as
it has calls. -/
theorem exists_parseText {text : List Char} {file : Option String}
    (h : ∀ f, parseText text file = .error f → f.isOpenEnded) : ∃ e, IsCompletion e ∧ ∃ is js,
      parseText (text ++ e) file = .ok (is ++ js) ∧ is.length ≤ js.length ∧ ∀ j ∈ js, j.name = "endfunction" := by
  have hscan : Completable .initial ⟨⟨text, .start⟩, []⟩ := by
    unfold parseText at h
    simp only at h
    split at h
    · rename_i t expected hb
      cases h _ rfl
    · rename_i b hb
      refine completable _ .between hb fun f q hf => ?_
      change (scan text).fault = some (f, q) at hf
      rw [hf] at h
      exact h _ rfl
  obtain ⟨calls, hcalls⟩ := hscan
  obtain ⟨e, he, c, b, hr, ho, hlen, hf⟩ := hcalls _ (not_mem_endLines calls)
  obtain ⟨c', is, hr', hlen', his, hf'⟩ := reads_endLines calls hf ho
  obtain ⟨hfault, htokens⟩ := (hr.trans hr').scan_eq
  have hend : (ScanState.mk c' []).step = .finished := by
    obtain ⟨p, hp⟩ := hf'
    unfold ScanState.step
    simp only [ScanState.stepTop, hp, skip_at_end]
  rw [ScanState.scan_finished hend] at hfault htokens
  change (scan (text ++ e)).fault = none at hfault
  change Builder.initial.feedAll (scan (text ++ e)).tokens = .ok ⟨is ++ b.done, []⟩ at htokens
  refine ⟨e, he, b.done.reverse, is.reverse, ?_, ?_, ?_⟩
  · unfold parseText
    simp only [htokens, hfault, List.reverse_append]
  · simpa [hlen'] using hlen
  · simpa using his

/-- A script that is not in order, but that more text might put in order, can be completed. -/
theorem exists_programsOfText {text : List Char} {file : Option String}
    (h : ∀ f, programsOfText text file = .error f → f.isOpenEnded) : ∃ e, IsCompletion e ∧ ∃ ps,
      programsOfText (text ++ e) file = .ok ps ∧ checkBlocks ps = .ok () := by
  have hp : ∀ f, parseText text file = .error f → f.isOpenEnded := by
    intro f hf
    apply h
    rw [programsOfText, hf]
    rfl
  obtain ⟨e, he, is, js, hok, hlen, hjs⟩ := exists_parseText hp
  refine ⟨e, he, (is ++ js).map (Program.ofInvocation (text ++ e) file), ?_, ?_⟩
  · rw [programsOfText, hok]
    rfl
  · apply EndsBlocks.checkBlocks_eq
    rw [List.map_append]
    apply endsBlocks_append
    · intro q hq
      obtain ⟨j, hj, rfl⟩ := List.mem_map.1 hq
      have hlower : lowerCase "endfunction" = "endfunction" := by decide
      unfold Program.closesFunction Program.ofInvocation
      simp only [hjs j hj, hlower, decide_true]
    · simpa using hlen

end CommandScript.Session
