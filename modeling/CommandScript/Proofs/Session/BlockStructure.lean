import CommandScript.Proofs.Session.BlockEnds

/-! What a block is. Behind the program that begins it, a block goes on for as long as no more blocks end than begin,
and the first end beyond that is its own. So the body of a block always ends its blocks, whatever stands around it, and
blocks are refused for the first one that never ends. -/

namespace CommandScript.Session

open Text Syntax Code

/-! ### Depth -/

/-- So deep inside other blocks, no part from the beginning on ends the outermost one. -/
def StaysInside (depth : Nat) (ps : List Program) : Prop :=
  ∀ qs, qs <+: ps → qs.countP Program.closesFunction ≤ depth + qs.countP Program.opensFunction

/-- What stands between the program that begins a block and the one that ends it. -/
def IsBody (ps : List Program) : Prop :=
  StaysInside 0 ps ∧ ps.countP Program.closesFunction = ps.countP Program.opensFunction

theorem staysInside_nil (depth : Nat) : StaysInside depth [] := by
  intro qs hqs
  rw [List.prefix_nil.1 hqs]
  exact Nat.zero_le _

theorem staysInside_cons {depth : Nat} {p : Program} {ps : List Program} :
    StaysInside depth (p :: ps) ↔ ¬(p.closesFunction ∧ depth = 0) ∧ StaysInside (depthBehind depth p) ps := by
  constructor
  · intro h
    have hp : ¬(p.closesFunction ∧ depth = 0) := by
      rintro ⟨hc, rfl⟩
      have ho : ¬p.opensFunction := fun ho => by
        rw [closesFunction_of_opensFunction ho] at hc
        cases hc
      have hone := h [p] ⟨ps, rfl⟩
      simp [ho, hc] at hone
    refine ⟨hp, fun qs hqs => ?_⟩
    have hdepth := depthBehind_add hp
    have hcount := h (p :: qs) (List.cons_prefix_cons.2 ⟨rfl, hqs⟩)
    rw [List.countP_cons, List.countP_cons] at hcount
    omega
  · rintro ⟨hp, h⟩ qs hqs
    obtain rfl | ⟨rs, rfl, hrs⟩ := List.prefix_cons_iff.1 hqs
    · exact Nat.zero_le _
    · have hdepth := depthBehind_add hp
      have hcount := h rs hrs
      rw [List.countP_cons, List.countP_cons]
      omega

/-! ### Splitting -/

/-- A block never ends if no end behind its beginning is its own. -/
theorem splitBlock_eq_none_iff {depth : Nat} {ps : List Program} :
    splitBlock depth ps = none ↔ StaysInside depth ps := by
  induction ps generalizing depth with
  | nil => exact ⟨fun _ => staysInside_nil depth, fun _ => rfl⟩
  | cons p ps ih =>
    rw [splitBlock_cons, staysInside_cons]
    split
    · rename_i hend
      exact ⟨fun h => (Option.some_ne_none _ h).elim, fun h => (h.1 hend).elim⟩
    · rename_i hend
      rw [Option.map_eq_none_iff, ih]
      exact ⟨fun h => ⟨hend, h⟩, And.right⟩

/-- A block ends with the first end that no block inside has taken. -/
theorem splitBlock_eq_some_iff {depth : Nat} {ps body rest : List Program} :
    splitBlock depth ps = some (body, rest) ↔ ∃ close, ps = body ++ close :: rest ∧ close.closesFunction ∧
      StaysInside depth body ∧
      body.countP Program.closesFunction = depth + body.countP Program.opensFunction := by
  induction ps generalizing depth body with
  | nil => simp [splitBlock]
  | cons p ps ih =>
    rw [splitBlock_cons]
    split
    · rename_i hend
      obtain ⟨hc, rfl⟩ := hend
      constructor
      · rintro ⟨⟩
        exact ⟨p, rfl, hc, staysInside_nil 0, rfl⟩
      · rintro ⟨close, heq, -, hinside, -⟩
        obtain _ | ⟨q, body⟩ := body
        · obtain ⟨rfl, rfl⟩ := List.cons.inj heq
          rfl
        · obtain ⟨rfl, -⟩ := List.cons.inj heq
          exact ((staysInside_cons.1 hinside).1 ⟨hc, rfl⟩).elim
    · rename_i hend
      have hdepth := depthBehind_add hend
      constructor
      · intro h
        obtain ⟨⟨body, _⟩, hs, heq⟩ := Option.map_eq_some_iff.1 h
        obtain ⟨rfl, rfl⟩ := Prod.mk.inj heq
        obtain ⟨close, rfl, hclose, hinside, hcount⟩ := ih.1 hs
        refine ⟨close, rfl, hclose, staysInside_cons.2 ⟨hend, hinside⟩, ?_⟩
        rw [List.countP_cons, List.countP_cons]
        omega
      · rintro ⟨close, heq, hclose, hinside, hcount⟩
        obtain _ | ⟨q, body⟩ := body
        · obtain ⟨rfl, -⟩ := List.cons.inj heq
          have hzero : depth = 0 := by simpa using hcount.symm
          exact (hend ⟨hclose, hzero⟩).elim
        · obtain ⟨rfl, rfl⟩ := List.cons.inj heq
          rw [List.countP_cons, List.countP_cons] at hcount
          have hs := ih.2 ⟨close, rfl, hclose, (staysInside_cons.1 hinside).2, by omega⟩
          rw [hs]
          rfl

/-- The body of a block, and what ends it. -/
theorem splitBlock_zero_iff {ps body rest : List Program} :
    splitBlock 0 ps = some (body, rest) ↔ ∃ close, ps = body ++ close :: rest ∧ close.closesFunction ∧ IsBody body := by
  rw [splitBlock_eq_some_iff, Nat.zero_add]
  rfl

/-! ### Blocks that end -/

theorem EndsBlocks.cons {p : Program} {ps : List Program} (h : EndsBlocks ps) (hp : ¬p.opensFunction) :
    EndsBlocks (p :: ps) := by
  intro qs hqs
  obtain rfl | hqs := List.suffix_cons_iff.1 hqs
  · have hcount := h ps (List.suffix_refl ps)
    have hmore : ps.countP Program.closesFunction ≤ (p :: ps).countP Program.closesFunction :=
      (List.sublist_cons_self p ps).countP_le
    rw [List.countP_cons_of_neg hp]
    omega
  · exact h qs hqs

theorem EndsBlocks.append {ps qs : List Program} (hp : EndsBlocks ps) (hq : EndsBlocks qs) : EndsBlocks (ps ++ qs) := by
  intro rs hrs
  obtain hrs | ⟨ts, rfl⟩ := List.suffix_or_suffix_of_suffix hrs (List.suffix_append ps qs)
  · exact hq rs hrs
  · have hts := hp ts (List.suffix_append_self_iff.1 hrs)
    have hqs := hq qs (List.suffix_refl qs)
    rw [List.countP_append, List.countP_append]
    omega

/-- A body ends the blocks in it, for those in front of a part of it begin at least as many as they end. -/
theorem IsBody.endsBlocks {ps : List Program} (h : IsBody ps) : EndsBlocks ps := by
  rintro qs ⟨before, rfl⟩
  have hbefore := h.1 before (List.prefix_append before qs)
  have hall := h.2
  rw [List.countP_append, List.countP_append] at hall
  omega

theorem endsBlocks_of_splitBlock {ps body rest : List Program} (h : splitBlock 0 ps = some (body, rest)) :
    EndsBlocks body := by
  obtain ⟨_, -, -, hbody⟩ := splitBlock_zero_iff.1 h
  exact hbody.endsBlocks

/-- A block in front of programs that end their blocks. -/
theorem EndsBlocks.block {p close : Program} {body rest : List Program} (hbody : IsBody body)
    (hclose : close.closesFunction) (hrest : EndsBlocks rest) : EndsBlocks (p :: (body ++ close :: rest)) := by
  have hnot : ¬close.opensFunction := fun ho => by
    rw [closesFunction_of_opensFunction ho] at hclose
    cases hclose
  have hinner : EndsBlocks (body ++ close :: rest) := hbody.endsBlocks.append (hrest.cons hnot)
  intro qs hqs
  obtain rfl | hqs := List.suffix_cons_iff.1 hqs
  · have hall := hrest rest (List.suffix_refl rest)
    have hequal := hbody.2
    have hfirst : (if p.opensFunction then 1 else 0) ≤ 1 := by split <;> omega
    simp only [List.countP_cons, List.countP_append, hclose, hnot, Bool.false_eq_true, ↓reduceIte]
    omega
  · exact hinner qs hqs

/-- Blocks are accepted if no part up to the end begins more than it ends. -/
theorem checkBlocks_eq_ok_iff {ps : List Program} : checkBlocks ps = .ok () ↔ EndsBlocks ps := by
  refine ⟨fun h => ?_, EndsBlocks.checkBlocks_eq⟩
  induction ps using checkBlocks.induct with
  | case1 =>
    intro qs hqs
    rw [List.suffix_nil.1 hqs]
    exact Nat.zero_le _
  | case2 p ps ho body rest hs ih =>
    rw [checkBlocks_of_ended ho hs] at h
    obtain ⟨close, rfl, hclose, hbody⟩ := splitBlock_zero_iff.1 hs
    exact .block hbody hclose (ih h)
  | case3 p ps ho hs =>
    rw [checkBlocks_of_unended ho hs] at h
    cases h
  | case4 p ps ho ih =>
    rw [checkBlocks, if_neg ho] at h
    exact (ih h).cons ho

/-! ### The first block that never ends -/

/-- Blocks that end, one behind another, and programs between them that begin none. -/
inductive Complete : List Program → Prop where
  | nil : Complete []
  | other {p : Program} {ps : List Program} (hp : ¬p.opensFunction) (h : Complete ps) : Complete (p :: ps)
  | block {p close : Program} {body ps : List Program} (hp : p.opensFunction) (hbody : IsBody body)
    (hclose : close.closesFunction) (h : Complete ps) : Complete (p :: (body ++ close :: ps))

/-- Behind blocks that end, blocks are checked as if they came first. -/
theorem Complete.checkBlocks_append {before : List Program} (h : Complete before) (ps : List Program) :
    checkBlocks (before ++ ps) = checkBlocks ps := by
  induction h with
  | nil => rfl
  | other hp _ ih => rw [List.cons_append, checkBlocks, if_neg hp, ih]
  | @block p close body before hp hbody hclose _ ih =>
    have hs : splitBlock 0 (body ++ close :: (before ++ ps)) = some (body, before ++ ps) :=
      splitBlock_zero_iff.2 ⟨close, rfl, hclose, hbody⟩
    rw [List.cons_append, List.append_assoc, List.cons_append, checkBlocks_of_ended hp hs]
    exact ih

/-- Blocks are refused for the first program outside all blocks that begins one without an end. -/
theorem checkBlocks_eq_error_iff {ps : List Program} {f : Fault} :
    checkBlocks ps = .error f ↔ ∃ before p after, ps = before ++ p :: after ∧ Complete before ∧ p.opensFunction ∧
      StaysInside 0 after ∧ f = p.unclosedFunction := by
  constructor
  · intro h
    induction ps using checkBlocks.induct with
    | case1 =>
      rw [checkBlocks] at h
      cases h
    | case2 p ps ho body rest hs ih =>
      rw [checkBlocks_of_ended ho hs] at h
      obtain ⟨close, rfl, hclose, hbody⟩ := splitBlock_zero_iff.1 hs
      obtain ⟨before, q, after, rfl, hbefore, hq⟩ := ih h
      exact ⟨p :: (body ++ close :: before), q, after, by simp, .block ho hbody hclose hbefore, hq⟩
    | case3 p ps ho hs =>
      rw [checkBlocks_of_unended ho hs] at h
      cases h
      exact ⟨[], p, ps, rfl, .nil, ho, splitBlock_eq_none_iff.1 hs, rfl⟩
    | case4 p ps ho ih =>
      rw [checkBlocks, if_neg ho] at h
      obtain ⟨before, q, after, rfl, hbefore, hq⟩ := ih h
      exact ⟨p :: before, q, after, rfl, .other ho hbefore, hq⟩
  · rintro ⟨before, p, after, rfl, hbefore, ho, hafter, rfl⟩
    have hs : splitBlock 0 after = none := splitBlock_eq_none_iff.2 hafter
    rw [hbefore.checkBlocks_append, checkBlocks_of_unended ho hs]

end CommandScript.Session
