import CommandScript.Text.Lines
import CommandScript.Text.Source

/-! Two ways to count lines. A text in normal form has a line for every line feed; the text as it was handed over is
split at other boundaries as well. As far as there are none of those, both ways give the same lines, save for carriage
returns in front of line feeds. -/

namespace CommandScript.Text

/-! ### Line feeds -/

theorem splitFeeds_line {k : List Char} (hk : '\n' ∉ k) (r : List Char) :
    splitFeeds (k ++ '\n' :: r) = (k ++ ['\n']) :: splitFeeds r := by
  induction k with
  | nil => simp [splitFeeds]
  | cons c k ih =>
    have hc : c ≠ '\n' := fun hc => hk (hc ▸ List.mem_cons_self)
    have hk' : '\n' ∉ k := fun hmem => hk (List.mem_cons_of_mem c hmem)
    rw [List.cons_append, splitFeeds, if_neg hc, ih hk']
    rfl

theorem splitFeeds_last {k : List Char} (hk : '\n' ∉ k) (hne : k ≠ []) : splitFeeds k = [k] := by
  induction k with
  | nil => exact (hne rfl).elim
  | cons c k ih =>
    have hc : c ≠ '\n' := fun hc => hk (hc ▸ List.mem_cons_self)
    have hk' : '\n' ∉ k := fun hmem => hk (List.mem_cons_of_mem c hmem)
    rw [splitFeeds, if_neg hc]
    by_cases hnil : k = []
    · rw [hnil]
      rfl
    · rw [ih hk' hnil]

/-- There are as many lines up to a line feed as there are line feeds. -/
theorem length_splitFeeds (before : List Char) : (splitFeeds (before ++ ['\n'])).length = before.count '\n' + 1 := by
  induction before with
  | nil => rfl
  | cons c before ih =>
    rw [List.cons_append, splitFeeds]
    by_cases hc : c = '\n'
    · rw [if_pos hc, List.length_cons, ih, hc, List.count_cons_self]
    · rw [if_neg hc, List.count_cons_of_ne hc, ← ih]
      cases hs : splitFeeds (before ++ ['\n']) with
      | nil =>
        rw [hs] at ih
        cases ih
      | cons => rfl

/-- Behind a line feed, lines are split as in a text by itself. -/
theorem splitFeeds_append (before cs : List Char) :
    splitFeeds (before ++ '\n' :: cs) = splitFeeds (before ++ ['\n']) ++ splitFeeds cs := by
  induction before with
  | nil => simp [splitFeeds]
  | cons c before ih =>
    rw [List.cons_append, List.cons_append, splitFeeds, splitFeeds, ih]
    by_cases hc : c = '\n'
    · rw [if_pos hc, if_pos hc]
      rfl
    · rw [if_neg hc, if_neg hc]
      have hlength := length_splitFeeds before
      cases hs : splitFeeds (before ++ ['\n']) with
      | nil =>
        rw [hs] at hlength
        cases hlength
      | cons => rfl

/-- What stands behind the last line feed. -/
theorem exists_lastLine (before : List Char) : ∃ k, '\n' ∉ k ∧
    (before.reverse.takeWhile (· ≠ '\n')).length = k.length ∧
    (before = k ∨ ∃ lines, before = lines ++ '\n' :: k) := by
  refine ⟨(before.reverse.takeWhile (· ≠ '\n')).reverse, ?_, by simp, ?_⟩
  · intro hmem
    have hall := List.all_eq_true.1 List.all_takeWhile _ (List.mem_reverse.1 hmem)
    simp at hall
  · have hsplit : before = (before.reverse.dropWhile (· ≠ '\n')).reverse ++
        (before.reverse.takeWhile (· ≠ '\n')).reverse := by
      rw [← List.reverse_append, List.takeWhile_append_dropWhile, List.reverse_reverse]
    have hhead := List.head?_dropWhile_not (fun c : Char => decide (c ≠ '\n')) before.reverse
    cases hdrop : before.reverse.dropWhile (· ≠ '\n') with
    | nil =>
      rw [hdrop] at hsplit
      exact .inl hsplit
    | cons x rest =>
      rw [hdrop] at hsplit hhead
      have hx : x = '\n' := by simpa using hhead
      refine .inr ⟨rest.reverse, ?_⟩
      rw [hx, List.reverse_cons, List.append_assoc] at hsplit
      exact hsplit

/-- The line that a piece of a text stands in, if there is no line feed in the piece. -/
theorem exists_line (before token rest : List Char) (htoken : '\n' ∉ token) (hne : token ≠ []) :
    ∃ k a ending, '\n' ∉ k ∧ '\n' ∉ a ∧ (ending = [] ∨ ending = ['\n']) ∧
      (before.reverse.takeWhile (· ≠ '\n')).length = k.length ∧
      (splitFeeds (before ++ token ++ rest))[before.count '\n']? = some (k ++ token ++ a ++ ending) := by
  obtain ⟨k, hk, hlength, hbefore⟩ := exists_lastLine before
  obtain ⟨a, ending, ha, hending, lines, hlines⟩ : ∃ a ending, '\n' ∉ a ∧ (ending = [] ∨ ending = ['\n']) ∧
      ∃ lines, splitFeeds (k ++ token ++ rest) = (k ++ token ++ a ++ ending) :: lines := by
    by_cases hrest : '\n' ∈ rest
    · obtain ⟨a, r, rfl, ha⟩ := List.eq_append_cons_of_mem hrest
      have hline : '\n' ∉ k ++ token ++ a := by simp [hk, htoken, ha]
      refine ⟨a, ['\n'], ha, .inr rfl, splitFeeds r, ?_⟩
      rw [← splitFeeds_line hline]
      simp only [List.append_assoc]
    · have hline : '\n' ∉ k ++ token ++ rest := by simp [hk, htoken, hrest]
      refine ⟨rest, [], hrest, .inl rfl, [], ?_⟩
      rw [List.append_nil]
      exact splitFeeds_last hline (by simp [hne])
  refine ⟨k, a, ending, hk, ha, hending, hlength, ?_⟩
  obtain rfl | ⟨above, rfl⟩ := hbefore
  · rw [List.count_eq_zero_of_not_mem hk, hlines]
    rfl
  · have hcount : (above ++ '\n' :: k).count '\n' = above.count '\n' + 1 := by
      simp [List.count_append, List.count_eq_zero_of_not_mem hk]
    rw [hcount, ← length_splitFeeds, List.append_assoc, List.append_assoc, List.cons_append, splitFeeds_append,
      List.getElem?_append_right (Nat.le_refl _), Nat.sub_self, ← List.append_assoc, hlines]
    rfl

/-! ### Line boundaries -/

/-- No character ends a line. -/
def IsPlain (k : List Char) : Prop := ∀ x ∈ k, endsLine x = false

theorem splitLines_cons {c : Char} (hc : endsLine c = false) (r : List Char) :
    splitLines (c :: r) = match splitLines r with
      | [] => [[c]]
      | line :: lines => (c :: line) :: lines := by
  -- unfolded as a whole, for the equation of this case alone takes long to derive
  rw [splitLines.eq_def]
  split
  · rename_i hnil
    cases hnil
  · rename_i hreturn
    cases hreturn
    exact absurd hc (by decide)
  · rename_i hcons
    cases hcons
    rw [hc]
    rfl

theorem splitLines_plain {k cs line : List Char} {lines : List (List Char)} (hk : IsPlain k)
    (h : splitLines cs = line :: lines) : splitLines (k ++ cs) = (k ++ line) :: lines := by
  induction k with
  | nil => exact h
  | cons c k ih =>
    obtain ⟨hc, hk⟩ := List.forall_mem_cons.1 hk
    rw [List.cons_append, splitLines_cons hc, ih hk]
    rfl

theorem splitLines_last {k : List Char} (hk : IsPlain k) (hne : k ≠ []) : splitLines k = [k] := by
  induction k with
  | nil => exact (hne rfl).elim
  | cons c k ih =>
    obtain ⟨hc, hk⟩ := List.forall_mem_cons.1 hk
    rw [splitLines_cons hc]
    by_cases hnil : k = []
    · rw [hnil]
      rfl
    · rw [ih hk hnil]

/-! ### Both together -/

theorem foldLineEnds_of_feedless {k : List Char} (hk : '\n' ∉ k) : foldLineEnds k = k := by
  induction k using foldLineEnds.induct with
  | case1 cs ih => simp at hk
  | case2 c cs hne ih => rw [foldLineEnds.eq_2 c cs hne, ih fun hmem => hk (List.mem_cons_of_mem c hmem)]
  | case3 => rfl

/-- The first line of a text, with what follows it, as it is and in normal form. -/
theorem exists_firstLine {cs : List Char} (h : '\n' ∈ cs) : ∃ k r ending, '\n' ∉ k ∧ cs = k ++ ending ++ r ∧
    (ending = ['\n'] ∨ ending = ['\r', '\n']) ∧ foldLineEnds cs = k ++ '\n' :: foldLineEnds r := by
  obtain ⟨k, r, rfl, hk⟩ := List.eq_append_cons_of_mem h
  by_cases hlast : k.getLast? = some '\r'
  · obtain ⟨k, rfl⟩ := List.getLast?_eq_some_iff.1 hlast
    have hk' : '\n' ∉ k := fun hmem => hk (List.mem_append_left _ hmem)
    refine ⟨k, r, ['\r', '\n'], hk', by simp, .inr rfl, ?_⟩
    have hfold : foldLineEnds (k ++ '\r' :: '\n' :: r) = foldLineEnds k ++ foldLineEnds ('\r' :: '\n' :: r) :=
      foldLineEnds_append fun _ h => by cases h
    rw [List.append_assoc, List.singleton_append, hfold, foldLineEnds_of_feedless hk', foldLineEnds]
  · refine ⟨k, r, ['\n'], hk, by simp, .inl rfl, ?_⟩
    rw [foldLineEnds_append fun h => absurd h hlast, foldLineEnds_of_feedless hk,
      foldLineEnds.eq_2 '\n' r (by rintro r hr; cases hr)]

/-- The first lines of a text have no boundaries in them other than line feeds. -/
def PlainLines (n : Nat) (cs : List Char) : Prop := ∀ l ∈ (splitFeeds cs).take n, ∀ x ∈ l, endsLine x → x = '\n'

-- the members of the lines are tried, not all characters there are
instance (n : Nat) (cs : List Char) : Decidable (PlainLines n cs) :=
  @List.decidableBAll _ _ (fun l => List.decidableBAll (fun x => endsLine x → x = '\n') l) _

theorem isPlain_of_line {k ending : List Char} (hk : '\n' ∉ k) (h : ∀ x ∈ k ++ ending, endsLine x → x = '\n') :
    IsPlain k := by
  intro x hx
  cases hend : endsLine x with
  | false => rfl
  | true =>
    obtain rfl := h x (List.mem_append_left ending hx) hend
    exact (hk hx).elim

theorem PlainLines.line {n : Nat} {k r : List Char} (h : PlainLines (n + 1) (k ++ '\n' :: r)) (hk : '\n' ∉ k) :
    IsPlain k ∧ PlainLines n r := by
  unfold PlainLines at h
  rw [splitFeeds_line hk, List.take_succ_cons] at h
  obtain ⟨hline, hrest⟩ := List.forall_mem_cons.1 h
  exact ⟨isPlain_of_line hk hline, hrest⟩

theorem splitLines_line {k ending : List Char} (hk : IsPlain k) (hending : ending = ['\n'] ∨ ending = ['\r', '\n'])
    (r : List Char) : splitLines (k ++ ending ++ r) = (k ++ ending) :: splitLines r := by
  have hr : splitLines (ending ++ r) = ending :: splitLines r := by
    obtain rfl | rfl := hending
    · rfl
    · rfl
  rw [List.append_assoc]
  exact splitLines_plain hk hr

/-- As far as lines are plain in normal form, the text as it is has the same ones, if carriage returns in front of line
feeds do not count. -/
theorem exists_splitLines {n : Nat} {cs l : List Char} (hplain : PlainLines (n + 1) (foldLineEnds cs))
    (hl : (splitFeeds (foldLineEnds cs))[n]? = some l) : ∃ l', (splitLines cs)[n]? = some l' ∧
      (l' = l ∨ ∃ k, l = k ++ ['\n'] ∧ l' = k ++ ['\r', '\n']) := by
  induction n generalizing cs with
  | zero =>
    by_cases hfeed : '\n' ∈ cs
    · obtain ⟨k, r, ending, hk, rfl, hending, hfold⟩ := exists_firstLine hfeed
      rw [hfold] at hl hplain
      obtain ⟨hplain, -⟩ := hplain.line hk
      rw [splitFeeds_line hk] at hl
      obtain rfl : k ++ ['\n'] = l := Option.some.inj hl
      refine ⟨k ++ ending, ?_, ?_⟩
      · rw [splitLines_line hplain hending]
        rfl
      · obtain rfl | rfl := hending
        · exact .inl rfl
        · exact .inr ⟨k, rfl, rfl⟩
    · rw [foldLineEnds_of_feedless hfeed] at hl hplain
      by_cases hnil : cs = []
      · rw [hnil] at hl
        cases hl
      · unfold PlainLines at hplain
        rw [splitFeeds_last hfeed hnil] at hl hplain
        obtain rfl : cs = l := Option.some.inj hl
        have hcs : IsPlain cs := @isPlain_of_line cs [] hfeed (by simpa using hplain)
        exact ⟨cs, by rw [splitLines_last hcs hnil]; rfl, .inl rfl⟩
  | succ n ih =>
    by_cases hfeed : '\n' ∈ cs
    · obtain ⟨k, r, ending, hk, rfl, hending, hfold⟩ := exists_firstLine hfeed
      rw [hfold] at hl hplain
      obtain ⟨hplain, hrest⟩ := hplain.line hk
      rw [splitFeeds_line hk] at hl
      rw [splitLines_line hplain hending]
      exact ih hrest hl
    · -- there is one line only
      rw [foldLineEnds_of_feedless hfeed] at hl
      by_cases hnil : cs = []
      · rw [hnil] at hl
        cases hl
      · rw [splitFeeds_last hfeed hnil] at hl
        cases hl

/-- A byte-order mark in front changes no line but the first. -/
theorem splitLines_dropByteOrderMark {cs : List Char} {n : Nat} (h : n = 0 → cs.head? ≠ some byteOrderMark) :
    (splitLines (dropByteOrderMark cs))[n]? = (splitLines cs)[n]? := by
  cases cs with
  | nil => rfl
  | cons c cs =>
    simp only [dropByteOrderMark]
    split
    · rename_i hc
      subst hc
      rw [splitLines_cons (by decide)]
      cases n with
      | zero => exact (h rfl rfl).elim
      | succ n => cases splitLines cs <;> rfl
    · rfl

end CommandScript.Text
