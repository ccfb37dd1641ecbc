import CommandScript.Proofs.Lists.Splitting

/-! Which items splitting tells apart again once they are joined. No semicolon may come to stand behind a backslash, an
item in front of another has to close its brackets, and a semicolon in an item has to stand inside of brackets. Nothing
else will do: what one item breaks, no other one mends. -/

namespace CommandScript.Text.ItemList

/-- Items that stay apart when they are joined. How deep in brackets an item stands is counted from its own start. -/
structure StayApart (items : List String) : Prop where
  unescaped : ¬ ['\\', ';'] <:+: (join items).toList
  /-- The last item may leave brackets open. -/
  closed : ∀ item ∈ items.dropLast, nesting item.toList = 0
  guarded : ∀ item ∈ items, ∀ before after, item.toList = before ++ ';' :: after → 0 < nesting before

/-! ### Escapes -/

theorem unescaped_cons {c : Char} {cs : List Char} (h : ¬ ['\\', ';'] <:+: c :: cs) :
    (c = '\\' → cs.head? ≠ some ';') ∧ ¬ ['\\', ';'] <:+: cs := by
  refine ⟨?_, fun hcs => h (List.infix_cons hcs)⟩
  rintro rfl hhead
  obtain ⟨cs, rfl⟩ := List.head?_eq_some_iff.1 hhead
  exact h ⟨[], cs, rfl⟩

theorem unescaped_append {front back : List Char} (h : ¬ ['\\', ';'] <:+: front ++ ';' :: back) :
    front.getLast? ≠ some '\\' ∧ ¬ ['\\', ';'] <:+: front ∧ ¬ ['\\', ';'] <:+: back := by
  refine ⟨fun hlast => ?_, fun hfront => ?_, fun hback => ?_⟩
  · obtain ⟨front, rfl⟩ := List.getLast?_eq_some_iff.1 hlast
    exact h ⟨front, back, by simp⟩
  · exact h (hfront.trans (List.prefix_append _ _).isInfix)
  · exact h (hback.trans ((List.suffix_cons _ _).trans (List.suffix_append _ _)).isInfix)

theorem length_unescape_le (cs : List Char) : (unescape cs).length ≤ cs.length := by
  fun_induction unescape cs with
  | case1 => exact Nat.le_refl 0
  | case2 cs ih => simp only [List.length_cons]; omega
  | case3 c cs hc ih => simpa using ih

/-- Every escape costs a character. -/
theorem length_unescape_lt {cs : List Char} (h : ['\\', ';'] <:+: cs) : (unescape cs).length < cs.length := by
  fun_induction unescape cs with
  | case1 => simp at h
  | case2 cs ih =>
    have := length_unescape_le cs
    simp only [List.length_cons]
    omega
  | case3 c cs hc ih =>
    rcases List.infix_cons_iff.1 h with hprefix | hinfix
    · obtain ⟨rfl, rest, rfl⟩ := List.cons_prefix_cons.1 hprefix
      exact (hc rest rfl rfl).elim
    · simpa using ih hinfix

/-! ### Pieces that were joined -/

/-- Whether each semicolon of an item that begins `depth` brackets deep stands inside of brackets. -/
def Guarded (depth : Nat) (item : List Char) : Prop :=
  ∀ before after, item = before ++ ';' :: after → 0 < before.foldl depthAfter depth

theorem guarded_nil (depth : Nat) : Guarded depth [] := by
  rintro (_ | _) _ h <;> cases h

theorem guarded_cons_iff {depth : Nat} {c : Char} {cs : List Char} :
    Guarded depth (c :: cs) ↔ (c = ';' → 0 < depth) ∧ Guarded (depthAfter depth c) cs := by
  constructor
  · intro h
    exact ⟨fun hc => h [] cs (by rw [hc]; rfl), fun before after hcs => h (c :: before) after (by rw [hcs]; rfl)⟩
  · rintro ⟨hc, hcs⟩ before after h
    cases before with
    | nil => exact hc (List.cons.inj h).1
    | cons b before =>
      obtain ⟨rfl, hrest⟩ := List.cons.inj h
      exact hcs before after hrest

/-- Items that splitting could leave of a text without escapes that begins `depth` brackets deep. -/
def Separated : Nat → List (List Char) → Prop
  | _, [] => False
  | depth, [item] => Guarded depth item
  | depth, item :: items => Guarded depth item ∧ item.foldl depthAfter depth = 0 ∧ Separated 0 items

theorem separated_modifyHead {depth : Nat} {c : Char} {items : List (List Char)} (hc : c = ';' → 0 < depth)
    (h : Separated (depthAfter depth c) items) : Separated depth (items.modifyHead (c :: ·)) := by
  match items, h with
  | [_], h => exact guarded_cons_iff.2 ⟨hc, h⟩
  | _ :: _ :: _, ⟨hitem, hdepth, hitems⟩ => exact ⟨guarded_cons_iff.2 ⟨hc, hitem⟩, hdepth, hitems⟩

/-- What splitting leaves of a text without escapes. -/
theorem separated_pieces (depth : Nat) (cs : List Char) (h : ¬ ['\\', ';'] <:+: cs) :
    Separated depth (pieces depth cs) := by
  induction cs generalizing depth with
  | nil => exact guarded_nil depth
  | cons c cs ih =>
    obtain ⟨hc, hcs⟩ := unescaped_cons h
    rw [pieces_cons depth c cs hc]
    split
    · rename_i hsplit
      obtain ⟨piece, others, hpieces⟩ := exists_pieces_eq_cons 0 cs
      have ih := ih 0 hcs
      rw [hpieces] at ih ⊢
      exact ⟨guarded_nil depth, hsplit.2, ih⟩
    · rename_i hsplit
      exact separated_modifyHead (fun hc => Nat.pos_of_ne_zero fun hd => hsplit ⟨hc, hd⟩) (ih _ hcs)

theorem pieces_eq_self {depth : Nat} {item : List Char} (hu : ¬ ['\\', ';'] <:+: item) (h : Guarded depth item) :
    pieces depth item = [item] := by
  induction item generalizing depth with
  | nil => rfl
  | cons c cs ih =>
    obtain ⟨hc, hcs⟩ := unescaped_cons hu
    obtain ⟨hdepth, hguarded⟩ := guarded_cons_iff.1 h
    rw [pieces_cons depth c cs hc, if_neg fun ⟨hc, hd⟩ => Nat.pos_iff_ne_zero.1 (hdepth hc) hd, ih hcs hguarded]
    rfl

/-- Such items are what is left of them when they are joined. -/
theorem pieces_intercalate {depth : Nat} {items : List (List Char)} (hu : ¬ ['\\', ';'] <:+: [';'].intercalate items)
    (h : Separated depth items) : pieces depth ([';'].intercalate items) = items := by
  fun_induction Separated depth items with
  | case1 => exact h.elim
  | case2 depth item =>
    rw [List.intercalate_singleton] at hu ⊢
    exact pieces_eq_self hu h
  | case3 depth item items hne ih =>
    obtain ⟨hitem, hdepth, hitems⟩ := h
    have hjoin : [';'].intercalate (item :: items) = item ++ ';' :: [';'].intercalate items := by
      obtain ⟨second, others, rfl⟩ := List.exists_cons_of_ne_nil hne
      simp
    rw [hjoin] at hu ⊢
    obtain ⟨hlast, hfront, hback⟩ := unescaped_append hu
    rw [pieces_append depth _ _ hdepth hlast, pieces_eq_self hfront hitem, ih hback hitems]
    rfl

theorem pieces_intercalate_eq_iff (items : List (List Char)) :
    pieces 0 ([';'].intercalate items) = items ↔
      ¬ ['\\', ';'] <:+: [';'].intercalate items ∧ Separated 0 items := by
  constructor
  · intro h
    have hu : ¬ ['\\', ';'] <:+: [';'].intercalate items := by
      intro hescape
      have hshorter := length_unescape_lt hescape
      rw [← intercalate_pieces 0, h] at hshorter
      exact Nat.lt_irrefl _ hshorter
    refine ⟨hu, ?_⟩
    have hseparated := separated_pieces 0 _ hu
    rwa [h] at hseparated
  · rintro ⟨hu, hseparated⟩
    exact pieces_intercalate hu hseparated

/-! ### Lists of items -/

theorem separated_iff (items : List (List Char)) :
    Separated 0 items ↔
      items ≠ [] ∧ (∀ item ∈ items.dropLast, nesting item = 0) ∧ ∀ item ∈ items, Guarded 0 item := by
  induction items with
  | nil => simp [Separated]
  | cons item items ih =>
    cases items with
    | nil => simp [Separated]
    | cons second others =>
      rw [Separated, ih]
      · simp only [nesting, List.dropLast_cons_cons, List.forall_mem_cons]
        tauto
      · simp

theorem stayApart_iff (items : List String) :
    items ≠ [] ∧ StayApart items ↔ ¬ ['\\', ';'] <:+: (join items).toList ∧ Separated 0 (items.map String.toList) := by
  have hclosed : (∀ item ∈ (items.map String.toList).dropLast, nesting item = 0) ↔
      ∀ item ∈ items.dropLast, nesting item.toList = 0 := by
    rw [← List.map_dropLast, List.forall_mem_map]
  rw [separated_iff, hclosed, List.forall_mem_map, ne_eq, ne_eq, List.map_eq_nil_iff]
  exact ⟨fun ⟨hne, h⟩ => ⟨h.unescaped, hne, h.closed, h.guarded⟩, fun ⟨hu, hne, hc, hg⟩ => ⟨hne, hu, hc, hg⟩⟩

theorem splitAll_eq_iff {value : String} {items : List String} :
    splitAll value = items ↔ pieces 0 value.toList = items.map String.toList := by
  rw [splitAll_eq_map]
  constructor
  · rintro rfl
    simp
  · intro h
    simp [h]

theorem splitAll_join_iff (items : List String) : splitAll (join items) = items ↔ items ≠ [] ∧ StayApart items := by
  rw [splitAll_eq_iff, stayApart_iff, toList_join, pieces_intercalate_eq_iff]

/-! ### Leaving out empty items -/

theorem length_intercalate {items : List (List Char)} (h : items ≠ []) :
    ([';'].intercalate items).length + 1 = items.flatten.length + items.length := by
  induction items with
  | nil => exact absurd rfl h
  | cons item items ih =>
    cases items with
    | nil => simp
    | cons second others =>
      have ih := ih (by simp)
      simp only [List.intercalate_cons_cons, List.length_append, List.length_cons, List.flatten_cons, List.length_nil]
        at ih ⊢
      omega

/-- If the items that are not empty are those that were joined, there are no others: each would be one more semicolon
than there is. -/
theorem pieces_eq_of_filter_eq {items : List (List Char)} (hne : items ≠ [])
    (h : (pieces 0 ([';'].intercalate items)).filter (· ≠ []) = items) :
    pieces 0 ([';'].intercalate items) = items := by
  set all := pieces 0 ([';'].intercalate items) with hall
  have hjoined : ([';'].intercalate all).length ≤ ([';'].intercalate items).length := by
    rw [hall, intercalate_pieces]
    exact length_unescape_le _
  -- the pieces are no longer than what was joined, so there are no more semicolons between them
  have hlength := length_intercalate hne
  have hlength' := length_intercalate (pieces_ne_nil 0 ([';'].intercalate items))
  have hflatten : items.flatten = all.flatten := by
    rw [← h]
    exact List.flatten_filter_ne_nil
  have hle : all.length ≤ (all.filter (· ≠ [])).length := by
    rw [← hall] at hlength'
    rw [hflatten] at hlength
    rw [h]
    omega
  have hfilter := List.filter_sublist.eq_of_length_le hle
  rwa [h, eq_comm] at hfilter

theorem splitAll_of_split {items : List String} (hne : items ≠ []) (h : split (join items) = items) :
    splitAll (join items) = items := by
  have hfilter : (pieces 0 (join items).toList).filter (· ≠ []) = items.map String.toList := by
    conv_rhs => rw [← h, split, itemsFrom_eq_filter]
    simp
  rw [toList_join] at hfilter
  rw [splitAll_eq_iff, toList_join]
  exact pieces_eq_of_filter_eq (by simpa using hne) hfilter

theorem split_join_iff (items : List String) :
    split (join items) = items ↔ items = [] ∨ (∀ item ∈ items, item ≠ "") ∧ StayApart items := by
  by_cases hne : items = []
  · subst hne
    exact iff_of_true rfl (.inl rfl)
  · have hall := splitAll_join_iff items
    constructor
    · intro h
      have hitems : ∀ item ∈ items, item ≠ "" := by
        rw [← h, split_eq_filter]
        simp
      exact .inr ⟨hitems, (hall.1 (splitAll_of_split hne h)).2⟩
    · rintro (h | ⟨hitems, happart⟩)
      · exact absurd h hne
      · rw [split_eq_filter, hall.2 ⟨hne, happart⟩]
        exact List.filter_eq_self.2 (by simpa using hitems)

/-- Splitting undoes joining exactly on items that stay apart: on one or more of them if empty items are kept, and
otherwise on those of which none is empty, or on no items at all. -/
theorem splitting_undoes_joining_iff (items : List String) :
    (splitAll (join items) = items ↔ items ≠ [] ∧ StayApart items) ∧
      (split (join items) = items ↔ items = [] ∨ (∀ item ∈ items, item ≠ "") ∧ StayApart items) :=
  ⟨splitAll_join_iff items, split_join_iff items⟩

/-- An open bracket that swallows a semicolon and a semicolon that should have stood in brackets leave as many items as
there were, but not the same ones. -/
example : splitAll (join ["[", "x;]y;z"]) = ["[;x;]y", "z"] := by decide

end CommandScript.Text.ItemList
