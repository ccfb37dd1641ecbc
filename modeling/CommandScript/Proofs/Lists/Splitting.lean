import Mathlib.Data.List.Basic
import CommandScript.Text.ItemList

/-! Splitting a list into its items. Nothing is lost on the way: the items, joined again, are the text without the
backslashes in front of its semicolons. Whether empty items are kept makes no other difference. A semicolon that stands
outside of all brackets, and not behind a backslash, parts a list into two that can be split each on its own. -/

namespace CommandScript.Text.ItemList

/-- How deep in brackets a text ends. -/
def nesting (text : List Char) : Nat := text.foldl depthAfter 0

/-- A text with every `\;` replaced by `;`. -/
def unescape : List Char → List Char
  | [] => []
  | '\\' :: ';' :: cs => ';' :: unescape cs
  | c :: cs => c :: unescape cs

/-- The items of a text that begins `depth` brackets deep, empty ones too. -/
def pieces (depth : Nat) : List Char → List (List Char)
  | [] => [[]]
  | '\\' :: ';' :: cs => (pieces depth cs).modifyHead (';' :: ·)
  | c :: cs =>
    if c = ';' ∧ depth = 0 then [] :: pieces 0 cs else (pieces (depthAfter depth c) cs).modifyHead (c :: ·)

@[simp] theorem pieces_ne_nil (depth : Nat) (cs : List Char) : pieces depth cs ≠ [] := by
  fun_induction pieces depth cs <;> simp_all [List.modifyHead_eq_nil_iff]

/-- There is always a first piece. -/
theorem exists_pieces_eq_cons (depth : Nat) (cs : List Char) : ∃ piece others, pieces depth cs = piece :: others :=
  List.exists_cons_of_ne_nil (pieces_ne_nil depth cs)

/-- A character that no backslash makes an exception of. -/
theorem pieces_cons (depth : Nat) (c : Char) (cs : List Char) (h : c = '\\' → cs.head? ≠ some ';') :
    pieces depth (c :: cs) =
      if c = ';' ∧ depth = 0 then [] :: pieces 0 cs else (pieces (depthAfter depth c) cs).modifyHead (c :: ·) := by
  rw [pieces]
  rintro rest rfl rfl
  exact h rfl rfl

/-! ### Reading items -/

/-- Reading items one character at a time comes to the pieces, of which empty ones may be left out. -/
theorem itemsFrom_eq_flatMap (keepsEmpty : Bool) (depth : Nat) (pending cs : List Char) :
    itemsFrom keepsEmpty depth pending cs =
      ((pieces depth cs).modifyHead (pending.reverse ++ ·)).flatMap fun item => finished keepsEmpty item.reverse := by
  -- only the first piece was begun before, so only there does what is pending show
  fun_induction itemsFrom keepsEmpty depth pending cs with
  | case1 depth pending => simp [pieces]
  | case2 depth pending cs ih => simp [ih, pieces, List.modifyHead_modifyHead, Function.comp_def]
  | case3 depth pending c cs hc hsplit ih =>
    obtain ⟨piece, others, h⟩ := exists_pieces_eq_cons 0 cs
    rw [pieces, if_pos hsplit, ih, h]
    · simp
    · exact hc
  | case4 depth pending c cs hc hsplit ih =>
    rw [pieces, if_neg hsplit, ih]
    · simp [List.modifyHead_modifyHead, Function.comp_def]
    · exact hc

theorem flatMap_finished (keepsEmpty : Bool) (items : List (List Char)) :
    (items.flatMap fun item => finished keepsEmpty item.reverse) =
      (items.filter fun item => keepsEmpty || item ≠ []).map String.ofList := by
  induction items with
  | nil => rfl
  | cons item items ih =>
    rw [List.flatMap_cons, ih]
    cases keepsEmpty <;> cases item <;> simp [finished]

/-- All pieces are items if empty ones are kept; otherwise those are items that are not empty. -/
theorem itemsFrom_eq_filter (keepsEmpty : Bool) (cs : List Char) :
    itemsFrom keepsEmpty 0 [] cs =
      ((pieces 0 cs).filter fun item => keepsEmpty || item ≠ []).map String.ofList := by
  obtain ⟨piece, others, h⟩ := exists_pieces_eq_cons 0 cs
  rw [← flatMap_finished, itemsFrom_eq_flatMap, h]
  rfl

theorem splitAll_eq_map (value : String) : splitAll value = (pieces 0 value.toList).map String.ofList := by
  simp [splitAll, itemsFrom_eq_filter]

theorem split_eq_filter (value : String) : split value = (splitAll value).filter (· ≠ "") := by
  simp [split, splitAll, itemsFrom_eq_filter, List.filter_map, Function.comp_def]

/-! ### Joining again -/

theorem intercalate_modifyHead_cons (c : Char) {items : List (List Char)} (h : items ≠ []) :
    [';'].intercalate (items.modifyHead (c :: ·)) = c :: [';'].intercalate items := by
  obtain ⟨item, _ | ⟨second, items⟩, rfl⟩ := List.exists_cons_of_ne_nil h <;> simp

/-- Joining the pieces gives back the text, but for the backslashes in front of semicolons. -/
theorem intercalate_pieces (depth : Nat) (cs : List Char) : [';'].intercalate (pieces depth cs) = unescape cs := by
  fun_induction pieces depth cs with
  | case1 depth => simp [unescape]
  | case2 depth cs ih => rw [intercalate_modifyHead_cons _ (pieces_ne_nil _ _), ih, unescape]
  | case3 depth c cs hc hsplit ih =>
    obtain ⟨piece, others, h⟩ := exists_pieces_eq_cons 0 cs
    rw [unescape, ← ih, h, hsplit.1]
    · simp
    · exact hc
  | case4 depth c cs hc hsplit ih =>
    rw [intercalate_modifyHead_cons _ (pieces_ne_nil _ _), ih, unescape]
    exact hc

theorem toList_join (items : List String) : (join items).toList = [';'].intercalate (items.map String.toList) := by
  simp [join]

theorem join_splitAll (value : String) : join (splitAll value) = String.ofList (unescape value.toList) := by
  rw [← String.toList_inj, toList_join, splitAll_eq_map, String.toList_ofList, ← intercalate_pieces 0]
  simp

/-! ### Splitting in two -/

theorem modifyHead_append {α : Type} (f : α → α) {front : List α} (h : front ≠ []) (back : List α) :
    (front ++ back).modifyHead f = front.modifyHead f ++ back := by
  obtain ⟨item, items, rfl⟩ := List.exists_cons_of_ne_nil h
  rfl

theorem getLast?_ne_of_cons {α : Type} {a b : α} {cs : List α} (h : (a :: cs).getLast? ≠ some b) :
    cs.getLast? ≠ some b := by
  cases cs with
  | nil => simp
  | cons c cs => rwa [List.getLast?_cons_cons] at h

/-- A semicolon at which all brackets are closed parts the pieces, unless a backslash stands in front of it. -/
theorem pieces_append (depth : Nat) (front back : List Char) (hdepth : front.foldl depthAfter depth = 0)
    (hlast : front.getLast? ≠ some '\\') :
    pieces depth (front ++ ';' :: back) = pieces depth front ++ pieces 0 back := by
  fun_induction pieces depth front with
  | case1 depth =>
    obtain rfl : depth = 0 := hdepth
    simp [pieces]
  | case2 depth cs ih =>
    have ih := ih hdepth (getLast?_ne_of_cons (getLast?_ne_of_cons hlast))
    rw [List.cons_append, List.cons_append, pieces, ih, modifyHead_append _ (pieces_ne_nil _ _)]
  | case3 depth c cs hc hsplit ih =>
    obtain ⟨rfl, rfl⟩ := hsplit
    have ih := ih hdepth (getLast?_ne_of_cons hlast)
    rw [List.cons_append, pieces_cons _ _ _ (by simp), ih]
    simp
  | case4 depth c cs hc hsplit ih =>
    have ih := ih hdepth (getLast?_ne_of_cons hlast)
    -- a backslash that escapes nothing in front of the semicolon does not come to stand directly before it
    have hnext : c = '\\' → (cs ++ ';' :: back).head? ≠ some ';' := by
      rintro rfl
      cases cs with
      | nil => exact absurd rfl hlast
      | cons d cs => rintro h; exact hc cs rfl (by simpa using h)
    rw [List.cons_append, pieces_cons _ _ _ hnext, if_neg hsplit, ih, modifyHead_append _ (pieces_ne_nil _ _)]

theorem splitAll_append (front back : String) (hdepth : nesting front.toList = 0)
    (hlast : front.toList.getLast? ≠ some '\\') :
    splitAll (front ++ ";" ++ back) = splitAll front ++ splitAll back := by
  have h : (front ++ ";" ++ back).toList = front.toList ++ ';' :: back.toList := by simp
  rw [splitAll_eq_map, splitAll_eq_map, splitAll_eq_map, h, pieces_append 0 _ _ hdepth hlast, List.map_append]

/-- Splitting a list loses nothing but the backslashes that kept semicolons from parting items, and, where they are not
kept, the empty items. Behind a semicolon that parts items, it starts all over. -/
theorem split_loses_nothing (value : String) :
    join (splitAll value) = String.ofList (unescape value.toList) ∧
      split value = (splitAll value).filter (· ≠ "") ∧
      ∀ more : String, nesting value.toList = 0 → value.toList.getLast? ≠ some '\\' →
        splitAll (value ++ ";" ++ more) = splitAll value ++ splitAll more ∧
          split (value ++ ";" ++ more) = split value ++ split more := by
  refine ⟨join_splitAll value, split_eq_filter value, fun more hdepth hlast => ?_⟩
  have hall := splitAll_append value more hdepth hlast
  refine ⟨hall, ?_⟩
  rw [split_eq_filter, hall, List.filter_append, ← split_eq_filter, ← split_eq_filter]

/-- Brackets that are closed again, in front of an escaped semicolon. -/
theorem split_loses_nothing_brackets :
    nesting "[a;b]".toList = 0 ∧ "[a;b]".toList.getLast? ≠ some '\\' ∧
      splitAll ("[a;b]" ++ ";" ++ "c\\;d;") = ["[a;b]", "c;d", ""] ∧
      split ("[a;b]" ++ ";" ++ "c\\;d;") = ["[a;b]", "c;d"] := by
  have hdepth : nesting "[a;b]".toList = 0 := by decide
  have hlast : "[a;b]".toList.getLast? ≠ some '\\' := by decide
  obtain ⟨hall, hsome⟩ := (split_loses_nothing "[a;b]").2.2 "c\\;d;" hdepth hlast
  exact ⟨hdepth, hlast, hall.trans (by decide), hsome.trans (by decide)⟩

end CommandScript.Text.ItemList
