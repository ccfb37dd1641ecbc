import CommandScript.Code.Listing
import CommandScript.Proofs.Grammar.Regularity
import CommandScript.Proofs.Reporting.Literals
import Mathlib.Data.List.Forall2

/-! Listings tell programs apart. No line of a listing holds a line feed, so the lines come back from it. In a line, the
word of an instruction ends at its parenthesis, a number at what is no digit, a name at what no name holds, and a
literal at its own quote. So two programs that were read are listed alike if they have the same name, stand at the same
line and column, and have instructions that do the same, and not otherwise, whatever counts as printable. -/

namespace CommandScript.Code

open Text Syntax Scanning Grammar

/-! ### Where things end -/

/-- Characters of one kind are told apart from what is behind them if that begins with another. -/
theorem append_inj_of_stops {kind : Char → Bool} {xs ys r t : List Char} (hxs : ∀ c ∈ xs, kind c)
    (hys : ∀ c ∈ ys, kind c) (hr : r.head?.any kind = false) (ht : t.head?.any kind = false) (h : xs ++ r = ys ++ t) :
    xs = ys ∧ r = t := by
  have stops {r : List Char} (hr : r.head?.any kind = false) : r.takeWhile kind = [] := by
    cases r with
    | nil => rfl
    | cons c r => exact List.takeWhile_cons_of_neg (Bool.eq_false_iff.1 hr)
  have htake := congrArg (List.takeWhile kind) h
  rw [List.takeWhile_append_of_pos hxs, List.takeWhile_append_of_pos hys, stops hr, stops ht, List.append_nil,
    List.append_nil] at htake
  subst htake
  exact ⟨rfl, List.append_cancel_left h⟩

theorem name_append_inj {name other : String} (hname : OfNameCharacters name) (hother : OfNameCharacters other)
    {r t : List Char} (hr : r.head?.any isNameCharacter = false) (ht : t.head?.any isNameCharacter = false)
    (h : name.toList ++ r = other.toList ++ t) : name = other ∧ r = t := by
  obtain ⟨heq, hrest⟩ := append_inj_of_stops hname hother hr ht h
  exact ⟨String.toList_inj.1 heq, hrest⟩

theorem toList_toString_natCast (n : Nat) : (toString (n : Int)).toList = Nat.toDigits 10 n := by
  have hcast : toString (n : Int) = toString n := rfl
  rw [hcast, Nat.toString_eq_ofList_toDigits, String.toList_ofList]

theorem number_append_inj {m n : Nat} {r t : List Char} (hr : r.head?.any Char.isDigit = false)
    (ht : t.head?.any Char.isDigit = false)
    (h : (toString (m : Int)).toList ++ r = (toString (n : Int)).toList ++ t) : m = n ∧ r = t := by
  have digits (n : Nat) : ∀ c ∈ Nat.toDigits 10 n, c.isDigit :=
    fun c hc => Nat.isDigit_of_mem_toDigits (by decide) (by decide) hc
  rw [toList_toString_natCast, toList_toString_natCast] at h
  obtain ⟨hdigits, hrest⟩ := append_inj_of_stops (digits m) (digits n) hr ht h
  have hvalue := congrArg (fun ds => Nat.ofDigitChars 10 ds 0) hdigits
  simp only [Nat.ofDigitChars_ten_toDigits] at hvalue
  exact ⟨hvalue, hrest⟩

/-! ### One line -/

/-- A text that holds no line feed. -/
def IsLine (s : String) : Prop := '\n' ∉ s.toList

instance (s : String) : Decidable (IsLine s) := inferInstanceAs (Decidable (¬ _))

theorem IsLine.append {s t : String} (hs : IsLine s) (ht : IsLine t) : IsLine (s ++ t) := by
  rw [IsLine, String.toList_append, List.mem_append, not_or]
  exact ⟨hs, ht⟩

theorem isLine_name {name : String} (hname : OfNameCharacters name) : IsLine name :=
  fun h => absurd (hname _ h) (by decide)

theorem isLine_number (n : Nat) : IsLine (toString (n : Int)) := by
  rw [IsLine, toList_toString_natCast]
  exact fun h => absurd (Nat.isDigit_of_mem_toDigits (by decide) (by decide) h) (by decide)

theorem isLine_literalWith (printable : Char → Bool) (cs : List Char) :
    IsLine (String.ofList (literalWith printable cs)) := by
  rw [IsLine, String.toList_ofList]
  exact newline_not_mem_literalWith printable cs

theorem isLine_alignRight (width : Nat) {s : String} (hs : IsLine s) : IsLine (alignRight width s) := by
  refine IsLine.append ?_ hs
  rw [IsLine, String.toList_ofList]
  exact fun h => absurd (List.eq_of_mem_replicate h) (by decide)

theorem isLine_dim {s : String} (hs : IsLine s) : IsLine (dim s) :=
  (IsLine.append (by decide) hs).append (by decide)

theorem isLine_stepLabel (width step : Nat) : IsLine (stepLabel width step) :=
  (isLine_dim ((isLine_alignRight width (isLine_number step)).append (by decide))).append (by decide)

/-! ### Instructions -/

namespace Instruction

section Rendering

variable (printable : Char → Bool)

/-- An instruction as it is shown if the characters of its text that are `printable` are shown as they are. -/
def renderWith (i : Instruction) : String :=
  match i.operation with
  | .literal text => "Literal(" ++ String.ofList (literalWith printable text.toList) ++ ")"
  | _ => i.render

theorem renderWith_isPrintable (i : Instruction) : i.renderWith isPrintable = i.render := by
  unfold renderWith
  split
  · rename_i h
    rw [render, h]
    rfl
  · rfl

/-- What stands in front of the parenthesis. -/
def word (i : Instruction) : String :=
  match i.operation with
  | .literal _ => "Literal"
  | .variable _ => "VarRef" ++ suffixed "." i.name
  | .commandReference _ => "CmdRef"
  | .quoted _ => "QuotedArg"
  | .unquoted _ => "UnquotedArg"
  | .call _ => "Call"
  | .irregular .. => "Instruction"

/-- What stands behind it. -/
def details (i : Instruction) : String :=
  match i.operation with
  | .literal text => String.ofList (literalWith printable text.toList) ++ ")"
  | .variable n | .quoted n => toString n ++ ")"
  | .commandReference n | .call n => i.commandLabel ++ ", " ++ toString n ++ ")"
  | .unquoted n => toString n ++ suffixed ", " (i.expansion.map Expansion.label) ++ ")"
  | .irregular _ operand => operand.render ++ ")"

end Rendering

/-- The words that are shown for instructions of scripts. -/
def words : List String :=
  ["Literal", "VarRef", "VarRef.ENV", "VarRef.CACHE", "CmdRef", "QuotedArg", "UnquotedArg", "Call"]

/-- The code of an operation, read from its word. -/
def codeOfWord : String → Int
  | "Literal" => 1
  | "CmdRef" => 3
  | "QuotedArg" => 4
  | "UnquotedArg" => 5
  | "Call" => 6
  | _ => 2

theorem sameAction_iff {a b : Instruction} :
    a.sameAction b ↔ a.operation = b.operation ∧ a.name = b.name ∧ a.expansion = b.expansion := by
  simp [sameAction, and_assoc]

/-- The location is not shown. -/
theorem renderWith_eq_of_sameAction {printable : Char → Bool} {a b : Instruction} (h : a.sameAction b) :
    a.renderWith printable = b.renderWith printable := by
  obtain ⟨operation, name, expansion, place⟩ := a
  obtain ⟨operation', name', expansion', place'⟩ := b
  obtain ⟨rfl, rfl, rfl⟩ := sameAction_iff.1 h
  rfl

variable {printable : Char → Bool}

/-! ### Details -/

theorem counted_inj {m n : Nat} (h : toString (m : Int) ++ ")" = toString (n : Int) ++ ")") : m = n := by
  have hchars := congrArg String.toList h
  rw [String.toList_append, String.toList_append] at hchars
  exact (number_append_inj rfl rfl hchars).1

theorem named_inj {name other : String} (hname : OfNameCharacters name) (hother : OfNameCharacters other) {m n : Nat}
    (h : name ++ ", " ++ toString (m : Int) ++ ")" = other ++ ", " ++ toString (n : Int) ++ ")") :
    name = other ∧ m = n := by
  have hchars := congrArg String.toList h
  simp only [String.toList_append, List.append_assoc] at hchars
  obtain ⟨heq, hrest⟩ := name_append_inj hname hother rfl rfl hchars
  exact ⟨heq, (number_append_inj rfl rfl (List.append_cancel_left hrest)).1⟩

theorem expanded_inj {e f : Option Expansion} (he : e ∈ [none, some .list, some .values])
    (hf : f ∈ [none, some .list, some .values]) {m n : Nat}
    (h : toString (m : Int) ++ suffixed ", " (e.map Expansion.label) ++ ")" =
      toString (n : Int) ++ suffixed ", " (f.map Expansion.label) ++ ")") : m = n ∧ e = f := by
  have stops : ∀ e ∈ [none, some .list, some .values],
      ((suffixed ", " (e.map Expansion.label)).toList ++ ")".toList).head?.any Char.isDigit = false := by decide
  have told : ∀ e ∈ [none, some .list, some .values], ∀ f ∈ [none, some .list, some .values],
      (suffixed ", " (e.map Expansion.label)).toList ++ ")".toList =
        (suffixed ", " (f.map Expansion.label)).toList ++ ")".toList → e = f := by decide
  have hchars := congrArg String.toList h
  simp only [String.toList_append, List.append_assoc] at hchars
  obtain ⟨heq, hrest⟩ := number_append_inj (stops e he) (stops f hf) hchars
  exact ⟨heq, told e he f hf hrest⟩

theorem namespace_inj (s t : Namespace)
    (h : "VarRef" ++ suffixed "." (some s.label) = "VarRef" ++ suffixed "." (some t.label)) : s = t := by
  revert h
  cases s <;> cases t <;> decide

namespace IsRegular

variable {a b i : Instruction}

theorem renderWith_eq (h : i.IsRegular) : i.renderWith printable = i.word ++ "(" ++ i.details printable := by
  cases h <;> simp [renderWith, render, word, details, String.append_assoc] <;> rfl

theorem codeOfWord_word (h : i.IsRegular) : codeOfWord i.word = i.operation.code := by
  cases h with
  | variableReference space => cases space <;> rfl
  | _ => rfl

theorem word_mem_words (h : i.IsRegular) : i.word ∈ words := by
  cases h with
  | variableReference space => cases space <;> exact List.elem_iff.1 rfl
  | _ => exact List.elem_iff.1 rfl

/-- The word and what is behind the parenthesis say all that an instruction does. -/
theorem sameAction_of_details (ha : a.IsRegular) (hb : b.IsRegular) (hword : a.word = b.word)
    (hdetails : a.details printable = b.details printable) : a.sameAction b := by
  have hcode := congrArg codeOfWord hword
  rw [ha.codeOfWord_word, hb.codeOfWord_word] at hcode
  -- the word tells the code, so both are of one constructor
  cases ha with
  | literal text =>
    cases hb with
    | literal text' =>
      have hchars := congrArg String.toList hdetails
      simp only [details, Instruction.literal, String.toList_append, String.toList_ofList] at hchars
      obtain ⟨htext, -⟩ := literalWith_append_inj printable hchars
      obtain rfl := String.toList_inj.1 htext
      exact sameAction_iff.2 ⟨rfl, rfl, rfl⟩
    | _ => cases hcode
  | variableReference space n =>
    cases hb with
    | variableReference space' n' =>
      obtain rfl := counted_inj hdetails
      obtain rfl := namespace_inj space space' hword
      exact sameAction_iff.2 ⟨rfl, rfl, rfl⟩
    | _ => cases hcode
  | commandReference hname n =>
    cases hb with
    | commandReference hname' n' =>
      obtain ⟨rfl, rfl⟩ := named_inj hname hname' hdetails
      exact sameAction_iff.2 ⟨rfl, rfl, rfl⟩
    | _ => cases hcode
  | quoted n =>
    cases hb with
    | quoted n' =>
      obtain rfl := counted_inj hdetails
      exact sameAction_iff.2 ⟨rfl, rfl, rfl⟩
    | _ => cases hcode
  | unquoted n hexpansion =>
    cases hb with
    | unquoted n' hexpansion' =>
      obtain ⟨rfl, rfl⟩ := expanded_inj hexpansion hexpansion' hdetails
      exact sameAction_iff.2 ⟨rfl, rfl, rfl⟩
    | _ => cases hcode
  | call hname n =>
    cases hb with
    | call hname' n' =>
      obtain ⟨rfl, rfl⟩ := named_inj hname hname' hdetails
      exact sameAction_iff.2 ⟨rfl, rfl, rfl⟩
    | _ => cases hcode

/-- Instructions are shown alike if they do the same, and not otherwise. -/
theorem renderWith_eq_iff (ha : a.IsRegular) (hb : b.IsRegular) :
    a.renderWith printable = b.renderWith printable ↔ a.sameAction b := by
  refine ⟨fun h => ?_, renderWith_eq_of_sameAction⟩
  have hparen : ∀ w ∈ words, ∀ c ∈ w.toList, (c ≠ '(' : Bool) := by simp [words]
  rw [ha.renderWith_eq, hb.renderWith_eq] at h
  have hchars := congrArg String.toList h
  simp only [String.toList_append, List.append_assoc] at hchars
  obtain ⟨hword, hrest⟩ := append_inj_of_stops (hparen _ ha.word_mem_words) (hparen _ hb.word_mem_words) rfl rfl hchars
  exact ha.sameAction_of_details hb (String.toList_inj.1 hword) (String.toList_inj.1 (List.append_cancel_left hrest))

theorem isLine_details (h : i.IsRegular) : IsLine (i.details printable) := by
  cases h with
  | literal text => exact (isLine_literalWith printable text.toList).append (by decide)
  | variableReference _ n | quoted n => exact (isLine_number n).append (by decide)
  | commandReference hname n | call hname n =>
    exact (((isLine_name hname).append (by decide)).append (isLine_number n)).append (by decide)
  | unquoted n hexpansion =>
    have hlabel : ∀ e ∈ [none, some .list, some .values], IsLine (suffixed ", " (e.map Expansion.label)) := by decide
    exact ((isLine_number n).append (hlabel _ hexpansion)).append (by decide)

theorem isLine_renderWith (h : i.IsRegular) : IsLine (i.renderWith printable) := by
  have hwords : ∀ w ∈ words, IsLine w := by simp [words, IsLine]
  rw [h.renderWith_eq]
  exact ((hwords _ h.word_mem_words).append (by decide)).append h.isLine_details

end IsRegular

end Instruction

/-! ### Listings -/

/-- Numbered elements are the same if the elements are, one by one. -/
theorem mapIdx_eq_iff_forall₂ {α β : Type} {R : α → α → Prop} {as bs : List α} {f : Nat → α → β}
    (h : ∀ a ∈ as, ∀ b ∈ bs, ∀ i, f i a = f i b ↔ R a b) : as.mapIdx f = bs.mapIdx f ↔ List.Forall₂ R as bs := by
  induction as generalizing bs f with
  | nil => cases bs <;> simp
  | cons a as ih =>
    cases bs with
    | nil => simp
    | cons b bs =>
      have hhead := h a List.mem_cons_self b List.mem_cons_self 0
      have htail := ih (f := fun i => f (i + 1)) fun a ha b hb i =>
        h a (List.mem_cons_of_mem _ ha) b (List.mem_cons_of_mem _ hb) (i + 1)
      rw [List.mapIdx_cons, List.mapIdx_cons, List.cons.injEq, List.forall₂_cons, hhead, htail]

namespace Program

/-- The line that names the program. -/
def title (p : Program) : String :=
  match p.point with
  | some (line, column) => bright p.name ++ " " ++ dim ("(" ++ toString line ++ ":" ++ toString column ++ ")")
  | none => p.name

section Lines

variable (printable : Char → Bool) (p : Program)

/-- The lines of a listing: one that names the program, and one for each instruction. -/
def linesWith : List String :=
  p.title :: p.instructions.mapIdx fun i instruction => stepLabel 4 i ++ instruction.renderWith printable

def listingWith : String := "\n".intercalate (p.linesWith printable)

theorem listingWith_isPrintable : p.listingWith isPrintable = p.listing := by
  obtain ⟨name, instructions, place, source⟩ := p
  simp only [listingWith, linesWith, Instruction.renderWith_isPrintable]
  cases place <;> rfl

end Lines

/-- The same program, as far as a listing says. -/
structure Agrees (p q : Program) : Prop where
  name : p.name = q.name
  point : p.point = q.point
  instructions : List.Forall₂ (fun a b => Instruction.sameAction a b) p.instructions q.instructions

theorem title_eq {p : Program} {line column : Int} (h : p.point = some (line, column)) : p.title =
    "\x1b[97m" ++ p.name ++ "\x1b[0m \x1b[90m(" ++ toString line ++ ":" ++ toString column ++ ")\x1b[0m" := by
  simp only [title, h, bright, dim, styled, styleCode]
  rw [← String.toList_inj]
  simp

namespace IsRegular

variable {printable : Char → Bool} {p q : Program}

theorem isLine_title (hp : p.IsRegular) : IsLine p.title := by
  obtain ⟨line, column, hpoint⟩ := hp.point
  have hopen : IsLine "\x1b[97m" := by decide
  rw [title_eq hpoint]
  exact (((((hopen.append (isLine_name hp.name)).append (by decide)).append (isLine_number line)).append
    (by decide)).append (isLine_number column)).append (by decide)

/-- The title tells the name, the line and the column. -/
theorem title_eq_iff (hp : p.IsRegular) (hq : q.IsRegular) :
    p.title = q.title ↔ p.name = q.name ∧ p.point = q.point := by
  refine ⟨fun h => ?_, fun h => by rw [title, title, h.1, h.2]⟩
  obtain ⟨line, column, hpoint⟩ := hp.point
  obtain ⟨line', column', hpoint'⟩ := hq.point
  rw [title_eq hpoint, title_eq hpoint'] at h
  have hchars := congrArg String.toList h
  simp only [String.toList_append, List.append_assoc] at hchars
  obtain ⟨hname, hplace⟩ := name_append_inj hp.name hq.name rfl rfl (List.append_cancel_left hchars)
  obtain ⟨rfl, hbehind⟩ := number_append_inj rfl rfl (List.append_cancel_left hplace)
  obtain ⟨rfl, -⟩ := number_append_inj rfl rfl (List.append_cancel_left hbehind)
  exact ⟨hname, hpoint.trans hpoint'.symm⟩

theorem linesWith_eq_iff (hp : p.IsRegular) (hq : q.IsRegular) :
    p.linesWith printable = q.linesWith printable ↔ p.Agrees q := by
  have hlines := mapIdx_eq_iff_forall₂ (f := fun i instruction => stepLabel 4 i ++ instruction.renderWith printable)
    (R := fun a b => Instruction.sameAction a b) fun a ha b hb i => by
      rw [String.append_right_inj, (hp.instructions a ha).renderWith_eq_iff (hq.instructions b hb)]
  rw [linesWith, linesWith, List.cons.injEq, hp.title_eq_iff hq, hlines, and_assoc]
  exact ⟨fun h => ⟨h.1, h.2.1, h.2.2⟩, fun h => ⟨h.name, h.point, h.instructions⟩⟩

theorem isLine_linesWith (hp : p.IsRegular) : ∀ line ∈ p.linesWith printable, IsLine line := by
  refine List.forall_mem_cons.2 ⟨hp.isLine_title, fun line hline => ?_⟩
  obtain ⟨i, hi, rfl⟩ := List.mem_mapIdx.1 hline
  exact (isLine_stepLabel 4 i).append (hp.instructions _ (List.getElem_mem hi)).isLine_renderWith

/-- The lines come back from the listing. -/
theorem splitOn_listingWith (hp : p.IsRegular) :
    (p.listingWith printable).toList.splitOn '\n' = (p.linesWith printable).map String.toList := by
  rw [listingWith, String.toList_intercalate]
  exact List.splitOn_intercalate '\n' (List.forall_mem_map.2 hp.isLine_linesWith) (List.cons_ne_nil _ _)

theorem listingWith_eq_iff (hp : p.IsRegular) (hq : q.IsRegular) :
    p.listingWith printable = q.listingWith printable ↔ p.Agrees q := by
  have hlines : p.linesWith printable = q.linesWith printable ↔ p.Agrees q := hp.linesWith_eq_iff hq
  rw [← hlines]
  refine ⟨fun h => ?_, congrArg ("\n".intercalate)⟩
  have hsplit := congrArg (fun s : String => s.toList.splitOn '\n') h
  simp only [hp.splitOn_listingWith, hq.splitOn_listingWith] at hsplit
  exact List.map_injective_iff.2 (fun _ _ => String.toList_inj.1) hsplit

end IsRegular

/-- Two programs that were read, of any texts, are listed alike if they have the same name, the same line and column and
equal instructions, and not otherwise. So it is whatever counts as printable: instructions that differ are never shown
alike, the lines come back from the listing, one for each instruction behind the title, and a literal tells its text
with anything behind it and does not hold the end of its line. -/
theorem listings_tell_apart {text text' : List Char} {file file' : Option String} {ps qs : List Program}
    (hps : programsOfText text file = .ok ps) (hqs : programsOfText text' file' = .ok qs) {p q : Program} (hp : p ∈ ps)
    (hq : q ∈ qs) :
    (p.listing = q.listing ↔ p.Agrees q) ∧ p.listingWith isPrintable = p.listing ∧
    ∀ printable : Char → Bool,
      (p.listingWith printable = q.listingWith printable ↔ p.Agrees q) ∧
      (p.listingWith printable).toList.splitOn '\n' = (p.linesWith printable).map String.toList ∧
      (∀ i ∈ p.instructions, ∀ j ∈ q.instructions,
        (i.renderWith printable = j.renderWith printable ↔ i.sameAction j)) ∧
      ∀ cs ds r t : List Char, '\n' ∉ literalWith printable cs ∧
        (literalWith printable cs ++ r = literalWith printable ds ++ t ↔ cs = ds ∧ r = t) := by
  have hp := isRegular_of_read hps p hp
  have hq := isRegular_of_read hqs q hq
  refine ⟨?_, listingWith_isPrintable p, fun printable =>
    ⟨hp.listingWith_eq_iff hq, hp.splitOn_listingWith, ?_, fun cs ds r t => ⟨?_, ?_⟩⟩⟩
  · rw [← listingWith_isPrintable, ← listingWith_isPrintable]
    exact hp.listingWith_eq_iff hq
  · exact fun i hi j hj => (hp.instructions i hi).renderWith_eq_iff (hq.instructions j hj)
  · exact newline_not_mem_literalWith printable cs
  · exact ⟨literalWith_append_inj printable, fun h => by rw [h.1, h.2]⟩

/-- A text with a quote, a parenthesis and a line feed in it, in two different brackets. -/
theorem listings_tell_apart_brackets :
    let code (place : Location) : List Instruction :=
      [.literal "')\n" place, .quoted 1 place, .call "a" 1 (some ⟨1, 1, place.file⟩)]
    let p : Program := ⟨"a", code ⟨1, 3, none⟩, some ⟨1, 1, none⟩, some "a([[')\n]])"⟩
    let q : Program := ⟨"a", code ⟨1, 4, "f"⟩, some ⟨1, 1, "f"⟩, some "a( [=[')\n]=])"⟩
    programsOfText "a([[')\n]])".toList none = .ok [p] ∧
      programsOfText "a( [=[')\n]=])".toList "f" = .ok [q] ∧
      p ≠ q ∧ p.listing = q.listing ∧ (p.listing.toList.splitOn '\n').length = 4 := by
  intro code p q
  have hp : programsOfText "a([[')\n]])".toList none = .ok [p] := by decide +kernel
  have hq : programsOfText "a( [=[')\n]=])".toList "f" = .ok [q] := by decide +kernel
  obtain ⟨hlisting, hprintable, hwith⟩ :=
    listings_tell_apart hp hq (List.mem_singleton_self p) (List.mem_singleton_self q)
  have hsame : List.Forall₂ (fun a b => Instruction.sameAction a b) p.instructions q.instructions := by decide
  refine ⟨hp, hq, by decide, hlisting.2 ⟨rfl, rfl, hsame⟩, ?_⟩
  rw [← hprintable, (hwith isPrintable).2.1]
  rfl

end Program

end CommandScript.Code
