import CommandScript.Proofs.Reporting.Lines
import CommandScript.Proofs.Scanning.Spelling
import CommandScript.Proofs.Session.MoreInput
import CommandScript.Syntax.Context

/-! The lines that are shown around a fault. Lines are counted twice: the scanner counts line feeds in the normal form of
a text, and what is shown is split at all line boundaries of the text as it is. As far as the text has no others, and no
byte-order mark moves the columns of its first line, what is marked is the token of the fault. -/

namespace CommandScript.Reporting

open Text Syntax Code Session Scanning

/-! ### Shown lines -/

/-- A line around the one that is marked. -/
def dimLine (number : Nat) (content : List Char) : String :=
  styleCode "90" ++ alignRight 5 (toString number) ++ " |" ++ styleCode "0" ++ " " ++ String.ofList content

/-- The line with the mark. -/
def markedLine (number : Nat) (before token after : List Char) : String :=
  styleCode "97" ++ alignRight 5 (toString number) ++ " |" ++ styleCode "0" ++ " " ++
    String.ofList (before ++ (styleCode "48;5;30" ++ styleCode "1;97").toList ++ token ++ (styleCode "0").toList ++ after)

/-- Of all numbered lines one is bright, and in that one a token is marked. -/
def PointsAt (context file : String) (number : Nat) (before token after : List Char) : Prop :=
  ∃ above below, (∀ x ∈ above ++ below, ∃ other content, other ≠ number ∧ x = dimLine other content) ∧
    context = "\n" ++ "\n".intercalate (bright ("  File \"" ++ file ++ "\", line " ++ toString (number : Int)) ::
      (above ++ markedLine number before token after :: below)) ++ "\n"

theorem infix_intercalate {separator line : List Char} {lines : List (List Char)} (h : line ∈ lines) :
    line <:+: separator.intercalate lines := by
  obtain ⟨i, hi⟩ := List.getElem?_of_mem h
  exact List.infix_of_mem_flatten (List.mem_of_getElem? (List.getElem?_intersperse_two_mul.trans hi))

/-- The token that is pointed at is shown in the colours of the mark. -/
theorem PointsAt.shows {context file : String} {number : Nat} {before token after : List Char}
    (h : PointsAt context file number before token after) :
    (styleCode "48;5;30" ++ styleCode "1;97").toList ++ token ++ (styleCode "0").toList <:+: context.toList := by
  obtain ⟨above, below, -, rfl⟩ := h
  have hline : (styleCode "48;5;30" ++ styleCode "1;97").toList ++ token ++ (styleCode "0").toList <:+:
      (markedLine number before token after).toList := by
    refine ⟨(styleCode "97" ++ alignRight 5 (toString number) ++ " |" ++ styleCode "0" ++ " ").toList ++ before, after, ?_⟩
    simp only [markedLine, String.toList_append, String.toList_ofList, List.append_assoc]
  simp only [String.toList_append, String.toList_intercalate]
  refine (hline.trans (infix_intercalate ?_)).trans (List.infix_append _ _ _)
  simp

/-- A line without the line feeds that end it. -/
def withoutFeeds (line : List Char) : List Char := (line.reverse.dropWhile (· = '\n')).reverse

theorem contextLine_dim {lines : List (List Char)} {number : Nat} {column : Option Int} {width index : Nat}
    (h : index + 1 ≠ number) : ∃ content, contextLine lines number column width index = dimLine (index + 1) content := by
  have hne : ¬((index : Int) + 1 = number) := by omega
  unfold contextLine
  rw [if_neg hne]
  exact ⟨_, rfl⟩

theorem markToken_eq (before token after : List Char) :
    markToken (before ++ token ++ after) (before.length + 1) token.length =
      before ++ (styleCode "48;5;30" ++ styleCode "1;97").toList ++ token ++ (styleCode "0").toList ++ after := by
  have htake : (before ++ token ++ after).take before.length = before := by
    rw [List.append_assoc, List.take_left]
  have htoken : ((before ++ token ++ after).drop before.length).take token.length = token := by
    rw [List.append_assoc, List.drop_left, List.take_left]
  have hdrop : (before ++ token ++ after).drop (before.length + token.length) = after := by
    rw [← List.length_append, List.drop_left]
  simp only [markToken]
  rw [Nat.add_sub_cancel, htake, htoken, hdrop]

theorem contextLine_marked {lines : List (List Char)} {index : Nat} {line before token after : List Char}
    (hline : lines[index]? = some line) (hcontent : withoutFeeds line = before ++ token ++ after) (htoken : token ≠ []) :
    contextLine lines (index + 1 : Nat) (some (before.length + 1 : Nat)) token.length index =
      markedLine (index + 1) before token after := by
  have hpos := List.length_pos_iff.2 htoken
  have hcolumn : 0 < ((before.length + 1 : Nat) : Int) ∧
      ((before.length + 1 : Nat) : Int) ≤ (before ++ token ++ after).length := by
    simp only [List.length_append]
    omega
  have hnumber : (index : Int) + 1 = (index + 1 : Nat) := rfl
  unfold withoutFeeds at hcontent
  unfold contextLine
  simp only [hline, Option.getD_some, hcontent]
  rw [if_pos hnumber, if_pos hcolumn, Int.toNat_natCast, markToken_eq]
  rfl

/-- A line of a text is shown among the lines around it. -/
theorem errorContext_pointsAt {source : String} {index : Nat} {line before token after : List Char} (file : String)
    (hline : (splitLines source.toList)[index]? = some line)
    (hcontent : withoutFeeds line = before ++ token ++ after) (htoken : token ≠ []) :
    PointsAt (errorContext file (some (index + 1 : Nat)) (some (before.length + 1 : Nat))
      (some (String.ofList token)) source) file (index + 1) before token after := by
  have hpos := List.length_pos_iff.2 htoken
  have hindex : index < (splitLines source.toList).length := (List.getElem?_eq_some_iff.1 hline).1
  have hwidth : max 1 ((some (String.ofList token)).getD "").length = token.length := by
    simp only [Option.getD_some, String.length_ofList]
    omega
  have hnumber : 0 < ((index + 1 : Nat) : Int) := by omega
  unfold errorContext
  simp only [hwidth, if_pos hnumber]
  generalize hstart : (((index + 1 : Nat) : Int) - 3).toNat = start
  generalize hstop : min (splitLines source.toList).length (((index + 1 : Nat) : Int) + 2).toNat = stop
  -- the range of the shown lines is cut at the one that is marked
  have hrange : List.range' start (stop - start) =
      List.range' start (index - start) ++ index :: List.range' (index + 1) (stop - index - 1) := by
    have hlength : stop - start = (index - start) + (stop - index - 1 + 1) := by omega
    have hfirst : start + 1 * (index - start) = index := by omega
    rw [hlength, ← List.range'_append, hfirst, List.range'_succ]
  rw [hrange, List.map_append, List.map_cons, contextLine_marked hline hcontent htoken]
  refine ⟨_, _, ?_, rfl⟩
  intro x hx
  rw [← List.map_append] at hx
  obtain ⟨other, hother, rfl⟩ := List.mem_map.1 hx
  have hne : other + 1 ≠ index + 1 := by
    simp only [List.mem_append, List.mem_range'_1] at hother
    omega
  obtain ⟨content, hdim⟩ := contextLine_dim hne
  exact ⟨other + 1, content, hne, hdim⟩

/-! ### The line of a fault -/

theorem withoutFeeds_append {k ending : List Char} (hk : '\n' ∉ k) :
    (ending = [] ∨ ending = ['\n'] → withoutFeeds (k ++ ending) = k) ∧
      (ending = ['\r', '\n'] → withoutFeeds (k ++ ending) = k ++ ['\r']) := by
  have hkept : k.reverse.dropWhile (· = '\n') = k.reverse := by
    cases hr : k.reverse with
    | nil => rfl
    | cons x r =>
      have hx : x ≠ '\n' := by
        rintro rfl
        exact hk (List.mem_reverse.1 (hr ▸ List.mem_cons_self))
      simp [hx]
  unfold withoutFeeds
  constructor
  · rintro (rfl | rfl)
    · rw [List.append_nil, hkept, List.reverse_reverse]
    · simp [hkept]
  · rintro rfl
    simp

/-- Where a fault is reported, its token is written in the normal form of the script. -/
theorem spelledAt_of_readScript {source : String} {name : Option String} {f : Fault}
    (h : readScript ⟨name, .text source⟩ = .error ⟨.fault f, none, none⟩) (htoken : f.token ≠ "") :
    ∃ p, f.location = p.inFile name ∧ SpelledAt (normalizeText source.toList) p f.token.toList := by
  unfold readScript programsOfText at h
  simp only [Source.normalize?] at h
  cases hparse : parseText (normalizeText source.toList) name with
  | error g =>
    rw [hparse] at h
    cases h
    exact spelledAt_of_parseText_error hparse htoken
  | ok invocations =>
    rw [hparse] at h
    simp only [Except.map] at h
    split at h
    · rename_i g hblocks
      cases h
      obtain ⟨before, p, after, hps, -, -, -, rfl⟩ := checkBlocks_eq_error_iff.1 hblocks
      have hp : p ∈ invocations.map (Program.ofInvocation (normalizeText source.toList) name) := by
        rw [hps]
        simp
      obtain ⟨i, hi, rfl⟩ := List.mem_map.1 hp
      exact ⟨i.start, rfl, spelledAt_of_parseText hparse i hi⟩
    · cases h

/-- What is shown for a fault points at it: it marks the token of the fault, and the line around the mark is the one
that the scanner counted, with a carriage return if one stands in front of its line feed. This is so as long as no
character up to the end of that line is a line boundary other than a line feed, and no byte-order mark stands in front
of the token in the first line. -/
theorem context_pointsAt {source : String} {name : Option String} {f : Fault}
    (h : readScript ⟨name, .text source⟩ = .error ⟨.fault f, none, none⟩) (htoken : f.token ≠ "")
    (hline : '\n' ∉ f.token.toList) (hplain : PlainLines f.location.line.toNat (normalizeText source.toList))
    (hmark : f.location.line = 1 → source.toList.head? ≠ some byteOrderMark) (file : String) :
    ∃ index before after ending returned, f.location.line = (index + 1 : Nat) ∧
      f.location.column = (before.length + 1 : Nat) ∧ '\n' ∉ before ++ f.token.toList ++ after ∧
      (ending = [] ∨ ending = ['\n']) ∧ (returned = [] ∨ returned = ['\r']) ∧
      (splitFeeds (normalizeText source.toList))[index]? = some (before ++ f.token.toList ++ after ++ ending) ∧
      PointsAt (f.context file source) file (index + 1) before f.token.toList (after ++ returned) := by
  obtain ⟨p, hlocation, before, rest, htext, hp⟩ := spelledAt_of_readScript h htoken
  have hne : f.token.toList ≠ [] := fun hnil => htoken (String.toList_eq_nil_iff.1 hnil)
  obtain ⟨k, a, ending, hk, ha, hending, hlength, hl⟩ := exists_line before f.token.toList rest hline hne
  have hnumber : f.location.line = (before.count '\n' + 1 : Nat) := by
    rw [hlocation, hp]
    simp only [Position.inFile, line_after]
    simp [Position.start, Nat.add_comm]
  have hcolumn : f.location.column = (k.length + 1 : Nat) := by
    rw [hlocation, hp]
    simp only [Position.inFile, column_after_start, hlength]
    rw [Nat.add_comm]
  rw [← htext] at hl
  rw [hnumber, Int.toNat_natCast] at hplain
  -- the line of the scanner is one of the lines that are shown, save for a carriage return
  obtain ⟨l', hl', hends⟩ := exists_splitLines hplain hl
  rw [splitLines_dropByteOrderMark] at hl'
  · have hfeedless : '\n' ∉ k ++ f.token.toList ++ a := by simp [hk, hline, ha]
    obtain ⟨returned, hreturned, hcontent⟩ : ∃ returned, (returned = [] ∨ returned = ['\r']) ∧
        withoutFeeds l' = k ++ f.token.toList ++ (a ++ returned) := by
      rcases hends with rfl | ⟨K, hK, rfl⟩
      · refine ⟨[], .inl rfl, ?_⟩
        rw [(withoutFeeds_append hfeedless).1 hending, List.append_nil]
      · obtain rfl | rfl := hending
        · rw [List.append_nil] at hK
          exact absurd (hK ▸ List.mem_append_right K (List.mem_singleton.2 rfl)) hfeedless
        · refine ⟨['\r'], .inr rfl, ?_⟩
          rw [← List.append_cancel_right hK, (withoutFeeds_append hfeedless).2 rfl, List.append_assoc]
    have hpoints := errorContext_pointsAt file hl' hcontent hne
    rw [← hnumber, ← hcolumn, String.ofList_toList] at hpoints
    exact ⟨_, k, a, ending, returned, hnumber, hcolumn, hfeedless, hending, hreturned, hl, hpoints⟩
  · intro hzero
    exact hmark (by rw [hnumber, hzero]; rfl)

/-- A parenthesis too many, in a text whose lines end in a carriage return and a line feed. -/
theorem context_pointsAt_returned :
    ∃ before after ending returned, '\n' ∉ before ++ [')'] ++ after ∧ (ending = [] ∨ ending = ['\n']) ∧
      (returned = [] ∨ returned = ['\r']) ∧ before ++ [')'] ++ after ++ ending = "  )\n".toList ∧
      PointsAt ((⟨.unexpected (some (.text ")")) [.name, .endOfInput], ⟨2, 3, none⟩⟩ : Fault).context "a.txt"
        "set(x 1)\r\n  )\r\n") "a.txt" 2 before [')'] (after ++ returned) := by
  have hread : readScript ⟨none, .text "set(x 1)\r\n  )\r\n"⟩ =
      .error ⟨.fault ⟨.unexpected (some (.text ")")) [.name, .endOfInput], ⟨2, 3, none⟩⟩, none, none⟩ := by
    decide +kernel
  have hplain : PlainLines 2 (normalizeText "set(x 1)\r\n  )\r\n".toList) := by
    decide +kernel
  obtain ⟨index, before, after, ending, returned, hnumber, -, hfeed, hending, hreturned, hl, hpoints⟩ :=
    context_pointsAt hread (by decide) (by decide) hplain (by decide) "a.txt"
  have hindex : (2 : Int) = (index + 1 : Nat) := hnumber
  obtain rfl : index = 1 := by omega
  refine ⟨before, after, ending, returned, hfeed, hending, hreturned, ?_, hpoints⟩
  exact (Option.some.inj hl).symm

/-- A form feed ends a line that is shown, and none that is counted: below one, what is marked is another token. -/
theorem context_points_elsewhere :
    let source := "# page\x0c\nset(x 1)\n)"
    let f : Fault := ⟨.unexpected (some (.text ")")) [.name, .endOfInput], ⟨3, 1, some "a.txt"⟩⟩
    readScript ⟨some "a.txt", .text source⟩ = .error ⟨.fault f, none, none⟩ ∧
      PointsAt (f.context "a.txt" source) "a.txt" 3 [] ['s'] "et(x 1)".toList ∧
      ¬∃ number before after, PointsAt (f.context "a.txt" source) "a.txt" number before f.token.toList after := by
  intro source f
  refine ⟨by decide +kernel, ?_, ?_⟩
  · refine ⟨[dimLine 1 "# page\x0c".toList, dimLine 2 []], [dimLine 4 [')']], ?_, by decide +kernel⟩
    simp only [List.cons_append, List.nil_append, List.forall_mem_cons]
    exact ⟨⟨1, _, by decide, rfl⟩, ⟨2, _, by decide, rfl⟩, ⟨4, _, by decide, rfl⟩, by simp⟩
  · rintro ⟨number, before, after, h⟩
    have hshows := h.shows
    revert hshows
    decide +kernel

end CommandScript.Reporting
