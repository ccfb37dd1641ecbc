import CommandScript.Proofs.Grammar.Linearisation
import CommandScript.Proofs.Scanning.Places
import CommandScript.Proofs.Scanning.Seam
import CommandScript.Proofs.Scanning.Separations
import CommandScript.Proofs.Scanning.Translation

/-! Scripts written one below the other. If each of two texts can be read, so can the two with a line feed between
them, and what is read are the programs of the one and then those of the other, which stand further down by the lines of
the one. -/

namespace CommandScript.Text

/-- The location so many lines further down. -/
def Location.moveDown (n : Nat) (p : Location) : Location := { p with line := p.line + n }

end CommandScript.Text

namespace CommandScript.Code

open Text

def Instruction.moveDown (n : Nat) (i : Instruction) : Instruction :=
  { i with location := i.location.map (Location.moveDown n) }

/-- The program at a place so many lines further down. -/
def Program.moveDown (n : Nat) (p : Program) : Program :=
  { p with
    instructions := p.instructions.map (Instruction.moveDown n)
    location := p.location.map (Location.moveDown n) }

end CommandScript.Code

namespace CommandScript.Grammar

open Text Syntax Code Scanning

/-! ### Texts in normal form -/

/-- The normal form of two texts with a line feed between them. A carriage return that the first one ends with is
dropped. -/
theorem normalizeText_join (a b : List Char) (hb : b.head? ≠ some byteOrderMark) :
    ∃ cs d, normalizeText a = cs ++ d ∧ (d = [] ∨ d = ['\r']) ∧
      normalizeText (a ++ '\n' :: b) = cs ++ '\n' :: normalizeText b := by
  have hdrop : dropByteOrderMark b = b := by
    have hnil := @dropByteOrderMark_append [] b (.inr hb)
    simpa [dropByteOrderMark] using hnil
  have hjoin : dropByteOrderMark (a ++ '\n' :: b) = dropByteOrderMark a ++ '\n' :: b := by
    refine dropByteOrderMark_append (.inr ?_)
    simp [byteOrderMark]
  have hfeed : foldLineEnds ('\n' :: b) = '\n' :: normalizeText b := by
    rw [normalizeText, hdrop, foldLineEnds.eq_2 '\n' b (by rintro r hr; cases hr)]
  by_cases hlast : (dropByteOrderMark a).getLast? = some '\r'
  · obtain ⟨cs, hcs⟩ := List.getLast?_eq_some_iff.1 hlast
    have hreturn (e : List Char) : foldLineEnds (cs ++ '\r' :: e) = foldLineEnds cs ++ foldLineEnds ('\r' :: e) :=
      foldLineEnds_append fun _ h => by cases h
    refine ⟨foldLineEnds cs, ['\r'], ?_, .inr rfl, ?_⟩
    · rw [normalizeText, hcs, hreturn]
      rfl
    · rw [normalizeText, hjoin, hcs, List.append_assoc, List.singleton_append, hreturn, foldLineEnds, normalizeText, hdrop]
  · refine ⟨normalizeText a, [], (List.append_nil _).symm, .inl rfl, ?_⟩
    rw [normalizeText, hjoin, foldLineEnds_append (fun h => absurd h hlast), hfeed]
    rfl

/-! ### Programs further down -/

theorem relabellingOfShift_moves (o l : Nat) (file : Option String) :
    (relabellingOfShift o l).Moves file file (Location.moveDown l) := by
  intro p
  simp [Position.inFile, Position.shift, Location.moveDown]

theorem instructionMoveDown_eq (l : Nat) :
    Instruction.relabel id (Location.moveDown l) = Instruction.moveDown l := by
  funext i
  simp [Instruction.relabel, Instruction.moveDown]

/-- An invocation of a text, in a longer text in which other text stands before. -/
theorem ofInvocation_shift (before text : List Char) (l : Nat) (file : Option String) (i : Invocation) :
    Program.ofInvocation (before ++ text) file (i.shift before.length l) =
      (Program.ofInvocation text file i).moveDown l := by
  have hslice : slice (before ++ text) (i.start.shift before.length l) (i.stop.shift before.length l) =
      slice text i.start i.stop := by
    simp only [slice, Position.shift, Nat.add_sub_add_right]
    rw [Nat.add_comm i.start.offset, ← List.drop_drop, List.drop_left]
  have hmoves := relabellingOfShift_moves before.length l file
  have harguments := argumentsCode_relabel hmoves i.arguments
  rw [instructionMoveDown_eq] at harguments
  simp [Program.ofInvocation, Program.moveDown, Invocation.shift, shiftArguments_eq, hslice, hmoves i.start, harguments,
    widths_relabel, Instruction.moveDown, Instruction.call]

/-- An invocation of a text that ends before the given one does not tell what stands behind. -/
theorem ofInvocation_append (text behind : List Char) (file : Option String) {i : Invocation}
    (h : i.stop.offset ≤ text.length) :
    Program.ofInvocation (text ++ behind) file i = Program.ofInvocation text file i := by
  have hslice : slice (text ++ behind) i.start i.stop = slice text i.start i.stop := by
    unfold slice
    by_cases hstart : i.start.offset ≤ text.length
    · rw [List.drop_append_of_le_length hstart, List.take_append_of_le_length]
      rw [List.length_drop]
      omega
    · have hzero : i.stop.offset - i.start.offset = 0 := by omega
      rw [hzero, List.take_zero, List.take_zero]
  simp only [Program.ofInvocation, hslice]

/-! ### Two texts -/

theorem succeeds_of_parseText {text : List Char} {file : Option String} {is : List Invocation}
    (h : parseText text file = .ok is) : ∃ b, Succeeds ⟨⟨text, .start⟩, []⟩ .initial b ∧ b.done.reverse = is := by
  obtain ⟨hfault, b, htokens, hopened, hdone⟩ := parseText_ok h
  exact ⟨b, ⟨hfault, htokens, hopened⟩, hdone⟩

theorem parseText_of_succeeds {text : List Char} {b : Builder} (h : Succeeds ⟨⟨text, .start⟩, []⟩ .initial b)
    (file : Option String) : parseText text file = .ok b.done.reverse := by
  have hfault : (scan text).fault = none := h.fault
  have htokens : Builder.initial.feedAll (scan text).tokens = .ok b := h.tokens
  simp only [parseText, hfault, htokens, h.opened]

/-- Between two invocations it only matters what is behind the separation. -/
theorem scan_eq_of_skip_eq {c c' : Cursor} (h : skipSeparation c = skipSeparation c') :
    (ScanState.mk c []).scan = (ScanState.mk c' []).scan := by
  have hstep : (ScanState.mk c []).step = (ScanState.mk c' []).step := step_eq_of_skip_eq rfl h
  cases hs : (ScanState.mk c' []).step with
  | finished => rw [ScanState.scan_finished hs, ScanState.scan_finished (hstep.trans hs)]
  | failed fault p => rw [ScanState.scan_failed hs, ScanState.scan_failed (hstep.trans hs)]
  | moved ts next => rw [ScanState.scan_moved hs, ScanState.scan_moved (hstep.trans hs)]

/-- The start of the line behind a text, further down by the text and its lines. -/
theorem next_line_eq_shift (cs : List Char) :
    (Position.start.after cs).next '\n' = Position.start.shift (cs.length + 1) (1 + cs.count '\n') := by
  have hoffset := offset_after .start cs
  have hline := line_after .start cs
  simp only [Position.start] at hoffset hline ⊢
  simp only [next_eq, Position.shift, Position.mk.injEq, if_true, hoffset, hline]
  exact ⟨by omega, by omega, trivial⟩

/-- An invocation ends where the text does, or before the blanks that the text ends with. -/
theorem stop_le_of_parseText {cs d : List Char} {file : Option String} {is : List Invocation}
    (hd : ∀ x ∈ d, isBlank x) (h : parseText (cs ++ d) file = .ok is) : ∀ i ∈ is, i.stop.offset ≤ cs.length := by
  obtain ⟨b, hb, rfl⟩ := succeeds_of_parseText h
  obtain ⟨g, q, hreads, -⟩ :=
    Succeeds.exists_border hd _ (s := ⟨⟨cs, .start⟩, []⟩) (o := .between) rfl hb .between
  intro i hi
  obtain ⟨before, rfl, -, hstop⟩ := (hreads [] nofun).exists_before
  rw [List.length_append]
  exact Nat.le_trans (hstop i (List.mem_reverse.1 hi)) (Nat.le_add_right _ _)

/-- Two scripts with a line feed between them. The first may end with blanks that are dropped from it. -/
theorem parseText_join {cs d text : List Char} {file : Option String} {is js : List Invocation}
    (hd : ∀ x ∈ d, isBlank x) (hcs : parseText (cs ++ d) file = .ok is) (htext : parseText text file = .ok js) :
    parseText (cs ++ '\n' :: text) file =
      .ok (is ++ js.map (Invocation.shift (cs.length + 1) (1 + cs.count '\n'))) := by
  obtain ⟨b₁, h₁, rfl⟩ := succeeds_of_parseText hcs
  obtain ⟨b₂, h₂, rfl⟩ := succeeds_of_parseText htext
  obtain ⟨g, q, hreads, q', hskip⟩ :=
    Succeeds.exists_border hd _ (s := ⟨⟨cs, .start⟩, []⟩) (o := .between) rfl h₁ .between
  have hneutral : ∀ x ∈ ('\n' :: text).head?, isNeutral x := by
    intro x hx
    cases hx
    decide
  have hr := hreads ('\n' :: text) hneutral
  -- behind the first script the second one starts on a new line
  have hstart : (q.after g).next '\n' = Position.start.shift (cs.length + 1) (1 + cs.count '\n') := by
    obtain ⟨before, rfl, rfl, -⟩ := hr.exists_before
    rw [← Position.after_append, next_line_eq_shift]
  have hscan := scan_eq_of_skip_eq (skip_next_line hd hskip text)
  rw [hstart] at hscan
  have hshift : (ScanState.mk ⟨text, Position.start.shift (cs.length + 1) (1 + cs.count '\n')⟩ []).scan =
      ⟨(scan text).tokens.map (Token.shift (cs.length + 1) (1 + cs.count '\n')), none⟩ := scan_shift _ h₂.fault
  have hopen : b₁ = Builder.initial.shift (cs.length + 1) (1 + cs.count '\n') b₁.done := by
    obtain ⟨done, opened⟩ := b₁
    obtain rfl : opened = [] := h₁.opened
    rfl
  have hfeed := feedAll_shift (o := cs.length + 1) (l := 1 + cs.count '\n') b₁.done _ h₂.tokens
  obtain ⟨hfault, htokens⟩ := hr.scan_eq
  rw [hscan, hshift] at hfault htokens
  have hsucceeds : Succeeds ⟨⟨cs ++ '\n' :: text, .start⟩, []⟩ .initial
      (b₂.shift (cs.length + 1) (1 + cs.count '\n') b₁.done) := by
    refine ⟨hfault, ?_, ?_⟩
    · refine htokens.trans ?_
      rw [hopen]
      exact hfeed
    · simp [Builder.shift, h₂.opened]
  rw [parseText_of_succeeds hsucceeds]
  simp [Builder.shift]

/-- If two texts can be read, they can be read with a line feed between them, unless the second one begins with a
byte-order mark, which is only dropped at the start of a text. What is read are the programs of the first and then
those of the second, with nothing changed but their lines. -/
theorem programsOfText_concatenate {a b : String} {file : Option String} {ps qs : List Program}
    (ha : programsOfText (normalizeText a.toList) file = .ok ps)
    (hb : programsOfText (normalizeText b.toList) file = .ok qs) (hmark : b.toList.head? ≠ some byteOrderMark) :
    programsOfText (normalizeText (a ++ "\n" ++ b).toList) file =
      .ok (ps ++ qs.map (Program.moveDown (1 + (normalizeText a.toList).count '\n'))) := by
  obtain ⟨cs, d, hnorm, hd, hjoin⟩ := normalizeText_join a.toList b.toList hmark
  have hblank : ∀ x ∈ d, isBlank x := by
    rcases hd with rfl | rfl
    · simp
    · simp [isBlank]
  have hcount : (normalizeText a.toList).count '\n' = cs.count '\n' := by
    rw [hnorm, List.count_append]
    rcases hd with rfl | rfl <;> simp
  have htext : (a ++ "\n" ++ b).toList = a.toList ++ '\n' :: b.toList := by simp
  obtain ⟨is, his, rfl⟩ := exists_invocations ha
  obtain ⟨js, hjs, rfl⟩ := exists_invocations hb
  rw [hnorm] at his
  have hstop := stop_le_of_parseText hblank his
  have hparse := parseText_join hblank his hjs
  have hfirst : is.map (Program.ofInvocation (cs ++ '\n' :: normalizeText b.toList) file) =
      is.map (Program.ofInvocation (cs ++ d) file) := by
    refine List.map_congr_left fun i hi => ?_
    rw [ofInvocation_append _ _ _ (hstop i hi), ofInvocation_append _ _ _ (hstop i hi)]
  have hsecond : (js.map (Invocation.shift (cs.length + 1) (1 + cs.count '\n'))).map
      (Program.ofInvocation (cs ++ '\n' :: normalizeText b.toList) file) =
      (js.map (Program.ofInvocation (normalizeText b.toList) file)).map (Program.moveDown (1 + cs.count '\n')) := by
    rw [List.map_map, List.map_map]
    refine List.map_congr_left fun j _ => ?_
    have hshift := ofInvocation_shift (cs ++ ['\n']) (normalizeText b.toList) (1 + cs.count '\n') file j
    simpa using hshift
  rw [htext, hjoin, programsOfText, hparse, hcount, hnorm]
  simp only [Except.map, List.map_append, hfirst, hsecond]

theorem programsOfText_concatenate_lines :
    programsOfText (normalizeText ("a()\r" ++ "\n" ++ "#c\nb()").toList) none = .ok
      [⟨"a", [.call "a" 0 (some ⟨1, 1, none⟩)], some ⟨1, 1, none⟩, some "a()"⟩,
        ⟨"b", [.call "b" 0 (some ⟨3, 1, none⟩)], some ⟨3, 1, none⟩, some "b()"⟩] := by
  have ha : programsOfText (normalizeText "a()\r".toList) none = .ok
      [⟨"a", [.call "a" 0 (some ⟨1, 1, none⟩)], some ⟨1, 1, none⟩, some "a()"⟩] := by decide +kernel
  have hb : programsOfText (normalizeText "#c\nb()".toList) none = .ok
      [⟨"b", [.call "b" 0 (some ⟨2, 1, none⟩)], some ⟨2, 1, none⟩, some "b()"⟩] := by decide +kernel
  exact (programsOfText_concatenate ha hb (by decide)).trans (by decide +kernel)

end CommandScript.Grammar
