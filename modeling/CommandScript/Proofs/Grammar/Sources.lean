import CommandScript.Proofs.Grammar.Concatenation
import CommandScript.Proofs.Scanning.Extraction

/-! The source of a program. It is the part of the text from the first character of the name to the closing
parenthesis, and reading it by itself gives the program again, with nothing changed but where its instructions stand:
on the first line of the source they are moved by line and column, on the others by line only. -/

namespace CommandScript.Text

/-- A place of a part of a text, as a place of the text: the part begins at `base`. -/
def Position.movedTo (base p : Position) : Position :=
  ⟨p.offset + base.offset, p.line + (base.line - 1), if p.line = 1 then p.column + (base.column - 1) else p.column⟩

/-- What stands at a location of a part of a text stands here in the text. -/
def Location.movedTo (base p : Location) : Location :=
  ⟨p.line + (base.line - 1), if p.line = 1 then p.column + (base.column - 1) else p.column, base.file⟩

end CommandScript.Text

namespace CommandScript.Code

open Text

def Instruction.movedTo (base : Location) (i : Instruction) : Instruction :=
  { i with location := i.location.map (Location.movedTo base) }

end CommandScript.Code

namespace CommandScript.Grammar

open Text Syntax Code Scanning

/-! ### Places -/

/-- A place of the text corresponds to the place of the part that is moved to it. -/
def MovedFrom (base p q : Position) : Prop := p = .movedTo base q ∧ 1 ≤ q.line

theorem movedFrom_next (base p q : Position) (x : Char) (h : MovedFrom base p q) :
    MovedFrom base (p.next x) (q.next x) := by
  obtain ⟨rfl, hq⟩ := h
  simp only [MovedFrom, Position.movedTo, next_eq, Position.mk.injEq]
  by_cases hx : x = '\n'
  · have hbelow : q.line + 1 ≠ 1 := by omega
    simp only [hx, if_true, hbelow, if_false, and_true]
    omega
  · by_cases hfirst : q.line = 1
    · simp only [hx, hfirst, if_false, if_true, Nat.add_zero, true_and]
      omega
    · simp only [hx, hfirst, if_false, Nat.add_zero, and_true]
      omega

/-- A position that was reached by counting from the start is on a line and in a column. -/
theorem one_le_after_start (before : List Char) :
    1 ≤ (Position.start.after before).line ∧ 1 ≤ (Position.start.after before).column := by
  rw [line_after, column_after_start]
  exact ⟨Nat.le_add_right 1 _, Nat.le_add_right 1 _⟩

/-- A place that was reached by counting is the one that the start of a part of the text is moved to. -/
theorem movedFrom_start (before : List Char) :
    MovedFrom (Position.start.after before) (Position.start.after before) .start := by
  obtain ⟨hline, hcolumn⟩ := one_le_after_start before
  generalize Position.start.after before = p at hline hcolumn
  obtain ⟨offset, line, column⟩ := p
  simp only at hline hcolumn
  simp only [MovedFrom, Position.movedTo, Position.start, Position.mk.injEq, if_true]
  omega

abbrev relabellingTo (base : Position) : Relabelling := { place := Position.movedTo base }

theorem relabellingTo_moves {base : Position} (hline : 1 ≤ base.line) (hcolumn : 1 ≤ base.column)
    (file file' : Option String) :
    (relabellingTo base).Moves file' file (Location.movedTo (base.inFile file)) := by
  intro p
  have hone : (p.line : Int) = 1 ↔ p.line = 1 := by omega
  simp only [Position.inFile, Position.movedTo, Location.movedTo, Location.mk.injEq, and_true, hone]
  refine ⟨by omega, ?_⟩
  split <;> omega

/-- Tokens at places that are moved are the tokens, moved. -/
theorem map_relabel_of_movedFrom {base : Position} {ts us : List Token}
    (h : List.Forall₂ (Token.Corresponds (MovedFrom base)) ts us) :
    ts = us.map (Token.relabel (relabellingTo base)) := by
  rw [← List.forall₂_eq_eq_eq, List.forall₂_map_right_iff]
  refine h.imp fun t u htu => ?_
  obtain ⟨l, p, q⟩ := t
  obtain ⟨l', p', q'⟩ := u
  obtain ⟨hl, ⟨hp, -⟩, ⟨hq, -⟩⟩ := htu
  simp only at hl hp hq
  subst hl hp hq
  cases l <;> rfl

theorem map_relabel_of_moved {base : Position} {ts us : List Token}
    (h : List.Forall₂ (Token.Corresponds fun q p => MovedFrom base p q) ts us) :
    us = ts.map (Token.relabel (relabellingTo base)) :=
  map_relabel_of_movedFrom (h.flip.imp fun _ _ ⟨hl, hp, hq⟩ => ⟨hl.symm, hp, hq⟩)

/-! ### Reading a source -/

theorem dropByteOrderMark_of_nameStart {cs : List Char} (h : ∃ x ∈ cs.head?, isNameStart x) :
    dropByteOrderMark cs = cs := by
  obtain ⟨x, hx, hstart⟩ := h
  obtain ⟨r, rfl⟩ := List.head?_eq_some_iff.1 hx
  have hmark : x ≠ byteOrderMark := by
    rintro rfl
    revert hstart
    decide
  rw [dropByteOrderMark, if_neg hmark]

theorem normalizeText_of_nameStart {cs : List Char} (hname : ∃ x ∈ cs.head?, isNameStart x)
    (h : ¬['\r', '\n'] <:+: cs) : normalizeText cs = cs := by
  rw [normalizeText, dropByteOrderMark_of_nameStart hname, foldLineEnds_of_not_infix h]

/-- In the normal form of a call only its arguments are others. -/
theorem normalizeText_callText {name : List Char} (hname : identifier? name = some (name, []))
    (arguments : List Char) :
    normalizeText (callText name arguments) = callText name (foldLineEnds arguments) := by
  obtain ⟨x, hx, hstart⟩ := head?_of_identifier? hname
  have hreturn : '\r' ∉ name ++ ['('] := by
    intro hr
    rcases List.mem_append.1 hr with hr | hr
    · have hbad : isNameCharacter '\r' = false := by decide
      rw [(identifier?_eq_append hname).2 _ hr] at hbad
      cases hbad
    · simp at hr
  have hparen : '\r' ∉ [')'] := by simp
  have hborder : arguments.getLast? = some '\r' → [')'].head? ≠ some '\n' := fun _ => by simp
  have hsplit (cs : List Char) : callText name cs = (name ++ ['(']) ++ (cs ++ [')']) := by simp [callText]
  have hmark : dropByteOrderMark (callText name arguments) = callText name arguments :=
    dropByteOrderMark_of_nameStart ⟨x, mem_head?_append hx _, hstart⟩
  rw [normalizeText, hmark, hsplit, hsplit, foldLineEnds_append_of_not_mem hreturn, foldLineEnds_append hborder,
    foldLineEnds_of_not_mem hparen]

/-- What is read of an invocation by itself, if it begins at the start of a text. -/
theorem exists_parseText_of_extracts {text : List Char} {i : Invocation} (h : Extracts text i) :
    ∃ before cs after j, text = before ++ cs ++ after ∧ i.start = Position.start.after before ∧
      i.stop = i.start.after cs ∧ (∃ x ∈ cs.head?, isNameStart x) ∧ i = j.relabel (relabellingTo i.start) ∧
      ∀ file, parseText cs file = .ok [j] := by
  obtain ⟨before, cs, after, done, htext, hstart, hstop, hname, hsucceeds⟩ := h
  have hcorresponds : (ScanState.mk ⟨cs, i.start⟩ []).Corresponds (MovedFrom i.start) ⟨⟨cs, .start⟩, []⟩ :=
    ⟨rfl, by rw [hstart]; exact movedFrom_start before, .nil⟩
  obtain ⟨hfault, htokens⟩ := scan_corresponds (movedFrom_next i.start) _ hcorresponds hsucceeds.fault
  have hmoved : (ScanState.mk ⟨cs, i.start⟩ []).scan.tokens =
      (scan cs).tokens.map (Token.relabel (relabellingTo i.start)) := map_relabel_of_movedFrom htokens
  -- the builder takes the tokens of the source as it takes those of the text, whatever is complete before
  have hfeed := feedAll_relabel (r := relabellingTo i.start) done .initial (scan cs).tokens
  rw [← hmoved] at hfeed
  have hbuilt := hfeed.symm.trans hsucceeds.tokens
  cases hb : Builder.initial.feedAll (scan cs).tokens with
  | error e =>
    rw [hb] at hbuilt
    cases hbuilt
  | ok b =>
    rw [hb] at hbuilt
    obtain ⟨hdone, hopened⟩ := Builder.mk.inj (Except.ok.inj hbuilt)
    have hone : b.done.map (Invocation.relabel (relabellingTo i.start)) = [i] :=
      List.append_cancel_right (show _ = [i] ++ done from hdone)
    obtain ⟨j, hj, hij⟩ := List.map_eq_singleton_iff.1 hone
    have hread : Succeeds ⟨⟨cs, .start⟩, []⟩ .initial b := ⟨hfault, hb, List.map_eq_nil_iff.1 hopened⟩
    refine ⟨before, cs, after, j, htext, hstart, hstop, hname, hij.symm, fun file => ?_⟩
    rw [parseText_of_succeeds hread, hj]
    rfl

/-! ### Programs -/

theorem instructionMovedTo_eq (base : Location) :
    Instruction.relabel id (Location.movedTo base) = Instruction.movedTo base := by
  funext i
  simp [Instruction.relabel, Instruction.movedTo]

theorem forall₂_sameAction_movedTo (base : Location) (is : List Instruction) :
    List.Forall₂ (fun a b => Instruction.sameAction a b) (is.map (Instruction.movedTo base)) is := by
  rw [List.forall₂_map_left_iff]
  exact List.forall₂_same.2 fun i _ => by simp [Instruction.sameAction, Instruction.movedTo]

/-- The characters from a place on. -/
theorem slice_append (before cs after : List Char) {start stop : Position} (hstart : start.offset = before.length)
    (hstop : stop.offset = before.length + cs.length) : slice (before ++ cs ++ after) start stop = String.ofList cs := by
  simp only [slice, hstart, hstop, List.append_assoc, List.drop_left, Nat.add_sub_cancel_left, List.take_left]

theorem slice_whole (cs : List Char) : slice cs .start (Position.start.after cs) = String.ofList cs := by
  rw [slice, offset_after_start]
  exact congrArg String.ofList (List.take_length ..)

/-- The instructions of an invocation that is moved are those of the invocation, moved. -/
theorem instructions_relabel {base : Position} (hline : 1 ≤ base.line) (hcolumn : 1 ≤ base.column)
    (text cs : List Char) (file file' : Option String) (j : Invocation) :
    (Program.ofInvocation text file (j.relabel (relabellingTo base))).instructions =
      (Program.ofInvocation cs file' j).instructions.map (Instruction.movedTo (base.inFile file)) := by
  have hmoves := relabellingTo_moves hline hcolumn file file'
  have harguments := argumentsCode_relabel hmoves j.arguments
  rw [instructionMovedTo_eq] at harguments
  simp [Program.ofInvocation, Invocation.relabel, harguments, widths_relabel, Instruction.movedTo, Instruction.call,
    hmoves j.start]

/-- The source of a program of any text is the program: read by itself, under any name of a file, it gives the same
instructions, and where those of the program stand is where they stand in the source, counted on from where the program
begins. Only a line end that the text keeps as two characters would be read as one. -/
theorem source_reads_back {text : List Char} {file : Option String} {ps : List Program} {p : Program}
    (hread : programsOfText text file = .ok ps) (hp : p ∈ ps) :
    ∃ written base, p.source = some written ∧ p.location = some base ∧
      (¬['\r', '\n'] <:+: written.toList → ∀ file', ∃ q,
        programOfText (normalizeText written.toList) file' = .ok q ∧ q.name = p.name ∧ q.source = p.source ∧
        List.Forall₂ (fun a b => Instruction.sameAction a b) p.instructions q.instructions ∧
        p.instructions = q.instructions.map (Instruction.movedTo base)) := by
  obtain ⟨is, his, rfl⟩ := exists_invocations hread
  obtain ⟨i, hi, rfl⟩ := List.mem_map.1 hp
  obtain ⟨b, hsucceeds, rfl⟩ := succeeds_of_parseText his
  have hextracts : Extracts text i := by
    have hall := hsucceeds.extracts (text.length + 1) (Nat.lt_succ_self _) ⟨[], rfl, rfl⟩ i (List.mem_reverse.1 hi)
    exact hall.resolve_left (by simp)
  obtain ⟨before, cs, after, j, rfl, hstart, hstop, hname, hij, hparse⟩ := exists_parseText_of_extracts hextracts
  have hoffset : i.start.offset = before.length := by
    rw [hstart, offset_after]
    exact Nat.zero_add _
  have hoffset' : i.stop.offset = before.length + cs.length := by rw [hstop, offset_after, hoffset]
  have hline : 1 ≤ i.start.line ∧ 1 ≤ i.start.column := hstart ▸ one_le_after_start before
  -- the source begins and ends where the invocation that is read of it does
  have hbegin : j.start.offset = 0 := by
    have hmoved : j.start.offset + i.start.offset = i.start.offset :=
      (congrArg (fun i : Invocation => i.start.offset) hij).symm
    omega
  have hend : j.stop.offset = cs.length := by
    have hmoved : j.stop.offset + i.start.offset = i.stop.offset :=
      (congrArg (fun i : Invocation => i.stop.offset) hij).symm
    omega
  have hwritten : slice (before ++ cs ++ after) i.start i.stop = String.ofList cs := slice_append _ _ _ hoffset hoffset'
  refine ⟨String.ofList cs, i.start.inFile file, congrArg some hwritten, rfl, fun hreturn file' => ?_⟩
  rw [String.toList_ofList] at hreturn ⊢
  have hq : programOfText (normalizeText cs) file' = .ok (Program.ofInvocation cs file' j) := by
    rw [normalizeText_of_nameStart hname hreturn, programOfText, programsOfText, hparse file']
    rfl
  have hmoved := instructions_relabel hline.1 hline.2 (before ++ cs ++ after) cs file file' j
  rw [← hij] at hmoved
  refine ⟨_, hq, (congrArg Invocation.name hij).symm, ?_, ?_, hmoved⟩
  · have hslice : slice ([] ++ cs ++ []) j.start j.stop = String.ofList cs :=
      slice_append [] cs [] hbegin (hend.trans (Nat.zero_add _).symm)
    rw [List.nil_append, List.append_nil] at hslice
    exact congrArg some (hslice.trans hwritten.symm)
  · rw [hmoved]
    exact forall₂_sameAction_movedTo _ _

/-- A call over two lines behind a comment, indented. -/
theorem source_reads_back_indented :
    let p : Program := ⟨"a", [.literal "b" (some ⟨2, 5, none⟩), .unquoted 1 none (some ⟨2, 5, none⟩),
      .literal "c" (some ⟨3, 2, none⟩), .unquoted 1 none (some ⟨3, 2, none⟩), .call "a" 2 (some ⟨2, 3, none⟩)],
      some ⟨2, 3, none⟩, some "a(b\n c)"⟩
    programsOfText "#x\n  a(b\n c)".toList none = .ok [p] ∧
      ∃ q, programOfText (normalizeText "a(b\n c)".toList) none = .ok q ∧
        p.instructions = q.instructions.map (Instruction.movedTo ⟨2, 3, none⟩) := by
  intro p
  have hread : programsOfText "#x\n  a(b\n c)".toList none = .ok [p] := by decide +kernel
  have hreturn : '\r' ∉ "a(b\n c)".toList := by decide +kernel
  obtain ⟨written, base, hwritten, hbase, h⟩ := source_reads_back hread List.mem_cons_self
  obtain rfl : "a(b\n c)" = written := Option.some.inj hwritten
  obtain rfl : ⟨2, 3, none⟩ = base := Option.some.inj hbase
  obtain ⟨q, hq, -, -, -, hmoved⟩ := h (fun hi => hreturn (hi.subset List.mem_cons_self)) none
  exact ⟨hread, q, hq, hmoved⟩

end CommandScript.Grammar
