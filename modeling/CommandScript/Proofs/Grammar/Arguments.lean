import CommandScript.Proofs.Grammar.Elsewhere

/-! Arguments with spacing between them. If two texts can be read as the arguments of a call, so can the one behind the
other with blanks and comments between them, and the call has the arguments of the first and then those of the second.
Nothing is read across the spacing, whatever it is, and neither text tells where the other one is read. -/

namespace CommandScript.Grammar

open Text Syntax Code Scanning

/-! ### Spacing -/

/-- Blanks, comments up to the end of their line and comments in brackets, in any order. -/
inductive Spacing : List Char → Prop where
  | nil : Spacing []
  | blank {x : Char} {cs : List Char} (hx : x = ' ' ∨ x = '\t' ∨ x = '\n') (h : Spacing cs) : Spacing (x :: cs)
  | line {comment cs : List Char} (hn : '\n' ∉ comment) (hb : bracketOpener? comment = none) (h : Spacing cs) :
    Spacing ('#' :: (comment ++ '\n' :: cs))
  | bracket {level : Nat} {content cs : List Char} (hc : ClosesFirst level content) (h : Spacing cs) :
    Spacing ('#' :: (bracketOpener level ++ content ++ bracketCloser level ++ cs))

/-- Spacing separates, whatever is behind it. -/
theorem Spacing.separation {sep : List Char} (h : Spacing sep) (behind : List Char) : Separation behind sep := by
  induction h with
  | nil => exact .nil
  | blank hx _ ih => exact .blank (by tauto) ih
  | line hn hb _ ih => exact .line hn hb (by simp) (.blank (by simp) ih)
  | bracket hc _ ih => exact .bracket hc ih

theorem exists_border_of_spacing {sep : List Char} (h : Spacing sep) (hne : sep ≠ []) (behind : List Char) :
    ∃ x ∈ (sep ++ behind).head?, isBorder x := by
  obtain ⟨x, hx, hseparator⟩ := (h.separation behind).exists_head hne
  exact ⟨x, mem_head?_append hx behind, by rcases hseparator with hb | rfl <;> simp [isBorder, *]⟩

/-! ### Behind one another -/

/-- The arguments of a call that is a whole text are read up to some separation in front of its closing parenthesis,
whatever is in the place of that parenthesis, if only it ends an argument. -/
theorem exists_arguments {name a : List Char} (hname : identifier? name = some (name, [])) {file : Option String}
    {i : Invocation} (h : parseText (callText name a) file = .ok [i])
    (hstop : i.stop.offset = (callText name a).length) :
    ∃ taken gap opener arguments, a = taken ++ gap ∧ Separation [')'] gap ∧
      i = ⟨String.ofList name, .start, Position.start.after (callText name a), arguments.reverse⟩ ∧
      ∀ e, (∃ x ∈ e.head?, isBorder x) →
        Reads (inside (Position.start.after name) (a ++ e) (Position.start.after (name ++ ['('])))
          (calling (String.ofList name) .start [])
          (inside opener (gap ++ e) (Position.start.after (name ++ '(' :: taken)))
          (calling (String.ofList name) .start arguments) := by
  obtain ⟨b, hsucceeds, hb⟩ := succeeds_of_parseText h
  rw [callText, (reads_opening hname (a ++ [')']) .start).succeeds_iff] at hsucceeds
  obtain ⟨taken, gap, after, opener, name', arguments, hrest, hgap, hreads, hclosed⟩ :=
    hsucceeds.exists_closing _ (o := .inside 0) (.inside .call (by simp [HasPart]) rfl) .call
  -- what is read is the call that was opened
  obtain ⟨ts, -, hfeed⟩ := exists_scans (hreads [')'] (border_paren []))
  obtain ⟨arguments', hcall, -⟩ := feedAll_calling hfeed rfl rfl
  obtain ⟨rfl, -⟩ : name' = String.ofList name ∧ arguments = arguments' := by simpa using hcall
  -- and nothing is read behind it
  obtain ⟨done, hdone⟩ := suffix_of_feedAll hclosed.tokens
  rw [← hdone] at hb
  obtain ⟨rfl, rfl⟩ : _ = i ∧ done = [] := by simpa using hb
  have hwhole : (((((Position.start.after name).next '(').after taken).after gap).next ')') =
      Position.start.after (callText name (taken ++ gap)) := by simp [callText]
  have hlength := congrArg List.length hrest
  simp only [hwhole, offset_after_start, callText, List.length_append, List.length_cons, List.length_nil]
    at hstop hlength
  obtain rfl : after = [] := List.length_eq_zero_iff.1 (by omega)
  obtain rfl : a = taken ++ gap := List.append_cancel_right (hrest.trans (List.append_assoc ..).symm)
  refine ⟨taken, gap, opener, arguments, rfl, hgap, by rw [hwhole], fun e he => ?_⟩
  simpa using hreads e he

/-- The arguments of two calls, with spacing between them, are those of one call. -/
theorem parseText_arguments {name a b sep : List Char} (hname : identifier? name = some (name, []))
    {file : Option String} {i j : Invocation} (ha : parseText (callText name a) file = .ok [i])
    (hi : i.stop.offset = (callText name a).length) (hb : parseText (callText name b) file = .ok [j])
    (hj : j.stop.offset = (callText name b).length) (hsep : Spacing sep) (hne : sep ≠ []) :
    ∃ own, j.arguments = relabelArguments (relabellingTo (Position.start.after (name ++ ['(']))) own ∧
      parseText (callText name (a ++ (sep ++ b))) file = .ok [⟨String.ofList name, .start,
        Position.start.after (callText name (a ++ (sep ++ b))),
        i.arguments ++ relabelArguments (relabellingTo (Position.start.after (name ++ '(' :: (a ++ sep)))) own⟩] := by
  obtain ⟨taken, gap, opener, arguments, rfl, hgap, rfl, hreads⟩ := exists_arguments hname ha hi
  obtain ⟨taken', gap', opener', arguments', rfl, hgap', rfl, hreads'⟩ := exists_arguments hname hb hj
  have hfirst := hreads (sep ++ (taken' ++ gap' ++ [')'])) (exists_border_of_spacing hsep hne _)
  obtain ⟨own, rfl, hanywhere⟩ := exists_elsewhere (hreads' [')'] (border_paren []))
  refine ⟨own.reverse, (relabelArguments_reverse own).symm, ?_⟩
  obtain ⟨opener₂, p, hsecond⟩ := hanywhere opener (name ++ '(' :: (taken ++ gap ++ sep)) (String.ofList name) .start
    arguments
  -- what is left of the first text is passed over together with the spacing
  have hseparation := (hgap.exchange (sep ++ (taken' ++ gap' ++ [')']))).append (hsep.separation _)
  have hskip : skipSeparation ⟨gap ++ (sep ++ (taken' ++ gap' ++ [')'])), Position.start.after (name ++ '(' :: taken)⟩ =
      skipSeparation ⟨taken' ++ gap' ++ [')'], Position.start.after (name ++ '(' :: (taken ++ gap ++ sep))⟩ := by
    simpa using skip_of_separation hseparation (Position.start.after (name ++ '(' :: taken))
  have hopen : Reads ⟨⟨callText name (taken ++ gap ++ (sep ++ (taken' ++ gap'))), .start⟩, []⟩ .initial
      (inside (Position.start.after name) (taken ++ gap ++ (sep ++ (taken' ++ gap' ++ [')'])))
        (Position.start.after (name ++ ['(']))) (calling (String.ofList name) .start []) := by
    simpa [callText] using reads_opening hname (taken ++ gap ++ (sep ++ (taken' ++ gap' ++ [')']))) .start
  have hclose := hsecond.trans (reads_closing (String.ofList name) .start opener₂ _ [] hgap' p)
  have hread := hopen.trans (hfirst.trans (hclose.of_skip_eq rfl hskip (by simp)))
  rw [parseText_of_succeeds (hread.succeeds rfl) file, hread.position_at_end]
  simp [relabelArguments_reverse]

/-! ### As programs -/

theorem widths_append (as bs : List Argument) : widths (as ++ bs) = widths as + widths bs := by
  induction as with
  | nil => exact (Nat.zero_add _).symm
  | cons a as ih => rw [List.cons_append, widths, widths, ih, Nat.add_assoc]

theorem argumentsCode_append (file : Option String) (as bs : List Argument) :
    argumentsCode file (as ++ bs) = argumentsCode file as ++ argumentsCode file bs := by
  induction as with
  | nil => rfl
  | cons a as ih => rw [List.cons_append, argumentsCode, argumentsCode, ih, List.append_assoc]

/-- Where arguments stand changes nothing that is done for them. -/
theorem forall₂_sameAction_argumentsCode (front front' : List Char) (file : Option String) (own : List Argument) :
    List.Forall₂ (fun a b => Instruction.sameAction a b)
      (argumentsCode file (relabelArguments (relabellingTo (Position.start.after front)) own))
      (argumentsCode file (relabelArguments (relabellingTo (Position.start.after front')) own)) := by
  obtain ⟨hline, hcolumn⟩ := one_le_after_start front
  obtain ⟨hline', hcolumn'⟩ := one_le_after_start front'
  rw [argumentsCode_relabel (relabellingTo_moves hline hcolumn file file),
    argumentsCode_relabel (relabellingTo_moves hline' hcolumn' file file), instructionMovedTo_eq, instructionMovedTo_eq,
    List.forall₂_map_left_iff, List.forall₂_map_right_iff]
  exact List.forall₂_same.2 fun i _ => by simp [Instruction.sameAction, Instruction.movedTo]

/-- A program whose source is the whole text is that of an invocation which ends where the text does. -/
theorem exists_whole {text : List Char} {file : Option String} {p : Program} (h : programOfText text file = .ok p)
    (hsource : p.source = some (String.ofList text)) :
    ∃ i, parseText text file = .ok [i] ∧ i.stop.offset = text.length ∧ p = Program.ofInvocation text file i := by
  rw [programOfText] at h
  split at h
  · cases h
  · rename_i hprograms
    cases h
    obtain ⟨is, hparse, hmap⟩ := exists_invocations hprograms
    obtain ⟨i, rfl, rfl⟩ := List.map_eq_singleton_iff.1 hmap
    refine ⟨i, hparse, ?_, rfl⟩
    have hblank : ∀ x ∈ ([] : List Char), isBlank x := by simp
    have hle := stop_le_of_parseText hblank (by rwa [List.append_nil]) i List.mem_cons_self
    have hslice := congrArg List.length (String.ofList_injective (Option.some.inj hsource))
    rw [List.length_take, List.length_drop] at hslice
    omega
  · cases h

/-- The instructions of a call that is a whole text: those of its arguments, and the call. -/
theorem instructions_whole {name : String} {a : List Char} (hname : identifier? name.toList = some (name.toList, []))
    {file : Option String} {i : Invocation} (h : parseText (callText name.toList a) file = .ok [i])
    (hstop : i.stop.offset = (callText name.toList a).length) :
    (Program.ofInvocation (callText name.toList a) file i).instructions =
      argumentsCode file i.arguments ++ [.call name (widths i.arguments) (Position.start.inFile file)] := by
  obtain ⟨_, _, _, _, -, -, rfl, -⟩ := exists_arguments hname h hstop
  simp [Program.ofInvocation]

/-- Arguments concatenate, whatever separates them. If two texts are arguments of a command, each together with the
command being the whole of an invocation, then so are they with any spacing between them, and the instructions are those
of the first without its call, those of the second without its call, and the call with as many arguments as both. -/
theorem arguments_concatenate {name : String} {a b : List Char} {file : Option String} {p q : Program}
    (hname : identifier? name.toList = some (name.toList, [])) (hareturn : '\r' ∉ a) (hbreturn : '\r' ∉ b)
    (ha : programOfText (normalizeText (callText name.toList a)) file = .ok p)
    (hawhole : p.source = some (String.ofList (callText name.toList a)))
    (hb : programOfText (normalizeText (callText name.toList b)) file = .ok q)
    (hbwhole : q.source = some (String.ofList (callText name.toList b))) :
    ∃ (code code' : List Instruction) (m n : Nat),
      p.instructions = code ++ [.call name m (Position.start.inFile file)] ∧
      q.instructions = code' ++ [.call name n (Position.start.inFile file)] ∧
      ∀ sep, Spacing sep → sep ≠ [] → '\r' ∉ sep →
        ∃ r, programOfText (normalizeText (callText name.toList (a ++ (sep ++ b)))) file = .ok r ∧
          List.Forall₂ (fun i j => Instruction.sameAction i j) r.instructions
            (code ++ code' ++ [.call name (m + n) (Position.start.inFile file)]) := by
  rw [normalizeText_callText hname, foldLineEnds_of_not_mem hareturn] at ha
  rw [normalizeText_callText hname, foldLineEnds_of_not_mem hbreturn] at hb
  obtain ⟨i, hi, histop, rfl⟩ := exists_whole ha hawhole
  obtain ⟨j, hj, hjstop, rfl⟩ := exists_whole hb hbwhole
  refine ⟨_, _, _, _, instructions_whole hname hi histop, instructions_whole hname hj hjstop,
    fun sep hsep hne hreturn => ?_⟩
  obtain ⟨own, hown, hparse⟩ := parseText_arguments hname hi histop hj hjstop hsep hne
  have hfold : foldLineEnds (a ++ (sep ++ b)) = a ++ (sep ++ b) := foldLineEnds_of_not_mem (by simp [*])
  rw [normalizeText_callText hname, hfold, programOfText, programsOfText, hparse]
  refine ⟨_, rfl, ?_⟩
  have hsame (is : List Instruction) : List.Forall₂ (fun a b => Instruction.sameAction a b) is is :=
    List.forall₂_same.2 fun i _ => by simp [Instruction.sameAction]
  simp only [Program.ofInvocation, argumentsCode_append, widths_append, hown, widths_relabel, String.ofList_toList,
    Int.natCast_add]
  exact List.rel_append (List.rel_append (hsame _) (forall₂_sameAction_argumentsCode _ _ file own)) (hsame _)

/-- A variable and a quoted text, with a comment up to the end of the line and one in brackets between them. -/
theorem arguments_concatenate_over_comments :
    let code : List Instruction := [.literal "x" (some ⟨1, 5, none⟩), .variableReference .plain 1 (some ⟨1, 3, none⟩),
      .unquoted 1 (some .list) (some ⟨1, 3, none⟩)]
    let code' : List Instruction := [.literal "y" (some ⟨1, 4, none⟩), .quoted 1 (some ⟨1, 3, none⟩)]
    let place : Location := ⟨1, 1, none⟩
    programOfText (normalizeText "c($\x7bx\x7d)".toList) none =
        .ok ⟨"c", code ++ [.call "c" 1 place], place, some "c($\x7bx\x7d)"⟩ ∧
      programOfText (normalizeText "c(\"y\")".toList) none =
        .ok ⟨"c", code' ++ [.call "c" 1 place], place, some "c(\"y\")"⟩ ∧
      ∃ r, programOfText (normalizeText "c($\x7bx\x7d#(\n#[[\"]]\"y\")".toList) none = .ok r ∧
        List.Forall₂ (fun i j => Instruction.sameAction i j) r.instructions (code ++ code' ++ [.call "c" 2 place]) := by
  intro code code' place
  have ha : programOfText (normalizeText (callText "c".toList "$\x7bx\x7d".toList)) none =
      .ok ⟨"c", code ++ [.call "c" 1 place], place, some "c($\x7bx\x7d)"⟩ := by decide +kernel
  have hb : programOfText (normalizeText (callText "c".toList "\"y\"".toList)) none =
      .ok ⟨"c", code' ++ [.call "c" 1 place], place, some "c(\"y\")"⟩ := by decide +kernel
  obtain ⟨_, _, m, n, hcode, hcode', h⟩ := arguments_concatenate (by decide +kernel) (by decide +kernel)
    (by decide +kernel) ha (by decide +kernel) hb (by decide +kernel)
  obtain ⟨rfl, hm⟩ := List.append_inj' hcode rfl
  obtain ⟨rfl, hn⟩ := List.append_inj' hcode' rfl
  have hone {k : Nat} (hk : [Instruction.call "c" 1 place] = [.call "c" k (Position.start.inFile none)]) : k = 1 := by
    simp only [Instruction.call, List.cons.injEq, Instruction.mk.injEq, Operation.call.injEq] at hk
    omega
  obtain rfl := hone hm
  obtain rfl := hone hn
  have hsep : Spacing "#(\n#[[\"]]".toList :=
    @Spacing.line ['('] _ (by decide) (by decide) (@Spacing.bracket 0 ['"'] _ (by unfold ClosesFirst; decide) .nil)
  have hjoined := h _ hsep (by decide +kernel) (by decide +kernel)
  have hacall : callText "c".toList "$\x7bx\x7d".toList = "c($\x7bx\x7d)".toList := by decide +kernel
  have hbcall : callText "c".toList "\"y\"".toList = "c(\"y\")".toList := by decide +kernel
  have hcall : callText "c".toList ("$\x7bx\x7d".toList ++ ("#(\n#[[\"]]".toList ++ "\"y\"".toList)) =
      "c($\x7bx\x7d#(\n#[[\"]]\"y\")".toList := by decide +kernel
  rw [hacall] at ha
  rw [hbcall] at hb
  rw [hcall] at hjoined
  exact ⟨ha, hb, hjoined⟩

end CommandScript.Grammar
