import CommandScript.Proofs.Grammar.Sources

/-! One script behind another. If the first one ends with an invocation, whatever separates the two may stand between
them: what is read are the programs of the one and then those of the other, which are only moved. -/

namespace CommandScript.Code

open Text

/-- The program of a part of a text, as one of the text. -/
def Program.movedTo (base : Location) (p : Program) : Program :=
  { p with
    instructions := p.instructions.map (Instruction.movedTo base)
    location := p.location.map (Location.movedTo base) }

/-- The text ends with the program: from where it begins on, the text is its source. -/
def Program.Ends (text : List Char) (file : Option String) (p : Program) : Prop :=
  ∃ front written, text = front ++ written.toList ∧ p.location = (Position.start.after front).inFile file ∧
    p.source = some written

end CommandScript.Code

namespace CommandScript.Grammar

open Text Syntax Code Scanning

/-! ### What stands behind -/

/-- What is read of a text is read of it behind another, and only moved. -/
theorem scan_movedTo (before : List Char) {cs : List Char} (h : (scan cs).fault = none) :
    (ScanState.mk ⟨cs, Position.start.after before⟩ []).scan =
      ⟨(scan cs).tokens.map (Token.relabel (relabellingTo (Position.start.after before))), none⟩ := by
  obtain ⟨hfault, htokens⟩ := scan_corresponds (R := fun q p => MovedFrom (Position.start.after before) p q)
    (fun q p x hp => movedFrom_next _ p q x hp) ⟨⟨cs, .start⟩, []⟩ (t := ⟨⟨cs, Position.start.after before⟩, []⟩)
    ⟨rfl, movedFrom_start before, .nil⟩ h
  have hmoved : _ = (scan cs).tokens.map (Token.relabel (relabellingTo (Position.start.after before))) :=
    map_relabel_of_moved htokens
  rw [← hmoved, ← hfault]

/-- An invocation of a text, in a longer text in which other text stands before. -/
theorem ofInvocation_movedTo (before cs : List Char) (file : Option String) (j : Invocation) :
    Program.ofInvocation (before ++ cs) file (j.relabel (relabellingTo (Position.start.after before))) =
      (Program.ofInvocation cs file j).movedTo ((Position.start.after before).inFile file) := by
  obtain ⟨hline, hcolumn⟩ := one_le_after_start before
  have hslice : slice (before ++ cs) (Position.movedTo (Position.start.after before) j.start)
      (Position.movedTo (Position.start.after before) j.stop) = slice cs j.start j.stop := by
    simp only [slice, Position.movedTo, offset_after_start, Nat.add_sub_add_right]
    rw [Nat.add_comm j.start.offset, ← List.drop_drop, List.drop_left]
  have hplace := relabellingTo_moves hline hcolumn file file j.start
  have hinstructions := instructions_relabel hline hcolumn (before ++ cs) cs file file j
  simp only [Program.ofInvocation, Program.movedTo, Invocation.relabel, Program.mk.injEq] at hinstructions ⊢
  exact ⟨rfl, hinstructions, congrArg some hplace, congrArg some hslice⟩

/-- A script that ends with an invocation, and another one behind some separation. -/
theorem parseText_behind {cs gap text : List Char} {file : Option String} {is js : List Invocation}
    (hcs : parseText cs file = .ok is) (hend : ∃ i ∈ is, i.stop.offset = cs.length) (hgap : Separation text gap)
    (hne : gap ≠ []) (htext : parseText text file = .ok js) :
    parseText (cs ++ (gap ++ text)) file =
      .ok (is ++ js.map (Invocation.relabel (relabellingTo (Position.start.after (cs ++ gap))))) := by
  obtain ⟨b₁, h₁, rfl⟩ := succeeds_of_parseText hcs
  obtain ⟨b₂, h₂, rfl⟩ := succeeds_of_parseText htext
  obtain ⟨i, hi, hstop⟩ := hend
  rw [← List.append_nil cs] at h₁
  obtain ⟨g, q, hreads, -⟩ :=
    Succeeds.exists_border (d := []) (by simp) _ (s := ⟨⟨cs, .start⟩, []⟩) (o := .between) rfl h₁ .between
  have hr : Reads ⟨⟨cs ++ (gap ++ text), .start⟩, []⟩ .initial ⟨⟨g ++ (gap ++ text), q⟩, []⟩ b₁ := by
    obtain ⟨x, hx, hseparator⟩ := hgap.exists_head hne
    refine hreads _ fun y hy => ?_
    obtain rfl : x = y := Option.some.inj ((mem_head?_append hx text).symm.trans hy)
    exact isNeutral_of_separator hseparator
  -- the last invocation ends at the border, so the script is read to there
  obtain ⟨before, rfl, rfl, hbefore⟩ := hr.exists_before
  have hlength := hbefore i (List.mem_reverse.1 hi)
  rw [hstop, List.length_append] at hlength
  obtain rfl : g = [] := List.length_eq_zero_iff.1 (by omega)
  rw [List.append_nil] at hr ⊢
  obtain ⟨hfault, htokens⟩ := hr.scan_eq
  have hscan := scan_eq_of_skip_eq (skip_of_separation hgap (Position.start.after before))
  rw [← Position.after_append, scan_movedTo (before ++ gap) h₂.fault] at hscan
  rw [List.nil_append, hscan] at hfault htokens
  have hfeed := feedAll_relabel (r := relabellingTo (Position.start.after (before ++ gap))) b₁.done .initial
    (scan text).tokens
  have hopen : Builder.initial.relabel (relabellingTo (Position.start.after (before ++ gap))) b₁.done = b₁ := by
    obtain ⟨done, opened⟩ := b₁
    obtain rfl : opened = [] := h₁.opened
    rfl
  have hsecond : Builder.initial.feedAll (scan text).tokens = .ok b₂ := h₂.tokens
  rw [hopen, hsecond] at hfeed
  have hsucceeds : Succeeds ⟨⟨before ++ (gap ++ text), .start⟩, []⟩ .initial
      (b₂.relabel (relabellingTo (Position.start.after (before ++ gap))) b₁.done) := by
    refine ⟨hfault, htokens.trans hfeed, ?_⟩
    simp [Builder.relabel, h₂.opened]
  rw [parseText_of_succeeds hsucceeds]
  simp [Builder.relabel]

/-! ### Where a script ends -/

theorem column_after {cs : List Char} (h : '\n' ∉ cs) (p : Position) :
    (p.after cs).column = p.column + cs.length := by
  induction cs generalizing p with
  | nil => rfl
  | cons x cs ih =>
    rw [List.mem_cons, not_or] at h
    obtain ⟨hx, hcs⟩ := h
    rw [Position.after_cons, ih hcs]
    simp only [next_eq, if_neg (Ne.symm hx), List.length_cons]
    omega

/-- What is passed over without a change of line and column is nothing. -/
theorem eq_nil_of_after {cs : List Char} {p : Position} (hline : (p.after cs).line = p.line)
    (hcolumn : (p.after cs).column = p.column) : cs = [] := by
  rw [line_after] at hline
  rw [column_after (List.count_eq_zero.1 (by omega))] at hcolumn
  exact List.length_eq_zero_iff.1 (by omega)

/-- Line and column say where a text is parted. -/
theorem front_eq_of_inFile {front before cs ds : List Char} {file : Option String} (h : front ++ cs = before ++ ds)
    (hplace : (Position.start.after front).inFile file = (Position.start.after before).inFile file) :
    front = before := by
  simp only [Position.inFile, Location.mk.injEq, Int.natCast_inj, and_true] at hplace
  obtain ⟨hline, hcolumn⟩ := hplace
  rcases List.append_eq_append_iff.1 h with ⟨between, rfl, -⟩ | ⟨between, rfl, -⟩
  · rw [Position.after_append] at hline hcolumn
    rw [eq_nil_of_after hline.symm hcolumn.symm, List.append_nil]
  · rw [Position.after_append] at hline hcolumn
    rw [eq_nil_of_after hline hcolumn, List.append_nil]

/-- If a text ends with one of its programs, an invocation stops at its end. -/
theorem exists_stop_of_ends {text : List Char} {file : Option String} {is : List Invocation}
    (his : parseText text file = .ok is)
    (hend : ∃ p ∈ is.map (Program.ofInvocation text file), Program.Ends text file p) :
    ∃ i ∈ is, i.stop.offset = text.length := by
  obtain ⟨_, hp, front, written, htext, hlocation, hsource⟩ := hend
  obtain ⟨i, hi, rfl⟩ := List.mem_map.1 hp
  obtain ⟨b, hsucceeds, rfl⟩ := succeeds_of_parseText his
  obtain ⟨before, cs, after, -, hsplit, hstart, hstop, -⟩ : Extracts text i :=
    (hsucceeds.extracts (text.length + 1) (Nat.lt_succ_self _) ⟨[], rfl, rfl⟩ i (List.mem_reverse.1 hi)).resolve_left
      (by simp)
  have hoffset : i.start.offset = before.length := by rw [hstart, offset_after_start]
  have hoffset' : i.stop.offset = before.length + cs.length := by rw [hstop, offset_after, hoffset]
  have hfront : front ++ written.toList = before ++ (cs ++ after) := by rw [← htext, hsplit, List.append_assoc]
  have hplace := (Option.some.inj hlocation).symm
  rw [hstart] at hplace
  obtain rfl : front = before := front_eq_of_inFile hfront hplace
  obtain rfl : String.ofList cs = written := by
    have hslice := slice_append front cs after hoffset hoffset'
    rw [← hsplit] at hslice
    exact hslice.symm.trans (Option.some.inj hsource)
  refine ⟨i, hi, ?_⟩
  rw [hoffset', htext, String.toList_ofList, List.length_append]

/-- A script that ends with an invocation does not end with a carriage return. -/
theorem getLast?_ne_of_stop {text : List Char} {file : Option String} {is : List Invocation}
    (his : parseText text file = .ok is) (hend : ∃ i ∈ is, i.stop.offset = text.length) :
    text.getLast? ≠ some '\r' := by
  intro hlast
  obtain ⟨cs, rfl⟩ := List.getLast?_eq_some_iff.1 hlast
  obtain ⟨i, hi, hstop⟩ := hend
  have hle := stop_le_of_parseText (d := ['\r']) (by simp [isBlank]) his i hi
  rw [hstop, List.length_append, List.length_singleton] at hle
  omega

/-- The programs of a script that ends with one of them, and then those of a script behind it. -/
theorem programsOfText_behind {text gap behind : List Char} {file : Option String} {ps qs : List Program}
    (hps : programsOfText text file = .ok ps) (hend : ∃ p ∈ ps, p.Ends text file) (hgap : Separation behind gap)
    (hne : gap ≠ []) (hqs : programsOfText behind file = .ok qs) :
    programsOfText (text ++ (gap ++ behind)) file =
      .ok (ps ++ qs.map (Program.movedTo ((Position.start.after (text ++ gap)).inFile file))) := by
  obtain ⟨is, his, rfl⟩ := exists_invocations hps
  obtain ⟨js, hjs, rfl⟩ := exists_invocations hqs
  obtain ⟨i, hi, hstop⟩ := exists_stop_of_ends his hend
  have hparse := parseText_behind his ⟨i, hi, hstop⟩ hgap hne hjs
  have hfirst : is.map (Program.ofInvocation (text ++ (gap ++ behind)) file) =
      is.map (Program.ofInvocation text file) := by
    rw [← List.append_nil text] at his
    exact List.map_congr_left fun j hj => ofInvocation_append _ _ _ (stop_le_of_parseText (by simp) his j hj)
  have hsecond : (js.map (Invocation.relabel (relabellingTo (Position.start.after (text ++ gap))))).map
      (Program.ofInvocation (text ++ (gap ++ behind)) file) =
      (js.map (Program.ofInvocation behind file)).map
        (Program.movedTo ((Position.start.after (text ++ gap)).inFile file)) := by
    rw [List.map_map, List.map_map]
    refine List.map_congr_left fun j _ => ?_
    rw [Function.comp_apply, Function.comp_apply, ← List.append_assoc]
    exact ofInvocation_movedTo (text ++ gap) behind file j
  rw [programsOfText, hparse]
  simp only [Except.map, List.map_append, hfirst, hsecond]

end CommandScript.Grammar
