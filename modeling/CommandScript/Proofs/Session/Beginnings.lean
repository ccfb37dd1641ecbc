import CommandScript.Proofs.Grammar.Sources
import CommandScript.Proofs.Session.MoreInput

/-! How an invocation begins. A script that is cut at the end of a line is read in two parts, if the first one can be
read at all. The lines that an invocation begins with cannot: as a script they are incomplete, up to the last line. -/

namespace CommandScript.Grammar

open Text Syntax Code Scanning

/-- If lines are read by themselves, and together with what stands behind them, then what stands behind is read by
itself as well, and only moved. -/
theorem parseText_divide {front rest : List Char} {file : Option String} {is js : List Invocation}
    (hfront : parseText (front ++ ['\n']) file = .ok is) (h : parseText (front ++ '\n' :: rest) file = .ok js) :
    ∃ ks, parseText rest file = .ok ks ∧
      js = is ++ ks.map (Invocation.relabel (relabellingTo (Position.start.after (front ++ ['\n'])))) := by
  obtain ⟨b₁, h₁, rfl⟩ := succeeds_of_parseText hfront
  obtain ⟨b, hb, rfl⟩ := succeeds_of_parseText h
  have hblank : ∀ x ∈ ['\n'], isBlank x := by simp [isBlank]
  obtain ⟨g, q, hreads, q', hskip⟩ :=
    Succeeds.exists_border hblank _ (s := ⟨⟨front, .start⟩, []⟩) (o := .between) rfl h₁ .between
  have hr := hreads ('\n' :: rest) fun x hx => by cases hx; decide
  have hbase : (q.after g).next '\n' = Position.start.after (front ++ ['\n']) := by
    obtain ⟨before, rfl, rfl, -⟩ := hr.exists_before
    simp [Position.after_append]
  let base := Position.start.after (front ++ ['\n'])
  obtain ⟨hfault, htokens⟩ := hr.scan_eq
  rw [scan_eq_of_skip_eq (skip_next_line hblank hskip rest), hbase] at hfault htokens
  have hcorresponds : (ScanState.mk ⟨rest, base⟩ []).Corresponds (MovedFrom base) ⟨⟨rest, .start⟩, []⟩ :=
    ⟨rfl, movedFrom_start _, .nil⟩
  obtain ⟨hfault', htokens'⟩ := scan_corresponds (movedFrom_next base) _ hcorresponds (hfault.symm.trans hb.fault)
  have hmoved : (ScanState.mk ⟨rest, base⟩ []).scan.tokens =
      (scan rest).tokens.map (Token.relabel (relabellingTo base)) :=
    map_relabel_of_movedFrom htokens'
  have hbuilt : b₁.feedAll ((scan rest).tokens.map (Token.relabel (relabellingTo base))) = .ok b := by
    rw [← hmoved, ← htokens]
    exact hb.tokens
  have hopen : b₁ = Builder.initial.relabel (relabellingTo base) b₁.done := by
    obtain ⟨done, opened⟩ := b₁
    obtain rfl : opened = [] := h₁.opened
    rfl
  rw [hopen, feedAll_relabel] at hbuilt
  cases hsecond : Builder.initial.feedAll (scan rest).tokens with
  | error refused =>
    rw [hsecond] at hbuilt
    cases hbuilt
  | ok b₂ =>
    rw [hsecond] at hbuilt
    obtain rfl := Except.ok.inj hbuilt
    have hopened : b₂.opened = [] := List.map_eq_nil_iff.1 hb.opened
    refine ⟨b₂.done.reverse, parseText_of_succeeds ⟨hfault', hsecond, hopened⟩ file, ?_⟩
    simp [Builder.relabel, base]

/-- An invocation that is all of a text begins where the text does and ends where it does. -/
theorem whole_of_slice {cs : List Char} {i : Invocation} (hne : cs ≠ [])
    (h : slice cs i.start i.stop = String.ofList cs) :
    i.start.offset = 0 ∧ cs.length ≤ i.stop.offset := by
  have hlength := congrArg List.length (String.ofList_injective h)
  have hpos := List.length_pos_iff.mpr hne
  rw [List.length_take, List.length_drop] at hlength
  omega

/-- The lines that an invocation begins with cannot be read, unless they are all of it. -/
theorem parseText_front {front rest : List Char} {file : Option String} {i : Invocation} (hne : rest ≠ [])
    (h : parseText (front ++ '\n' :: rest) file = .ok [i])
    (hwhole : slice (front ++ '\n' :: rest) i.start i.stop = String.ofList (front ++ '\n' :: rest))
    (is : List Invocation) : parseText (front ++ ['\n']) file ≠ .ok is := by
  intro hfront
  obtain ⟨hstart, hstop⟩ := whole_of_slice (by simp) hwhole
  obtain ⟨ks, -, hsplit⟩ := parseText_divide hfront h
  rw [List.length_append, List.length_cons] at hstop
  have hpos := List.length_pos_iff.mpr hne
  cases is with
  | nil =>
    obtain ⟨k, -, rfl⟩ := List.map_eq_singleton_iff.1 hsplit.symm
    have hmoved : k.start.offset + (Position.start.after (front ++ ['\n'])).offset = 0 := hstart
    rw [offset_after_start, List.length_append, List.length_singleton] at hmoved
    omega
  | cons i' is =>
    obtain rfl : i = i' := (List.cons.inj hsplit).1
    have hle := stop_le_of_parseText (d := []) (by simp) (by rwa [List.append_nil]) i List.mem_cons_self
    rw [List.length_append, List.length_singleton] at hle
    omega

end CommandScript.Grammar

namespace CommandScript.Session

open Text Syntax Code Scanning Grammar

/-- A text without carriage returns that one of its programs is written by is in normal form. -/
theorem normalizeText_of_source {text : String} {file : Option String} {ps : List Program} {p : Program}
    (hr : '\r' ∉ text.toList) (h : programsOfText (normalizeText text.toList) file = .ok ps) (hp : p ∈ ps)
    (hsource : p.source = some text) : normalizeText text.toList = text.toList := by
  obtain ⟨is, -, rfl⟩ := exists_invocations h
  obtain ⟨i, -, rfl⟩ := List.mem_map.1 hp
  have hslice : (slice (normalizeText text.toList) i.start i.stop).toList = text.toList :=
    congrArg String.toList (Option.some.inj hsource)
  have hlength := congrArg List.length hslice
  rw [slice, String.toList_ofList, List.length_take, List.length_drop] at hlength
  unfold normalizeText at hlength ⊢
  cases htext : text.toList with
  | nil => rfl
  | cons x cs =>
    rw [htext] at hr hlength
    rw [dropByteOrderMark] at hlength ⊢
    by_cases hmark : x = byteOrderMark
    · rw [if_pos hmark, foldLineEnds_of_not_mem fun hmem => hr (List.mem_cons_of_mem x hmem), List.length_cons]
        at hlength
      omega
    · rw [if_neg hmark, foldLineEnds_of_not_mem hr]

theorem programsOfText_of_readScript {text : String} {file : Option String} {ps : List Program}
    (h : readScript ⟨file, .text text⟩ = .ok ps) :
    programsOfText (normalizeText text.toList) file = .ok ps ∧ checkBlocks ps = .ok () := by
  obtain ⟨_, htext, hps, hblocks⟩ := readScript_ok h
  obtain rfl := Option.some.inj htext
  exact ⟨hps, hblocks⟩

/-- The lines that an invocation begins with are incomplete as a script, unless they are all of it. -/
theorem readScript_front {front rest : String} {file : Option String} {p : Program}
    (hr : '\r' ∉ (front ++ rest).toList) (h : readScript ⟨file, .text (front ++ rest)⟩ = .ok [p])
    (hsource : p.source = some (front ++ rest)) (hfront : front.toList.getLast? = some '\n') (hrest : rest ≠ "") :
    ∃ f, readScript ⟨file, .text front⟩ = .error ⟨.fault f, none, none⟩ ∧ f.isOpenEnded := by
  obtain ⟨hprograms, -⟩ := programsOfText_of_readScript h
  have hnormal := normalizeText_of_source hr hprograms List.mem_cons_self hsource
  have hnormal' : normalizeText front.toList = front.toList := by
    have hline := (normalizeText_line hfront rest.toList).2
    rw [foldLineEnds_of_not_mem fun hmem => hr (by simp [hmem]), ← String.toList_append, hnormal,
      String.toList_append] at hline
    exact (List.append_cancel_right hline).symm
  obtain ⟨is, his, hp⟩ := exists_invocations hprograms
  obtain ⟨i, rfl, rfl⟩ := List.map_eq_singleton_iff.1 hp
  have hslice := Option.some.inj hsource
  obtain ⟨front', hfront'⟩ : ∃ cs, front.toList = cs ++ ['\n'] := List.getLast?_eq_some_iff.mp hfront
  cases hread : readScript ⟨file, .text front⟩ with
  | error failure =>
    obtain ⟨f, rfl, -⟩ := readScript_text_error hread
    refine ⟨f, rfl, ?_⟩
    by_contra hopen
    rw [readScript_final hread (by simpa using hopen) hfront rest] at h
    cases h
  | ok qs =>
    obtain ⟨hfirst, -⟩ := programsOfText_of_readScript hread
    obtain ⟨js, hjs, -⟩ := exists_invocations hfirst
    rw [hnormal', hfront'] at hjs
    have hwhole : (front ++ rest).toList = front' ++ '\n' :: rest.toList := by simp [hfront']
    rw [hnormal, hwhole] at his hslice
    refine absurd hjs (parseText_front (by simpa using hrest) his ?_ js)
    rw [hslice, ← hwhole, String.ofList_toList]

theorem not_mem_dropByteOrderMark {x : Char} {cs : List Char} (h : x ∉ cs) : x ∉ dropByteOrderMark cs := by
  cases cs with
  | nil => exact h
  | cons c cs =>
    rw [dropByteOrderMark]
    split
    · exact fun hmem => h (List.mem_cons_of_mem c hmem)
    · exact h

theorem parseText_nil (file : Option String) : parseText [] file = .ok [] :=
  parseText_of_succeeds (Reads.succeeds (.refl ⟨⟨[], .start⟩, []⟩ .initial) rfl) file

/-- A text without carriage returns is read the same if its last line is ended. -/
theorem readScript_line {text : String} {file : Option String} {ps : List Program} (hr : '\r' ∉ text.toList)
    (h : readScript ⟨file, .text text⟩ = .ok ps) : readScript ⟨file, .text (text ++ "\n")⟩ = .ok ps := by
  obtain ⟨hprograms, hblocks⟩ := programsOfText_of_readScript h
  obtain ⟨is, his, rfl⟩ := exists_invocations hprograms
  have hnormal : normalizeText (text ++ "\n").toList = normalizeText text.toList ++ ['\n'] := by
    have hreturn : '\r' ∉ dropByteOrderMark text.toList := not_mem_dropByteOrderMark hr
    rw [String.toList_append, normalizeText, normalizeText, dropByteOrderMark_append (.inr (by decide)),
      foldLineEnds_append_of_not_mem hreturn, foldLineEnds_of_not_mem hreturn]
    rfl
  have hparse := parseText_join (d := []) (by simp) (by rwa [List.append_nil]) (parseText_nil file)
  rw [List.map_nil, List.append_nil] at hparse
  refine readScript_text_ok ?_ hblocks
  rw [programsOfText, hnormal, hparse]
  refine congrArg Except.ok (List.map_congr_left fun i hi => ofInvocation_append _ _ _ ?_)
  exact stop_le_of_parseText (d := []) (by simp) (by rwa [List.append_nil]) i hi

/-- Whether a text is read does not depend on what its file is called, nor does what its programs are written by. -/
theorem readScript_anywhere {text : String} {file : Option String} {ps : List Program}
    (h : readScript ⟨file, .text text⟩ = .ok ps) (file' : Option String) :
    ∃ ps', readScript ⟨file', .text text⟩ = .ok ps' ∧ ps'.map Program.source = ps.map Program.source := by
  obtain ⟨hprograms, hblocks⟩ := programsOfText_of_readScript h
  obtain ⟨is, his, rfl⟩ := exists_invocations hprograms
  have hparse : parseText (normalizeText text.toList) file' = .ok is := by
    obtain ⟨b, hb, rfl⟩ := succeeds_of_parseText his
    exact parseText_of_succeeds hb file'
  refine ⟨is.map (Program.ofInvocation (normalizeText text.toList) file'), readScript_text_ok ?_ ?_, ?_⟩
  · rw [programsOfText, hparse]
    rfl
  · rw [checkBlocks_eq_ok_iff] at hblocks ⊢
    intro qs hqs
    obtain ⟨js, hjs, rfl⟩ := List.suffix_map_iff.mp hqs
    have hcounts := hblocks _ (hjs.map (Program.ofInvocation (normalizeText text.toList) file))
    rw [List.countP_map, List.countP_map] at hcounts ⊢
    exact hcounts
  · rw [List.map_map, List.map_map]
    rfl

end CommandScript.Session
