import CommandScript.Proofs.Comparing.States

/-! Scripts side by side. Two texts with tokens that look the same, at the same places, are read as programs that look
the same, unless neither can be read; the faults then look the same. -/

namespace CommandScript

open Text Syntax Code Command Machine Session

variable {v : View} {text text' : List Char} {file : Option String}

/-! ### Trees -/

namespace Syntax

variable (v text text') in
/-- Tokens that look the same at the same places, and the same fault behind them, if any. -/
structure ScansAlike : Prop where
  tokens : (scan text).tokens.map (Token.relabel v.relabelling) = (scan text').tokens.map (Token.relabel v.relabelling)
  fault : (scan text).fault = (scan text').fault

theorem endPosition_relabel (ts : List Token) :
    endPosition (ts.map (Token.relabel v.relabelling)) = endPosition ts := by
  unfold endPosition
  rw [List.getLast?_map]
  cases ts.getLast? <;> rfl

/-- The trees look the same, or the faults do. -/
theorem parseText_alike (h : ScansAlike v text text') (file : Option String) :
    ((parseText text file).map (List.map (Invocation.relabel v.relabelling))).mapError (Fault.seenBy v) =
      ((parseText text' file).map (List.map (Invocation.relabel v.relabelling))).mapError (Fault.seenBy v) := by
  have hfeed := feedAll_relabel (r := v.relabelling) [] .initial (scan text).tokens
  rw [h.tokens, feedAll_relabel] at hfeed
  have hend : endPosition (scan text).tokens = endPosition (scan text').tokens := by
    rw [← endPosition_relabel (v := v), h.tokens, endPosition_relabel]
  unfold parseText
  cases hx : Builder.initial.feedAll (scan text).tokens with
  | error refused =>
    cases hy : Builder.initial.feedAll (scan text').tokens with
    | ok b => rw [hx, hy] at hfeed; cases hfeed
    | error refused' =>
      obtain ⟨⟨lexeme, start, stop⟩, expected⟩ := refused
      obtain ⟨⟨lexeme', start', stop'⟩, expected'⟩ := refused'
      rw [hx, hy] at hfeed
      obtain ⟨htoken, rfl⟩ := Prod.mk.inj (Except.error.inj hfeed)
      have hlexeme : lexeme'.relabel v.relabelling = lexeme.relabel v.relabelling := congrArg Token.lexeme htoken
      obtain rfl : start' = start := congrArg Token.start htoken
      simp only [hx, hy]
      exact congrArg Except.error (by simp only [Fault.seenBy, Option.map_some, hlexeme])
  | ok b =>
    cases hy : Builder.initial.feedAll (scan text').tokens with
    | error refused => rw [hx, hy] at hfeed; cases hfeed
    | ok b' =>
      rw [hx, hy] at hfeed
      have hb : b'.relabel v.relabelling [] = b.relabel v.relabelling [] := Except.ok.inj hfeed
      have hexpected : b'.expected = b.expected := by
        rw [← expected_relabel (r := v.relabelling) [] b', hb, expected_relabel]
      simp only [Builder.relabel, List.append_nil, Builder.mk.injEq] at hb
      obtain ⟨hdone, hopened⟩ := hb
      simp only [hx, hy, h.fault, hend, hexpected]
      cases (scan text').fault with
      | some fault => rfl
      | none =>
        cases hopen : b.opened with
        | nil =>
          rw [hopen, List.map_nil, List.map_eq_nil_iff] at hopened
          simp only [hopened]
          exact congrArg Except.ok (by rw [List.map_reverse, List.map_reverse, hdone])
        | cons x outer =>
          cases hopen' : b'.opened with
          | nil => rw [hopen, hopen'] at hopened; cases hopened
          | cons x' outer' => rfl

end Syntax

/-! ### Programs -/

namespace Code

variable (hsource : ∀ s, v.source s = none)
include hsource

/-- Where texts of programs are not seen, a program looks as its tree does. -/
theorem ofInvocation_seenBy (text : List Char) (file : Option String) (i : Invocation) :
    (Program.ofInvocation text file i).seenBy v =
      { Program.ofInvocation [] file (i.relabel v.relabelling) with source := none } := by
  have hplaces : v.relabelling.Moves file file id := fun _ => rfl
  simp only [Program.ofInvocation, Program.seenBy, Invocation.relabel, argumentsCode_relabel hplaces, widths_relabel,
    hsource, List.map_append, List.map_cons, List.map_nil, Instruction.seenBy, id]
  rfl

theorem programsOfText_alike (h : ScansAlike v text text') (file : Option String) :
    ((programsOfText text file).map (List.map (Program.seenBy v))).mapError (Fault.seenBy v) =
      ((programsOfText text' file).map (List.map (Program.seenBy v))).mapError (Fault.seenBy v) := by
  have hprograms (text : List Char) (x : Except Fault (List Invocation)) :
      ((x.map (List.map (Program.ofInvocation text file))).map (List.map (Program.seenBy v))).mapError
          (Fault.seenBy v) =
        ((x.map (List.map (Invocation.relabel v.relabelling))).mapError (Fault.seenBy v)).map
          (List.map fun i => { Program.ofInvocation [] file i with source := none }) := by
    cases x with
    | error fault => rfl
    | ok invocations =>
      exact congrArg Except.ok (by simp only [List.map_map, Function.comp_def, ofInvocation_seenBy hsource])
  unfold programsOfText
  rw [hprograms, hprograms, parseText_alike h]

omit hsource in
/-- Whether blocks end depends on how the programs look only, and so does which one does not. -/
theorem checkBlocks_map_seenBy (ps : List Program) :
    (checkBlocks (ps.map (Program.seenBy v))).mapError (Fault.seenBy v) =
      (checkBlocks ps).mapError (Fault.seenBy v) := by
  induction ps using checkBlocks.induct with
  | case1 => rfl
  | case2 p ps hopens body rest hsplit ih =>
    have hseen : (p.seenBy v).opensFunction := by rwa [Program.opensFunction_seenBy]
    have hsplit' := splitBlock_map_seenBy (v := v) ps 0
    rw [hsplit] at hsplit'
    rw [List.map_cons, checkBlocks_of_ended hseen hsplit', checkBlocks_of_ended hopens hsplit, ih]
  | case3 p ps hopens hsplit =>
    have hseen : (p.seenBy v).opensFunction := by rwa [Program.opensFunction_seenBy]
    have hsplit' := splitBlock_map_seenBy (v := v) ps 0
    rw [hsplit] at hsplit'
    rw [List.map_cons, checkBlocks_of_unended hseen hsplit', checkBlocks_of_unended hopens hsplit]
    exact congrArg Except.error (Program.unclosedFunction_seenBy p)
  | case4 p ps hopens ih =>
    have hseen : ¬(p.seenBy v).opensFunction := by rwa [Program.opensFunction_seenBy]
    rw [List.map_cons, checkBlocks, if_neg hseen, checkBlocks, if_neg hopens, ih]

end Code

/-! ### Reading -/

namespace Session

section Reading

variable {κ ω : Type} {counted : Bool} {s t : State κ ω} {cfg cfg' : Config} {source source' : Source}
  (hsource : ∀ s, v.source s = none) (hnormal : source.normalize? = some text)
  (hnormal' : source'.normalize? = some text') (hscan : ScansAlike v text text')
include hsource hnormal hnormal' hscan

theorem readScript_alike (file : Option String) :
    v.result ((readScript ⟨file, source⟩).map (List.map (Program.seenBy v))) =
      v.result ((readScript ⟨file, source'⟩).map (List.map (Program.seenBy v))) := by
  have hprograms := programsOfText_alike hsource hscan file
  unfold readScript
  simp only [hnormal, hnormal']
  cases hx : programsOfText text file with
  | error fault =>
    cases hy : programsOfText text' file with
    | ok ps => rw [hx, hy] at hprograms; cases hprograms
    | error fault' =>
      rw [hx, hy] at hprograms
      have hfault : fault.seenBy v = fault'.seenBy v := Except.error.inj hprograms
      exact View.result_error (by simp [Failure.seenBy, Cause.seenBy, hfault])
  | ok ps =>
    cases hy : programsOfText text' file with
    | error fault => rw [hx, hy] at hprograms; cases hprograms
    | ok ps' =>
      rw [hx, hy] at hprograms
      have hps : ps.map (Program.seenBy v) = ps'.map (Program.seenBy v) := Except.ok.inj hprograms
      have hblocks := checkBlocks_map_seenBy (v := v) ps
      rw [hps, checkBlocks_map_seenBy] at hblocks
      simp only []
      cases hx' : checkBlocks ps with
      | error fault =>
        cases hy' : checkBlocks ps' with
        | ok _ => rw [hx', hy'] at hblocks; cases hblocks
        | error fault' =>
          rw [hx', hy'] at hblocks
          have hfault : fault'.seenBy v = fault.seenBy v := Except.error.inj hblocks
          exact View.result_error (by simp [Failure.seenBy, Cause.seenBy, hfault])
      | ok _ =>
        cases hy' : checkBlocks ps' with
        | error fault => rw [hx', hy'] at hblocks; cases hblocks
        | ok _ => exact congrArg Except.ok hps

/-- Where it is not seen which scripts are kept, sessions that are alike read scripts that look the same alike. -/
theorem State.Alike.parse_alike (h : s.Alike v counted t) (hremembers : ¬v.remembers) (file : Option String) :
    ReadAlike v counted (s.parse cfg source file) (t.parse cfg' source' file) := by
  obtain ⟨hc, hc'⟩ := h.cache.faithful hremembers
  refine .of_programs ?_ ⟨h.store, h.top, h.library, ?_, h.frames, h.depth, h.record, h.host⟩
  · simp only [State.parse, hc.read_eq, hc'.read_eq]
    exact readScript_alike hsource hnormal hnormal' hscan file
  · exact ⟨(absurd · hremembers), fun _ => ⟨hc.read _, hc'.read _⟩⟩

end Reading

end Session

end CommandScript
