import CommandScript.Proofs.Evaluation.Agreement
import CommandScript.Proofs.Grammar.Sequences

/-! Text in brackets is passed on as it is. As an argument it is read up to the first closer of its level, and no
character in it means anything else; as a comment between two calls it is passed over, and what stands behind it only
moves. -/

namespace CommandScript.Text

open Syntax

/-- A content in brackets of some level, with a line feed in front of it. -/
def bracketed (level : Nat) (content : List Char) : List Char :=
  bracketOpener level ++ '\n' :: content ++ bracketCloser level

/-- Brackets keep the line ends of their content. -/
theorem foldLineEnds_bracketed {content : List Char} (h : ¬['\r', '\n'] <:+: content) (level : Nat)
    (behind : List Char) :
    foldLineEnds (bracketed level content ++ behind) = bracketed level content ++ foldLineEnds behind := by
  have hopener : '\r' ∉ bracketOpener level ++ ['\n'] := by simp [bracketOpener]
  have hcloser : '\r' ∉ bracketCloser level := by simp [bracketCloser]
  have hsplit (rest : List Char) : bracketed level content ++ rest =
      (bracketOpener level ++ ['\n']) ++ (content ++ (bracketCloser level ++ rest)) := by simp [bracketed]
  have hborder : content.getLast? = some '\r' → (bracketCloser level ++ behind).head? ≠ some '\n' :=
    fun _ => by simp [bracketCloser]
  rw [hsplit, foldLineEnds_append_of_not_mem hopener, foldLineEnds_append hborder, foldLineEnds_of_not_infix h,
    foldLineEnds_append_of_not_mem hcloser, hsplit]

end CommandScript.Text

namespace CommandScript.Scanning

open Text Syntax

/-- A content for which the closer is the first one is so with a line feed in front of it. -/
theorem ClosesFirst.line {level : Nat} {content : List Char} (h : ClosesFirst level content) :
    ClosesFirst level ('\n' :: content) := by
  intro hi
  rw [List.cons_append, List.infix_cons_iff] at hi
  rcases hi with hp | hi
  · rw [bracketCloser, List.cons_prefix_cons] at hp
    exact absurd hp.1 (by decide)
  · exact h hi

/-- A bracket is read as an argument that is its content. -/
theorem reads_bracket {level : Nat} {content : List Char} (h : ClosesFirst level content) (name : String)
    (start opener : Position) (rest : List Char) (p : Position) (arguments : List Argument) :
    Reads (inside opener (bracketed level content ++ rest) p) (calling name start arguments)
      (inside opener rest (p.after (bracketed level content)))
      (calling name start (.bracket p (String.ofList content) :: arguments)) := by
  have hlexes : Lexes p [.arguments opener none] [⟨.bracket (String.ofList content), bracketed level content⟩] rest
      [.arguments opener none] := .bracket (splitAtFirst_of_closesFirst h.line rest)
  have hparted : Parted [.arguments opener none] ⟨bracketed level content ++ rest, p⟩
      ⟨bracketed level content ++ rest, p⟩ := parted_of_separation rfl .nil (by decide) p
  have hstep := hlexes.step_eq (c := ⟨bracketed level content ++ rest, p⟩) (by simpa using hparted)
  simp only [written_cons, written_nil, List.append_nil] at hstep
  exact .step hstep rfl (.refl _ _)

end CommandScript.Scanning

namespace CommandScript.Machine

/-- The command that is dispatched and its arguments, if that is what the notice is about. -/
def Notice.dispatch? : Notice → Option (String × List String)
  | .dispatching name arguments => some (name, arguments)
  | _ => none

end CommandScript.Machine

namespace CommandScript.Evaluation

open Text Syntax Code Machine Scanning Grammar

/-! ### As an argument -/

/-- What is read of a call with one argument in brackets: its content, where the bracket opens. -/
def bracketProgram (name : String) (level : Nat) (content : String) (file : Option String) : Program :=
  let place := ((Position.start.after name.toList).next '(').inFile file
  { name
    instructions := [.literal content place, .quoted 1 place, .call name 1 (Position.start.inFile file)]
    location := Position.start.inFile file
    source := String.ofList (callText name.toList (bracketed level content.toList)) }

theorem parseText_bracketCall {name : List Char} (hname : identifier? name = some (name, [])) {level : Nat}
    {content : List Char} (h : ClosesFirst level content) (file : Option String) :
    parseText (callText name (bracketed level content)) file =
      .ok [⟨String.ofList name, .start, Position.start.after (callText name (bracketed level content)),
        [.bracket ((Position.start.after name).next '(') (String.ofList content)]⟩] := by
  have hopen := reads_opening hname (bracketed level content ++ [')']) .start
  have hbracket := reads_bracket h (String.ofList name) .start (Position.start.after name) [')']
    ((Position.start.after name).next '(') []
  have hclose := reads_closing (String.ofList name) .start (Position.start.after name)
    [.bracket ((Position.start.after name).next '(') (String.ofList content)] [] .nil
    (((Position.start.after name).next '(').after (bracketed level content))
  have hread := hopen.trans (hbracket.trans hclose)
  rw [callText, ← hread.position_at_end]
  exact parseText_of_succeeds (hread.succeeds rfl) file

/-- Nothing of the call is changed before it is read. -/
theorem normalizeText_bracketCall {name : List Char} (hname : identifier? name = some (name, [])) {content : List Char}
    (hcontent : ¬['\r', '\n'] <:+: content) (level : Nat) :
    normalizeText (callText name (bracketed level content)) = callText name (bracketed level content) := by
  have hfold := foldLineEnds_bracketed hcontent level []
  rw [List.append_nil, foldLineEnds, List.append_nil] at hfold
  rw [normalizeText_callText hname, hfold]

theorem programOfText_bracketCall {name : String} (hname : identifier? name.toList = some (name.toList, []))
    {level : Nat} {content : String} (h : ClosesFirst level content.toList) (file : Option String) :
    programOfText (callText name.toList (bracketed level content.toList)) file =
      .ok (bracketProgram name level content file) := by
  simp [programOfText, programsOfText, parseText_bracketCall hname h, Except.map, Program.ofInvocation, bracketProgram,
    slice_whole, argumentsCode, argumentCode, widths, width]

/-- All that running the program does is to dispatch its command with the content. -/
theorem run_bracketProgram {σ : Type} (w : Surroundings σ) (name : String) (level : Nat) (content : String)
    (file : Option String) (s : σ) :
    let machine := run w.recorded false (bracketProgram name level content file).instructions (s, [])
    let direct := command w.recorded (Position.start.inFile file) name [content] (s, [])
    machine.1 = direct.1 ∧ machine.2.1 = direct.2.1 ∧ machine.2.2.filter (!·.isOwnStep) = direct.2.2 := by
  intro machine direct
  let call : Invocation := ⟨name, .start, .start, [.bracket ((Position.start.after name.toList).next '(') content]⟩
  have hnone : (s, ([] : List Notice)).1 = s ∧ ([] : List Notice).filter (!·.isOwnStep) = [] := ⟨rfl, rfl⟩
  exact run_follows_evaluate (recorded_follows w) [] file call hnone

/-- A command is dispatched once. -/
theorem dispatches_command {σ : Type} (w : Surroundings σ) (place : Location) (name : String)
    (arguments : List String) (s : σ) :
    (command w.recorded place name arguments (s, [])).2.2.filterMap Notice.dispatch? = [(name, arguments)] := by
  rcases hw : w.invoke name arguments (w.observe (.dispatching name arguments) s) with ⟨failure | results | _, t⟩
  · by_cases hrefusal : failure.cause.isRefusal && !failure.cause.isFatal <;>
      simp [command, Surroundings.recorded, Notice.isOwnStep, hw, hrefusal, Notice.dispatch?]
  · simp [command, Surroundings.recorded, Notice.isOwnStep, hw, Notice.dispatch?]
  · simp [command, Surroundings.recorded, Notice.isOwnStep, hw, Notice.dispatch?]

/-- Notices of the machine's own steps are about no dispatch. -/
theorem filterMap_dispatch? (history : List Notice) :
    (history.filter (!·.isOwnStep)).filterMap Notice.dispatch? = history.filterMap Notice.dispatch? := by
  rw [List.filterMap_filter]
  refine List.filterMap_congr fun notice _ => ?_
  cases notice <;> rfl

/-! ### As a comment -/

theorem separation_of_space {space : List Char} (h : ∀ x ∈ space, x = ' ' ∨ x = '\t' ∨ x = '\n') (behind : List Char) :
    Separation behind space := by
  induction space with
  | nil => exact .nil
  | cons x space ih =>
    obtain ⟨hx, hspace⟩ := List.forall_mem_cons.1 h
    exact .blank (by tauto) (ih hspace)

/-- The normal form of two texts with a comment in brackets between them. -/
theorem normalizeText_comment {a space content b : List Char} (ha : (normalizeText a).getLast? ≠ some '\r')
    (hspace : ∀ x ∈ space, x = ' ' ∨ x = '\t' ∨ x = '\n') (hcontent : ¬['\r', '\n'] <:+: content)
    (hb : b.head? ≠ some byteOrderMark) (level : Nat) :
    normalizeText (a ++ (space ++ '#' :: (bracketed level content ++ b))) =
      normalizeText a ++ (space ++ '#' :: (bracketed level content ++ normalizeText b)) := by
  have hdrop : dropByteOrderMark b = b := by
    have hnil := @dropByteOrderMark_append [] b (.inr hb)
    simpa [dropByteOrderMark] using hnil
  have hhead : (space ++ '#' :: (bracketed level content ++ b)).head? ≠ some byteOrderMark := by
    cases space with
    | nil => simp [byteOrderMark]
    | cons x space => rcases hspace x List.mem_cons_self with rfl | rfl | rfl <;> simp [byteOrderMark]
  have hreturn : '\r' ∉ space ++ ['#'] := by
    intro hr
    rcases List.mem_append.1 hr with hr | hr
    · simpa using hspace _ hr
    · simp at hr
  have hlast : (dropByteOrderMark a).getLast? ≠ some '\r' := by rwa [normalizeText, getLast?_foldLineEnds] at ha
  have hsplit (rest : List Char) : space ++ '#' :: rest = (space ++ ['#']) ++ rest := by simp
  rw [normalizeText, dropByteOrderMark_append (.inr hhead), foldLineEnds_append (fun hl => absurd hl hlast), hsplit,
    foldLineEnds_append_of_not_mem hreturn, foldLineEnds_bracketed hcontent, ← hsplit]
  simp only [normalizeText, hdrop]

theorem programsOfText_comment {a space b content : List Char} {file : Option String} {ps qs : List Program}
    {level : Nat} (ha : programsOfText (normalizeText a) file = .ok ps)
    (hend : ∃ p ∈ ps, p.Ends (normalizeText a) file) (hspace : ∀ x ∈ space, x = ' ' ∨ x = '\t' ∨ x = '\n')
    (hb : programsOfText (normalizeText b) file = .ok qs) (hmark : b.head? ≠ some byteOrderMark)
    (hcontent : ¬['\r', '\n'] <:+: content) (h : ClosesFirst level content) :
    programsOfText (normalizeText (a ++ (space ++ '#' :: (bracketed level content ++ b)))) file =
      .ok (ps ++ qs.map (Program.movedTo
        ((Position.start.after (normalizeText a ++ (space ++ '#' :: bracketed level content))).inFile file))) := by
  obtain ⟨is, his, rfl⟩ := exists_invocations ha
  have hlast := getLast?_ne_of_stop his (exists_stop_of_ends his hend)
  have hgap : Separation (normalizeText b) (space ++ '#' :: bracketed level content) := by
    refine (separation_of_space hspace _).append ?_
    have hnil : Separation (normalizeText b) [] := .nil
    have hcomment := Separation.bracket h.line hnil
    rwa [List.append_nil] at hcomment
  rw [normalizeText_comment hlast hspace hcontent hmark]
  have hprograms := programsOfText_behind ha hend hgap (by simp) hb
  rwa [List.append_assoc, List.cons_append] at hprograms

/-- A text in brackets is passed on as it is, whatever it holds, if no line end in it is one of two characters and the
closer behind it is the first one of its level; a level at which it is there is always. As the argument of a command
it is a literal, and all that happens is that the command is dispatched with it. As a comment behind an invocation it
adds nothing, and what stands behind it is the same at another place. -/
theorem brackets_pass_verbatim {content : String} (hcontent : ¬['\r', '\n'] <:+: content.toList) :
    (∃ level, ClosesFirst level content.toList) ∧ ∀ level, ClosesFirst level content.toList →
      (∀ (name : String) (file : Option String), identifier? name.toList = some (name.toList, []) →
        programOfText (normalizeText (callText name.toList (bracketed level content.toList))) file =
          .ok (bracketProgram name level content file) ∧
        ∀ {σ : Type} (w : Surroundings σ) (s : σ),
          let machine := run w.recorded false (bracketProgram name level content file).instructions (s, [])
          let direct := command w.recorded (Position.start.inFile file) name [content] (s, [])
          machine.1 = direct.1 ∧ machine.2.1 = direct.2.1 ∧ machine.2.2.filter (!·.isOwnStep) = direct.2.2 ∧
            machine.2.2.filterMap Notice.dispatch? = [(name, [content])]) ∧
      ∀ (a space b : List Char) (file : Option String) (ps qs : List Program),
        programsOfText (normalizeText a) file = .ok ps → (∃ p ∈ ps, p.Ends (normalizeText a) file) →
        (∀ x ∈ space, x = ' ' ∨ x = '\t' ∨ x = '\n') →
        programsOfText (normalizeText b) file = .ok qs → b.head? ≠ some byteOrderMark →
        programsOfText (normalizeText (a ++ (space ++ '#' :: (bracketed level content.toList ++ b)))) file =
          .ok (ps ++ qs.map (Program.movedTo ((Position.start.after
            (normalizeText a ++ (space ++ '#' :: bracketed level content.toList))).inFile file))) := by
  refine ⟨⟨_, closesFirst_length _⟩, fun level h => ⟨fun name file hname => ⟨?_, fun w s => ?_⟩, ?_⟩⟩
  · rw [normalizeText_bracketCall hname hcontent, programOfText_bracketCall hname h]
  · obtain ⟨hresults, hstate, hhistory⟩ := run_bracketProgram w name level content file s
    refine ⟨hresults, hstate, hhistory, ?_⟩
    rw [← filterMap_dispatch?, hhistory, dispatches_command]
  · intro a space b file ps qs ha hend hspace hb hmark
    exact programsOfText_comment ha hend hspace hb hmark hcontent h

/-- A content with a line feed in front, a reference, a quote, a parenthesis, a backslash, the closer of another level,
a NUL and the first half of a closer, as an argument and as a comment. -/
theorem brackets_pass_verbatim_of_syntax :
    let content := "\n$\x7bx\x7d\"(\\;]]\x00]"
    let w : Surroundings Unit := ⟨fun _ _ _ => none, fun _ arguments s => (.ok (.texts arguments), s), fun _ s => s⟩
    (¬['\r', '\n'] <:+: content.toList) ∧ ClosesFirst 1 content.toList ∧
      programOfText (normalizeText ("cmd([=[\n" ++ content ++ "]=])").toList) none =
        .ok (bracketProgram "cmd" 1 content none) ∧
      (run w.recorded false (bracketProgram "cmd" 1 content none).instructions ((), [])).1 = .ok [content] ∧
      programsOfText (normalizeText ("a()" ++ " #[=[\n" ++ content ++ "]=]" ++ "b()").toList) none = .ok
        [⟨"a", [.call "a" 0 (some ⟨1, 1, none⟩)], some ⟨1, 1, none⟩, some "a()"⟩,
          ⟨"b", [.call "b" 0 (some ⟨3, 16, none⟩)], some ⟨3, 16, none⟩, some "b()"⟩] := by
  intro content w
  have hcontent : ¬['\r', '\n'] <:+: content.toList := by decide +kernel
  have hfirst : ClosesFirst 1 content.toList := by unfold ClosesFirst; decide +kernel
  obtain ⟨-, h⟩ := brackets_pass_verbatim hcontent
  obtain ⟨hargument, hcomment⟩ := h 1 hfirst
  obtain ⟨hprogram, hrun⟩ := hargument "cmd" none (by decide +kernel)
  have hcall : callText "cmd".toList (bracketed 1 content.toList) = ("cmd([=[\n" ++ content ++ "]=])").toList := by
    decide +kernel
  rw [hcall] at hprogram
  refine ⟨hcontent, hfirst, hprogram, (hrun w ()).1, ?_⟩
  have ha : programsOfText (normalizeText "a()".toList) none =
      .ok [⟨"a", [.call "a" 0 (some ⟨1, 1, none⟩)], some ⟨1, 1, none⟩, some "a()"⟩] := by decide +kernel
  have hb : programsOfText (normalizeText "b()".toList) none =
      .ok [⟨"b", [.call "b" 0 (some ⟨1, 1, none⟩)], some ⟨1, 1, none⟩, some "b()"⟩] := by decide +kernel
  have hend : ∃ p ∈ [(⟨"a", [.call "a" 0 (some ⟨1, 1, none⟩)], some ⟨1, 1, none⟩, some "a()"⟩ : Program)],
      p.Ends (normalizeText "a()".toList) none := ⟨_, List.mem_cons_self, [], "a()", by decide +kernel, rfl, rfl⟩
  have hprograms := hcomment "a()".toList [' '] "b()".toList none _ _ ha hend (by simp) hb (by decide +kernel)
  have htext : "a()".toList ++ ([' '] ++ '#' :: (bracketed 1 content.toList ++ "b()".toList)) =
      ("a()" ++ " #[=[\n" ++ content ++ "]=]" ++ "b()").toList := by decide +kernel
  rw [htext] at hprograms
  refine hprograms.trans ?_
  decide +kernel

end CommandScript.Evaluation
