import CommandScript.Proofs.Grammar.Linearisation
import CommandScript.Proofs.Session.BlockStructure
import CommandScript.Proofs.Session.Cache
import CommandScript.Session.State

/-! What more input can do for a script that is refused. If the script is reported as incomplete, something can be
written behind it so that it is read. If it ends with a line and is reported as wrong, whatever is written behind it
leaves it wrong, in the same place and for the same reason. This holds in every session, whatever it has read before. -/

namespace CommandScript.Session

open Text Syntax Code Scanning

/-! ### Normal forms -/

/-- A completion is part of the normal form as it is. -/
theorem normalizeText_completion {cs e : List Char} (he : IsCompletion e) :
    normalizeText (cs ++ e) = normalizeText cs ++ e := by
  obtain ⟨⟨x, r, rfl, hx⟩, hr⟩ := he
  have hchars : x ≠ byteOrderMark ∧ x ≠ '\n' := by
    obtain rfl | rfl | rfl | rfl : x = ' ' ∨ x = '"' ∨ x = '\x7d' ∨ x = '\\' := by simpa using hx
    all_goals decide
  unfold normalizeText
  rw [dropByteOrderMark_append (.inr (by simpa using hchars.1)), foldLineEnds_append fun _ => by simpa using hchars.2,
    foldLineEnds_of_not_mem hr]

/-- Behind a line, text is normalised by itself. -/
theorem normalizeText_line {cs : List Char} (h : cs.getLast? = some '\n') (e : List Char) :
    (normalizeText cs).getLast? = some '\n' ∧ normalizeText (cs ++ e) = normalizeText cs ++ foldLineEnds e := by
  have hcs : cs ≠ [] := by
    rintro rfl
    cases h
  have hlast : (dropByteOrderMark cs).getLast? = some '\n' := by
    cases cs with
    | nil => cases h
    | cons c cs =>
      simp only [dropByteOrderMark]
      split
      · rename_i hc
        cases cs with
        | nil =>
          rw [hc] at h
          revert h
          decide
        | cons d cs => rwa [List.getLast?_cons_cons] at h
      · exact h
  unfold normalizeText
  refine ⟨(getLast?_foldLineEnds _).trans hlast, ?_⟩
  rw [dropByteOrderMark_append (.inl hcs)]
  apply foldLineEnds_append
  intro hr
  rw [hlast] at hr
  cases hr

/-! ### Reading -/

/-- The blocks of programs that are read are refused for not being ended only. -/
theorem isOpenEnded_of_checkBlocks {text : List Char} {file : Option String} {ps : List Program} {f : Fault}
    (hps : programsOfText text file = .ok ps) (h : checkBlocks ps = .error f) : f.isOpenEnded := by
  obtain ⟨_, p, _, rfl, -, -, -, rfl⟩ := checkBlocks_eq_error_iff.1 h
  obtain ⟨is, -, his⟩ := Grammar.exists_invocations hps
  obtain ⟨i, -, rfl⟩ := List.mem_map.1 (his ▸ List.mem_append_right _ List.mem_cons_self)
  rfl

/-- A text is refused for a fault, either that of its calls or that of its blocks. -/
theorem readScript_text_error {text : String} {file : Option String} {failure : Failure}
    (h : readScript ⟨file, .text text⟩ = .error failure) : ∃ f, failure = ⟨.fault f, none, none⟩ ∧
      (programsOfText (normalizeText text.toList) file = .error f ∨
        (∃ ps, programsOfText (normalizeText text.toList) file = .ok ps) ∧ f.isOpenEnded) := by
  unfold readScript at h
  simp only [Source.normalize?] at h
  split at h
  · rename_i f hf
    cases h
    exact ⟨f, rfl, .inl hf⟩
  · rename_i ps hps
    split at h
    · rename_i f hf
      cases h
      exact ⟨f, rfl, .inr ⟨⟨ps, hps⟩, isOpenEnded_of_checkBlocks hps hf⟩⟩
    · cases h

theorem readScript_text_ok {text : String} {file : Option String} {ps : List Program}
    (h : programsOfText (normalizeText text.toList) file = .ok ps) (hb : checkBlocks ps = .ok ()) :
    readScript ⟨file, .text text⟩ = .ok ps := by
  unfold readScript
  simp only [Source.normalize?, h, hb]

/-- A script that is reported as incomplete can be completed. -/
theorem readScript_completed {text : String} {file : Option String} {f : Fault}
    (h : readScript ⟨file, .text text⟩ = .error ⟨.fault f, none, none⟩) (hf : f.isOpenEnded) :
    ∃ more ps, readScript ⟨file, .text (text ++ more)⟩ = .ok ps := by
  have hopen : ∀ g, programsOfText (normalizeText text.toList) file = .error g → g.isOpenEnded := by
    intro g hg
    obtain ⟨g', hg', he | ⟨⟨ps, hps⟩, -⟩⟩ := readScript_text_error h
    · cases hg'
      rw [he] at hg
      cases hg
      exact hf
    · rw [hps] at hg
      cases hg
  obtain ⟨e, he, ps, hps, hb⟩ := exists_programsOfText hopen
  refine ⟨String.ofList e, ps, readScript_text_ok ?_ hb⟩
  rw [String.toList_append, String.toList_ofList, normalizeText_completion he]
  exact hps

/-- A script that ends with a line and is reported as wrong stays so. -/
theorem readScript_final {text : String} {file : Option String} {f : Fault}
    (h : readScript ⟨file, .text text⟩ = .error ⟨.fault f, none, none⟩) (hf : f.isOpenEnded = false)
    (hl : text.toList.getLast? = some '\n') (more : String) :
    readScript ⟨file, .text (text ++ more)⟩ = .error ⟨.fault f, none, none⟩ := by
  obtain ⟨g, hg, he | ⟨-, hopen⟩⟩ := readScript_text_error h
  · cases hg
    obtain ⟨hlast, hnormal⟩ := normalizeText_line hl more.toList
    have hparse : parseText (normalizeText text.toList) file = .error f := by
      unfold programsOfText at he
      cases hp : parseText (normalizeText text.toList) file with
      | error g =>
        rw [hp] at he
        cases he
        rfl
      | ok invocations =>
        rw [hp] at he
        cases he
    have hmore := parseText_extend hlast hparse hf (foldLineEnds more.toList)
    unfold readScript programsOfText
    simp only [Source.normalize?, String.toList_append, hnormal, hmore]
    rfl
  · cases hg
    rw [hf] at hopen
    cases hopen

/-! ### Sessions -/

/-- The kinds under which faults are reported. -/
theorem kind_fault (f : Fault) :
    ((Cause.fault f).kind = "SpliceIncompleteParse" ↔ f.isOpenEnded) ∧
      ((Cause.fault f).kind = "SpliceSyntaxError" → f.isOpenEnded = false) := by
  simp only [Cause.kind, Fault.kind]
  split
  · rename_i hcause
    simp [Fault.isOpenEnded, hcause]
  · cases f.isOpenEnded <;> decide

variable {κ ω : Type}

/-- In a session, a script is read as its cache allows. -/
theorem parse_eq {cfg : Config} {s : State κ ω} (h : s.cache.Kept cfg.parseCacheSize) (source : Source)
    (file : Option String) : (s.parse cfg source file).1.map Script.programs = readScript ⟨file, source⟩ :=
  h.faithful.read_eq cfg.parseCacheSize ⟨file, source⟩

theorem parse_error_iff {cfg : Config} {s : State κ ω} (h : s.cache.Kept cfg.parseCacheSize) {source : Source}
    {file : Option String} {failure : Failure} :
    (s.parse cfg source file).1 = .error failure ↔ readScript ⟨file, source⟩ = .error failure := by
  rw [← parse_eq h]
  cases (s.parse cfg source file).1 with
  | error f => exact ⟨fun he => by rw [he]; rfl, fun he => by cases he; rfl⟩
  | ok script =>
    constructor
    · intro he
      cases he
    · intro he
      cases he

/-- Whatever a session has read before: a script that it reports as incomplete becomes one that it reads if the right
text is written behind it, and a script that ends with a line and that it reports as wrong is reported as wrong with
the same failure whatever is written behind it. -/
theorem parse_more (cfg : Config) (text : String) (file : Option String) (failure : Failure) (s : State κ ω)
    (hs : s.cache.Kept cfg.parseCacheSize) (h : (s.parse cfg (.text text) file).1 = .error failure) :
    (failure.cause.kind = "SpliceIncompleteParse" → ∃ more, ∀ s' : State κ ω, s'.cache.Kept cfg.parseCacheSize →
      ∃ script, (s'.parse cfg (.text (text ++ more)) file).1 = .ok script) ∧
    (text.toList.getLast? = some '\n' → failure.cause.kind = "SpliceSyntaxError" →
      ∀ (more : String) (s' : State κ ω), s'.cache.Kept cfg.parseCacheSize →
        (s'.parse cfg (.text (text ++ more)) file).1 = .error failure) := by
  have hread := (parse_error_iff hs).1 h
  obtain ⟨f, rfl, -⟩ := readScript_text_error hread
  constructor
  · intro hkind
    obtain ⟨more, ps, hok⟩ := readScript_completed hread ((kind_fault f).1.1 hkind)
    refine ⟨more, fun s' hs' => ?_⟩
    have he := parse_eq hs' (.text (text ++ more)) file
    rw [hok] at he
    cases hp : (s'.parse cfg (.text (text ++ more)) file).1 with
    | error failure =>
      rw [hp] at he
      cases he
    | ok script => exact ⟨script, rfl⟩
  · intro hl hkind more s' hs'
    exact (parse_error_iff hs').2 (readScript_final hread ((kind_fault f).2 hkind) hl more)

/-- A text that ends inside a reference, in quotes, in a block, and a line with a blank in the name of a variable. -/
theorem parse_more_reference :
    (∃ more script, ((State.initial [] [] [] () : State Unit Unit).parse {}
      (.text ("function(f)\nset(a \"$\x7bb" ++ more)) none).1 = .ok script) ∧
    ∀ more, ((State.initial [] [] [] () : State Unit Unit).parse {} (.text ("set(a \"$\x7bb c\x7d\")\n" ++ more)) none).1 =
      .error ⟨.fault ⟨.scan (.invalidNameCharacter ' '), ⟨1, 11, none⟩⟩, none, none⟩ := by
  let s : State Unit Unit := State.initial [] [] [] ()
  have hs : s.cache.Kept (Config.parseCacheSize {}) := .empty
  have hopen : readScript ⟨none, .text "function(f)\nset(a \"$\x7bb"⟩ =
      .error ⟨.fault ⟨.scan .unclosedVariableReference, ⟨2, 8, none⟩⟩, none, none⟩ := by
    decide +kernel
  have hwrong : readScript ⟨none, .text "set(a \"$\x7bb c\x7d\")\n"⟩ =
      .error ⟨.fault ⟨.scan (.invalidNameCharacter ' '), ⟨1, 11, none⟩⟩, none, none⟩ := by
    decide +kernel
  constructor
  · obtain ⟨more, hmore⟩ := (parse_more {} _ none _ s hs ((parse_error_iff hs).2 hopen)).1 rfl
    exact ⟨more, hmore s hs⟩
  · intro more
    exact (parse_more {} _ none _ s hs ((parse_error_iff hs).2 hwrong)).2 (by decide) rfl more s hs

end CommandScript.Session
