import CommandScript.CommandLine.Plan

/-! Which tokens of the development command are read. They are read from left to right, each by itself or together with
the code behind it, so what counts is whether there is one that is refused behind others that are read. -/

namespace CommandScript.CommandLine

open Text

/-- A token is refused, with what stands behind it: its code is missing or empty, it is no option, or it names no
regular file. -/
inductive Request.Refuses (r : Request) : String → List String → Prop where
  | missingCode {token : String} (h : token = "-c" ∨ token = "--command") : Refuses r token []
  | emptyCode {token : String} {behind : List String} (h : token = "-c=" ∨ token = "--command=") :
    Refuses r token behind
  | unknownOption {token : String} {behind : List String} (hdash : (behind? "-" token).isSome)
    (hcode : behind? "-c=" token = none ∧ behind? "--command=" token = none)
    (hother : token ∉ ["--", "-c", "--command", "-r", "--repl"]) : Refuses r token behind
  | noFile {token : String} {behind : List String} (hdash : behind? "-" token = none)
    (hfile : ∀ reading, r.regularFile? token ≠ .ok (some reading)) : Refuses r token behind

/-- Behind tokens that are read, one is refused. -/
def Request.RefusesOneOf (r : Request) (tokens : List String) : Prop :=
  ∃ before token behind activities, tokens = before ++ token :: behind ∧ readTokens r before = .ok activities ∧
    r.Refuses token behind

/-- These tokens stand for these activities, whatever follows. -/
def Request.Reads (r : Request) (tokens : List String) (activities : List Activity) : Prop :=
  ∀ more, readTokens r (tokens ++ more) = (readTokens r more).map (activities ++ ·)

variable {r : Request}

theorem eq_append_of_behind? {head s rest : String} (h : behind? head s = some rest) : s = head ++ rest := by
  unfold behind? at h
  split at h
  · rename_i hhead
    obtain rfl := Option.some.inj h
    obtain ⟨more, hmore⟩ := List.isPrefixOf_iff_prefix.mp hhead
    refine String.toList_injective ?_
    rw [String.toList_append, String.toList_ofList, ← hmore, ← String.length_toList, List.drop_left]
  · cases h

/-- A token without a dash names a file. -/
theorem readTokens_plain {token : String} (hdash : behind? "-" token = none) (behind : List String) :
    readTokens r (token :: behind) = match r.regularFile? token with
      | .ok (some reading) => (readTokens r behind).map (.ofFile (tidyPath token) reading :: ·)
      | .ok none => .error (.usage ⟨some .runDev, .fileNotFound token⟩)
      | .error reason => .error reason := by
  have hplain : token.toList.head? ≠ some '-' := by
    intro hhead
    obtain ⟨cs, hcs⟩ := List.head?_eq_some_iff.mp hhead
    simp [behind?, hcs] at hdash
  have hword (word : String) (hword : word.toList.head? = some '-') : token ≠ word := by
    rintro rfl
    exact hplain hword
  have hcode (head : String) (hhead : head.toList.head? = some '-') : behind? head token = none := by
    cases hcode : behind? head token with
    | none => rfl
    | some code =>
      refine absurd ?_ hplain
      rw [eq_append_of_behind? hcode, String.toList_append, List.head?_append, hhead]
      rfl
  rw [readTokens.eq_def]
  rcases hfile : r.regularFile? token with reason | _ | reading <;>
    simp [hfile, hword "--" rfl, hword "-c" rfl, hword "--command" rfl, hword "-r" rfl, hword "--repl" rfl,
      hcode "-c=" rfl, hcode "--command=" rfl, hdash]

/-- The first token is read, alone or with its code, or it is refused. -/
theorem readTokens_cons (token : String) (rest : List String) :
    (∃ tokens more activities, token :: rest = tokens ++ more ∧ tokens ≠ [] ∧ r.Reads tokens activities) ∨
      r.Refuses token rest ∧ ∃ reason, readTokens r (token :: rest) = .error reason := by
  have single (activities : List Activity)
      (h : ∀ more, readTokens r (token :: more) = (readTokens r more).map (activities ++ ·)) :
      ∃ tokens more activities, token :: rest = tokens ++ more ∧ tokens ≠ [] ∧ r.Reads tokens activities :=
    ⟨[token], rest, activities, rfl, List.cons_ne_nil _ _, h⟩
  by_cases hmark : token = "--"
  · refine .inl (single [] fun more => ?_)
    rw [readTokens.eq_def]
    simp only [if_pos hmark]
    cases readTokens r more <;> rfl
  by_cases hcommand : token = "-c" ∨ token = "--command"
  · cases rest with
    | nil =>
      refine .inr ⟨.missingCode hcommand, .usage ⟨some .runDev, .missingCode⟩, ?_⟩
      simp only [readTokens, if_neg hmark, if_pos hcommand]
    | cons code rest =>
      refine .inl ⟨[token, code], rest, [.inline code], rfl, List.cons_ne_nil _ _, fun more => ?_⟩
      simp only [List.cons_append, readTokens, if_neg hmark, if_pos hcommand]
      rfl
  cases hcode : behind? "-c=" token <|> behind? "--command=" token with
  | some code =>
    by_cases hempty : code = ""
    · refine .inr ⟨.emptyCode ?_, .usage ⟨some .runDev, .emptyCode⟩, ?_⟩
      · subst hempty
        cases hshort : behind? "-c=" token with
        | some code =>
          rw [hshort] at hcode
          exact .inl (eq_append_of_behind? (hshort.trans hcode))
        | none =>
          rw [hshort] at hcode
          exact .inr (eq_append_of_behind? hcode)
      · rw [readTokens.eq_def]
        simp only [if_neg hmark, if_neg hcommand, hcode, if_pos hempty]
    · refine .inl (single [.inline code] fun more => ?_)
      rw [readTokens.eq_def]
      simp only [if_neg hmark, if_neg hcommand, hcode, if_neg hempty]
      rfl
  | none =>
    by_cases hrepl : token = "-r" ∨ token = "--repl"
    · refine .inl (single [.repl] fun more => ?_)
      rw [readTokens.eq_def]
      simp only [if_neg hmark, if_neg hcommand, hcode, if_pos hrepl]
      rfl
    by_cases hdash : (behind? "-" token).isSome
    · refine .inr ⟨.unknownOption hdash (by simpa using hcode) (by simp_all),
        .usage ⟨some .runDev, .unknownOption token⟩, ?_⟩
      rw [readTokens.eq_def]
      simp only [if_neg hmark, if_neg hcommand, hcode, if_neg hrepl, if_pos hdash]
    · have hplain : behind? "-" token = none := by simpa using hdash
      cases hfile : r.regularFile? token with
      | error reason => exact .inr ⟨.noFile hplain (by simp [hfile]), reason, by rw [readTokens_plain hplain, hfile]⟩
      | ok found =>
        cases found with
        | none => exact .inr ⟨.noFile hplain (by simp [hfile]), _, by rw [readTokens_plain hplain, hfile]⟩
        | some reading =>
          refine .inl (single [.ofFile (tidyPath token) reading] fun more => ?_)
          rw [readTokens_plain hplain, hfile]
          rfl

theorem readTokens_refused {token : String} {behind : List String} (h : r.Refuses token behind) :
    ∃ reason, readTokens r (token :: behind) = .error reason := by
  cases h with
  | missingCode h => obtain rfl | rfl := h <;> exact ⟨_, rfl⟩
  | emptyCode h =>
    refine ⟨.usage ⟨some .runDev, .emptyCode⟩, ?_⟩
    obtain rfl | rfl := h <;> rw [readTokens.eq_def] <;> rfl
  | unknownOption hdash hcode hother =>
    simp only [List.mem_cons, List.not_mem_nil, or_false, not_or] at hother
    obtain ⟨hmark, hshort, hlong, hrepl⟩ := hother
    refine ⟨.usage ⟨some .runDev, .unknownOption token⟩, ?_⟩
    rw [readTokens.eq_def]
    simp [hmark, hshort, hlong, hrepl, hcode, hdash]
  | noFile hdash hfile =>
    rw [readTokens_plain hdash]
    cases hfound : r.regularFile? token with
    | ok found =>
      cases found with
      | none => exact ⟨_, rfl⟩
      | some reading => exact absurd hfound (hfile reading)
    | error reason => exact ⟨reason, rfl⟩

/-- Tokens are read up to their end or up to one that is refused. -/
theorem reads_or_refuses (tokens : List String) :
    (∃ activities, readTokens r tokens = .ok activities ∧ r.Reads tokens activities) ∨
      r.RefusesOneOf tokens ∧ ∃ reason, readTokens r tokens = .error reason := by
  match tokens with
  | [] =>
    refine .inl ⟨[], rfl, fun more => ?_⟩
    cases h : readTokens r more <;> simp [h, Except.map]
  | token :: rest =>
    obtain ⟨group, more, activities, hsplit, hgroup, hreads⟩ | ⟨hrefused, herror⟩ := readTokens_cons (r := r) token rest
    · have hlength : more.length < (token :: rest).length := by
        have := List.length_pos_iff.mpr hgroup
        rw [hsplit, List.length_append]
        omega
      rw [hsplit, hreads]
      obtain ⟨others, hmore, hothers⟩ | ⟨⟨before, token', behind, others, rfl, hbefore, hrefused⟩, reason, herror⟩ :=
        reads_or_refuses more
      · refine .inl ⟨activities ++ others, by rw [hmore]; rfl, fun last => ?_⟩
        rw [List.append_assoc, hreads, hothers]
        cases readTokens r last <;> simp [Except.map]
      · refine .inr ⟨⟨group ++ before, token', behind, activities ++ others, by simp, ?_, hrefused⟩, reason, ?_⟩
        · rw [hreads, hbefore]
          rfl
        · rw [herror]
          rfl
    · exact .inr ⟨⟨[], token, rest, [], rfl, rfl, hrefused⟩, herror⟩
termination_by tokens.length
decreasing_by exact hlength

/-- Tokens are read unless one of them is refused. -/
theorem readTokens_error_iff {tokens : List String} :
    (∃ reason, readTokens r tokens = .error reason) ↔ r.RefusesOneOf tokens := by
  constructor
  · rintro ⟨reason, herror⟩
    obtain ⟨activities, hok, -⟩ | ⟨hrefused, -⟩ := reads_or_refuses (r := r) tokens
    · rw [herror] at hok
      cases hok
    · exact hrefused
  · rintro ⟨before, token, behind, activities, rfl, hbefore, hrefused⟩
    obtain ⟨others, hok, hreads⟩ | ⟨-, reason, herror⟩ := reads_or_refuses (r := r) before
    · obtain ⟨reason, herror⟩ := readTokens_refused hrefused
      exact ⟨reason, by rw [hreads, herror]; rfl⟩
    · rw [hbefore] at herror
      cases herror

theorem Request.regularFile?_error {path : String} {reason : HaltReason} (h : r.regularFile? path = .error reason) :
    ∃ crash, reason = .crash crash := by
  unfold Request.regularFile? at h
  split at h <;> cases h
  exact ⟨_, rfl⟩

/-- Tokens that are not read are a mistake of the user, or what a path leads to cannot be told. -/
theorem readTokens_error {tokens : List String} {reason : HaltReason} (h : readTokens r tokens = .error reason) :
    (∃ error, reason = .usage error) ∨ ∃ crash, reason = .crash crash := by
  have hmap {result : Except HaltReason (List Activity)} {f : List Activity → List Activity}
      (h : result.map f = .error reason) : result = .error reason := by
    cases result with
    | ok => cases h
    | error => exact congrArg Except.error (Except.error.inj h)
  fun_induction readTokens r tokens with
  | case1 => cases h
  | case2 rest ih => exact ih h
  | case4 _ _ _ _ _ ih | case6 _ _ _ _ _ _ _ ih | case7 _ _ _ _ _ _ ih | case9 _ _ _ _ _ _ _ _ _ ih => exact ih (hmap h)
  | case3 | case5 | case8 | case10 => exact .inl ⟨_, (Except.error.inj h).symm⟩
  | case11 _ _ _ _ _ _ _ _ hfile =>
    obtain rfl := Except.error.inj h
    exact .inr (Request.regularFile?_error hfile)

end CommandScript.CommandLine
