import CommandScript.Proofs.Evaluation.Resolving
import CommandScript.Proofs.Grammar.Sources
import CommandScript.Text.Quoted

/-! Typing back what was shown. Values are shown between quotes, with three characters escaped; inside quotes the
scanner takes every escape back and lets all else stand for itself, references apart. So what is shown of some values,
written as the arguments of a command, is read as that many quoted arguments, each of which evaluates to its value. -/

namespace CommandScript.Text

open Syntax Scanning

/-- A value that can be written between quotes: no reference begins in it, of whatever namespace, and it holds no
character that no script may hold. -/
structure IsTypable (value : String) : Prop where
  nul : '\x00' ∉ value.toList
  opener : ∀ space, ¬variableOpener space <:+: value.toList

/-- A command with what is shown of some values for its arguments, the outer brackets left out. -/
def typed (values : List String) : List Char :=
  ['c', '('] ++ ((showValues values).toList.drop 1).dropLast ++ [')']

/-- What stands behind the opening parenthesis: quotes, with a blank between two of them. -/
theorem typed_eq (values : List String) :
    typed values = ['c', '('] ++ ([' '].intercalate (values.map fun v => quoteValue v.toList) ++ [')']) := by
  simp [typed, showValues, showValue, String.toList_intercalate, Function.comp_def]

theorem intercalate_cons {α : Type} (sep x : List α) (xs : List (List α)) :
    sep.intercalate (x :: xs) = x ++ xs.flatMap (sep ++ ·) := by
  induction xs generalizing x with
  | nil => simp
  | cons y ys ih => rw [List.intercalate_cons_cons, ih, List.flatMap_cons, List.append_assoc, List.append_assoc]

/-- An escaped character, or one that is shown as it is. -/
theorem quoteChar_cases (c : Char) :
    (∃ e, quoteChar c = ['\\', e] ∧ decodeEscape .quoted e = some [c]) ∨
      (quoteChar c = [c] ∧ c ≠ '\\' ∧ c ≠ '"' ∧ c ≠ '\n') := by
  by_cases h₁ : c = '\\'
  · exact .inl ⟨'\\', by simp [quoteChar, h₁], by rw [h₁]; rfl⟩
  · by_cases h₂ : c = '"'
    · exact .inl ⟨'"', by simp [quoteChar, h₂], by rw [h₂]; rfl⟩
    · by_cases h₃ : c = '\n'
      · exact .inl ⟨'n', by simp [quoteChar, h₃], by rw [h₃]; rfl⟩
      · exact .inr ⟨by simp [quoteChar, h₁, h₂, h₃], h₁, h₂, h₃⟩

end CommandScript.Text

namespace CommandScript.Scanning

open Text Syntax
open Grammar (parseText_of_succeeds)

/-! ### Reading a value -/

theorem opensReference_iff {cs : List Char} : opensReference cs ↔ ∃ space, variableOpener space <+: cs := by
  constructor
  · intro h
    rcases Bool.or_eq_true_iff.1 h with h | h
    · -- a command reference begins like a plain variable
      obtain ⟨⟨name, rest⟩, hc⟩ := Option.isSome_iff_exists.1 h
      obtain ⟨r, rfl, -, -⟩ := commandOpener?_eq_some_iff.1 hc
      exact ⟨.plain, r, rfl⟩
    · obtain ⟨⟨space, rest⟩, hv⟩ := Option.isSome_iff_exists.1 h
      exact ⟨space, rest, (variableOpener?_eq_some_iff.1 hv).symm⟩
  · rintro ⟨space, rest, rfl⟩
    simp [opensReference, variableOpener?_eq_some_iff.2 rfl]

/-- What begins with characters that are never escaped is shown as it is. -/
theorem prefix_of_prefix_quoted {pattern : List Char} (hp : ∀ x ∈ pattern, x ≠ '\\' ∧ x ≠ '"') :
    ∀ {cs rest : List Char}, pattern <+: cs.flatMap quoteChar ++ '"' :: rest → pattern <+: cs := by
  induction pattern with
  | nil => exact fun _ => List.nil_prefix
  | cons x pattern ih =>
    obtain ⟨⟨hx, hx'⟩, hp⟩ := List.forall_mem_cons.1 hp
    intro cs rest h
    cases cs with
    | nil => exact absurd (List.cons_prefix_cons.1 h).1 hx'
    | cons c cs =>
      rw [List.flatMap_cons] at h
      obtain ⟨e, he, -⟩ | ⟨he, -⟩ := quoteChar_cases c <;> rw [he] at h
      · exact absurd (List.cons_prefix_cons.1 h).1 hx
      · rw [List.append_assoc, List.singleton_append] at h
        obtain ⟨rfl, hbehind⟩ := List.cons_prefix_cons.1 h
        exact List.cons_prefix_cons.2 ⟨rfl, ih hp hbehind⟩

theorem opensReference_quoted {cs : List Char} (h : ∀ space, ¬variableOpener space <+: cs) (rest : List Char) :
    opensReference (cs.flatMap quoteChar ++ '"' :: rest) = false := by
  rw [← Bool.not_eq_true, opensReference_iff]
  rintro ⟨space, hspace⟩
  have hplain : ∀ x ∈ variableOpener space, x ≠ '\\' ∧ x ≠ '"' := by
    cases space <;> simp [variableOpener, Namespace.label]
  exact h space (prefix_of_prefix_quoted hplain hspace)

/-- The escapes of a value are taken back by whoever reads it between quotes. -/
theorem passes_quoted {cs : List Char} (hnul : '\x00' ∉ cs) (hopen : ∀ space, ¬variableOpener space <:+: cs)
    (rest : List Char) (p : Position) :
    Passes .quoted ⟨cs.flatMap quoteChar ++ '"' :: rest, p⟩ cs ⟨'"' :: rest, p.after (cs.flatMap quoteChar)⟩ := by
  induction cs generalizing p with
  | nil => exact .refl _
  | cons c cs ih =>
    have hlater (space : Namespace) : ¬variableOpener space <:+: cs := fun h =>
      hopen space (h.trans (List.suffix_cons c cs).isInfix)
    have hbehind := ih (fun h => hnul (List.mem_cons_of_mem c h)) hlater
    have hhere := opensReference_quoted (fun space h => hopen space h.isInfix) rest
    rw [List.flatMap_cons] at hhere ⊢
    obtain ⟨e, he, hdecode⟩ | ⟨he, hslash, hquote, -⟩ := quoteChar_cases c <;> rw [he] at hhere ⊢
    · exact .escape hdecode (hbehind _)
    · have hc : c ≠ '\x00' := fun h => hnul (h ▸ List.mem_cons_self)
      exact .plain (by simp [isPlain, PartKind.endsAt, hslash, hquote, hc]) hhere (hbehind _)

theorem runEnds_quote (rest : List Char) : RunEnds .quoted ('"' :: rest) := by
  intro x hx
  cases hx
  rfl

/-- What is shown of a value is read back as it was. -/
theorem readText_quoted {value : String} (h : IsTypable value) (rest : List Char) (p : Position) :
    readText .quoted p (value.toList.flatMap quoteChar ++ '"' :: rest) =
      .ok (value.toList, ⟨'"' :: rest, p.after (value.toList.flatMap quoteChar)⟩) := by
  have hread := (passes_quoted h.nul h.opener rest p).readText_eq
  simp only [readText_of_ends (runEnds_quote rest)] at hread
  simpa [Except.map] using hread

/-! ### Reading arguments -/

/-- A quoted argument that is a text, or nothing at all. -/
inductive IsQuotedText : Argument → String → Prop
  | empty (place : Position) : IsQuotedText (.quoted place []) ""
  | text (place start : Position) (value : String) : IsQuotedText (.quoted place [.text start value]) value

section Arguments

variable (name : String) (start opener : Position)

/-- Between the quotes of a value there is one text, or nothing if the value is empty. -/
theorem reads_text {value : String} (h : IsTypable value) (rest : List Char) (place p : Position)
    (arguments : List Argument) : ∃ parts p', IsQuotedText (.quoted place parts.reverse) value ∧
      Reads ⟨⟨value.toList.flatMap quoteChar ++ '"' :: rest, p⟩, [.quoted place, .arguments opener none]⟩
        { opened := [.quoted place [], .call name start arguments] }
        ⟨⟨'"' :: rest, p'⟩, [.quoted place, .arguments opener none]⟩
        { opened := [.quoted place parts, .call name start arguments] } := by
  by_cases hempty : value = ""
  · subst hempty
    exact ⟨[], p, .empty place, .refl _ _⟩
  · have hpass := passes_quoted h.nul h.opener rest p
    obtain ⟨c, cs, hcs⟩ := List.exists_cons_of_ne_nil (fun h => hempty (String.toList_eq_nil_iff.1 h))
    obtain ⟨x, r, hx, hquote⟩ : ∃ x r, value.toList.flatMap quoteChar = x :: r ∧ x ≠ '"' := by
      rw [hcs, List.flatMap_cons]
      obtain ⟨e, he, -⟩ | ⟨he, -, hquote, -⟩ := quoteChar_cases c
      · exact ⟨'\\', _, by rw [he]; rfl, by decide⟩
      · exact ⟨c, _, by rw [he]; rfl, hquote⟩
    have hlexes : LexesPart .quoted p [.quoted place, .arguments opener none] [⟨.text (String.ofList value.toList),
        value.toList.flatMap quoteChar⟩] ('"' :: rest) [.quoted place, .arguments opener none] :=
      .text (opensReference_quoted (fun space hs => h.opener space hs.isInfix) rest) hpass (runEnds_quote rest)
    have hstep := Lexes.part (x := x) (r := r ++ '"' :: rest) rfl (by simp [hx]) (by simp [PartKind.endsAt, hquote])
      hlexes
    refine ⟨[.text p value], _, .text place p value, .step (hstep.step_eq ?_) ?_ (.refl _ _)⟩
    · simp [Parted, separates]
    · rw [String.ofList_toList]
      rfl

theorem reads_quoted {value : String} (h : IsTypable value) {gap : List Char} (hgap : ∀ behind, Separation behind gap)
    (rest : List Char) (p : Position) (arguments : List Argument) : ∃ argument p', IsQuotedText argument value ∧
      Reads (inside opener (gap ++ (quoteValue value.toList ++ rest)) p) (calling name start arguments)
        (inside opener rest p') (calling name start (argument :: arguments)) := by
  have hshown : quoteValue value.toList ++ rest = '"' :: (value.toList.flatMap quoteChar ++ '"' :: rest) := by
    rw [quoteValue, List.cons_append, List.append_assoc, List.singleton_append]
  have hparted : Parted [.arguments opener none] ⟨gap ++ '"' :: (value.toList.flatMap quoteChar ++ '"' :: rest), p⟩
      ⟨'"' :: (value.toList.flatMap quoteChar ++ '"' :: rest), p.after gap⟩ := parted_of_separation rfl (hgap _) (by decide) p
  obtain ⟨parts, p', htext, hreads⟩ := reads_text name start opener h rest (p.after gap) ((p.after gap).next '"')
    arguments
  have hend : Reads ⟨⟨'"' :: rest, p'⟩, [.quoted (p.after gap), .arguments opener none]⟩
      { opened := [.quoted (p.after gap) parts, .call name start arguments] }
      (inside opener rest (p'.next '"')) (calling name start (.quoted (p.after gap) parts.reverse :: arguments)) :=
    .step (Lexes.endQuote.step_eq rfl) rfl (.refl _ _)
  rw [hshown]
  exact ⟨_, _, htext, .step (Lexes.quote.step_eq hparted) rfl (hreads.trans hend)⟩

/-- Further values, each behind a blank. -/
theorem reads_more {values : List String} (h : ∀ v ∈ values, IsTypable v) (rest : List Char) (p : Position)
    (arguments : List Argument) : ∃ more p', List.Forall₂ IsQuotedText more values ∧
      Reads (inside opener ((values.map fun v => quoteValue v.toList).flatMap ([' '] ++ ·) ++ rest) p)
        (calling name start arguments) (inside opener rest p') (calling name start (more.reverse ++ arguments)) := by
  induction values generalizing p arguments with
  | nil => exact ⟨[], p, .nil, .refl _ _⟩
  | cons v values ih =>
    obtain ⟨hv, hvalues⟩ := List.forall_mem_cons.1 h
    rw [List.map_cons, List.flatMap_cons, List.append_assoc]
    obtain ⟨argument, q, htext, hreads⟩ := reads_quoted name start opener hv (fun _ => .blank (.inl rfl) .nil) _ p arguments
    obtain ⟨more, p', htexts, hmore⟩ := ih hvalues q (argument :: arguments)
    have hboth : (argument :: more).reverse ++ arguments = more.reverse ++ argument :: arguments := by simp
    exact ⟨argument :: more, p', .cons htext htexts, hboth ▸ hreads.trans hmore⟩

theorem reads_values {values : List String} (h : ∀ v ∈ values, IsTypable v) (rest : List Char) (p : Position) :
    ∃ arguments p', List.Forall₂ IsQuotedText arguments values ∧
      Reads (inside opener ([' '].intercalate (values.map fun v => quoteValue v.toList) ++ rest) p)
        (calling name start []) (inside opener rest p') (calling name start arguments.reverse) := by
  cases values with
  | nil => exact ⟨[], p, .nil, .refl _ _⟩
  | cons v values =>
    obtain ⟨hv, hvalues⟩ := List.forall_mem_cons.1 h
    rw [List.map_cons, intercalate_cons, List.append_assoc]
    obtain ⟨argument, q, htext, hreads⟩ := reads_quoted name start opener hv (fun _ => .nil) _ p []
    obtain ⟨more, p', htexts, hmore⟩ := reads_more name start opener hvalues rest q [argument]
    refine ⟨argument :: more, p', .cons htext htexts, ?_⟩
    rw [List.reverse_cons]
    exact hreads.trans hmore

end Arguments

/-- What was typed is one invocation, with an argument for each value. -/
theorem exists_parseText_typed {values : List String} (h : ∀ v ∈ values, IsTypable v) : ∃ i : Invocation,
    i.name = "c" ∧ List.Forall₂ IsQuotedText i.arguments values ∧
      ∀ file, parseText (typed values) file = .ok [i] := by
  let opener := Position.start.next 'c'
  obtain ⟨arguments, p, htexts, hreads⟩ := reads_values "c" .start opener h [')'] (opener.next '(')
  rw [typed_eq]
  generalize [' '].intercalate (values.map fun v => quoteValue v.toList) ++ [')'] = rest at hreads
  have hname : identifier? ['c'] = some (['c'], []) := by decide
  have hopen := reads_opening hname rest .start
  have hclose := reads_closing "c" .start opener arguments.reverse [] .nil p
  have hsucceeds := (hopen.trans (hreads.trans hclose)).succeeds rfl
  rw [List.reverse_reverse] at hsucceeds
  exact ⟨_, rfl, htexts, parseText_of_succeeds hsucceeds⟩

end CommandScript.Scanning

namespace CommandScript.Evaluation

open Text Syntax Code Machine Scanning
open Grammar (normalizeText_of_nameStart)

/-! ### Evaluating what was read -/

section Runs

variable {σ : Type} {w : Surroundings σ} {onlyResolve : Bool} {s t : σ}

/-- A run goes on over an instruction that only computes, which leaves its values in place of its operands. -/
theorem reaches_executes {executed left : List Instruction} {i : Instruction} {operands taken : List (Operand String)}
    {values : List String} (hi : Executes w Eq onlyResolve i taken (yield (σ := σ) values))
    (h : Reaches w onlyResolve s executed (i :: left) (Stacks.holding (operands ++ taken)) t) :
    ∃ t', Reaches w onlyResolve s (executed ++ [i]) left (Stacks.holding (operands ++ [values])) t' := by
  obtain ⟨t', -, hx⟩ := hi left.isEmpty (Stacks.holding operands) _ _ rfl
  simp only [yield, ← Stacks.pushAll_append, Stacks.push_holding] at hx
  exact ⟨t', h.step hx⟩

/-- The code of a quoted text leaves the text as one operand. -/
theorem reaches_quotedText {executed left : List Instruction} {operands : List (Operand String)} {argument : Argument}
    {value : String} (htext : IsQuotedText argument value) (file : Option String)
    (h : Reaches w onlyResolve s executed (argumentCode file argument ++ left) (Stacks.holding operands) t) :
    ∃ t', Reaches w onlyResolve s (executed ++ argumentCode file argument) left
      (Stacks.holding (operands ++ [[value]])) t' := by
  rw [← List.append_nil operands] at h
  cases htext with
  | empty place => exact reaches_executes (executes_quoted [] (place.inFile file)) h
  | text place start =>
    obtain ⟨t', h⟩ := reaches_executes (executes_literal value (start.inFile file)) h
    obtain ⟨t'', h⟩ := reaches_executes (executes_quoted [[value]] (place.inFile file)) h
    rw [List.append_assoc] at h
    exact ⟨t'', h⟩

theorem reaches_quotedTexts {arguments : List Argument} {values : List String}
    (htexts : List.Forall₂ IsQuotedText arguments values) (file : Option String) {executed left : List Instruction}
    {operands : List (Operand String)}
    (h : Reaches w onlyResolve s executed (argumentsCode file arguments ++ left) (Stacks.holding operands) t) :
    ∃ t', Reaches w onlyResolve s (executed ++ argumentsCode file arguments) left
      (Stacks.holding (operands ++ values.map fun v => [v])) t' := by
  induction htexts generalizing executed operands t with
  | nil => exact ⟨t, by simpa [argumentsCode] using h⟩
  | cons htext _ ih =>
    rw [argumentsCode, List.append_assoc] at h
    obtain ⟨t', h⟩ := reaches_quotedText htext file h
    obtain ⟨t'', h⟩ := ih h
    refine ⟨t'', ?_⟩
    rwa [List.append_assoc, List.append_assoc] at h

end Runs

theorem widths_quotedTexts {arguments : List Argument} {values : List String}
    (htexts : List.Forall₂ IsQuotedText arguments values) : widths arguments = values.length := by
  induction htexts with
  | nil => rfl
  | @cons argument _ _ _ htext _ ih =>
    have hone : width argument = 1 := by cases htext <;> rfl
    rw [widths, hone, ih, List.length_cons, Nat.add_comm]

/-- The arguments that were typed are the values, whatever the surroundings: nothing is looked up or dispatched. -/
theorem run_typed {σ : Type} (w : Surroundings σ) (text : List Char) (file : Option String) {i : Invocation}
    {values : List String} (htexts : List.Forall₂ IsQuotedText i.arguments values) (s : σ) :
    (run w true (Program.ofInvocation text file i).instructions s).1 = .ok values := by
  have hstart : Reaches w true s [] (argumentsCode file i.arguments ++
      [.call i.name (widths i.arguments) (i.start.inFile file)]) (Stacks.holding []) s := .start _
  obtain ⟨t, h⟩ := reaches_quotedTexts htexts file hstart
  have hwidths : widths i.arguments = (values.map fun v => [v]).length := by
    rw [widths_quotedTexts htexts, List.length_map]
  have hrun := h.run_eq
  rw [List.nil_append, List.nil_append, hwidths, runFrom_resolve] at hrun
  rw [Program.ofInvocation, hwidths, hrun, ← List.flatMap_def, List.flatMap_singleton']

theorem not_mem_typed (values : List String) : '\n' ∉ typed values := by
  have hchar (c : Char) : '\n' ∉ quoteChar c := by
    obtain ⟨e, he, hdecode⟩ | ⟨he, -, -, hline⟩ := quoteChar_cases c <;> rw [he]
    · -- an escaped line end would be read as nothing
      rintro (_ | ⟨_, _ | ⟨_, ⟨⟩⟩⟩)
      cases hdecode
    · simpa using hline.symm
  have hvalue (v : String) : '\n' ∉ quoteValue v.toList := by simp [quoteValue, hchar]
  rw [typed_eq]
  cases values with
  | nil => decide
  | cons v values => simp [intercalate_cons, hvalue]

/-- Neither a mark nor a line end of what was typed is lost. -/
theorem normalizeText_typed (values : List String) : normalizeText (typed values) = typed values := by
  refine normalizeText_of_nameStart ⟨'c', rfl, by decide⟩ fun h => ?_
  exact not_mem_typed values (h.subset (by simp))

theorem exists_program_typed {values : List String} (h : ∀ v ∈ values, IsTypable v) (file : Option String) :
    ∃ p, programsOfText (normalizeText (typed values)) file = .ok [p] ∧ p.name = "c" ∧
      ∀ {σ : Type} (w : Surroundings σ) (s : σ), (run w true p.instructions s).1 = .ok values := by
  obtain ⟨i, hname, htexts, hparse⟩ := exists_parseText_typed h
  refine ⟨Program.ofInvocation (typed values) file i, ?_, hname, fun w s => run_typed w _ file htexts s⟩
  rw [normalizeText_typed, programsOfText, hparse]
  rfl

/-- What is shown of values can be typed back. As the arguments of a command it is one invocation, and its arguments are
the values again, whatever variables and commands there are; for what is shown of each one is read back by the scanner
as it was. So two lists of such values are never shown alike. -/
theorem typed_reads_back {values : List String} (h : ∀ v ∈ values, IsTypable v) (file : Option String) :
    (∃ p, programsOfText (normalizeText (typed values)) file = .ok [p] ∧ p.name = "c" ∧
      ∀ {σ : Type} (w : Surroundings σ) (s : σ), (run w true p.instructions s).1 = .ok values) ∧
    (∀ v ∈ values, ∀ rest p, readText .quoted p (v.toList.flatMap quoteChar ++ '"' :: rest) =
      .ok (v.toList, ⟨'"' :: rest, p.after (v.toList.flatMap quoteChar)⟩)) ∧
    ∀ others, (∀ v ∈ others, IsTypable v) → showValues others = showValues values → others = values := by
  refine ⟨exists_program_typed h file, fun v hv rest p => readText_quoted (h v hv) rest p, fun others ho heq => ?_⟩
  obtain ⟨p, hp, -, hvalues⟩ := exists_program_typed h file
  obtain ⟨q, hq, -, hothers⟩ := exists_program_typed ho file
  have htyped : typed others = typed values := by rw [typed, heq, typed]
  rw [htyped, hp] at hq
  obtain rfl : p = q := by simpa using hq
  -- any surroundings tell the two lists apart
  let w : Surroundings Unit := ⟨fun _ _ _ => none, fun _ arguments s => (.ok (.texts arguments), s), fun _ s => s⟩
  exact Except.ok.inj ((hothers w ()).symm.trans (hvalues w ()))

/-- A value with a backslash, quotes, a dollar sign and a line end, and an empty one. -/
theorem typed_reads_back_escapes :
    let values := ["a\\;b $c \"d\"\n", ""]
    let w : Surroundings Unit := ⟨fun _ _ _ => none, fun _ arguments s => (.ok (.texts arguments), s), fun _ s => s⟩
    typed values = "c(\"a\\\\;b $c \\\"d\\\"\\n\" \"\")".toList ∧
      (∃ p, programsOfText (normalizeText (typed values)) none = .ok [p] ∧
        (run w true p.instructions ()).1 = .ok values) ∧
      ∀ others, (∀ v ∈ others, IsTypable v) → showValues others = showValues values → others = values := by
  intro values w
  have hvalues : ∀ v ∈ values, IsTypable v := by
    rw [List.forall_mem_cons, List.forall_mem_singleton]
    exact ⟨⟨by decide +kernel, by rintro (_ | _ | _) <;> decide +kernel⟩,
      ⟨by decide +kernel, by rintro (_ | _ | _) <;> decide +kernel⟩⟩
  obtain ⟨⟨p, hp, -, hrun⟩, -, hinjective⟩ := typed_reads_back hvalues none
  exact ⟨by decide +kernel, ⟨p, hp, hrun w ()⟩, hinjective⟩

end CommandScript.Evaluation
