import CommandScript.Proofs.Comparing.Blindness
import CommandScript.Proofs.Comparing.Scripts

/-! The case of letters in names of commands. If two scripts differ in nothing else, they do the same and end the
same: the same results or failures of the same kind at the same place, the same variables, the same commands
dispatched to the same ends. Only texts that quote the names can tell the scripts apart, and so can a host command, if
it is told of a failure and looks at such a text. -/

namespace CommandScript

open Text Syntax Code Command Machine Session

/-! ### Letters -/

namespace Text

/-- A text with the letters `A` to `Z` in lower case. -/
def lowerLetters (s : String) : String := String.ofList (s.toList.map Char.toLower)

/-- Only the letters `A` to `Z` are changed. -/
theorem toLower_cases (c : Char) : c.toLower = c ∨ ∃ n < 26, c = Char.ofNat (65 + n) := by
  unfold Char.toLower
  split
  · rename_i h
    simp only [ge_iff_le, UInt32.le_iff_toNat_le] at h
    have hlow : 65 ≤ c.toNat := h.1
    have hhigh : c.toNat ≤ 90 := h.2
    refine .inr ⟨c.toNat - 65, by omega, ?_⟩
    rw [Nat.add_sub_cancel' hlow, Char.ofNat_toNat]
  · exact .inl rfl

theorem toLower_toLower (c : Char) : c.toLower.toLower = c.toLower := by
  rcases toLower_cases c with h | ⟨n, hn, rfl⟩
  · rw [h, h]
  · revert n
    decide

theorem isCaseIgnorable_letter {c : Char} (h : 65 ≤ c.toNat ∧ c.toNat ≤ 90 ∨ 97 ≤ c.toNat ∧ c.toNat ≤ 122) :
    isCaseIgnorable c = false := by
  have htable : caseIgnorableRanges.toList.all
      fun range => range.2 < 65 || (90 < range.1 && range.2 < 97) || 122 < range.1 := by decide +kernel
  rw [isCaseIgnorable, isIn, ← Array.any_toList, List.any_eq_false]
  intro range hrange
  have hoff := List.all_eq_true.1 htable range hrange
  simp only [Bool.or_eq_true, Bool.and_eq_true, decide_eq_true_eq] at hoff ⊢
  omega

theorem isCaseIgnorable_toLower (c : Char) : isCaseIgnorable c.toLower = isCaseIgnorable c := by
  rcases toLower_cases c with h | ⟨n, hn, rfl⟩
  · rw [h]
  · have hcode : (Char.ofNat (65 + n)).toNat = 65 + n ∧ (Char.ofNat (65 + n)).toLower.toNat = 97 + n := by
      revert n
      decide
    rw [isCaseIgnorable_letter (by omega), isCaseIgnorable_letter (by omega)]

theorem isCased_toLower (c : Char) : isCased c.toLower = isCased c := by
  rcases toLower_cases c with h | ⟨n, hn, rfl⟩
  · rw [h]
  · revert n
    decide

theorem lowerCaseChar_toLower (c : Char) : lowerCaseChar c.toLower = lowerCaseChar c := by
  rcases toLower_cases c with h | ⟨n, hn, rfl⟩
  · rw [h]
  · revert n
    decide

theorem toLower_eq_sigma (c : Char) : c.toLower = '\u03a3' ↔ c = '\u03a3' := by
  rcases toLower_cases c with h | ⟨n, hn, rfl⟩
  · rw [h]
  · revert n
    decide

theorem startsCased_map_toLower (cs : List Char) : startsCased (cs.map Char.toLower) = startsCased cs := by
  have hignorable : isCaseIgnorable ∘ Char.toLower = isCaseIgnorable := by
    funext c
    rw [Function.comp_apply, isCaseIgnorable_toLower]
  unfold startsCased
  rw [List.dropWhile_map, hignorable]
  cases cs.dropWhile isCaseIgnorable with
  | nil => rfl
  | cons c rest => exact isCased_toLower c

theorem lowerCaseFrom_map_toLower (before cs : List Char) :
    lowerCaseFrom (before.map Char.toLower) (cs.map Char.toLower) = lowerCaseFrom before cs := by
  induction cs generalizing before with
  | nil => rfl
  | cons c cs ih =>
    have hrest := ih (c :: before)
    rw [List.map_cons] at hrest
    simp only [List.map_cons, lowerCaseFrom, hrest, startsCased_map_toLower, lowerCaseChar_toLower, toLower_eq_sigma]

/-- Whether its letters are in lower case makes no difference to the lower-case form of a text. -/
theorem lowerCase_lowerLetters (s : String) : lowerCase (lowerLetters s) = lowerCase s := by
  unfold lowerCase lowerLetters
  rw [String.toList_ofList]
  exact congrArg String.ofList (lowerCaseFrom_map_toLower [] s.toList)

theorem lowerLetters_lowerLetters (s : String) : lowerLetters (lowerLetters s) = lowerLetters s := by
  unfold lowerLetters
  rw [String.toList_ofList, List.map_map]
  exact congrArg String.ofList (List.map_congr_left fun c _ => toLower_toLower c)

end Text

/-! ### Scripts -/

namespace Syntax

/-- A token with the name of a command in lower case, if it is one. -/
def Token.inLowerCase (t : Token) : Token :=
  { t with lexeme := match t.lexeme with
    | .name n => .name (lowerLetters n)
    | lexeme => lexeme }

/-- The same tokens at the same places, but for the case of letters in names of commands, and the same fault behind
them, if any. -/
structure SameButForCase (text text' : List Char) : Prop where
  tokens : (scan text).tokens.map Token.inLowerCase = (scan text').tokens.map Token.inLowerCase
  fault : (scan text).fault = (scan text').fault

end Syntax

/-- Names of commands are seen in lower case, and neither texts of programs nor which scripts are kept is seen. -/
def View.lowerNames : View where
  name := lowerLetters
  source _ := none
  watches := true
  remembers := false
  lowerCase_name := lowerCase_lowerLetters
  name_name := lowerLetters_lowerLetters
  source_source _ := rfl

theorem Syntax.SameButForCase.scansAlike {text text' : List Char} (h : SameButForCase text text') :
    ScansAlike .lowerNames text text' := by
  have htoken : Token.relabel View.lowerNames.relabelling = Token.inLowerCase := by
    funext t
    obtain ⟨lexeme, start, stop⟩ := t
    cases lexeme <;> rfl
  exact ⟨by rw [htoken, h.tokens], h.fault⟩

/-! ### States -/

/-- The place of what is wrong with the form of a script. -/
def Cause.place : Cause → Option Location
  | fault f => some f.location
  | _ => none

/-- The same values, or failures of the same kind at the same place. -/
inductive SameEnd {α : Type} : Except Failure α → Except Failure α → Prop where
  | ok (a : α) : SameEnd (.ok a) (.ok a)
  | error {f g : Failure} (kind : f.cause.kind = g.cause.kind) (place : f.cause.place = g.cause.place)
    (location : f.location = g.location) : SameEnd (.error f) (.error g)

theorem SameEnd.of_result {α : Type} {x y : Except Failure α}
    (h : View.lowerNames.result x = View.lowerNames.result y) : SameEnd x y := by
  obtain ⟨a, rfl, rfl⟩ | ⟨f, g, rfl, rfl, hseen⟩ := View.result_cases h
  · exact .ok a
  · obtain ⟨hcause, -, hlocation⟩ := Failure.seenBy_eq_iff.1 hseen
    have hplace (c : Cause) : (c.seenBy .lowerNames).place = c.place := by cases c <;> rfl
    refine .error ?_ ?_ hlocation
    · rw [← f.cause.kind_seenBy, hcause, Cause.kind_seenBy]
    · rw [← hplace, hcause, hplace]

/-- The commands that were dispatched, with their names in lower case, and the arguments they were given. -/
def Machine.Record.dispatches (r : Record) : List (String × List String) :=
  r.events.filterMap fun
    | .dispatched command arguments => some (lowerLetters command, arguments)
    | _ => none

/-- The same state, but for the case of letters where names of commands are quoted. -/
structure Session.State.SameButForCase {κ ω : Type} (s t : State κ ω) : Prop where
  store : s.store = t.store
  top : s.top = t.top
  commands : s.library.commands.names = t.library.commands.names
  frames : s.frames = t.frames
  depth : s.depth = t.depth
  host : s.host = t.host
  dispatches : s.record.dispatches = t.record.dispatches
  diagnostics : s.record.diagnostics = t.record.diagnostics

theorem Session.State.SameButForCase.of_alike {κ ω : Type} {s t : State κ ω} {counted : Bool}
    (h : s.Alike .lowerNames counted t) : s.SameButForCase t := by
  have hnames (l : Library (Implementation κ)) : (l.seenBy .lowerNames).commands.names = l.commands.names := by
    simp only [Library.seenBy, Bindings.names, List.map_map]
    rfl
  have hdispatches (r : Record) : r.dispatches = (r.events.filterMap (Event.seenBy .lowerNames)).filterMap fun
      | .dispatched command arguments => some (command, arguments)
      | _ => none := by
    rw [List.filterMap_filterMap, Record.dispatches]
    congr 1
    funext e
    cases e <;> rfl
  have hdiagnostics (r : Record) : r.diagnostics.filter View.lowerNames.sees = r.diagnostics :=
    List.filter_eq_self.2 fun _ _ => rfl
  refine ⟨h.store, h.top, ?_, h.frames, h.depth, h.host, ?_, ?_⟩
  · rw [← hnames, h.library, hnames]
  · rw [hdispatches, h.record.events, hdispatches]
  · rw [← hdiagnostics, h.record.diagnostics, hdiagnostics]

/-! ### Runs -/

namespace Running

variable {κ ω : Type}

/-- A host command is told of a failure and goes on otherwise than if the names in it were in lower case. -/
def Moment.ReactsToCase (m : Moment κ ω) : Prop :=
  ∃ bound arguments next waiting failure, m.waiting = .host bound arguments next :: waiting ∧
    m.stage = .reporting (.answer (.error failure)) ∧ ¬GoesOnAlike .lowerNames next failure

theorem Moment.heeds_of_not_reactsToCase {m : Moment κ ω} (h : ¬m.ReactsToCase) : m.Heeds .lowerNames := by
  rintro r w ws hstage hwaiting bound arguments next failure rfl rfl
  exact Classical.byContradiction fun hne => h ⟨bound, arguments, next, ws, failure, hwaiting, hstage, hne⟩

theorem Moment.Heeds.not_reactsToCase {m : Moment κ ω} (h : m.Heeds .lowerNames) : ¬m.ReactsToCase := by
  rintro ⟨bound, arguments, next, ws, failure, hwaiting, hstage, hne⟩
  exact hne (h _ _ ws hstage hwaiting bound arguments next failure rfl rfl)

end Running

end CommandScript
