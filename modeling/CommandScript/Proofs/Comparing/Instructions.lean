import CommandScript.Proofs.Comparing.View

/-! Instructions that look the same, executed side by side. Surroundings that treat alike what looks alike make the
machine leave the same values, and fail in ways that look the same. -/

namespace CommandScript

open Text Syntax Code Command Machine

variable {v : View}

/-! ### Events -/

/-- Whether a diagnostic says of a variable that it is not defined. -/
def Diagnostic.isUndefinedWarning (d : Diagnostic) : Bool :=
  d.severity = .warning && "Variable `".toList.isPrefixOf d.message.toList &&
    "` is not defined, expanded to empty string.".toList.isSuffixOf d.message.toList

def View.sees (v : View) (d : Diagnostic) : Bool := v.watches || !d.isUndefinedWarning

/-- As it looks in a view, if it is seen. Traces are not seen, and nothing else that goes to standard output. -/
def Event.seenBy (v : View) : Event → Option Event
  | .printed _ => none
  | .diagnosed d => if v.sees d then some (.diagnosed d) else none
  | .dispatched command arguments => some (.dispatched (v.name command) arguments)
  | event => some event

theorem Diagnostic.isUndefinedWarning_of_name (location : Option Location) (name : String) : isUndefinedWarning
    ⟨.warning, location, "Variable `" ++ name ++ "` is not defined, expanded to empty string."⟩ = true := by
  simp only [isUndefinedWarning, String.toList_append, Bool.and_eq_true, decide_true, true_and,
    List.isPrefixOf_iff_prefix, List.isSuffixOf_iff_suffix]
  exact ⟨⟨_, (List.append_assoc ..).symm⟩, List.suffix_append ..⟩

namespace Machine

/-! ### Records -/

/-- Records in which the same is seen, with the same statistics if those count. -/
structure Record.Alike (v : View) (counted : Bool) (r r' : Record) : Prop where
  events : r.events.filterMap (Event.seenBy v) = r'.events.filterMap (Event.seenBy v)
  diagnostics : r.diagnostics.filter v.sees = r'.diagnostics.filter v.sees
  statistics : counted → r.statistics = r'.statistics

/-- As it looks in a view. -/
def Notice.seenBy (v : View) : Notice → Notice
  | .stepping step program held => .stepping step (program.map (Instruction.seenBy v)) held
  | .dispatching command arguments => .dispatching (v.name command) arguments
  | notice => notice

namespace Record.Alike

variable {counted : Bool} {r r' r'' : Record}

theorem refl (r : Record) : r.Alike v counted r := ⟨rfl, rfl, fun _ => rfl⟩

theorem symm (h : r.Alike v counted r') : r'.Alike v counted r :=
  ⟨h.events.symm, h.diagnostics.symm, fun hc => (h.statistics hc).symm⟩

theorem trans (h : r.Alike v counted r') (h' : r'.Alike v counted r'') : r.Alike v counted r'' :=
  ⟨h.events.trans h'.events, h.diagnostics.trans h'.diagnostics, fun hc => (h.statistics hc).trans (h'.statistics hc)⟩

theorem add (h : r.Alike v counted r') {e e' : Event} (he : e.seenBy v = e'.seenBy v) :
    (r.add e).Alike v counted (r'.add e') := by
  refine ⟨?_, h.diagnostics, h.statistics⟩
  simp only [Record.add, List.filterMap_cons, he, h.events]

theorem diagnose (h : r.Alike v counted r') (severity : Severity) (location : Option Location) (message : String) :
    (r.diagnose severity location message).Alike v counted (r'.diagnose severity location message) := by
  refine ⟨(h.add (e := .diagnosed ⟨severity, location, message⟩) rfl).events, ?_, h.statistics⟩
  simp only [Record.diagnose, List.filter_cons, h.diagnostics]

theorem setStatistics (h : r.Alike v counted r') {statistics statistics' : Option Statistics} {counted' : Bool}
    (hs : counted' → statistics = statistics') :
    Record.Alike v counted' { r with statistics } { r' with statistics := statistics' } :=
  ⟨h.events, h.diagnostics, hs⟩

theorem mapStatistics (h : r.Alike v counted r') (f : Statistics → Statistics) : Record.Alike v counted
    { r with statistics := r.statistics.map f } { r' with statistics := r'.statistics.map f } :=
  h.setStatistics fun hc => congrArg (Option.map f) (h.statistics hc)

/-- A trace is not seen. -/
theorem printed (r : Record) (traced : Prop) [Decidable traced] (text : String) :
    (if traced then r.add (.printed text) else r).Alike v counted r := by
  split
  · exact ⟨rfl, rfl, fun _ => rfl⟩
  · exact refl r

/-- Where warnings of undefined variables are not seen, there may be one or not. -/
theorem undefined (hv : v.watches = false) (r : Record) (warned : Bool) (location : Option Location) (name : String) :
    (if warned then
      r.diagnose .warning location ("Variable `" ++ name ++ "` is not defined, expanded to empty string.")
    else r).Alike v counted r := by
  have hsees := Diagnostic.isUndefinedWarning_of_name location name
  cases warned
  · exact refl r
  · refine ⟨?_, ?_, fun _ => rfl⟩
    · simp [Record.diagnose, Event.seenBy, View.sees, hv, hsees]
    · simp [Record.diagnose, View.sees, hv, hsees]

theorem observe_seenBy (h : r.Alike v counted r') {watch watch' : Watch}
    (hcollects : watch.collectsDiagnostics = watch'.collectsDiagnostics)
    (hwarn : v.watches → watch.warnUndefined = watch'.warnUndefined) (notice : Notice) :
    (r.observe watch notice).Alike v counted (r'.observe watch' (notice.seenBy v)) := by
  cases notice with
  | stepping step program held | finished step held =>
    exact (printed r ..).trans (h.trans (printed r' ..).symm)
  | dispatching command arguments => exact h.add (by simp [Event.seenBy])
  | recovered location message =>
    simp only [Record.observe, Notice.seenBy, hcollects]
    split
    · exact h.diagnose ..
    · exact h.add rfl
  | undefined location name =>
    cases hv : v.watches with
    | true =>
      simp only [Record.observe, Notice.seenBy, hwarn hv, hcollects]
      split
      · exact h.diagnose ..
      · exact h
    | false => exact (undefined hv r ..).trans (h.trans (undefined hv r' ..).symm)
  | dispatched | completed => exact h.mapStatistics _

/-- What is kept of notices that look the same is alike, whether or not steps are traced. -/
theorem observe (h : r.Alike v counted r') {watch watch' : Watch}
    (hcollects : watch.collectsDiagnostics = watch'.collectsDiagnostics)
    (hwarn : v.watches → watch.warnUndefined = watch'.warnUndefined) {notice notice' : Notice}
    (hnotice : notice.seenBy v = notice'.seenBy v) :
    (r.observe watch notice).Alike v counted (r'.observe watch' notice') := by
  have hseen := h.observe_seenBy hcollects hwarn notice
  rw [hnotice] at hseen
  exact hseen.trans ((refl r').observe_seenBy rfl (fun _ => rfl) notice').symm

end Record.Alike

/-! ### Outcomes -/

variable {σ τ α β : Type} {R : σ → τ → Prop}

variable (v R) in
/-- Results that look the same, with states that are related. -/
structure Agree (x : Except Failure α × σ) (y : Except Failure α × τ) : Prop where
  result : v.result x.1 = v.result y.1
  state : R x.2 y.2

theorem Agree.cases {x : Except Failure α × σ} {y : Except Failure α × τ} (h : Agree v R x y) :
    (∃ a s t, x = (.ok a, s) ∧ y = (.ok a, t) ∧ R s t) ∨
      ∃ f g s t, x = (.error f, s) ∧ y = (.error g, t) ∧ f.seenBy v = g.seenBy v ∧ R s t := by
  obtain ⟨x, s⟩ := x
  obtain ⟨y, t⟩ := y
  obtain ⟨a, hx, hy⟩ | ⟨f, g, hx, hy, hseen⟩ := View.result_cases h.result
  · exact .inl ⟨a, s, t, by rw [← hx], by rw [← hy], h.state⟩
  · exact .inr ⟨f, g, s, t, by rw [← hx], by rw [← hy], hseen, h.state⟩

theorem Agree.ok {s : σ} {t : τ} (h : R s t) (a : α) : Agree v R (.ok a, s) (.ok a, t) := ⟨rfl, h⟩

theorem Agree.error {s : σ} {t : τ} (h : R s t) {f g : Failure} (hf : f.seenBy v = g.seenBy v) :
    Agree v R ((.error f : Except Failure α), s) (.error g, t) := ⟨View.result_error hf, h⟩

/-! ### Instructions -/

variable (v R) in
/-- Surroundings that treat alike what looks alike. -/
structure Surroundings.Alike (w : Surroundings σ) (w' : Surroundings τ) : Prop where
  lookup : ∀ space name {s t}, R s t → w.lookup space name s = w'.lookup space name t
  invoke : ∀ {name name' : Option String} arguments {s t}, name.map v.name = name'.map v.name → R s t →
    Agree v R (w.invoke name arguments s) (w'.invoke name' arguments t)
  observe : ∀ {notice notice' : Notice} {s t}, notice.seenBy v = notice'.seenBy v → R s t →
    R (w.observe notice s) (w'.observe notice' t)

section Instructions

variable {w : Surroundings σ} {w' : Surroundings τ} (hw : w.Alike v R w') {s : σ} {t : τ}
include hw

theorem dispatch_agrees (i : Instruction) (arguments : List String) (h : R s t) :
    Agree v R (dispatch w i arguments s) (dispatch w' (i.seenBy v) arguments t) := by
  have hlabel : v.name i.commandLabel = v.name (i.seenBy v).commandLabel := (Instruction.name_getD_seenBy i "None").symm
  have hname : i.name.map v.name = (i.seenBy v).name.map v.name := (Instruction.map_name_seenBy i).symm
  have hnotice : (Notice.dispatching i.commandLabel arguments).seenBy v =
      (Notice.dispatching (i.seenBy v).commandLabel arguments).seenBy v := by simp only [Notice.seenBy, hlabel]
  have hdispatching := hw.observe hnotice h
  simp only [dispatch]
  obtain ⟨reply, s, t, hx, hy, h⟩ | ⟨f, g, s, t, hx, hy, hfg, h⟩ := (hw.invoke arguments hname hdispatching).cases
  · rw [hx, hy]
    cases reply with
    | texts results => exact .ok (hw.observe rfl h) results
    | mixed => exact .error h (by simp [Failure.seenBy, Cause.seenBy, hlabel])
  · rw [hx, hy]
    have hcompleted := Failure.completeFrom_seenBy hfg i
    simp only [Failure.isRefusal_eq_of_seenBy hfg, Failure.isFatal_eq_of_seenBy hcompleted]
    split
    · split
      · exact .error h hcompleted
      · rename_i hfatal
        -- A failure that is not fatal has words of its own, so the warnings are the same.
        have hcause : (f.completeFrom i).cause = (g.completeFrom (i.seenBy v)).cause := by
          have hg : (g.completeFrom (i.seenBy v)).cause.isFatal = false := by simpa using hfatal
          have hf : (f.completeFrom i).cause.isFatal = false := (Failure.isFatal_eq_of_seenBy hcompleted).trans hg
          rw [← Cause.seenBy_of_isFatal (v := v) hf, ← Cause.seenBy_of_isFatal (v := v) hg]
          exact (Failure.seenBy_eq_iff.1 hcompleted).1
        refine .ok (hw.observe rfl (hw.observe ?_ h)) []
        rw [hcause, Instruction.location_seenBy]
    · exact .error h hfg

theorem reference_agrees {i : Instruction} (hi : ¬i.isCommand) (name : String) (h : R s t) :
    (reference w i name s).1 = (reference w' (i.seenBy v) name t).1 ∧
      R (reference w i name s).2 (reference w' (i.seenBy v) name t).2 := by
  rw [Instruction.seenBy_of_not_isCommand hi]
  unfold reference
  rw [hw.lookup _ name h]
  split
  · exact ⟨rfl, h⟩
  · exact ⟨rfl, hw.observe rfl h⟩

omit hw in
theorem popped_agrees (n : Int) (st : Stacks String)
    {use : List (Operand String) → Stacks String → Except Failure (Progress String) × σ}
    {use' : List (Operand String) → Stacks String → Except Failure (Progress String) × τ}
    (huse : ∀ operands st, Agree v R (use operands st) (use' operands st)) (h : R s t) :
    Agree v R
      (match st.pop n with | .ok (operands, st) => use operands st | .error cause => (.error { cause }, s))
      (match st.pop n with | .ok (operands, st) => use' operands st | .error cause => (.error { cause }, t)) := by
  cases st.pop n with
  | error cause => exact .error h rfl
  | ok popped => exact huse popped.1 popped.2

theorem pushed_agrees (i : Instruction) (arguments : List String) (st : Stacks String) (h : R s t) :
    Agree v R
      (match dispatch w i arguments s with
        | (.ok results, s) => (.ok (Progress.moved (st.push results)), s)
        | (.error failure, s) => (.error failure, s))
      (match dispatch w' (i.seenBy v) arguments t with
        | (.ok results, t) => (.ok (Progress.moved (st.push results)), t)
        | (.error failure, t) => (.error failure, t)) := by
  obtain ⟨results, s, t, hx, hy, h⟩ | ⟨f, g, s, t, hx, hy, hfg, h⟩ := (dispatch_agrees hw i arguments h).cases
  · rw [hx, hy]
    exact .ok h _
  · rw [hx, hy]
    exact .error h hfg

theorem execute_agrees (onlyResolve isLast : Bool) (i : Instruction) (st : Stacks String) (h : R s t) :
    Agree v R (execute w onlyResolve isLast i st s) (execute w' onlyResolve isLast (i.seenBy v) st t) := by
  unfold execute
  simp only [Instruction.operation_seenBy, Instruction.expansion_seenBy]
  cases hop : i.operation with
  | literal text => exact .ok h _
  | «variable» n =>
    have hi : ¬i.isCommand := by simp [Instruction.isCommand, hop]
    refine popped_agrees n st (fun operands st => ?_) h
    obtain ⟨hvalue, h⟩ := reference_agrees hw hi (concatenate operands) h
    simp only [hvalue]
    exact .ok h _
  | quoted n => exact popped_agrees n st (fun operands st => .ok h _) h
  | unquoted n =>
    refine popped_agrees n st (fun operands st => ?_) h
    cases expandOperands i.expansion operands with
    | ok values => exact .ok h _
    | error cause => exact .error h rfl
  | commandReference n => exact popped_agrees n st (fun operands st => pushed_agrees hw i operands.flatten st h) h
  | call n =>
    refine popped_agrees n st (fun operands st => ?_) h
    split
    · split
      · exact .ok h _
      · exact .error h rfl
    · exact pushed_agrees hw i operands.flatten st h
  | irregular code operand =>
    refine .error h (Failure.seenBy_eq_iff.2 ⟨?_, rfl, rfl⟩)
    simp only [irregularity]
    repeat' split
    all_goals first
      | rfl
      | exact congrArg Cause.unknownInstruction (Instruction.seenBy_seenBy i).symm

/-- Programs that look the same come to the same, from any step on. -/
theorem runFrom_agrees (onlyResolve : Bool) (is : List Instruction) (step : Nat) (st : Stacks String) (h : R s t) :
    Agree v R (runFrom w onlyResolve step st is s)
      (runFrom w' onlyResolve step st (is.map (Instruction.seenBy v)) t) := by
  induction is generalizing step st s t with
  | nil =>
    simp only [List.map_nil, runFrom]
    split
    · exact .ok (hw.observe rfl (hw.observe rfl h)) _
    · exact .error h rfl
  | cons i rest ih =>
    have hnotice : (Notice.stepping step (i :: rest) st).seenBy v =
        (Notice.stepping step ((i :: rest).map (Instruction.seenBy v)) st).seenBy v := by simp [Notice.seenBy]
    have hstepping := hw.observe hnotice h
    have hexecute := execute_agrees hw onlyResolve rest.isEmpty i st hstepping
    simp only [List.map_cons, runFrom, List.isEmpty_map] at hexecute ⊢
    obtain ⟨progress, s, t, hx, hy, h⟩ | ⟨f, g, s, t, hx, hy, hfg, h⟩ := hexecute.cases
    · rw [hx, hy]
      cases progress with
      | moved st => exact ih (step + 1) st h
      | resolved arguments => exact .ok h arguments
    · rw [hx, hy]
      exact .error h (Failure.attributeTo_seenBy hfg i)

end Instructions

end Machine

end CommandScript
