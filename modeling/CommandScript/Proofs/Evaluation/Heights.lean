import Mathlib.Data.List.Basic
import CommandScript.Proofs.Evaluation.Causes
import CommandScript.Proofs.Evaluation.Stacks
import CommandScript.Proofs.Grammar.Operands

/-! How high the stacks stand in a run. What they hold is always a number of operands, one for each sub-expression that
is finished and not yet used; so the counts account for all values. How many operands those are can be read off the
instructions that were executed, whatever variables and commands have to say. A run is out of operands only where that
number says so. Programs may be put together by hand, with any numbers of operands. -/

namespace CommandScript.Code

/-- Whether every instruction finds as many operands as it takes. -/
def IsCovered (code : List Instruction) : Prop :=
  ∀ before i after, code = before ++ i :: after → i.operation.arity ≤ height before

theorem isCovered_nil : IsCovered [] := by
  intro before i after h
  simp at h

theorem IsCovered.concat {code : List Instruction} {i : Instruction} (h : IsCovered code)
    (hi : i.operation.arity ≤ height code) : IsCovered (code ++ [i]) := by
  intro before j after hsplit
  rcases List.eq_nil_or_concat after with rfl | ⟨after, k, rfl⟩
  · obtain ⟨rfl, hj⟩ := List.append_inj' hsplit rfl
    obtain rfl : i = j := by simpa using hj
    exact hi
  · refine h before j after ?_
    rw [List.concat_eq_append, ← List.cons_append, ← List.append_assoc] at hsplit
    exact (List.append_inj' hsplit rfl).1

end CommandScript.Code

namespace CommandScript

/-- Whether it says that the stacks do not hold what they should. -/
def Cause.isStackFault : Cause → Bool
  | .tooFewCounts .. | .tooFewValues .. | .stacksDisagree => true
  | _ => false

end CommandScript

namespace CommandScript.Machine

open Text Code

variable {σ α : Type}

namespace Stacks

/-- The stacks that hold some operands and nothing else. -/
abbrev holding (operands : List (Operand α)) : Stacks α := pushAll {} operands

theorem total_counts_holding (operands : List (Operand α)) :
    total (holding operands).counts = (holding operands).values.length :=
  total_map_length operands

theorem length_counts_holding (operands : List (Operand α)) : (holding operands).counts.length = operands.length := by
  simp [pushAll]

theorem push_holding (operands : List (Operand α)) (values : List α) :
    (holding operands).push values = holding (operands ++ [values]) := by
  rw [holding, holding, pushAll_append, pushAll_singleton]

theorem pop_short {operands : List (Operand α)} {n : Int} (h : operands.length < n) :
    (holding operands).pop n = .error (.tooFewCounts operands.length n.toNat) := by
  rw [pop, length_counts_holding, if_pos (by omega)]

theorem exists_taken {operands : List (Operand α)} {n : Int} (h : ¬ operands.length < n) :
    ∃ below taken, operands = below ++ taken ∧ n.toNat = taken.length := by
  refine ⟨_, _, (List.take_append_drop (operands.length - n.toNat) operands).symm, ?_⟩
  rw [List.length_drop]
  omega

theorem pop_covered (below taken : List (Operand α)) {n : Int} (h : n.toNat = taken.length) :
    (holding (below ++ taken)).pop n = .ok (taken, holding below) := by
  have hpop := pop_pushAll (holding below) taken
  rwa [← pushAll_append, ← h, pop, Int.toNat_natCast, ← pop] at hpop

end Stacks

/-! ### One instruction -/

/-- Whether a failure is that of the command that an instruction dispatches. -/
def Relays (w : Surroundings σ) (i : Instruction) (arguments : List String) (raised : Failure) (s : σ) : Prop :=
  ∃ failure, (w.invoke i.name arguments (w.observe (.dispatching i.commandLabel arguments) s)).1 = .error failure ∧
    raised.cause = failure.cause

theorem dispatch_relays {w : Surroundings σ} {i : Instruction} {arguments : List String} {raised : Failure} {s t : σ}
    (h : dispatch w i arguments s = (.error raised, t)) (hfault : raised.cause.isStackFault) :
    Relays w i arguments raised s := by
  simp only [dispatch] at h
  split at h
  · cases h
  · obtain ⟨rfl, rfl⟩ := h
    cases hfault
  · rename_i failure _ hinvoke
    refine ⟨failure, congrArg Prod.fst hinvoke, ?_⟩
    split at h
    · split at h
      · obtain ⟨rfl, rfl⟩ := h
        rfl
      · cases h
    · obtain ⟨rfl, rfl⟩ := h
      rfl

theorem isStackFault_irregularity (i : Instruction) (code : Int) : (irregularity i code).isStackFault = false := by
  obtain h | h | h := irregularity_cases i code <;> rw [h] <;> rfl

/-- What an instruction makes of its operands, with others below them. -/
inductive Effect (w : Surroundings σ) (onlyResolve : Bool) (i : Instruction) (below taken : List (Operand String))
    (s : σ) : Except Failure (Progress String) × σ → Prop
  | moved (values t) : Effect w onlyResolve i below taken s (.ok (.moved (Stacks.holding (below ++ [values]))), t)
  | resolved (arguments t) (h : onlyResolve) : Effect w onlyResolve i below taken s (.ok (.resolved arguments), t)
  /-- A failure has nothing to do with the stacks, unless it is that of a command. -/
  | failed (raised t) (h : raised.cause.isStackFault → Relays w i taken.flatten raised s) :
      Effect w onlyResolve i below taken s (.error raised, t)

theorem effect_dispatch (w : Surroundings σ) (onlyResolve : Bool) (i : Instruction)
    (below taken : List (Operand String)) (s : σ) :
    Effect w onlyResolve i below taken s
      (match dispatch w i taken.flatten s with
      | (.ok results, s) => (.ok (.moved ((Stacks.holding below).push results)), s)
      | (.error failure, s) => (.error failure, s)) := by
  rcases h : dispatch w i taken.flatten s with ⟨raised | results, t⟩
  · exact .failed raised t (dispatch_relays h)
  · simpa only [Stacks.push_holding] using .moved results t

/-- An instruction that finds its operands leaves one in their place, ends the run, or fails. -/
theorem execute_covered (w : Surroundings σ) (onlyResolve isLast : Bool) (i : Instruction)
    (below taken : List (Operand String)) (s : σ) (h : i.operation.arity.toNat = taken.length) :
    Effect w onlyResolve i below taken s (execute w onlyResolve isLast i (Stacks.holding (below ++ taken)) s) := by
  have hpop := Stacks.pop_covered below taken h
  unfold execute
  cases hop : i.operation <;> simp only [hop, Operation.arity] at h hpop ⊢
  case literal text =>
    obtain rfl : taken = [] := List.length_eq_zero_iff.1 h.symm
    simpa only [List.append_nil, Stacks.push_holding] using .moved [text] s
  case «variable» n =>
    simp only [hpop, Stacks.push_holding]
    exact .moved ..
  case quoted n =>
    simp only [hpop, Stacks.push_holding]
    exact .moved ..
  case unquoted n =>
    simp only [hpop, Stacks.push_holding]
    cases hexpand : expandOperands i.expansion taken with
    | ok values => exact .moved ..
    | error cause =>
      obtain rfl := cause_of_expandOperands hexpand
      exact .failed _ _ nofun
  case commandReference n =>
    rw [hpop]
    exact effect_dispatch w _ i below taken s
  case call n =>
    rw [hpop]
    cases onlyResolve with
    | false => exact effect_dispatch w _ i below taken s
    | true =>
      cases isLast with
      | true => exact .resolved _ _ rfl
      | false => exact .failed _ _ nofun
  case irregular code operand =>
    refine .failed _ _ fun hfault => ?_
    rw [isStackFault_irregularity] at hfault
    cases hfault

theorem execute_short (w : Surroundings σ) (onlyResolve isLast : Bool) (i : Instruction)
    (operands : List (Operand String)) (s : σ) (h : operands.length < i.operation.arity) :
    execute w onlyResolve isLast i (Stacks.holding operands) s =
      (.error { cause := .tooFewCounts operands.length i.operation.arity.toNat }, s) := by
  have hpop := Stacks.pop_short h
  unfold execute
  cases hop : i.operation <;> simp only [hop, Operation.arity] at h hpop ⊢
  case literal | irregular => omega
  all_goals rw [hpop]

/-- On stacks that hold operands, an instruction finds too few of them or takes the last ones. -/
theorem execute_holding (w : Surroundings σ) (onlyResolve isLast : Bool) (i : Instruction)
    (operands : List (Operand String)) (s : σ) :
    (operands.length < i.operation.arity ∧ execute w onlyResolve isLast i (Stacks.holding operands) s =
        (.error { cause := .tooFewCounts operands.length i.operation.arity.toNat }, s)) ∨
      ∃ below taken, operands = below ++ taken ∧ i.operation.arity.toNat = taken.length ∧
        Effect w onlyResolve i below taken s (execute w onlyResolve isLast i (Stacks.holding operands) s) := by
  by_cases h : operands.length < i.operation.arity
  · exact .inl ⟨h, execute_short w onlyResolve isLast i operands s h⟩
  · obtain ⟨below, taken, rfl, htaken⟩ := Stacks.exists_taken h
    exact .inr ⟨below, taken, rfl, htaken, execute_covered w onlyResolve isLast i below taken s htaken⟩

/-! ### Runs -/

section Runs

variable (w : Surroundings σ) (onlyResolve : Bool) (s : σ)

/-- A run from a state has executed some instructions and has others left. It holds these stacks, and the state outside
has changed to this one. -/
inductive Reaches : (executed left : List Instruction) → Stacks String → σ → Prop
  | start (instructions) : Reaches [] instructions {} s
  | step {executed i left held held' t t'} (h : Reaches executed (i :: left) held t)
      (hmoved : execute w onlyResolve left.isEmpty i held
        (w.observe (.stepping executed.length (i :: left) held) t) = (.ok (.moved held'), t')) :
      Reaches (executed ++ [i]) left held' t'

/-- How a run ends that does not get any further. -/
inductive Ending (executed : List Instruction) :
    (left : List Instruction) → Stacks String → σ → Except Failure (List String) × σ → Prop
  | completed (held t) :
      Ending executed [] held t
        (.ok held.values, w.observe (.completed executed.length) (w.observe (.finished executed.length held) t))
  /-- The next instruction takes more operands than there are. -/
  | short (i left held t) (h : height executed < i.operation.arity) :
      Ending executed (i :: left) held t
        (.error ⟨.tooFewCounts (height executed).toNat i.operation.arity.toNat, i.name, i.location⟩,
          w.observe (.stepping executed.length (i :: left) held) t)
  | resolved {i left held t arguments t'} (h : i.operation.arity ≤ height executed)
      (hresolved : execute w onlyResolve left.isEmpty i held
        (w.observe (.stepping executed.length (i :: left) held) t) = (.ok (.resolved arguments), t')) :
      Ending executed (i :: left) held t (.ok arguments, t')
  /-- The next instruction takes its operands and fails. The stacks are not at fault, unless its command says so. -/
  | failed {i left held t operands below raised t'} (h : i.operation.arity ≤ height executed)
      (hpop : held.pop i.operation.arity = .ok (operands, below))
      (hfailed : execute w onlyResolve left.isEmpty i held
        (w.observe (.stepping executed.length (i :: left) held) t) = (.error raised, t'))
      (hfault : raised.cause.isStackFault →
        Relays w i operands.flatten raised (w.observe (.stepping executed.length (i :: left) held) t)) :
      Ending executed (i :: left) held t (.error (raised.attributeTo i), t')

variable {w onlyResolve s} {executed left : List Instruction} {held : Stacks String} {t : σ}

theorem Reaches.run_eq (h : Reaches w onlyResolve s executed left held t) :
    run w onlyResolve (executed ++ left) s = runFrom w onlyResolve executed.length held left t := by
  induction h with
  | start => rfl
  | step h hmoved ih =>
    rw [List.append_assoc, List.singleton_append, ih, runFrom, hmoved, List.length_append, List.length_singleton]

/-- What is held are operands, as many as the executed instructions leave. None of those took more than there were. -/
theorem Reaches.holds (h : Reaches w onlyResolve s executed left held t) :
    ∃ operands, held = Stacks.holding operands ∧ (operands.length : Int) = height executed ∧ IsCovered executed := by
  induction h with
  | start => exact ⟨[], rfl, rfl, isCovered_nil⟩
  | @step executed i left held held' t t' h hmoved ih =>
    obtain ⟨operands, rfl, hlength, hcovered⟩ := ih
    obtain ⟨-, hshort⟩ | ⟨below, taken, rfl, htaken, heffect⟩ :=
      execute_holding w onlyResolve left.isEmpty i operands (w.observe (.stepping executed.length (i :: left) _) t)
    -- an instruction that was passed was not short of operands
    · rw [hshort] at hmoved
      cases hmoved
    · rw [hmoved] at heffect
      rw [List.length_append] at hlength
      cases heffect with
      | moved values =>
        refine ⟨below ++ [values], rfl, ?_, hcovered.concat (by omega)⟩
        rw [height_append, height_singleton, List.length_append, List.length_singleton]
        omega

/-- Every run gets on until it ends. -/
theorem Reaches.exists_ending (h : Reaches w onlyResolve s executed left held t) :
    ∃ executed' left' held' t', executed' ++ left' = executed ++ left ∧
      Reaches w onlyResolve s executed' left' held' t' ∧
      Ending w onlyResolve executed' left' held' t' (run w onlyResolve (executed ++ left) s) := by
  induction left generalizing executed held t with
  | nil =>
    obtain ⟨operands, rfl, -, -⟩ := h.holds
    refine ⟨executed, [], _, t, rfl, h, ?_⟩
    rw [h.run_eq, runFrom, if_pos (Stacks.total_counts_holding operands)]
    exact .completed ..
  | cons i left ih =>
    obtain ⟨operands, rfl, hlength, -⟩ := h.holds
    have hrun := h.run_eq
    rw [runFrom] at hrun
    obtain ⟨hfew, hshort⟩ | ⟨below, taken, rfl, htaken, heffect⟩ :=
      execute_holding w onlyResolve left.isEmpty i operands (w.observe (.stepping executed.length (i :: left) _) t)
    · refine ⟨executed, i :: left, _, t, rfl, h, ?_⟩
      rw [hrun, hshort]
      have hlength' : operands.length = (height executed).toNat := by omega
      simpa only [hlength'] using .short i left _ t (by omega)
    · rw [List.length_append] at hlength
      rcases hx : execute w onlyResolve left.isEmpty i (Stacks.holding (below ++ taken))
        (w.observe (.stepping executed.length (i :: left) (Stacks.holding (below ++ taken))) t)
        with ⟨raised | held' | arguments, t'⟩ <;> rw [hx] at hrun heffect
      · refine ⟨executed, i :: left, _, t, rfl, h, ?_⟩
        rw [hrun]
        cases heffect with
        | failed _ _ hfault => exact .failed (by omega) (Stacks.pop_covered below taken htaken) hx hfault
      · obtain ⟨executed', left', held', t', hsplit, h', hending⟩ := ih (h.step hx)
        rw [List.append_assoc, List.singleton_append] at hsplit hending
        exact ⟨executed', left', held', t', hsplit, h', hending⟩
      · refine ⟨executed, i :: left, _, t, rfl, h, ?_⟩
        rw [hrun]
        exact .resolved (by omega) hx

/-- The stacks of a run agree with each other and with the instructions. Wherever the run gets to, the counts add up to
the number of values; and how many counts there are is fixed by the instructions executed so far, none of which took
more operands than had been left. The first instruction that does ends the run, if no other has ended it before. What
ends it otherwise has nothing to do with the stacks, unless the command of an instruction says so; and a run that
nothing ends hands back the values on its stack. -/
theorem stacks_agree (w : Surroundings σ) (onlyResolve : Bool) (instructions : List Instruction) (s : σ) :
    (∀ executed left held t, executed ++ left = instructions → Reaches w onlyResolve s executed left held t →
      run w onlyResolve instructions s = runFrom w onlyResolve executed.length held left t ∧
        total held.counts = held.values.length ∧ (held.counts.length : Int) = height executed ∧ IsCovered executed) ∧
    (∀ executed i left held t, executed ++ i :: left = instructions →
      Reaches w onlyResolve s executed (i :: left) held t → height executed < i.operation.arity →
        run w onlyResolve instructions s =
          (.error ⟨.tooFewCounts (height executed).toNat i.operation.arity.toNat, i.name, i.location⟩,
            w.observe (.stepping executed.length (i :: left) held) t)) ∧
    ∃ executed left held t, executed ++ left = instructions ∧ Reaches w onlyResolve s executed left held t ∧
      Ending w onlyResolve executed left held t (run w onlyResolve instructions s) := by
  refine ⟨?_, ?_, ?_⟩
  · rintro executed left held t rfl h
    obtain ⟨operands, rfl, hlength, hcovered⟩ := h.holds
    refine ⟨h.run_eq, Stacks.total_counts_holding operands, ?_, hcovered⟩
    rw [Stacks.length_counts_holding, hlength]
  · rintro executed i left held t rfl h hshort
    obtain ⟨operands, rfl, hlength, -⟩ := h.holds
    rw [h.run_eq, runFrom, execute_short _ _ _ _ _ _ (by omega), ← hlength, Int.toNat_natCast]
    rfl
  · exact (Reaches.start instructions).exists_ending

/-- A negative number of operands takes none, so there are two where three are needed. -/
theorem stacks_agree_short :
    let w : Surroundings Unit := ⟨fun _ _ _ => none, fun _ arguments s => (.ok (.texts arguments), s), fun _ s => s⟩
    let executed : List Instruction := [.literal "a", .quoted (-1)]
    Reaches w false () executed [.call "use" 3] ⟨["a", ""], [1, 1]⟩ () ∧ height executed < 3 ∧
      run w false (executed ++ [.call "use" 3]) () = (.error ⟨.tooFewCounts 2 3, some "use", none⟩, ()) := by
  intro w executed
  have hreaches : Reaches w false () executed [.call "use" 3] ⟨["a", ""], [1, 1]⟩ () :=
    ((Reaches.start _).step rfl : Reaches w false () [.literal "a"] _ ⟨["a"], [1]⟩ ()).step rfl
  have hshort : height executed < 3 := by decide
  exact ⟨hreaches, hshort, (stacks_agree w false _ ()).2.1 executed _ [] _ _ rfl hreaches hshort⟩

end Runs

end CommandScript.Machine
