import Mathlib.Data.List.Induction
import CommandScript.Proofs.Evaluation.Agreement
import CommandScript.Proofs.Evaluation.Heights
import CommandScript.Proofs.Grammar.Linearisation

/-! Resolving a program is running it without its last step. The code in front of a call holds no other call, so it
runs the same whether or not calls are dispatched; and it leaves the operands of the call and nothing else. -/

namespace CommandScript.Evaluation

open Text Syntax Code Machine
open Grammar (isCall leaves_arguments exists_invocations)

/-! ### Runs in both modes -/

section Modes

variable {σ : Type} (w : Surroundings σ)

/-- Only a call is treated differently when nothing is to be dispatched. -/
theorem execute_eq_of_isCall_eq_false {i : Instruction} (hi : isCall i = false) (onlyResolve isLast : Bool)
    (held : Stacks String) : execute w onlyResolve isLast i held = execute w false isLast i held := by
  unfold execute
  cases hop : i.operation <;> simp [isCall, hop] at hi ⊢

/-- Code without calls runs the same in both modes. Either it is executed to its end, or the run fails in it. -/
theorem reaches_or_fails (s : σ) {code : List Instruction} (hcalls : ∀ i ∈ code, isCall i = false)
    (rest : List Instruction) :
    (∃ held t, ∀ onlyResolve, Reaches w onlyResolve s code rest held t) ∨
      ∃ failure t, ∀ onlyResolve, run w onlyResolve (code ++ rest) s = (.error failure, t) := by
  induction code using List.reverseRecOn generalizing rest with
  | nil => exact .inl ⟨{}, s, fun _ => .start rest⟩
  | append_singleton code i ih =>
    rw [List.append_assoc, List.singleton_append]
    have hi : isCall i = false := hcalls i (by simp)
    obtain ⟨held, t, h⟩ | hfails := ih (fun j hj => hcalls j (List.mem_append_left _ hj)) (i :: rest)
    · obtain ⟨operands, rfl, -, -⟩ := (h false).holds
      have hx : ∀ onlyResolve, execute w onlyResolve rest.isEmpty i (Stacks.holding operands) =
          execute w false rest.isEmpty i (Stacks.holding operands) := fun onlyResolve =>
        execute_eq_of_isCall_eq_false w hi onlyResolve rest.isEmpty _
      have fails {raised : Failure} {t' : σ} (hfailed : execute w false rest.isEmpty i (Stacks.holding operands)
            (w.observe (.stepping code.length (i :: rest) (Stacks.holding operands)) t) = (.error raised, t')) :
          ∀ onlyResolve, run w onlyResolve (code ++ i :: rest) s = (.error (raised.attributeTo i), t') := by
        intro onlyResolve
        rw [(h onlyResolve).run_eq, runFrom, hx, hfailed]
      obtain ⟨-, hshort⟩ | ⟨below, taken, -, -, heffect⟩ := execute_holding w false rest.isEmpty i operands
        (w.observe (.stepping code.length (i :: rest) (Stacks.holding operands)) t)
      · exact .inr ⟨_, _, fails hshort⟩
      · generalize hresult : execute w false rest.isEmpty i (Stacks.holding operands)
          (w.observe (.stepping code.length (i :: rest) (Stacks.holding operands)) t) = result at heffect
        cases heffect with
        | moved values t' =>
          exact .inl ⟨_, t', fun onlyResolve => (h onlyResolve).step (by rw [hx, hresult])⟩
        | resolved _ _ hmode => cases hmode
        | failed raised t' => exact .inr ⟨_, t', fails hresult⟩
    · exact .inr hfails

end Modes

/-! ### Programs -/

section Programs

variable {σ : Type} (w : Surroundings σ)

/-- Hands on the results of the command that ended a program. -/
def conclude (steps : Nat) (results : List String) : Task σ (List String) := fun s =>
  (.ok results, w.observe (.completed steps) (w.observe (.finished steps ⟨results, [results.length]⟩) s))

/-- A call that stands alone behind its operands is resolved to them. -/
theorem runFrom_resolve (step : Nat) (operands : List (Operand String)) (name : String) (place : Location) (s : σ) :
    runFrom w true step (Stacks.holding operands) [.call name operands.length place] s =
      (.ok operands.flatten,
        w.observe (.stepping step [.call name operands.length place] (Stacks.holding operands)) s) := by
  have hpop := Stacks.pop_covered [] operands (n := operands.length) (Int.toNat_natCast _)
  simp only [List.nil_append] at hpop
  simp [runFrom, execute, Instruction.call, hpop]

/-- Or it is dispatched with them, and its results are those of the run. -/
theorem runFrom_dispatch (step : Nat) (operands : List (Operand String)) (name : String) (place : Location) (s : σ) :
    runFrom w false step (Stacks.holding operands) [.call name operands.length place] s =
      andThen (command w place name operands.flatten) (conclude w (step + 1))
        (w.observe (.stepping step [.call name operands.length place] (Stacks.holding operands)) s) := by
  have hpop := Stacks.pop_covered [] operands (n := operands.length) (Int.toNat_natCast _)
  simp only [List.nil_append] at hpop
  rw [andThen, ← dispatch_eq_command w (.call name operands.length place) rfl rfl]
  simp only [runFrom, execute, Instruction.call, hpop]
  generalize dispatch w _ operands.flatten _ = dispatched
  obtain ⟨_ | results, t⟩ := dispatched
  · rfl
  · simp [conclude, mapError_ok, Stacks.push, total]

/-- Running a program is resolving it, dispatching its command with the arguments that this comes to, and handing on
the results. -/
theorem run_ofInvocation (text : List Char) (file : Option String) (i : Invocation) :
    let p := Program.ofInvocation text file i
    run w false p.instructions =
      andThen (run w true p.instructions) fun arguments =>
        andThen (command w (i.start.inFile file) p.name arguments) (conclude w p.instructions.length) := by
  intro p
  have hleaves := leaves_arguments file i.arguments
  have hp : p.instructions =
      argumentsCode file i.arguments ++ [.call i.name (widths i.arguments) (i.start.inFile file)] := rfl
  funext s
  rw [andThen, hp]
  obtain ⟨held, t, h⟩ | ⟨failure, t, h⟩ := reaches_or_fails w s hleaves.calls
    [.call i.name (widths i.arguments) (i.start.inFile file)]
  · obtain ⟨operands, rfl, hlength, -⟩ := (h true).holds
    have hwidth : widths i.arguments = operands.length := by
      have hheight := hleaves.height
      omega
    rw [(h true).run_eq, (h false).run_eq, hwidth, runFrom_resolve, runFrom_dispatch, List.length_append,
      List.length_singleton]
    rfl
  · rw [h, h]

/-- Resolving is dispatching without the last step. A program that was read from a script, run in whatever surroundings,
does what it does when it is only resolved, and fails if that fails. Then its command is dispatched at its place, once
and with just the arguments that it was resolved to; a refusal that is not fatal counts as no results, and any other
failure is that of the run. The results of the command are those of the run. -/
theorem run_resolves_then_dispatches {text : List Char} {file : Option String} {ps : List Program}
    (hread : programsOfText text file = .ok ps) {p : Program} (hp : p ∈ ps) :
    ∃ place, p.location = some place ∧
      run w false p.instructions =
        andThen (run w true p.instructions) fun arguments =>
          andThen (command w place p.name arguments) (conclude w p.instructions.length) := by
  obtain ⟨invocations, -, rfl⟩ := exists_invocations hread
  obtain ⟨i, -, rfl⟩ := List.mem_map.1 hp
  exact ⟨i.start.inFile file, rfl, run_ofInvocation w text file i⟩

/-- A command that is dispatched on the way, and the one that ends the program, each hand back their arguments. -/
theorem run_resolves_then_dispatches_nested :
    let w : Surroundings (List (List String)) :=
      ⟨fun _ _ _ => none, fun _ arguments s => (.ok (.texts arguments), arguments :: s), fun _ s => s⟩
    let place : Location := ⟨1, 1, none⟩
    let p : Program := ⟨"a", [.literal "c" (some ⟨1, 7, none⟩), .unquoted 1 none (some ⟨1, 7, none⟩),
      .commandReference "b" 1 (some ⟨1, 5, none⟩), .unquoted 1 (some .values) (some ⟨1, 5, none⟩), .call "a" 1 place],
      place, some "a($\x7bb(c)\x7d)"⟩
    programsOfText "a($\x7bb(c)\x7d)".toList none = .ok [p] ∧
      run w true p.instructions [] = (.ok ["c"], [["c"]]) ∧
      run w false p.instructions [] = andThen (command w place "a" ["c"]) (conclude w 5) [["c"]] := by
  intro w place p
  have hread : programsOfText "a($\x7bb(c)\x7d)".toList none = .ok [p] := by decide +kernel
  have hresolve : run w true p.instructions [] = (.ok ["c"], [["c"]]) := by rfl
  obtain ⟨_, hplace, hrun⟩ := run_resolves_then_dispatches w hread (List.mem_singleton_self p)
  obtain rfl := Option.some.inj hplace
  exact ⟨hread, hresolve, by rw [hrun, andThen, hresolve]; rfl⟩

end Programs

end CommandScript.Evaluation
