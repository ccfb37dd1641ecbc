import CommandScript.Proofs.Running.Agreement

/-! Every run ends. No step looks at how many there have been, and functions may call, define and redefine one another
as they like; it is the bound on how deep evaluations nest that leaves only finitely many steps. -/

namespace CommandScript.Running

open Text Syntax Code Command Machine Session

variable {κ ω : Type} {cfg : Config} {host : Host κ ω}

/-- What ends, ends for good. -/
theorem Ends.after {job : Job ω} {s t : State κ ω} {report : Report} (h : Ends cfg host job s report t) :
    ∃ n, Moment.after cfg host n ⟨.doing job, [], s⟩ = some ⟨.reporting report, [], t⟩ ∧
      Moment.after cfg host (n + 1) ⟨.doing job, [], s⟩ = none := by
  obtain ⟨n, hn⟩ := Leads.after h
  refine ⟨n, hn, ?_⟩
  rw [Moment.after_succ, hn]
  rfl

/-- A script that is run in any state, at top level or by a host command, is over after finitely many steps. It ends
with the results or the failure, the statistics and the state that running it has in one go. -/
theorem runScript_ends (cfg : Config) (host : Host κ ω) (source : Source) (file : Option String) (verbosity : Nat)
    (statistics : Option Statistics) (s : State κ ω) :
    let r := runScript cfg (evaluatorAt cfg host s.depth) source file verbosity statistics s
    let first : Moment κ ω := ⟨.doing (.runScript source file verbosity statistics), [], s⟩
    (∃ n, first.after cfg host n = some ⟨.reporting (.script r.1 r.2.1), [], r.2.2⟩ ∧
      first.after cfg host (n + 1) = none) ∧
    (s.depth = 0 → s.run cfg host source file verbosity statistics = r) := by
  refine ⟨(ends_runScript (evaluatorAt_isKeeping cfg host s.depth) (carries_evaluatorAt s.depth) source file verbosity
    statistics s rfl).after, fun h => ?_⟩
  rw [h]
  rfl

end CommandScript.Running
