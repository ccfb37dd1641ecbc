import CommandScript.Proofs.Comparing.Watching
import CommandScript.Proofs.Running.Sequencing
import Mathlib.Logic.IsEmpty.Defs

/-! Which scripts are kept makes no difference to what is executed. Only host commands have scripts read while programs
are executed, so without them programs come to the same whatever is kept, and leave it as it is. -/

namespace CommandScript

open Text Syntax Code Command Machine Session

/-- The same state, with other scripts kept. -/
def Session.State.keeping {κ ω : Type} (s : State κ ω) (cache : ParseCache) : State κ ω := { s with cache }

namespace Running

variable {κ ω : Type}

/-- An evaluator that comes to the same whichever scripts are kept, and keeps them. -/
abbrev IsForgetful (ev : Evaluator κ ω) : Prop :=
  ∀ cache p frame onlyResolve s, ev p frame onlyResolve (s.keeping cache) =
    Prod.map id (Prod.map id (State.keeping · cache)) (ev p frame onlyResolve s)

variable {ev : Evaluator κ ω} (cache : ParseCache)

theorem replaceFrame_keeping (s : State κ ω) (frame : Frame) :
    (s.keeping cache).replaceFrame frame = (s.replaceFrame frame).keeping cache := by
  obtain ⟨_, _, _, _, frames, _, _, _, _⟩ := s
  cases frames <;> rfl

theorem performBuiltin_keeping (cfg : Config) (b : Builtin) (frame : Frame) (arguments : List String) (s : State κ ω) :
    performBuiltin cfg b frame arguments (s.keeping cache) =
      Prod.map id (State.keeping · cache) (performBuiltin cfg b frame arguments s) := by
  simp only [performBuiltin, replaceFrame_keeping]
  rfl

/-! ### Programs -/

section Programs

variable (hev : IsForgetful ev)
include hev

theorem executeFrom_keeping (results : List String) (ps : List Program) (frame : Frame) (s : State κ ω) :
    executeFrom ev results ps frame (s.keeping cache) =
      Prod.map id (Prod.map id (State.keeping · cache)) (executeFrom ev results ps frame s) := by
  fun_induction executeFrom ev results ps frame s with
  | case1 => rw [executeFrom]; rfl
  | case2 _ _ _ _ _ hret => rw [executeFrom_returned hret]; rfl
  | case3 _ _ _ _ _ hret hp hnone => rw [executeFrom_unclosed hret hp hnone]; rfl
  | case4 _ _ _ _ _ hret hp _ _ hsplit _ _ _ heval | case5 _ _ _ _ _ hret hp _ _ hsplit _ _ heval =>
    rw [executeFrom_block hret hp hsplit, hev, heval]
    rfl
  | case6 _ _ _ _ _ hret hp _ _ hsplit _ _ _ _ heval ih =>
    rw [executeFrom_block hret hp hsplit, hev, heval]
    exact ih
  | case7 _ _ _ _ _ hret hp _ _ _ heval ih =>
    rw [executeFrom_invocation hret hp, hev, heval]
    exact ih
  | case8 _ _ _ _ _ hret hp _ _ _ heval =>
    rw [executeFrom_invocation hret hp, hev, heval]
    rfl

theorem callFunction_keeping (f : ScriptFunction) (caller : Frame) (arguments : List String) (s : State κ ω) :
    callFunction ev f caller arguments (s.keeping cache) =
      Prod.map id (State.keeping · cache) (callFunction ev f caller arguments s) := by
  have hexecute := executeFrom_keeping cache hev [] f.body (enterFunction f caller arguments s).1
    (enterFunction f caller arguments s).2
  unfold callFunction
  split
  · rfl
  · have henter : enterFunction f caller arguments (s.keeping cache) =
        Prod.map id (State.keeping · cache) (enterFunction f caller arguments s) := rfl
    simp only [henter, Session.execute, Prod.map, id, hexecute]

theorem invokeWithin_keeping [IsEmpty κ] (cfg : Config) (host : Host κ ω) (bound : Nat) (name : String)
    (arguments : List String) (s : State κ ω) :
    invokeWithin cfg host ev bound name arguments (s.keeping cache) =
      Prod.map id (State.keeping · cache) (invokeWithin cfg host ev bound name arguments s) := by
  have hinvoke (forward : Nat → Task (State κ ω) (List String)) :
      invokeWith cfg host ev forward name arguments (s.keeping cache) =
        Prod.map id (State.keeping · cache) (invokeWith cfg host ev forward name arguments s) := by
    have hcallee : (s.keeping cache).callee name arguments.length = s.callee name arguments.length := rfl
    rw [invokeWith, invokeWith, hcallee]
    split
    · rfl
    · exact performBuiltin_keeping cache cfg _ _ arguments s
    · exact callFunction_keeping cache hev _ _ arguments s
    · rename_i key _
      exact isEmptyElim key
  cases bound with
  | zero => exact hinvoke _
  | succ bound => exact hinvoke _

theorem surroundings_keeping [IsEmpty κ] (cfg : Config) (host : Host κ ω) (scope : Scope) :
    (surroundings cfg host ev scope).Alike .unwatched (fun s t => t = s.keeping cache)
      (surroundings cfg host ev scope) where
  lookup := by
    rintro space name s _ rfl
    cases space <;> rfl
  invoke := by
    rintro name _ arguments s _ hname rfl
    obtain rfl : name = _ := by simpa using hname
    have hinvoke := invokeWithin_keeping cache hev cfg host arguments.length (name.getD "") arguments s
    simp only [surroundings, invoke]
    rw [hinvoke]
    generalize invokeWithin cfg host ev arguments.length (name.getD "") arguments s = x
    obtain ⟨failure | results, t⟩ := x
    · exact ⟨rfl, rfl⟩
    · exact ⟨rfl, rfl⟩
  observe := by
    rintro notice _ s _ hnotice rfl
    obtain rfl : notice = _ := by simpa using hnotice
    rfl

end Programs

theorem evaluator_isForgetful [IsEmpty κ] (cfg : Config) (host : Host κ ω) (remaining : Nat) :
    IsForgetful (evaluator cfg host remaining) := by
  induction remaining with
  | zero => exact fun _ _ _ _ _ => rfl
  | succ remaining ih =>
    intro cache p frame onlyResolve s
    let w := surroundings cfg host (evaluator cfg host remaining) frame.scope
    let inner : State κ ω := { s with frames := frame :: s.frames, depth := s.depth + 1 }
    let finished (x : Except Failure (List String) × State κ ω) : Except Failure (List String) × Frame × State κ ω :=
      (x.1.mapError (reportExhaustion x.2.depth p), x.2.currentFrame,
        { x.2 with frames := x.2.frames.tail, depth := x.2.depth - 1 })
    have hagree := runFrom_agrees (surroundings_keeping cache ih cfg host frame.scope) onlyResolve p.instructions 0 {}
      (s := inner) rfl
    rw [View.instruction_seenBy_unwatched, List.map_id] at hagree
    have hresult := hagree.result
    rw [View.result_unwatched, View.result_unwatched] at hresult
    have hrun : Machine.run w onlyResolve p.instructions (inner.keeping cache) =
        Prod.map id (State.keeping · cache) (Machine.run w onlyResolve p.instructions inner) :=
      Prod.ext hresult.symm hagree.state
    have hevaluator : evaluator cfg host (remaining + 1) p frame onlyResolve (s.keeping cache) =
        finished (Machine.run w onlyResolve p.instructions (inner.keeping cache)) := rfl
    rw [hevaluator, hrun]
    rfl

theorem evaluate_isForgetful [IsEmpty κ] (cfg : Config) (host : Host κ ω) :
    IsForgetful (Session.evaluate cfg host) := by
  intro cache p frame onlyResolve s
  unfold Session.evaluate
  split
  · rfl
  · exact evaluator_isForgetful cfg host _ cache p frame onlyResolve s

/-! ### Scripts -/

/-- A script that can be read is read, and at most other scripts are kept then. -/
theorem exists_parse {s : State κ ω} (hs : s.cache.Faithful) {source : Source} {file : Option String}
    {ps : List Program} (h : readScript ⟨file, source⟩ = .ok ps) (cfg : Config) :
    ∃ stamp cache, s.parse cfg source file = (.ok ⟨stamp, ps⟩, s.keeping cache) := by
  have hread := hs.read_eq cfg.parseCacheSize ⟨file, source⟩
  rw [h] at hread
  unfold State.parse
  cases hx : s.cache.read cfg.parseCacheSize ⟨file, source⟩ with
  | mk result cache =>
    rw [hx] at hread
    cases result with
    | error failure => cases hread
    | ok script =>
      obtain ⟨stamp, programs⟩ := script
      obtain rfl : programs = ps := Except.ok.inj hread
      exact ⟨stamp, cache, rfl⟩

/-- A script that cannot be read leaves a session as it is. -/
theorem parse_of_error {s : State κ ω} (hs : s.cache.Faithful) {source : Source} {file : Option String}
    {failure : Failure} (h : readScript ⟨file, source⟩ = .error failure) (cfg : Config) :
    s.parse cfg source file = (.error failure, s) := by
  unfold State.parse ParseCache.read
  cases hfind : s.cache.find? ⟨file, source⟩ with
  | none => simp only [h]
  | some script =>
    rw [hs.find? hfind] at h
    cases h

/-- A script that is read is executed, watched in a way of its own or as the session is. -/
theorem runScript_of_parse {cfg : Config} {s t : State κ ω} {source : Source} {file : Option String} {script : Script}
    (hparse : s.parse cfg source file = (.ok script, t)) (verbosity : Nat) (statistics : Option Statistics) :
    runScript cfg ev source file verbosity statistics s =
      if t.depth = 0 ∨ statistics.isSome then
        let inner := t.watchedAs verbosity statistics
        let x := Session.execute ev script.programs inner.topFrame inner
        (x.1, x.2.2.record.statistics, x.2.2.watchedAs t.verbosity t.record.statistics)
      else
        let x := Session.execute ev script.programs t.topFrame t
        (x.1, none, x.2.2) := by
  rw [runScript, hparse]
  rfl

/-- Scripts with the same programs are run alike, and at most other scripts are kept then. -/
theorem runScript_keeping (hev : IsForgetful ev) (cfg : Config) {s : State κ ω} (hs : s.cache.Faithful)
    {source source' : Source} {file : Option String} {ps : List Program} (h : readScript ⟨file, source⟩ = .ok ps)
    (h' : readScript ⟨file, source'⟩ = .ok ps) (verbosity : Nat) (statistics : Option Statistics) :
    ∃ cache, runScript cfg ev source' file verbosity statistics s =
      Prod.map id (Prod.map id (State.keeping · cache)) (runScript cfg ev source file verbosity statistics s) := by
  obtain ⟨stamp, cache, hparse⟩ := exists_parse hs h cfg
  obtain ⟨stamp', cache', hparse'⟩ := exists_parse hs h' cfg
  refine ⟨cache', ?_⟩
  have hexecute (t : State κ ω) : Session.execute ev ps (t.keeping cache').topFrame (t.keeping cache') =
      Prod.map id (Prod.map id (State.keeping · cache')) (Session.execute ev ps t.topFrame t) :=
    executeFrom_keeping cache' hev [] ps t.topFrame t
  have hkeeping : s.keeping cache' = (s.keeping cache).keeping cache' := rfl
  have hwatched (t : State κ ω) : (t.keeping cache').watchedAs verbosity statistics =
      (t.watchedAs verbosity statistics).keeping cache' := rfl
  rw [runScript_of_parse hparse', runScript_of_parse hparse, hkeeping]
  generalize s.keeping cache = t
  by_cases hcounts : t.depth = 0 ∨ statistics.isSome
  · rw [if_pos hcounts, if_pos (show (t.keeping cache').depth = 0 ∨ _ from hcounts), hwatched]
    simp only [hexecute]
    rfl
  · rw [if_neg hcounts, if_neg (show ¬((t.keeping cache').depth = 0 ∨ _) from hcounts)]
    simp only [hexecute]
    rfl

end Running

end CommandScript
