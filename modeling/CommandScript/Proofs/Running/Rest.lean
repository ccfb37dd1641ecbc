import CommandScript.Proofs.Running.Agreement
import CommandScript.Proofs.Running.Effects

/-! Coming back to rest. While commands run there are as many frames as evaluations, and whatever is asked of a session,
from outside or by a host command, ends with depth, frames, tracing and statistics as they were. A session that is only
used from outside is therefore at rest whenever nothing runs in it. -/

namespace CommandScript.Session

open Text Syntax Code Command Machine

variable {κ ω : Type}

namespace State

/-- A state with as many frames as evaluations under way. -/
def IsLevel (s : State κ ω) : Prop := s.depth = s.frames.length

/-- Nothing runs, nothing is traced and nothing is counted. -/
structure AtRest (s : State κ ω) : Prop where
  depth : s.depth = 0
  frames : s.frames = []
  verbosity : s.verbosity = 0
  statistics : s.record.statistics = none

/-- The state with nothing under way, whatever there was. -/
def rested (s : State κ ω) : State κ ω :=
  { s with depth := 0, frames := [], verbosity := 0, record := { s.record with statistics := none } }

theorem AtRest.rested_eq {s : State κ ω} (h : s.AtRest) : s.rested = s := by
  obtain ⟨store, top, library, cache, frames, depth, verbosity, ⟨events, diagnostics, statistics⟩, host⟩ := s
  obtain ⟨hdepth, hframes, hverbosity, hstatistics⟩ := h
  simp only at hdepth hframes hverbosity hstatistics
  simp only [rested, hdepth, hframes, hverbosity, hstatistics]

theorem AtRest.initial (own cache environment : Bindings String) (host : ω) :
    (State.initial own cache environment host : State κ ω).AtRest := ⟨rfl, rfl, rfl, rfl⟩

theorem AtRest.keepsOuter {s t : State κ ω} (h : s.AtRest) (hk : s.KeepsOuter t) : t.AtRest := by
  obtain ⟨result, returned, hframes⟩ := hk.frames
  refine ⟨hk.depth.trans h.depth, ?_, hk.verbosity.trans h.verbosity, ?_⟩
  · rw [hframes, h.frames]
    rfl
  · have hs := hk.statistics
    rw [h.statistics] at hs
    cases hs' : t.record.statistics with
    | none => rfl
    | some counted =>
      rw [hs'] at hs
      cases hs

end State

/-! ### From outside -/

/-- What may be done with a session in which nothing runs. -/
inductive Usage (κ : Type) where
  | run (source : Source) (file : Option String) (verbosity : Nat) (statistics : Option Statistics)
  | expand (source : Source) (file : Option String)
  | execute (ps : List Program)
  | evaluate (p : Program) (onlyResolve : Bool)
  | invoke (name : String) (arguments : List String)
  | parse (source : Source) (file : Option String)
  | define (name : String) (parameters : List String) (body : String)
  | register (name fallback : String) (signature : Signature) (documentation : String) (key : κ)
  | setVariable (name value : String)
  | changeLibrary (change : Library (Implementation κ) → Library (Implementation κ))
  | clearDiagnostics

def Usage.perform (cfg : Config) (host : Host κ ω) (s : State κ ω) : Usage κ → State κ ω
  | run source file verbosity statistics => (s.run cfg host source file verbosity statistics).2.2
  | expand source file => (s.expand cfg host source file).2
  | execute ps => (s.execute cfg host ps).2
  | evaluate p onlyResolve => (s.evaluate cfg host p onlyResolve).2
  | invoke name arguments => (s.invoke cfg host name arguments).2
  | parse source file => (s.parse cfg source file).2
  | define name parameters body => (s.defineText cfg name parameters body).2
  | register name fallback signature documentation key => s.register name fallback signature documentation key
  | setVariable name value => s.setVariable name value
  | changeLibrary change => { s with library := change s.library }
  | clearDiagnostics => { s with record := { s.record with diagnostics := [] } }

theorem Usage.perform_keepsOuter (cfg : Config) (host : Host κ ω) (s : State κ ω) (usage : Usage κ) :
    s.KeepsOuter (usage.perform cfg host s) := by
  have hev := evaluate_isKeeping cfg host
  cases usage with
  | run source file verbosity statistics => exact (runScript_keeps hev cfg source file verbosity statistics s).outer
  | expand source file => exact expandScript_keeps hev cfg source file s
  | execute ps => exact (executeFrom_keeps hev [] ps s.topFrame s).outer
  | evaluate p onlyResolve => exact evaluateHere_keeps hev p onlyResolve s
  | invoke name arguments => exact invokeWithin_keeps hev cfg host arguments.length name arguments s
  | parse source file => exact (s.keeps_parse cfg source file).outer
  | define name parameters body => exact (s.keeps_defineText cfg name parameters body).outer
  | register | setVariable | changeLibrary | clearDiagnostics =>
    exact State.Keeps.outer ⟨⟨rfl, rfl, .refl _⟩, rfl⟩

theorem Usage.performAll_atRest (cfg : Config) (host : Host κ ω) (usages : List (Usage κ)) (s : State κ ω)
    (h : s.AtRest) : (usages.foldl (Usage.perform cfg host) s).AtRest := by
  induction usages generalizing s with
  | nil => exact h
  | cons usage usages ih => exact ih _ (h.keepsOuter (usage.perform_keepsOuter cfg host s))

end CommandScript.Session

namespace CommandScript.Running

open Text Syntax Code Command Machine Session

variable {κ ω : Type} {cfg : Config} {host : Host κ ω}

/-! ### While commands run -/

theorem next?_isLevel {m m' : Moment κ ω} (h : m.next? cfg host = some m') (hm : m.state.IsLevel) :
    m'.state.IsLevel := by
  have hlevel : m.state.depth = m.state.frames.length := hm
  unfold State.IsLevel
  cases next?_changes h with
  | stay change hframes hdepth | invoke _ _ _ _ change hframes hdepth =>
    rw [hframes, hdepth, List.length_modifyHead]
    exact hlevel
  | evaluate _ _ _ _ _ hframes hdepth =>
    rw [hframes, hdepth, List.length_cons, hlevel]
  | finish hframes hdepth =>
    rw [hframes, hdepth, List.length_tail, hlevel]

theorem Leads.isLevel {m m' : Moment κ ω} (h : Leads cfg host m m') (hm : m.state.IsLevel) : m'.state.IsLevel := by
  induction h with
  | refl => exact hm
  | tail _ hstep ih => exact next?_isLevel hstep ih

/-! ### Afterwards -/

/-- A script with statistics of its own, or at top level, leaves those that were kept before untouched. -/
theorem runScript_statistics (cfg : Config) (host : Host κ ω) (source : Source) (file : Option String)
    (verbosity : Nat) (statistics : Option Statistics) (s : State κ ω) (h : s.depth = 0 ∨ statistics.isSome) :
    (runScript cfg (evaluatorAt cfg host s.depth) source file verbosity statistics s).2.2.record.statistics =
      s.record.statistics := by
  have hp := s.keeps_parse cfg source file
  have hsame : (s.parse cfg source file).2.record = s.record := rfl
  unfold runScript
  split <;> rename_i heq <;> rw [heq] at hp hsame
  · exact congrArg Record.statistics hsame
  · rename_i script t
    have ht : t.depth = 0 ∨ statistics.isSome := h.imp_left hp.depth.trans
    have hstatistics : t.record.statistics = s.record.statistics := congrArg Record.statistics hsame
    rw [if_pos ht]
    exact hstatistics

/-- A session comes back to rest. Whatever is run, expanded, executed or evaluated in any state, with however many
evaluations under way, and however it ends, depth, frames and tracing are as before, and statistics are the same ones;
only the innermost frame may have been given results by those that evaluate in it. Whatever a job has led to so far,
there are as many frames as evaluations. So a session that was only used from outside is at rest, and what it does next
is what it would do in a state in which nothing had ever been under way. -/
theorem comes_to_rest (cfg : Config) (host : Host κ ω) :
    (∀ s : State κ ω, let ev := evaluatorAt cfg host s.depth
      (∀ source file verbosity statistics, let t := (runScript cfg ev source file verbosity statistics s).2.2
        s.Keeps t ∧ (s.depth = 0 ∨ statistics.isSome → t.record.statistics = s.record.statistics)) ∧
      (∀ source file, s.KeepsOuter (expandScript cfg ev source file s).2) ∧
      (∀ ps frame, s.Keeps (Session.execute ev ps frame s).2.2) ∧
      (∀ p frame onlyResolve, s.Keeps (ev p frame onlyResolve s).2.2) ∧
      ∀ p onlyResolve, s.KeepsOuter (evaluateHere ev p onlyResolve s).2) ∧
    (∀ (job : Job ω) (s : State κ ω) m, s.depth = s.frames.length → Leads cfg host ⟨.doing job, [], s⟩ m →
      m.state.depth = m.state.frames.length) ∧
    ∀ (own cache environment : Bindings String) (own' : ω) (usages : List (Usage κ)),
      let s := usages.foldl (Usage.perform cfg host) (State.initial own cache environment own')
      s.AtRest ∧ ∀ source file verbosity statistics,
        s.run cfg host source file verbosity statistics = s.rested.run cfg host source file verbosity statistics := by
  refine ⟨fun s => ?_, fun job s m hs h => h.isLevel hs, fun own cache environment own' usages => ?_⟩
  · have hev := evaluatorAt_isKeeping cfg host s.depth
    refine ⟨fun source file verbosity statistics => ?_, fun source file => expandScript_keeps hev cfg source file s,
      fun ps frame => executeFrom_keeps hev [] ps frame s, fun p frame onlyResolve => hev.state p frame onlyResolve s,
      fun p onlyResolve => evaluateHere_keeps hev p onlyResolve s⟩
    exact ⟨runScript_keeps hev cfg source file verbosity statistics s,
      runScript_statistics cfg host source file verbosity statistics s⟩
  · have hrest := Usage.performAll_atRest cfg host usages _ (.initial own cache environment own')
    exact ⟨hrest, fun source file verbosity statistics => by rw [hrest.rested_eq]⟩

end CommandScript.Running
