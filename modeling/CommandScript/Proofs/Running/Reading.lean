import CommandScript.Proofs.Session.Recency
import CommandScript.Proofs.Running.Agreement
import CommandScript.Proofs.Running.Effects

/-! What a session keeps of the scripts it reads while it works. Scripts are read when they are run or expanded, and
when a host command defines a function; no other step touches them, whatever programs it evaluates. So at every moment
the session keeps what it would keep had it only read those scripts. -/

namespace CommandScript.Running

open Text Syntax Code Command Machine Session

variable {κ ω : Type}

/-! ### Scripts that are read -/

/-- The script that the first step of a job reads, if it reads one. -/
def Job.key? : Job ω → Option ScriptKey
  | .runScript source file _ _ => some ⟨file, source⟩
  | .expandScript source file => some ⟨file, source⟩
  | .act _ _ (.ask (.define name _ body) _) => some ⟨some ("<function:" ++ name ++ ">"), .text body⟩
  | _ => none

def Stage.key? : Stage ω → Option ScriptKey
  | .doing job => job.key?
  | .reporting _ => none

section Read

variable (cfg : Config) (host : Host κ ω)

/-- The scripts that are read within so many steps. -/
def Moment.keysRead : Nat → Moment κ ω → List ScriptKey
  | 0, _ => []
  | n + 1, m => m.stage.key?.toList ++ (m.next? cfg host).elim [] (keysRead n)

end Read

variable {cfg : Config} {host : Host κ ω}

/-! ### Steps -/

theorem settles_cache {e : Evaluation} {s t : State κ ω} {stage : Stage ω} (h : e.Settles s stage t) :
    t.cache = s.cache := by
  cases h <;> rfl

theorem cache_replaceFrame (s : State κ ω) (frame : Frame) : (s.replaceFrame frame).cache = s.cache := by
  unfold State.replaceFrame
  split <;> rfl

theorem cache_defineText (cfg : Config) (s : State κ ω) (name : String) (parameters : List String) (body : String) :
    (s.defineText cfg name parameters body).2.cache =
      (s.cache.read cfg.parseCacheSize ⟨some ("<function:" ++ name ++ ">"), .text body⟩).2 := by
  have hparse : (s.parse cfg (.text body) (some ("<function:" ++ name ++ ">"))).2.cache =
      (s.cache.read cfg.parseCacheSize ⟨some ("<function:" ++ name ++ ">"), .text body⟩).2 := rfl
  unfold State.defineText
  split <;> rename_i heq <;> rw [heq] at hparse <;> exact hparse

theorem start_cache (job : Job ω) (s : State κ ω) :
    (start cfg host s job).2.2.cache = s.cache.readAll cfg.parseCacheSize job.key?.toList := by
  have parsed (source : Source) (file : Option String) :
      (s.parse cfg source file).2.cache = (s.cache.read cfg.parseCacheSize ⟨file, source⟩).2 := rfl
  cases job with
  | runScript source file verbosity statistics =>
    have hparse := parsed source file
    simp only [start, startScript]
    split <;> rename_i heq <;> rw [heq] at hparse
    · exact hparse
    · split <;> exact hparse
  | expandScript source file =>
    have hparse := parsed source file
    simp only [start, startExpansion]
    split <;> rename_i heq <;> rw [heq] at hparse
    · exact hparse
    · split <;> exact hparse
  | evaluateHere | execute => rfl
  | evaluate p frame onlyResolve =>
    simp only [start, startEvaluation]
    split
    · rfl
    · split <;> rfl
  | goOn e =>
    rcases goOn_cases cfg host e s with ⟨i, rest, arguments, record, _, _, h⟩ | ⟨stage, t, h, hsettles⟩
    · rw [start, h]
      rfl
    · rw [start, h]
      exact settles_cache hsettles
  | invoke bound name arguments =>
    simp only [start, startInvocation]
    split
    · rfl
    · exact cache_replaceFrame ..
    · split <;> rfl
    · rfl
  | act bound arguments action =>
    cases action with
    | finish | fail | update => rfl
    | ask request next =>
      cases request with
      | run | measure | expand | lookup => rfl
      | forward skip =>
        simp only [start, act]
        split <;> rfl
      | define name parameters body => exact cache_defineText cfg s name parameters body

theorem resume_cache {w : Waiting ω} {r : Report} {s t : State κ ω} {stage : Stage ω}
    (h : resume cfg host s w r = some (stage, t)) : t.cache = s.cache := by
  have hcommand := h
  unfold resume at h
  split at h
  · exact settles_cache (resume_command hcommand)
  all_goals first
    | (cases h; rfl)
    | (cases h; exact cache_replaceFrame ..)
    | cases h

/-- A step reads the script of its job, if its job has one, and touches no other that is kept. -/
theorem next?_cache {m m' : Moment κ ω} (h : m.next? cfg host = some m') :
    m'.state.cache = m.state.cache.readAll cfg.parseCacheSize m.stage.key?.toList := by
  obtain ⟨stage, waiting, s⟩ := m
  match stage, waiting with
  | .doing job, waiting =>
    obtain rfl := Option.some.inj h
    exact start_cache job s
  | .reporting report, [] => cases h
  | .reporting report, w :: waiting =>
    obtain ⟨_, hr, rfl⟩ := Option.map_eq_some_iff.1 h
    exact resume_cache hr

/-! ### Runs -/

theorem after_cache (n : Nat) {m m' : Moment κ ω} (h : m.after cfg host n = some m') :
    m'.state.cache = m.state.cache.readAll cfg.parseCacheSize (m.keysRead cfg host n) := by
  induction n generalizing m with
  | zero =>
    cases h
    rfl
  | succ n ih =>
    obtain ⟨next, hnext, hafter⟩ := Option.bind_eq_some_iff.1 h
    rw [ih hafter, next?_cache hnext, ← ParseCache.readAll_append, Moment.keysRead, hnext]
    rfl

theorem Ends.cache {job : Job ω} {s t : State κ ω} {report : Report} (h : Ends cfg host job s report t) :
    ∃ n, t.cache = s.cache.readAll cfg.parseCacheSize (Moment.keysRead cfg host n ⟨.doing job, [], s⟩) := by
  obtain ⟨n, hn⟩ := Leads.after h
  exact ⟨n, after_cache n hn⟩

/-- A session keeps the scripts it has read last. Take any scripts, some of which cannot be read, in the order in which
they were asked for. Kept are those that could be read, each once and at its last use, as many as there is room for,
and each with the programs it is read as. The next one is read as if nothing were kept, and if that fails, all stays as
it was. What is executed, expanded or defined from the programs that are kept changes nothing about this: at every
moment of a run the scripts it has itself read so far simply follow the others. -/
theorem keeps_recent_scripts (cfg : Config) (host : Host κ ω) (keys : List ScriptKey) :
    let cacheAfter := ({} : ParseCache).readAll cfg.parseCacheSize
    ((cacheAfter keys).entries.map Prod.fst = (ParseCache.recent keys).rtake cfg.parseCacheSize ∧
      (cacheAfter keys).entries.length = min cfg.parseCacheSize (ParseCache.recent keys).length ∧
      ∀ entry ∈ (cacheAfter keys).entries, readScript entry.1 = .ok entry.2.programs) ∧
    ∀ s : State κ ω, s.cache = cacheAfter keys →
      (∀ source file, let r := s.parse cfg source file
        r.1.map Script.programs = readScript ⟨file, source⟩ ∧
          r.2 = { s with cache := cacheAfter (keys ++ [⟨file, source⟩]) } ∧
          ∀ failure, r.1 = .error failure → r.2 = s) ∧
      (∀ job n m, let first : Moment κ ω := ⟨.doing job, [], s⟩
        first.after cfg host n = some m → m.state.cache = cacheAfter (keys ++ first.keysRead cfg host n)) ∧
      let ev := evaluatorAt cfg host s.depth
      (∀ source file verbosity statistics, ∃ n,
        (runScript cfg ev source file verbosity statistics s).2.2.cache = cacheAfter (keys ++
          Moment.keysRead cfg host n ⟨.doing (.runScript source file verbosity statistics), [], s⟩)) ∧
      (∀ source file, ∃ n, (expandScript cfg ev source file s).2.cache =
        cacheAfter (keys ++ Moment.keysRead cfg host n ⟨.doing (.expandScript source file), [], s⟩)) ∧
      (∀ ps frame, ∃ n, (Session.execute ev ps frame s).2.2.cache =
        cacheAfter (keys ++ Moment.keysRead cfg host n ⟨.doing (.execute [] ps frame), [], s⟩)) := by
  intro cacheAfter
  have hfaithful : (cacheAfter keys).Faithful := (ParseCache.kept_readAll cfg.parseCacheSize keys).faithful
  refine ⟨⟨ParseCache.keys_readAll cfg.parseCacheSize keys, ParseCache.length_readAll cfg.parseCacheSize keys,
    hfaithful⟩, fun s hs => ?_⟩
  have hev := evaluatorAt_isKeeping cfg host s.depth
  have hcarries : Carries cfg host s.depth (evaluatorAt cfg host s.depth) := carries_evaluatorAt s.depth
  have more (read : List ScriptKey) : s.cache.readAll cfg.parseCacheSize read = cacheAfter (keys ++ read) := by
    rw [hs]
    exact (ParseCache.readAll_append ..).symm
  have ended {job : Job ω} {report : Report} {t : State κ ω} (h : Ends cfg host job s report t) :
      ∃ n, t.cache = cacheAfter (keys ++ Moment.keysRead cfg host n ⟨.doing job, [], s⟩) := by
    obtain ⟨n, hn⟩ := h.cache
    exact ⟨n, hn.trans (more _)⟩
  refine ⟨fun source file => ⟨?_, ?_, fun failure hfailure => ?_⟩, fun job n m hm => ?_, ?_, ?_, ?_⟩
  · have hread := hfaithful.read_eq cfg.parseCacheSize ⟨file, source⟩
    rw [← hs] at hread
    exact hread
  · exact congrArg (fun cache => { s with cache }) (more [⟨file, source⟩])
  · have hread := hfaithful.read_eq cfg.parseCacheSize ⟨file, source⟩
    have hsame : (s.cache.read cfg.parseCacheSize ⟨file, source⟩).1 = .error failure := hfailure
    rw [← hs, hsame] at hread
    have hkept := hfaithful.read_error cfg.parseCacheSize hread.symm
    rw [← hs] at hkept
    exact congrArg (fun read => { s with cache := read.2 }) hkept
  · exact (after_cache n hm).trans (more _)
  · exact fun source file verbosity statistics =>
      ended (ends_runScript hev hcarries source file verbosity statistics s rfl)
  · exact fun source file => ended (ends_expandScript hcarries source file s rfl)
  · exact fun ps frame => ended (ends_execute hev hcarries [] ps frame s rfl)

/-- With room for two scripts, the one used least recently gives way, and one that cannot be read does not count. -/
theorem keeps_recent_scripts_two :
    let cfg : Config := { parseCacheSize := 2 }
    let key (text : String) : ScriptKey := ⟨none, .text text⟩
    let keys := [key "", key "set(a 1)", key "", key "set(", key "f()"]
    let s : State Empty Unit :=
      { State.initial [] [] [] () with cache := ({} : ParseCache).readAll cfg.parseCacheSize keys }
    s.cache.entries.map Prod.fst = [key "", key "f()"] ∧
      (s.parse cfg (.text "set(") none).2 = s ∧
      (s.parse cfg (.text "") none).1.map Script.programs = .ok [] ∧
      (s.parse cfg (.text "set(a 1)") none).2.cache.entries.map Prod.fst = [key "f()", key "set(a 1)"] := by
  intro cfg key keys s
  obtain ⟨⟨hkeys, -, -⟩, h⟩ := keeps_recent_scripts cfg (fun key : Empty => key.elim : Host Empty Unit) keys
  obtain ⟨hparse, -⟩ := h s rfl
  obtain ⟨hempty, -, -⟩ := hparse (.text "") none
  obtain ⟨hfailed, -, hsame⟩ := hparse (.text "set(") none
  refine ⟨?_, ?_, ?_, ?_⟩
  · rw [hkeys]
    decide +kernel
  · cases hread : (s.parse cfg (.text "set(") none).1 with
    | error failure => exact hsame failure hread
    | ok script =>
      have hbad : (readScript (key "set(")).isOk = false := by decide +kernel
      rw [← hfailed, hread] at hbad
      cases hbad
  · rw [hempty]
    decide +kernel
  · decide +kernel

end CommandScript.Running
