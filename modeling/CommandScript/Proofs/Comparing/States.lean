import CommandScript.Session.Evaluate
import CommandScript.Proofs.Comparing.Instructions
import CommandScript.Proofs.Session.Cache

/-! Sessions side by side. Two states are alike if all that is seen of them is the same; what a session reads, defines,
calls and writes is then alike as well. -/

namespace CommandScript.Session

open Text Syntax Code Command Machine

variable {v : View} {κ ω : Type}

/-- Settings that make no difference to what is seen. -/
structure Config.Alike (v : View) (cfg cfg' : Config) : Prop where
  maxDepth : cfg.maxDepth = cfg'.maxDepth
  parseCacheSize : cfg.parseCacheSize = cfg'.parseCacheSize
  processEnvironment : cfg.processEnvironment = cfg'.processEnvironment
  warnUninitialized : v.watches → cfg.warnUninitialized = cfg'.warnUninitialized

theorem Config.Alike.refl (cfg : Config) : cfg.Alike v cfg := ⟨rfl, rfl, rfl, fun _ => rfl⟩

/-- The same scripts are kept, unless that is not seen; then both keep what would be read anew. -/
structure ParseCache.Alike (v : View) (c c' : ParseCache) : Prop where
  same : v.remembers → c = c'
  faithful : ¬v.remembers → c.Faithful ∧ c'.Faithful

/-- States of which the same is seen, with the same statistics if those count. -/
structure State.Alike (v : View) (counted : Bool) (s t : State κ ω) : Prop where
  store : s.store = t.store
  top : s.top = t.top
  library : s.library.seenBy v = t.library.seenBy v
  cache : s.cache.Alike v t.cache
  frames : s.frames = t.frames
  depth : s.depth = t.depth
  record : s.record.Alike v counted t.record
  host : s.host = t.host

/-! ### Scripts that were read -/

namespace ParseCache.Alike

variable {c c' c'' : ParseCache}

theorem symm (h : c.Alike v c') : c'.Alike v c := ⟨fun hv => (h.same hv).symm, fun hv => (h.faithful hv).symm⟩

theorem trans (h : c.Alike v c') (h' : c'.Alike v c'') : c.Alike v c'' :=
  ⟨fun hv => (h.same hv).trans (h'.same hv), fun hv => ⟨(h.faithful hv).1, (h'.faithful hv).2⟩⟩

/-- Whichever scripts are kept, a script is read the same. -/
theorem read (h : c.Alike v c') (capacity : Nat) (key : ScriptKey) :
    (c.read capacity key).1.map Script.programs = (c'.read capacity key).1.map Script.programs ∧
      (c.read capacity key).2.Alike v (c'.read capacity key).2 := by
  by_cases hv : v.remembers
  · rw [h.same hv]
    exact ⟨rfl, fun _ => rfl, (absurd hv ·)⟩
  · obtain ⟨hc, hc'⟩ := h.faithful hv
    exact ⟨(hc.read_eq capacity key).trans (hc'.read_eq capacity key).symm, (absurd · hv),
      fun _ => ⟨hc.read key, hc'.read key⟩⟩

end ParseCache.Alike

/-! ### States -/

variable (v) in
/-- Scripts whose programs look the same, or failures that do. -/
structure ReadAlike (counted : Bool) (x y : Except Failure Script × State κ ω) : Prop where
  script : v.result (x.1.map fun script => script.programs.map (Program.seenBy v)) =
    v.result (y.1.map fun script => script.programs.map (Program.seenBy v))
  state : x.2.Alike v counted y.2

theorem ReadAlike.of_programs {counted : Bool} {x y : Except Failure Script × State κ ω}
    (h : v.result ((x.1.map Script.programs).map (List.map (Program.seenBy v))) =
      v.result ((y.1.map Script.programs).map (List.map (Program.seenBy v))))
    (hstate : x.2.Alike v counted y.2) : ReadAlike v counted x y := by
  have hmap (x : Except Failure Script) : x.map (fun script => script.programs.map (Program.seenBy v)) =
      (x.map Script.programs).map (List.map (Program.seenBy v)) := by cases x <;> rfl
  exact ⟨by rw [hmap, hmap, h], hstate⟩

theorem ReadAlike.cases {counted : Bool} {x y : Except Failure Script × State κ ω} (h : ReadAlike v counted x y) :
    (∃ script script' s t, x = (.ok script, s) ∧ y = (.ok script', t) ∧
      script.programs.map (Program.seenBy v) = script'.programs.map (Program.seenBy v) ∧ s.Alike v counted t) ∨
      ∃ f g s t, x = (.error f, s) ∧ y = (.error g, t) ∧ f.seenBy v = g.seenBy v ∧ s.Alike v counted t := by
  obtain ⟨x | script, s⟩ := x
  · obtain ⟨y | script, t⟩ := y
    · exact .inr ⟨x, y, s, t, rfl, rfl, Except.error.inj h.script, h.state⟩
    · cases h.script
  · obtain ⟨y | script', t⟩ := y
    · cases h.script
    · exact .inl ⟨script, script', s, t, rfl, rfl, Except.ok.inj h.script, h.state⟩

namespace State.Alike

variable {counted : Bool} {s t u : State κ ω} {cfg cfg' : Config}

theorem symm (h : s.Alike v counted t) : t.Alike v counted s :=
  ⟨h.store.symm, h.top.symm, h.library.symm, h.cache.symm, h.frames.symm, h.depth.symm, h.record.symm, h.host.symm⟩

theorem trans (h : s.Alike v counted t) (h' : t.Alike v counted u) : s.Alike v counted u :=
  ⟨h.store.trans h'.store, h.top.trans h'.top, h.library.trans h'.library, h.cache.trans h'.cache,
    h.frames.trans h'.frames, h.depth.trans h'.depth, h.record.trans h'.record, h.host.trans h'.host⟩

theorem topFrame (h : s.Alike v counted t) : s.topFrame = t.topFrame := by
  unfold State.topFrame
  rw [h.top]

theorem currentFrame (h : s.Alike v counted t) : s.currentFrame = t.currentFrame := by
  unfold State.currentFrame
  rw [h.frames, h.topFrame]

theorem setRecord (h : s.Alike v counted t) {r r' : Record} {counted' : Bool} (hr : r.Alike v counted' r') :
    State.Alike v counted' { s with record := r } { t with record := r' } :=
  ⟨h.store, h.top, h.library, h.cache, h.frames, h.depth, hr, h.host⟩

/-- How a session is traced is not seen, and statistics are kept for whom they count. -/
theorem setWatch (h : s.Alike v counted t) (verbosity verbosity' : Nat) {statistics statistics' : Option Statistics}
    {counted' : Bool} (hs : counted' → statistics = statistics') : State.Alike v counted'
      { s with verbosity, record := { s.record with statistics } }
      { t with verbosity := verbosity', record := { t.record with statistics := statistics' } } :=
  ⟨h.store, h.top, h.library, h.cache, h.frames, h.depth, h.record.setStatistics hs, h.host⟩

theorem replaceFrame (h : s.Alike v counted t) (frame : Frame) :
    (s.replaceFrame frame).Alike v counted (t.replaceFrame frame) := by
  unfold State.replaceFrame
  rw [← h.frames]
  split
  · exact h
  · exact ⟨h.store, h.top, h.library, h.cache, rfl, h.depth, h.record, h.host⟩

theorem parse (h : s.Alike v counted t) (hcfg : cfg.Alike v cfg') (source : Source) (file : Option String) :
    ReadAlike v counted (s.parse cfg source file) (t.parse cfg' source file) := by
  obtain ⟨hscript, hcache⟩ := h.cache.read cfg.parseCacheSize ⟨file, source⟩
  rw [hcfg.parseCacheSize] at hscript hcache
  refine .of_programs ?_ ⟨h.store, h.top, h.library, ?_, h.frames, h.depth, h.record, h.host⟩
  · simp only [State.parse, hcfg.parseCacheSize, hscript]
  · simpa only [State.parse, hcfg.parseCacheSize] using hcache

theorem define (h : s.Alike v counted t) (name : String) (parameters : List String) {body body' : List Program}
    (hbody : body.map (Program.seenBy v) = body'.map (Program.seenBy v)) :
    (s.define name parameters body).Alike v counted (t.define name parameters body') := by
  refine ⟨h.store, h.top, ?_, h.cache, h.frames, h.depth, h.record.add ?_, h.host⟩
  · simp only [State.define, Library.add_seenBy, h.library, Implementation.seenBy, hbody]
  · have hlength : body.length = body'.length := by simpa using congrArg List.length hbody
    rw [hlength]

/-- A text is read for a function or cannot be read, the same from both states. -/
theorem defineText (h : s.Alike v counted t) (hcfg : cfg.Alike v cfg') (name : String) (parameters : List String)
    (body : String) : (s.defineText cfg name parameters body).1 = (t.defineText cfg' name parameters body).1 ∧
      (s.defineText cfg name parameters body).2.Alike v counted (t.defineText cfg' name parameters body).2 := by
  let key : ScriptKey := ⟨some ("<function:" ++ name ++ ">"), .text body⟩
  have hstate := (h.parse hcfg key.source key.file).state
  have hscript := (h.cache.read cfg.parseCacheSize key).1
  rw [hcfg.parseCacheSize] at hscript
  unfold State.defineText State.parse at *
  simp only [hcfg.parseCacheSize] at hstate ⊢
  generalize s.cache.read cfg'.parseCacheSize key = x at hscript hstate ⊢
  generalize t.cache.read cfg'.parseCacheSize key = y at hscript hstate ⊢
  obtain ⟨f | script, c⟩ := x
  · obtain ⟨g | script', c'⟩ := y
    · cases hscript
      exact ⟨rfl, hstate⟩
    · cases hscript
  · obtain ⟨g | script', c'⟩ := y
    · cases hscript
    · exact ⟨rfl, hstate.define name parameters (congrArg (List.map (Program.seenBy v)) (Except.ok.inj hscript))⟩

/-! ### Commands -/

/-- A command is found under names that look the same, or under neither. -/
theorem callee (h : s.Alike v counted t) (name : String) (given : Nat) :
    v.result ((s.callee name given).map (Implementation.seenBy v)) =
      v.result ((t.callee (v.name name) given).map (Implementation.seenBy v)) := by
  have hfind := Library.find?_of_seenBy h.library name
  unfold State.callee Library.get
  cases hs : s.library.find? name with
  | none =>
    rw [hs] at hfind
    rw [Option.map_eq_none_iff.1 hfind.symm]
    exact View.result_error (by simp [Failure.seenBy, Cause.seenBy])
  | some entry =>
    rw [hs] at hfind
    obtain ⟨entry', ht, hentry⟩ := Option.map_eq_some_iff.1 hfind.symm
    have harity : entry.checkArity given = entry'.checkArity given := by
      have harity := congrArg (Entry.checkArity · given) hentry
      exact harity.symm
    rw [ht]
    simp only [harity]
    cases entry'.checkArity given with
    | error failure => rfl
    | ok _ => exact congrArg (Except.ok ∘ Entry.body) hentry.symm

theorem enterFunction (h : s.Alike v counted t) (f : ScriptFunction) (caller : Frame) (arguments : List String) :
    (enterFunction f caller arguments s).1 = (Session.enterFunction f caller arguments t).1 ∧
      (Session.enterFunction f caller arguments s).2.Alike v counted
        (Session.enterFunction f caller arguments t).2 := by
  unfold Session.enterFunction
  rw [h.store]
  exact ⟨rfl, rfl, h.top, h.library, h.cache, h.frames, h.depth, h.record, h.host⟩

end State.Alike

/-! ### Built-in commands -/

/-- The same frame and the same variables, and records that are alike. -/
structure Desk.Alike (v : View) (counted : Bool) (d d' : Desk) : Prop where
  frame : d.frame = d'.frame
  store : d.store = d'.store
  record : d.record.Alike v counted d'.record

theorem Builtin.perform_agrees {counted : Bool} {d d' : Desk} (h : d.Alike v counted d') (checked : Bool)
    (b : Builtin) (arguments : List String) :
    Agree v (Desk.Alike v counted) (b.perform checked arguments d) (b.perform checked arguments d') := by
  obtain ⟨frame, store, record⟩ := d
  obtain ⟨_, _, record'⟩ := d'
  obtain ⟨rfl, rfl, hrecord⟩ := h
  cases b with
  | set =>
    simp only [perform, Desk.set, Desk.writeEnvironment, Desk.writeVariable]
    repeat' split
    all_goals first
      | exact ⟨rfl, rfl, rfl, hrecord⟩
      | exact ⟨rfl, rfl, rfl, hrecord.diagnose ..⟩
  | unset =>
    simp only [perform, Desk.unset]
    repeat' split
    all_goals exact ⟨rfl, rfl, rfl, hrecord⟩
  | message =>
    simp only [perform, Desk.message]
    split
    · exact ⟨rfl, rfl, rfl, hrecord⟩
    · exact ⟨rfl, rfl, rfl, hrecord.diagnose ..⟩
    · exact ⟨rfl, rfl, rfl, hrecord.diagnose ..⟩
    · exact ⟨rfl, rfl, rfl, hrecord.add rfl⟩
    · exact ⟨rfl, rfl, rfl, hrecord.add rfl⟩
    · exact ⟨rfl, rfl, rfl, hrecord.add rfl⟩
  | returnValues => exact ⟨rfl, rfl, rfl, hrecord⟩
  | function | endFunction => exact ⟨rfl, rfl, rfl, hrecord⟩

theorem State.Alike.performBuiltin {counted : Bool} {s t : State κ ω} (h : s.Alike v counted t) {cfg cfg' : Config}
    (hcfg : cfg.Alike v cfg') (b : Builtin) (frame : Frame) (arguments : List String) :
    Agree v (State.Alike v counted) (performBuiltin cfg b frame arguments s)
      (Session.performBuiltin cfg' b frame arguments t) := by
  have hdesk : Desk.Alike v counted ⟨frame, s.store, s.record⟩ ⟨frame, t.store, t.record⟩ := ⟨rfl, h.store, h.record⟩
  have hperform := Builtin.perform_agrees hdesk cfg.processEnvironment b arguments
  simp only [Session.performBuiltin, ← hcfg.processEnvironment]
  generalize b.perform cfg.processEnvironment arguments ⟨frame, s.store, s.record⟩ = x at hperform ⊢
  generalize b.perform cfg.processEnvironment arguments ⟨frame, t.store, t.record⟩ = y at hperform ⊢
  obtain ⟨hresult, hframe, hstore, hrecord⟩ := hperform
  have hreplaced := h.replaceFrame x.2.frame
  rw [hframe] at hreplaced ⊢
  exact ⟨hresult, hstore, hreplaced.top, hreplaced.library, hreplaced.cache, hreplaced.frames, hreplaced.depth, hrecord,
    hreplaced.host⟩

end CommandScript.Session
