import CommandScript.Session.Builtin
import CommandScript.Session.Host
import CommandScript.Session.ParseCache

/-! The state of a session: its variables, its commands, the scripts it has read and the frames it is executing. -/

namespace CommandScript.Session

open Text Code Command Machine

/-- What is fixed for a session. -/
structure Config where
  maxDepth : Int := 1000
  warnUninitialized : Bool := false
  parseCacheSize : Nat := 256
  /-- Whether the environment is that of a process, which refuses some names. -/
  processEnvironment : Bool := false

/-- A function that a script defines. -/
structure ScriptFunction where
  name : String
  parameters : List String
  body : List Program

/-- How a command is carried out. -/
inductive Implementation (κ : Type) where
  | builtin (command : Builtin)
  | script (function : ScriptFunction)
  | host (key : κ)

/-- Frames are written innermost first. A script that is run sees the top-level scope only, whatever runs it. -/
structure State (κ ω : Type) where
  store : Store
  top : Scope
  library : Library (Implementation κ) := {}
  cache : ParseCache := {}
  frames : List Frame := []
  depth : Nat := 0
  verbosity : Nat := 0
  record : Record := {}
  host : ω

variable {κ ω : Type}

/-- The built-in commands. -/
def builtinLibrary : Library (Implementation κ) :=
  Builtin.all.foldl (fun l b => l.add b.name b.summary (.builtin b)) {}

/-- A session over given variables, cache and environment, with the built-in commands. -/
def State.initial (own cache environment : Bindings String) (host : ω) : State κ ω :=
  let (top, store) := Store.root { environment } own cache
  { store, top, library := builtinLibrary, host }

namespace State

/-- A frame at top level. -/
def topFrame (s : State κ ω) : Frame := { scope := s.top }

/-- The frame that commands are given. -/
def currentFrame (s : State κ ω) : Frame := s.frames.head?.getD s.topFrame

/-- Puts a changed frame back in the place of the innermost one. -/
def replaceFrame (s : State κ ω) (frame : Frame) : State κ ω :=
  match s.frames with
  | [] => s
  | _ :: outer => { s with frames := frame :: outer }

/-- Reads a script, or finds it among those read before. -/
def parse (cfg : Config) (source : Source) (file : Option String) : Task (State κ ω) Script := fun s =>
  let (script, cache) := s.cache.read cfg.parseCacheSize ⟨file, source⟩
  (script, { s with cache })

/-- Adds a function with a body that has been read. The summary of a function without a name calls it `call`. -/
def define (s : State κ ω) (name : String) (parameters : List String) (body : List Program) : State κ ω :=
  let shown := if name = "" then "call" else name
  { s with
    record := s.record.add (.defined name parameters body.length)
    library := s.library.add name ⟨shown, true, none, 0, ""⟩ (.script ⟨name, parameters, body⟩) }

/-- Adds a function whose body is a script. -/
def defineText (cfg : Config) (name : String) (parameters : List String) (body : String) :
    Task (State κ ω) (List String) := fun s =>
  match s.parse cfg (.text body) (some ("<function:" ++ name ++ ">")) with
  | (.ok script, s) => (.ok [], s.define name parameters script.programs)
  | (.error failure, s) => (.error failure, s)

/-- Adds a host command. A command without a name is shown under its fallback. -/
def register (s : State κ ω) (name fallback : String) (signature : Signature) (documentation : String)
    (key : κ) : State κ ω :=
  let shown := if name = "" then fallback else name
  { s with library := s.library.add name (signature.summary shown documentation) (.host key) }

def setVariable (s : State κ ω) (name value : String) : State κ ω :=
  { s with store := s.store.set s.top name value }

def getVariable (s : State κ ω) (name : String) : Option String := s.store.lookup s.top name

end State

end CommandScript.Session
