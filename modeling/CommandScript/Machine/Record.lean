import CommandScript.Event
import CommandScript.Machine.Run
import CommandScript.Machine.Trace

/-! What is kept of the notices of the machine: events and statistics. -/

namespace CommandScript.Machine

open Code

/-- How many commands were dispatched and how many instructions executed. A number that was never counted is absent. -/
structure Statistics where
  calls : Option Nat := none
  steps : Option Nat := none
  deriving DecidableEq

namespace Statistics

def addCall (s : Statistics) : Statistics := { s with calls := some (s.calls.getD 0 + 1) }

def addSteps (s : Statistics) (n : Nat) : Statistics := { s with steps := some (s.steps.getD 0 + n) }

end Statistics

/-- What is of interest to whoever watches. -/
structure Watch where
  /-- `1` traces dispatches, `2` all steps; any other number but `0` traces the end of each program only. -/
  verbosity : Nat := 0
  warnUndefined : Bool := false
  collectsDiagnostics : Bool := true

/-- Events and the diagnostics among them, last first, and statistics, if any are kept. -/
structure Record where
  events : List Event := []
  diagnostics : List Diagnostic := []
  statistics : Option Statistics := none

namespace Record

def add (r : Record) (e : Event) : Record := { r with events := e :: r.events }

def diagnose (r : Record) (severity : Severity) (location : Option Text.Location) (message : String) : Record :=
  let d : Diagnostic := ⟨severity, location, message⟩
  { r with events := .diagnosed d :: r.events, diagnostics := d :: r.diagnostics }

/-- Whether the step before an instruction is traced. -/
def isTraced (verbosity : Nat) (i : Option Instruction) : Bool :=
  match verbosity, i with
  | 2, _ => true
  | 1, some i => i.operation.code = 3 || i.operation.code = 6
  | _, _ => false

/-- The record with a trace line that is only begun, where a line is due: before an instruction or, without one, at the
end of a program. -/
def beginTrace (w : Watch) (r : Record) (step : Nat) (i : Option Instruction) : Option Record :=
  if (if i.isSome then isTraced w.verbosity i else 0 < w.verbosity) then some (r.add (.printed (stepLabel 3 step)))
  else none

/-- Keeps what is of interest in a notice. -/
def observe (w : Watch) (r : Record) : Notice → Record
  | .stepping step program st =>
    if isTraced w.verbosity program.head? then r.add (.printed (traceLine step program st.values st.counts)) else r
  | .finished step st =>
    if 0 < w.verbosity then r.add (.printed (traceLine (max 1 step) [] st.values st.counts)) else r
  | .dispatching command arguments => r.add (.dispatched command arguments)
  | .recovered location message =>
    if w.collectsDiagnostics then r.diagnose .warning location message else r.add (.unheard location message)
  | .undefined location name =>
    if w.warnUndefined && w.collectsDiagnostics then
      r.diagnose .warning location ("Variable `" ++ name ++ "` is not defined, expanded to empty string.")
    else r
  | .dispatched => { r with statistics := r.statistics.map Statistics.addCall }
  | .completed n => { r with statistics := r.statistics.map (·.addSteps n) }

end Record

end CommandScript.Machine
