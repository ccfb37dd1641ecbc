import CommandScript.Session.State
import CommandScript.Proofs.Grammar.Relabelling
import CommandScript.Proofs.Session.BlockEnds

/-! Ways to look at a session that leave something out. A view may not tell some names of commands apart, as long as
they are the same in lower case, may not see the texts of programs, how a session is watched, or which scripts it has
kept. What two runs have in common is that they look the same in some view. -/

namespace CommandScript

open Text Syntax Code Command Machine Session

/-- How names of commands and texts of programs look, whether statistics and warnings of undefined variables are seen,
and whether the scripts that were kept are. -/
structure View where
  name : String → String
  source : Option String → Option String
  watches : Bool
  remembers : Bool
  lowerCase_name : ∀ n, lowerCase (name n) = lowerCase n
  name_name : ∀ n, name (name n) = name n
  source_source : ∀ s, source (source s) = source s

attribute [simp] View.lowerCase_name View.name_name View.source_source

/-- The other names that commands have in a view. -/
abbrev View.relabelling (v : View) : Relabelling := { name := v.name }

variable (v : View)

@[simp] theorem View.map_name_map_name (n : Option String) : (n.map v.name).map v.name = n.map v.name := by
  cases n with
  | none => rfl
  | some n => exact congrArg some (v.name_name n)

/-! ### Programs -/

/-- As it looks in a view. -/
def Code.Instruction.seenBy (i : Instruction) : Instruction := i.relabel v.name id

def Code.Program.seenBy (p : Program) : Program :=
  { p with
    name := v.name p.name
    instructions := p.instructions.map (Instruction.seenBy v)
    source := v.source p.source }

/-! ### Failures -/

def Syntax.Fault.seenBy (f : Fault) : Fault :=
  { f with cause := match f.cause with
    | .unexpected found expected => .unexpected (found.map (Lexeme.relabel v.relabelling)) expected
    | .unclosedFunction keyword => .unclosedFunction (v.name keyword)
    | cause => cause }

def Cause.seenBy : Cause → Cause
  | fault f => fault (f.seenBy v)
  | unknownCommand name => unknownCommand (v.name name)
  | nestingLimit limit depth program => nestingLimit limit depth (v.name program)
  | stackExhausted depth program => stackExhausted depth (v.name program)
  | nonTextResults command => nonTextResults (v.name command)
  | unknownInstruction i => unknownInstruction (i.seenBy v)
  | cause => cause

def Failure.seenBy (f : Failure) : Failure := ⟨f.cause.seenBy v, f.name.map v.name, f.location⟩

/-- A result, with a failure as it looks. -/
def View.result {α : Type} (result : Except Failure α) : Except Failure α := result.mapError (Failure.seenBy v)

/-! ### Commands -/

section Commands

variable {κ ω : Type}

def Session.Implementation.seenBy : Implementation κ → Implementation κ
  | .script f => .script { f with body := f.body.map (Program.seenBy v) }
  | implementation => implementation

def Command.Entry.seenBy (e : Entry (Implementation κ)) : Entry (Implementation κ) :=
  { e with body := e.body.seenBy v }

def Command.Library.seenBy (l : Library (Implementation κ)) : Library (Implementation κ) :=
  { l with commands := l.commands.map fun (key, entry) => (key, entry.seenBy v) }

/-- What a host command does, with the failures that it raises as they look. -/
def Session.Action.seenBy : Action ω → Action ω
  | .finish value => .finish value
  | .fail failure => .fail (failure.seenBy v)
  | .update change next => .update change next.seenBy
  | .ask request next => .ask request fun result => (next result).seenBy

/-- What is done about a failure looks the same as what is done about the failure as it looks. -/
def Session.GoesOnAlike (next : Except Failure (List String) → Action ω) (failure : Failure) : Prop :=
  (next (.error failure)).seenBy v = (next (.error (failure.seenBy v))).seenBy v

end Commands

variable {v}

/-! ### Instructions and programs -/

namespace Code.Instruction

@[simp] theorem operation_seenBy (i : Instruction) : (i.seenBy v).operation = i.operation := rfl

@[simp] theorem expansion_seenBy (i : Instruction) : (i.seenBy v).expansion = i.expansion := rfl

@[simp] theorem location_seenBy (i : Instruction) : (i.seenBy v).location = i.location := Option.map_id_apply

theorem name_seenBy_of_isCommand {i : Instruction} (h : i.isCommand) : (i.seenBy v).name = i.name.map v.name := if_pos h

theorem seenBy_of_not_isCommand {i : Instruction} (h : ¬i.isCommand) : i.seenBy v = i := by
  simp [seenBy, relabel, h]

/-- A name that was seen looks the same again, whether or not it is that of a command. -/
@[simp] theorem map_name_seenBy (i : Instruction) : (i.seenBy v).name.map v.name = i.name.map v.name := by
  by_cases h : i.isCommand
  · rw [name_seenBy_of_isCommand h, v.map_name_map_name]
  · rw [seenBy_of_not_isCommand h]

@[simp] theorem seenBy_seenBy (i : Instruction) : (i.seenBy v).seenBy v = i.seenBy v := by
  obtain ⟨operation, name, expansion, location⟩ := i
  cases operation <;> simp [seenBy, relabel, isCommand, Function.comp_def]

theorem name_getD_seenBy (i : Instruction) (fallback : String) :
    v.name ((i.seenBy v).name.getD fallback) = v.name (i.name.getD fallback) := by
  by_cases h : i.isCommand
  · rw [name_seenBy_of_isCommand h]
    cases i.name with
    | none => rfl
    | some n => exact v.name_name n
  · rw [seenBy_of_not_isCommand h]

end Code.Instruction

namespace Code.Program

@[simp] theorem location_seenBy (p : Program) : (p.seenBy v).location = p.location := rfl

@[simp] theorem seenBy_seenBy (p : Program) : (p.seenBy v).seenBy v = p.seenBy v := by
  simp [seenBy, Function.comp_def]

@[simp] theorem opensFunction_seenBy (p : Program) : (p.seenBy v).opensFunction = p.opensFunction := by
  simp [opensFunction, seenBy]

@[simp] theorem closesFunction_seenBy (p : Program) : (p.seenBy v).closesFunction = p.closesFunction := by
  simp [closesFunction, seenBy]

theorem unclosedFunction_seenBy (p : Program) :
    (p.seenBy v).unclosedFunction.seenBy v = p.unclosedFunction.seenBy v := by
  unfold unclosedFunction
  rw [location_seenBy]
  cases p.location with
  | none => rfl
  | some place => simp [Fault.seenBy, seenBy]

end Code.Program

theorem splitBlock_map_seenBy (ps : List Program) (depth : Nat) :
    splitBlock depth (ps.map (Program.seenBy v)) =
      (splitBlock depth ps).map fun (body, rest) => (body.map (Program.seenBy v), rest.map (Program.seenBy v)) := by
  induction ps generalizing depth with
  | nil => rfl
  | cons p ps ih =>
    have hdepth : depthBehind depth (p.seenBy v) = depthBehind depth p := by simp [depthBehind]
    rw [List.map_cons, splitBlock_cons, splitBlock_cons, hdepth, ih, Program.closesFunction_seenBy]
    split
    · rfl
    · cases splitBlock (depthBehind depth p) ps <;> rfl

/-! ### Failures -/

namespace Syntax

@[simp] theorem Lexeme.relabel_relabel (lexeme : Lexeme) :
    (lexeme.relabel v.relabelling).relabel v.relabelling = lexeme.relabel v.relabelling := by
  cases lexeme <;> simp [relabel]

@[simp] theorem Fault.seenBy_seenBy (f : Fault) : (f.seenBy v).seenBy v = f.seenBy v := by
  obtain ⟨cause, location⟩ := f
  cases cause <;> simp [seenBy, Function.comp_def]

@[simp] theorem Fault.isOpenEnded_seenBy (f : Fault) : (f.seenBy v).isOpenEnded = f.isOpenEnded := by
  obtain ⟨cause, location⟩ := f
  cases cause <;> simp [seenBy, isOpenEnded]

@[simp] theorem Fault.kind_seenBy (f : Fault) : (f.seenBy v).kind = f.kind := by
  have hcause : (f.seenBy v).cause = .unplacedFunction ↔ f.cause = .unplacedFunction := by
    obtain ⟨cause, location⟩ := f
    cases cause <;> simp [seenBy]
  simp only [kind, hcause, isOpenEnded_seenBy]

end Syntax

namespace Cause

@[simp] theorem seenBy_seenBy (c : Cause) : (c.seenBy v).seenBy v = c.seenBy v := by
  cases c <;> simp [seenBy]

@[simp] theorem isRefusal_seenBy (c : Cause) : (c.seenBy v).isRefusal = c.isRefusal := by
  cases c <;> rfl

@[simp] theorem isFatal_seenBy (c : Cause) : (c.seenBy v).isFatal = c.isFatal := by
  cases c <;> rfl

/-- The kind of a failure is seen. -/
@[simp] theorem kind_seenBy (c : Cause) : (c.seenBy v).kind = c.kind := by
  cases c with
  | fault f => simp [seenBy, kind]
  | _ => rfl

/-- A refusal that is not fatal has its own words. -/
theorem seenBy_of_isFatal {c : Cause} (h : c.isFatal = false) : c.seenBy v = c := by
  cases c with
  | rejected => rfl
  | _ => cases h

@[simp] theorem seenBy_eq_hostExhausted (c : Cause) : c.seenBy v = hostExhausted ↔ c = hostExhausted := by
  cases c <;> simp [seenBy]

end Cause

namespace Failure

variable {f g : Failure} {i : Instruction}

@[simp] theorem seenBy_seenBy (f : Failure) : (f.seenBy v).seenBy v = f.seenBy v := by
  simp [seenBy, Function.comp_def]

theorem seenBy_eq_iff : f.seenBy v = g.seenBy v ↔
    f.cause.seenBy v = g.cause.seenBy v ∧ f.name.map v.name = g.name.map v.name ∧ f.location = g.location := by
  simp [seenBy]

theorem isRefusal_eq_of_seenBy (h : f.seenBy v = g.seenBy v) : f.cause.isRefusal = g.cause.isRefusal := by
  rw [← f.cause.isRefusal_seenBy, (seenBy_eq_iff.1 h).1, g.cause.isRefusal_seenBy]

theorem isFatal_eq_of_seenBy (h : f.seenBy v = g.seenBy v) : f.cause.isFatal = g.cause.isFatal := by
  rw [← f.cause.isFatal_seenBy, (seenBy_eq_iff.1 h).1, g.cause.isFatal_seenBy]

theorem attributeTo_seenBy (h : f.seenBy v = g.seenBy v) (i : Instruction) :
    (f.attributeTo i).seenBy v = (g.attributeTo (i.seenBy v)).seenBy v := by
  obtain ⟨hcause, -, hlocation⟩ := seenBy_eq_iff.1 h
  unfold attributeTo
  rw [hlocation]
  split
  · simp [seenBy_eq_iff, hcause]
  · exact h

theorem completeFrom_seenBy (h : f.seenBy v = g.seenBy v) (i : Instruction) :
    (f.completeFrom i).seenBy v = (g.completeFrom (i.seenBy v)).seenBy v := by
  obtain ⟨hcause, hname, hlocation⟩ := seenBy_eq_iff.1 h
  refine seenBy_eq_iff.2 ⟨hcause, ?_, ?_⟩
  · have hor (m n : Option String) : (m <|> n).map v.name = (m.map v.name <|> n.map v.name) := by cases m <;> rfl
    simp only [completeFrom, hor, hname, Instruction.map_name_seenBy]
  · simp only [completeFrom, hlocation, Instruction.location_seenBy]

end Failure

/-! ### Results -/

namespace View

variable {α β : Type} {x y : Except Failure α}

theorem result_error {f g : Failure} (h : f.seenBy v = g.seenBy v) :
    v.result (.error f : Except Failure α) = v.result (.error g) := congrArg Except.error h

@[simp] theorem result_result (x : Except Failure α) : v.result (v.result x) = v.result x := by
  cases x with
  | ok a => rfl
  | error f => exact result_error f.seenBy_seenBy

/-- Results that look the same are the same values, or failures that look the same. -/
theorem result_cases (h : v.result x = v.result y) :
    (∃ a, x = .ok a ∧ y = .ok a) ∨ ∃ f g, x = .error f ∧ y = .error g ∧ f.seenBy v = g.seenBy v := by
  cases x with
  | ok a =>
    cases y with
    | ok b => exact .inl ⟨a, rfl, by rw [Except.ok.inj h]⟩
    | error g => cases h
  | error f =>
    cases y with
    | ok b => cases h
    | error g => exact .inr ⟨f, g, rfl, rfl, Except.error.inj h⟩

theorem result_map (h : v.result x = v.result y) (f : α → β) : v.result (x.map f) = v.result (y.map f) := by
  obtain ⟨a, rfl, rfl⟩ | ⟨f, g, rfl, rfl, hseen⟩ := result_cases h
  · rfl
  · exact result_error hseen

end View

/-! ### Libraries -/

theorem Bindings.get?_map {α β : Type} (f : α → β) (b : Bindings α) (name : String) :
    Bindings.get? (b.map fun (key, value) => (key, f value)) name = (b.get? name).map f := by
  induction b with
  | nil => rfl
  | cons entry b ih =>
    obtain ⟨key, value⟩ := entry
    simp only [List.map_cons, get?]
    split
    · rfl
    · exact ih

theorem Bindings.insert_map {α β : Type} (f : α → β) (b : Bindings α) (name : String) (value : α) :
    Bindings.insert (b.map fun (key, value) => (key, f value)) name (f value) =
      (b.insert name value).map fun (key, value) => (key, f value) := by
  induction b with
  | nil => rfl
  | cons entry b ih =>
    obtain ⟨key, old⟩ := entry
    simp only [List.map_cons, insert]
    split
    · rfl
    · exact congrArg _ ih

namespace Command.Library

variable {κ : Type} {l l' : Library (Implementation κ)}

theorem find?_seenBy (l : Library (Implementation κ)) (name : String) :
    (l.seenBy v).find? name = (l.find? name).map (Entry.seenBy v) :=
  Bindings.get?_map (Entry.seenBy v) l.commands (l.key name)

theorem key_view_name (l : Library (Implementation κ)) (name : String) : l.key (v.name name) = l.key name := by
  unfold key
  rw [v.lowerCase_name]

/-- Libraries that look the same have commands under a name that look the same. -/
theorem find?_of_seenBy (h : l.seenBy v = l'.seenBy v) (name : String) :
    (l.find? name).map (Entry.seenBy v) = (l'.find? (v.name name)).map (Entry.seenBy v) := by
  have hkey : l'.find? (v.name name) = l'.find? name := by
    unfold find?
    rw [key_view_name]
  rw [hkey, ← find?_seenBy, h, find?_seenBy]

theorem add_seenBy (l : Library (Implementation κ)) (name : String) (summary : Summary) (body : Implementation κ) :
    (l.add name summary body).seenBy v = (l.seenBy v).add name summary (body.seenBy v) :=
  congrArg (Library.mk · l.aliases)
    (Bindings.insert_map (Entry.seenBy v) l.commands (lowerCase name) ⟨name, some summary, body⟩).symm

end Command.Library

/-! ### Host commands -/

@[simp] theorem Session.Action.seenBy_seenBy {ω : Type} (action : Action ω) :
    (action.seenBy v).seenBy v = action.seenBy v := by
  induction action with
  | finish => rfl
  | fail failure => exact congrArg Action.fail failure.seenBy_seenBy
  | update change next ih => exact congrArg (Action.update change) ih
  | ask request next ih => exact congrArg (Action.ask request) (funext ih)

end CommandScript
