import CommandScript.Proofs.Evaluation.Direct
import CommandScript.Proofs.Evaluation.Stacks

/-! The machine agrees with direct evaluation. Code of a tree, run on any stacks and in front of any other code,
leaves one operand for each sub-expression it was made from, and does to the surroundings what evaluating the tree
does. The surroundings of the two need not be equal, only related by something that the machine's reports on its own
steps do not change; so what is traced or counted on the way makes no difference. -/

namespace CommandScript.Machine

variable {σ σ' : Type}

/-- Whether a notice is about the machine itself, and not about variables and commands. -/
def Notice.isOwnStep : Notice → Bool
  | .stepping .. | .finished .. | .completed _ => true
  | .dispatching .. | .recovered .. | .undefined .. | .dispatched => false

/-- Surroundings that keep a history of all notices. What the machine tells of its own steps goes nowhere else. -/
def Surroundings.recorded (w : Surroundings σ) : Surroundings (σ × List Notice) where
  lookup space name s := w.lookup space name s.1
  invoke name arguments s :=
    let (reply, s') := w.invoke name arguments s.1
    (reply, (s', s.2))
  observe notice s := (if notice.isOwnStep then s.1 else w.observe notice s.1, s.2 ++ [notice])

/-- Surroundings that behave alike in related states, where the first may also be told of steps. -/
structure Follows (w' : Surroundings σ') (w : Surroundings σ) (R : σ' → σ → Prop) : Prop where
  lookup : ∀ space name {s' s}, R s' s → w'.lookup space name s' = w.lookup space name s
  invoke : ∀ name arguments {s' s}, R s' s →
    (w'.invoke name arguments s').1 = (w.invoke name arguments s).1 ∧
      R (w'.invoke name arguments s').2 (w.invoke name arguments s).2
  observe : ∀ notice {s' s}, R s' s → notice.isOwnStep = false → R (w'.observe notice s') (w.observe notice s)
  step : ∀ notice {s' s}, R s' s → notice.isOwnStep = true → R (w'.observe notice s') s

end CommandScript.Machine

namespace CommandScript.Evaluation

open Text Syntax Code Machine

variable {σ σ' α β γ : Type}

theorem andThen_yield (a : α) (k : α → Task σ β) : andThen (yield a) k = k a := rfl

theorem andThen_yield_id (m : Task σ α) : andThen m yield = m := by
  funext s
  simp only [andThen]
  rcases m s with ⟨_ | _, _⟩ <;> rfl

theorem andThen_assoc (m : Task σ α) (k : α → Task σ β) (l : β → Task σ γ) :
    andThen (andThen m k) l = andThen m fun a => andThen (k a) l := by
  funext s
  simp only [andThen]
  rcases m s with ⟨_ | _, _⟩ <;> rfl

/-! ### Code that computes -/

theorem mapError_error {α : Type} (f : Failure → Failure) (failure : Failure) :
    (Except.error failure : Except Failure α).mapError f = .error (f failure) := rfl

theorem mapError_ok {α : Type} (f : Failure → Failure) (a : α) :
    (Except.ok a : Except Failure α).mapError f = .ok a := rfl

/-- Dispatching from an instruction is dispatching from its place, once the failure is attributed. -/
theorem dispatch_eq_command (w : Surroundings σ) (i : Instruction) {name : String} {place : Location}
    (hn : i.name = some name) (hp : i.location = some place) (arguments : List String) (s : σ) :
    ((dispatch w i arguments s).1.mapError (Failure.attributeTo i), (dispatch w i arguments s).2) =
      command w place name arguments s := by
  simp only [dispatch, command, Instruction.commandLabel, hn, hp, Option.getD_some]
  rcases w.invoke name arguments (w.observe (.dispatching name arguments) s) with ⟨failure | results | _, t⟩
  · cases hr : failure.cause.isRefusal
    · simp [mapError_error, hr, blame, Failure.attributeTo, hn, hp]
    · cases hf : failure.cause.isFatal
      · simp [mapError_ok, hr, hf, Failure.completeFrom]
      · simp [mapError_error, hr, hf, blame, Failure.attributeTo, Failure.completeFrom, hn, hp]
  · rfl
  · simp [mapError_error, Failure.attributeTo, hn, hp]

section Runs

variable (w' : Surroundings σ') (R : σ' → σ → Prop) (onlyResolve : Bool)

/-- Code that does what a computation does. If that succeeds, the run goes on behind the code with operands that
`leaves` allows; if it fails, the run ends with its failure. -/
def Computes (code : List Instruction) (m : Task σ α) (leaves : α → List (Operand String) → Prop) : Prop :=
  ∀ step st rest s' s, R s' s → ∃ t', R t' (m s).2 ∧
    match (m s).1 with
    | .ok a => ∃ operands, leaves a operands ∧
        runFrom w' onlyResolve step st (code ++ rest) s' =
          runFrom w' onlyResolve (step + code.length) (st.pushAll operands) rest t'
    | .error failure => runFrom w' onlyResolve step st (code ++ rest) s' = (.error failure, t')

/-- An instruction that, on certain operands, does what a computation does, and leaves its values as one operand. -/
def Executes (i : Instruction) (operands : List (Operand String)) (m : Task σ (List String)) : Prop :=
  ∀ isLast (st : Stacks String) s' s, R s' s → ∃ t', R t' (m s).2 ∧
    match (m s).1 with
    | .ok values => execute w' onlyResolve isLast i (st.pushAll operands) s' = (.ok (.moved (st.push values)), t')
    | .error failure => ∃ raised, raised.attributeTo i = failure ∧
        execute w' onlyResolve isLast i (st.pushAll operands) s' = (.error raised, t')

variable {w' R onlyResolve}

theorem Computes.yield {a : α} {leaves : α → List (Operand String) → Prop} (h : leaves a []) :
    Computes w' R onlyResolve [] (yield (σ := σ) a) leaves := by
  intro step st rest s' s hs
  exact ⟨s', hs, [], h, by simp⟩

theorem Computes.append {code₁ code₂ : List Instruction} {m : Task σ α} {k : α → Task σ β}
    {leaves₁ : α → List (Operand String) → Prop} {leaves : β → List (Operand String) → Prop}
    (h₁ : Computes w' R onlyResolve code₁ m leaves₁)
    (h₂ : ∀ a as, leaves₁ a as → Computes w' R onlyResolve code₂ (k a) fun b bs => leaves b (as ++ bs)) :
    Computes w' R onlyResolve (code₁ ++ code₂) (andThen m k) leaves := by
  intro step st rest s' s hs
  obtain ⟨t', ht, h⟩ := h₁ step st (code₂ ++ rest) s' s hs
  simp only [andThen, List.append_assoc, List.length_append, ← Nat.add_assoc]
  rcases hm : m s with ⟨failure | a, t⟩ <;> simp only [hm] at ht h
  · exact ⟨t', ht, h⟩
  · obtain ⟨as, has, hrun⟩ := h
    obtain ⟨u', hu, h⟩ := h₂ a as has (step + code₁.length) (st.pushAll as) rest t' t ht
    refine ⟨u', hu, ?_⟩
    rcases hk : k a t with ⟨failure | b, u⟩ <;> simp only [hk] at h ⊢
    · rw [hrun, h]
    · obtain ⟨bs, hbs, hrest⟩ := h
      exact ⟨as ++ bs, hbs, by rw [hrun, hrest, Stacks.pushAll_append]⟩

theorem Computes.weaken {code : List Instruction} {m : Task σ α} {leaves leaves' : α → List (Operand String) → Prop}
    (h : Computes w' R onlyResolve code m leaves) (hl : ∀ a as, leaves a as → leaves' a as) :
    Computes w' R onlyResolve code m leaves' := by
  intro step st rest s' s hs
  obtain ⟨t', ht, h⟩ := h step st rest s' s hs
  refine ⟨t', ht, ?_⟩
  rcases hm : (m s).1 with failure | a <;> simp only [hm] at h ⊢
  · exact h
  · obtain ⟨as, has, hrun⟩ := h
    exact ⟨as, hl a as has, hrun⟩

/-- What a computation without effects hands on is known. -/
theorem Computes.known {code : List Instruction} {a : α} {leaves : α → List (Operand String) → Prop}
    (h : Computes w' R onlyResolve code (Evaluation.yield (σ := σ) a) leaves) :
    Computes w' R onlyResolve code (Evaluation.yield (σ := σ) a) fun b as => b = a ∧ leaves a as := by
  intro step st rest s' s hs
  obtain ⟨t', ht, as, has, hrun⟩ := h step st rest s' s hs
  exact ⟨t', ht, as, ⟨rfl, has⟩, hrun⟩

/-- Handing on something else needs no code. -/
theorem computes_map_iff {code : List Instruction} {m : Task σ α} (f : α → β)
    {leaves : β → List (Operand String) → Prop} :
    Computes w' R onlyResolve code (andThen m fun a => Evaluation.yield (f a)) leaves ↔
      Computes w' R onlyResolve code m fun a as => leaves (f a) as := by
  refine forall₅_congr fun step st rest s' s => forall_congr' fun _ => exists_congr fun t' => ?_
  simp only [andThen]
  rcases m s with ⟨_ | _, _⟩ <;> rfl

theorem Computes.map {code : List Instruction} {m : Task σ α} {leaves : α → List (Operand String) → Prop} (f : α → β)
    {leaves' : β → List (Operand String) → Prop} (h : Computes w' R onlyResolve code m leaves)
    (hf : ∀ a as, leaves a as → leaves' (f a) as) :
    Computes w' R onlyResolve code (andThen m fun a => Evaluation.yield (f a)) leaves' :=
  (computes_map_iff f).2 (h.weaken hf)

/-- An instruction behind the code of its operands. -/
theorem Computes.instruction {w : Surroundings σ} (hw : Follows w' w R) {code : List Instruction} {i : Instruction}
    {m : Task σ α} {k : α → Task σ (List String)} {leaves : α → List (Operand String) → Prop}
    (h : Computes w' R onlyResolve code m leaves)
    (hi : ∀ a as, leaves a as → Executes w' R onlyResolve i as (k a)) :
    Computes w' R onlyResolve (code ++ [i]) (andThen m k) fun values operands => operands = [values] := by
  intro step st rest s' s hs
  obtain ⟨t', ht, h⟩ := h step st (i :: rest) s' s hs
  simp only [andThen, List.append_assoc, List.singleton_append]
  rcases hm : m s with ⟨failure | a, t⟩ <;> simp only [hm] at ht h
  · exact ⟨t', ht, h⟩
  · obtain ⟨as, has, hrun⟩ := h
    obtain ⟨u', hu, h⟩ := hi a as has rest.isEmpty st
      (w'.observe (.stepping (step + code.length) (i :: rest) (st.pushAll as)) t') t (hw.step _ ht rfl)
    refine ⟨u', hu, ?_⟩
    rcases hk : k a t with ⟨failure | values, u⟩ <;> simp only [hk] at h ⊢
    · obtain ⟨raised, rfl, hx⟩ := h
      rw [hrun, runFrom, hx]
    · refine ⟨[values], rfl, ?_⟩
      rw [hrun, runFrom, h, Stacks.pushAll_singleton, List.length_append, List.length_singleton, Nat.add_assoc]

/-- An instruction without operands. -/
theorem Computes.leaf {w : Surroundings σ} (hw : Follows w' w R) {i : Instruction} {m : Task σ (List String)}
    (hi : Executes w' R onlyResolve i [] m) :
    Computes w' R onlyResolve [i] m fun values operands => operands = [values] := by
  have h : Computes w' R onlyResolve [] (Evaluation.yield (σ := σ) ()) fun _ as => as = [] := Computes.yield rfl
  exact h.instruction hw (k := fun _ => m) fun _ _ has => has ▸ hi

/-! ### Instructions -/

theorem executes_literal (text : String) (place : Option Location) :
    Executes w' R onlyResolve (.literal text place) [] (yield (σ := σ) [text]) := by
  intro isLast st s' s hs
  exact ⟨s', hs, by simp [execute, Instruction.literal, yield]⟩

theorem executes_quoted (operands : List (Operand String)) (place : Option Location) :
    Executes w' R onlyResolve (.quoted operands.length place) operands (yield (σ := σ) [concatenate operands]) := by
  intro isLast st s' s hs
  exact ⟨s', hs, by simp [execute, Instruction.quoted, yield, Stacks.pop_pushAll]⟩

theorem executes_unquoted (operands : List (Operand String)) (expansion : Option Expansion) (values : List String)
    (place : Option Location) (h : expandOperands expansion operands = .ok values) :
    Executes w' R onlyResolve (.unquoted operands.length expansion place) operands (yield (σ := σ) values) := by
  intro isLast st s' s hs
  exact ⟨s', hs, by simp [execute, Instruction.unquoted, yield, Stacks.pop_pushAll, h]⟩

variable {w : Surroundings σ} (hw : Follows w' w R)
include hw

theorem executes_variable (operands : List (Operand String)) (space : Namespace) (place : Location) :
    Executes w' R onlyResolve (.variableReference space operands.length place) operands
      (andThen (variableValue w place space (concatenate operands)) fun value => yield [value]) := by
  intro isLast st s' s hs
  have hl := hw.lookup space (concatenate operands) hs
  cases h : w.lookup space (concatenate operands) s with
  | none =>
    refine ⟨w'.observe (.undefined place (concatenate operands)) s', ?_, ?_⟩
    · simpa [andThen, variableValue, yield, h] using hw.observe (.undefined place _) hs rfl
    · simp [execute, Instruction.variableReference, Stacks.pop_pushAll, reference, andThen, variableValue, yield, h, hl]
  | some value =>
    refine ⟨s', ?_, ?_⟩
    · simpa [andThen, variableValue, yield, h] using hs
    · simp [execute, Instruction.variableReference, Stacks.pop_pushAll, reference, andThen, variableValue, yield, h, hl]

/-- Dispatching a command does what it does in related surroundings. -/
theorem command_follows (place : Location) (name : String) (arguments : List String) {s' : σ'} {s : σ} (hs : R s' s) :
    (command w' place name arguments s').1 = (command w place name arguments s).1 ∧
      R (command w' place name arguments s').2 (command w place name arguments s).2 := by
  obtain ⟨h₁, h₂⟩ := hw.invoke name arguments (hw.observe (.dispatching name arguments) hs rfl)
  simp only [command]
  rcases hw' : w'.invoke name arguments (w'.observe (.dispatching name arguments) s') with ⟨r', t'⟩
  rcases hw'' : w.invoke name arguments (w.observe (.dispatching name arguments) s) with ⟨r, t⟩
  rw [hw', hw''] at h₁ h₂
  simp only at h₁ h₂
  subst h₁
  rcases r' with failure | results | _
  · simp only
    split
    · exact ⟨rfl, hw.observe .dispatched (hw.observe (.recovered place failure.cause.message) h₂ rfl) rfl⟩
    · exact ⟨rfl, h₂⟩
  · exact ⟨rfl, hw.observe .dispatched h₂ rfl⟩
  · exact ⟨rfl, h₂⟩

/-- An instruction that dispatches its operands, whatever kind of instruction it is. -/
theorem executes_dispatch (i : Instruction) {name : String} {place : Location} (hn : i.name = some name)
    (hp : i.location = some place) (operands : List (Operand String))
    (hx : ∀ isLast st s', execute w' onlyResolve isLast i (st.pushAll operands) s' =
      ((dispatch w' i operands.flatten s').1.map fun results => .moved (Stacks.push st results),
        (dispatch w' i operands.flatten s').2)) :
    Executes w' R onlyResolve i operands (command w place name operands.flatten) := by
  intro isLast st s' s hs
  obtain ⟨h₁, h₂⟩ := command_follows hw place name operands.flatten hs
  rw [← dispatch_eq_command w' i hn hp] at h₁ h₂
  refine ⟨(dispatch w' i operands.flatten s').2, h₂, ?_⟩
  rw [hx, ← h₁]
  rcases (dispatch w' i operands.flatten s').1 with raised | results
  · exact ⟨raised, rfl, rfl⟩
  · rfl

theorem executes_commandReference (name : String) (operands : List (Operand String)) (place : Location) :
    Executes w' R onlyResolve (.commandReference name operands.length place) operands
      (command w place name operands.flatten) := by
  refine executes_dispatch hw _ rfl rfl operands fun isLast st s' => ?_
  simp only [execute, Instruction.commandReference, Stacks.pop_pushAll]
  rcases dispatch w' _ operands.flatten s' with ⟨_ | _, _⟩ <;> rfl

end Runs

section Calls

variable {w' : Surroundings σ'} {R : σ' → σ → Prop} {w : Surroundings σ} (hw : Follows w' w R)
include hw

theorem executes_call (name : String) (operands : List (Operand String)) (place : Location) :
    Executes w' R false (.call name operands.length place) operands (command w place name operands.flatten) := by
  refine executes_dispatch hw _ rfl rfl operands fun isLast st s' => ?_
  simp only [execute, Instruction.call, Stacks.pop_pushAll, Bool.false_eq_true, if_false]
  rcases dispatch w' _ operands.flatten s' with ⟨_ | _, _⟩ <;> rfl

end Calls

/-! ### Trees -/

section Trees

variable {w' : Surroundings σ'} {R : σ' → σ → Prop} {w : Surroundings σ} {onlyResolve : Bool}

theorem concatenate_cons (operand : Operand String) (operands : List (Operand String)) :
    concatenate (operand :: operands) = ItemList.flatten operand ++ concatenate operands := by
  simp [concatenate, String.join_cons]

/-- An argument made of one sub-expression has one operand. -/
theorem Computes.single {code : List Instruction} {m : Task σ (List String)}
    (h : Computes w' R onlyResolve code m fun values operands => operands = [values]) :
    Computes w' R onlyResolve code m fun values operands => operands.length = 1 ∧ operands.flatten = values :=
  h.weaken fun _ _ has => by simp [has]

/-- A literal as the only part of an argument: a parenthesis of a group, or the content of a bracket. -/
theorem computes_literal_argument (hw : Follows w' w R) (text : String) (place : Option Location) {i : Instruction}
    (hi : Executes w' R onlyResolve i [[text]] (yield (σ := σ) [text])) :
    Computes w' R onlyResolve [.literal text place, i] (yield (σ := σ) [text])
      fun values operands => operands = [values] := by
  refine (Computes.leaf hw (executes_literal text place)).known.instruction hw (k := fun _ => yield [text]) ?_
  rintro _ _ ⟨rfl, rfl⟩
  exact hi

/-- A group is its parentheses around what it holds. -/
theorem computes_group (hw : Follows w' w R) {code : List Instruction} {m : Task σ (List String)} {n : Nat}
    (opener closer : Option Location)
    (h : Computes w' R onlyResolve code m fun values operands => operands.length = n ∧ operands.flatten = values) :
    Computes w' R onlyResolve
      ([.literal "(" opener, .unquoted 1 none opener] ++ code ++ [.literal ")" closer, .unquoted 1 none closer])
      (andThen m fun values => yield ("(" :: (values ++ [")"])))
      fun values operands => operands.length = n + 2 ∧ operands.flatten = values := by
  have parenthesis : ∀ (text : String) (place : Option Location),
      Computes w' R onlyResolve [.literal text place, .unquoted 1 none place] (yield (σ := σ) [text])
        fun values operands => values = [text] ∧ operands = [[text]] := fun text place =>
    (computes_literal_argument hw text place (executes_unquoted [[text]] none [text] place rfl)).known
  have begun : Computes w' R onlyResolve ([.literal "(" opener, .unquoted 1 none opener] ++ code)
      (andThen m fun values => yield ("(" :: values))
      fun values operands => operands.length = n + 1 ∧ operands.flatten = values := by
    refine (parenthesis "(" opener).append (k := fun _ => andThen m fun values => yield ("(" :: values)) ?_
    rintro _ _ ⟨-, rfl⟩
    refine h.map _ ?_
    rintro _ as ⟨hn, rfl⟩
    exact ⟨by simp [hn], rfl⟩
  -- the closing parenthesis comes behind all of this, so the computation is regrouped
  have regroup : (andThen m fun values => yield ("(" :: (values ++ [")"]))) =
      andThen (andThen m fun values => yield ("(" :: values)) fun values =>
        andThen (yield [")"]) fun closing => yield (values ++ closing) := by
    rw [andThen_assoc]
    rfl
  rw [regroup]
  refine begun.append ?_
  rintro _ as ⟨hn, rfl⟩
  refine (parenthesis ")" closer).map _ ?_
  rintro _ _ ⟨rfl, rfl⟩
  exact ⟨by simp [hn], by simp⟩

/-- The text of some parts is that of the first in front of that of the others. -/
theorem computes_cons {code₁ code₂ : List Instruction} {m : Task σ (List String)} {k : Task σ String} {n : Nat}
    (h₁ : Computes w' R onlyResolve code₁ m fun values operands => operands = [values])
    (h₂ : Computes w' R onlyResolve code₂ k fun text operands => operands.length = n ∧ concatenate operands = text) :
    Computes w' R onlyResolve (code₁ ++ code₂)
      (andThen m fun values => andThen k fun text => yield (ItemList.flatten values ++ text))
      fun text operands => operands.length = n + 1 ∧ concatenate operands = text := by
  refine h₁.append ?_
  rintro values _ rfl
  refine h₂.map _ ?_
  rintro _ as ⟨hn, rfl⟩
  exact ⟨by simp [hn], concatenate_cons values as⟩

/-- A variable reference leaves the value of the variable that its parts name. -/
theorem computes_variable (hw : Follows w' w R) {code : List Instruction} {m : Task σ String} {n : Nat}
    (space : Namespace) (place : Location)
    (h : Computes w' R onlyResolve code m fun text operands => operands.length = n ∧ concatenate operands = text) :
    Computes w' R onlyResolve (code ++ [.variableReference space n place])
      (andThen m fun name => variableValue w place space name) fun value operands => operands = [[value]] := by
  have hi : Computes w' R onlyResolve (code ++ [.variableReference space n place])
      (andThen m fun name => andThen (variableValue w place space name) fun value => yield [value])
      fun values operands => operands = [values] := by
    refine h.instruction hw ?_
    rintro _ as ⟨rfl, rfl⟩
    exact executes_variable hw as space place
  rwa [← andThen_assoc, computes_map_iff] at hi

/-- A command reference leaves the results of the command. -/
theorem computes_command (hw : Follows w' w R) {code : List Instruction} {m : Task σ (List String)} {n : Nat}
    (name : String) (place : Location)
    (h : Computes w' R onlyResolve code m fun values operands => operands.length = n ∧ operands.flatten = values) :
    Computes w' R onlyResolve (code ++ [.commandReference name n place]) (andThen m (command w place name))
      fun values operands => operands = [values] := by
  refine h.instruction hw ?_
  rintro _ as ⟨rfl, rfl⟩
  exact executes_commandReference hw name as place

/-- An unquoted argument that is not a single reference is the text of its parts. -/
theorem computes_unquoted (hw : Follows w' w R) {code : List Instruction} {m : Task σ (List String)}
    {k : Task σ String} {n : Nat} (place : Option Location)
    (h : Computes w' R onlyResolve code
      (andThen m fun values => andThen k fun text => yield (ItemList.flatten values ++ text))
      fun text operands => operands.length = n + 1 ∧ concatenate operands = text) :
    Computes w' R onlyResolve (code ++ [.unquoted (n + 1) none place])
      (andThen m fun values => andThen k fun text => yield [ItemList.flatten values ++ text])
      fun values operands => operands.length = 1 ∧ operands.flatten = values := by
  have hi := h.instruction hw (i := .unquoted (n + 1) none place) (k := fun text => yield [text]) ?_
  · simpa only [andThen_assoc, andThen_yield] using hi.single
  · rintro _ as ⟨hn, rfl⟩
    rw [show (n : Int) + 1 = as.length by omega]
    exact executes_unquoted as none _ place rfl

mutual

theorem computes_part (hw : Follows w' w R) (file : Option String) : ∀ part : Part,
    Computes w' R onlyResolve (partCode file part) (partValues w file part) fun values operands => operands = [values]
  | .text p value => Computes.leaf hw (executes_literal value _)
  | .variable p space parts => by
    rw [partCode, partValues, ← andThen_assoc, computes_map_iff]
    exact computes_variable hw space _ (computes_parts hw file parts)
  | .command p name arguments => by
    rw [partCode, partValues]
    exact computes_command hw name _ (computes_arguments hw file arguments)

theorem computes_parts (hw : Follows w' w R) (file : Option String) : ∀ parts : List Part,
    Computes w' R onlyResolve (partsCode file parts) (partsText w file parts) fun text operands =>
      operands.length = parts.length ∧ concatenate operands = text
  | [] => Computes.yield ⟨rfl, rfl⟩
  | part :: parts => computes_cons (computes_part hw file part) (computes_parts hw file parts)

theorem computes_argument (hw : Follows w' w R) (file : Option String) : ∀ argument : Argument,
    Computes w' R onlyResolve (argumentCode file argument) (argumentValues w file argument) fun values operands =>
      operands.length = width argument ∧ operands.flatten = values
  | .quoted p parts => by
    rw [argumentCode, argumentValues]
    refine ((computes_parts hw file parts).instruction hw ?_).single
    rintro _ as ⟨hn, rfl⟩
    rw [← hn]
    exact executes_quoted as _
  | .bracket p content => by
    rw [argumentCode, argumentValues]
    exact (computes_literal_argument hw content _ (executes_quoted [[content]] _)).single
  | .group opener inner closer => by
    rw [argumentCode, argumentValues]
    exact computes_group hw _ _ (computes_arguments hw file inner)
  | .unquoted (.variable p space parts) [] => by
    have h := computes_variable hw space (p.inFile file) (computes_parts hw file parts)
    rw [argumentCode, partCode, partsCode, List.append_nil, argumentValues, ← andThen_assoc]
    refine (h.instruction hw ?_).single
    rintro value _ rfl
    exact executes_unquoted _ (some .list) _ _ rfl
  | .unquoted (.command p name arguments) [] => by
    have h := computes_command hw name (p.inFile file) (computes_arguments hw file arguments)
    rw [argumentCode, partCode, partsCode, List.append_nil, argumentValues, ← andThen_yield_id (andThen _ _)]
    refine (h.instruction hw ?_).single
    rintro values _ rfl
    exact executes_unquoted _ (some .values) _ _ rfl
  | .unquoted (.text p value) [] =>
    computes_unquoted hw _ (computes_cons (computes_part hw file (.text p value)) (computes_parts hw file []))
  | .unquoted first (second :: others) => by
    have h := computes_cons (computes_part hw file first) (computes_parts hw file (second :: others))
    have he : expansionOf first (second :: others) = none := by cases first <;> rfl
    rw [argumentCode, argumentValues, he]
    · exact computes_unquoted hw _ h
    · simp
    · simp

theorem computes_arguments (hw : Follows w' w R) (file : Option String) : ∀ arguments : List Argument,
    Computes w' R onlyResolve (argumentsCode file arguments) (argumentsValues w file arguments) fun values operands =>
      operands.length = widths arguments ∧ operands.flatten = values
  | [] => Computes.yield ⟨rfl, rfl⟩
  | argument :: arguments => by
    rw [argumentsCode, argumentsValues]
    refine (computes_argument hw file argument).append ?_
    rintro values as ⟨hn, rfl⟩
    refine (computes_arguments hw file arguments).map _ ?_
    rintro _ bs ⟨hm, rfl⟩
    exact ⟨by rw [List.length_append, hn, hm, widths], List.flatten_append⟩

end

/-! ### Invocations -/

/-- The code of an invocation does what evaluating it does. -/
theorem run_follows_evaluate (hw : Follows w' w R) (text : List Char) (file : Option String) (i : Invocation)
    {s' : σ'} {s : σ} (hs : R s' s) :
    (run w' false (Program.ofInvocation text file i).instructions s').1 = (evaluate w file i s).1 ∧
      R (run w' false (Program.ofInvocation text file i).instructions s').2 (evaluate w file i s).2 := by
  have h : Computes w' R false (Program.ofInvocation text file i).instructions (evaluate w file i)
      fun values operands => operands = [values] := by
    refine (computes_arguments hw file i.arguments).instruction hw ?_
    rintro _ as ⟨hn, rfl⟩
    rw [← hn]
    exact executes_call hw i.name as _
  obtain ⟨t', ht, h⟩ := h 0 {} [] s' s hs
  rw [List.append_nil] at h
  rcases he : (evaluate w file i s).1 with failure | values <;> simp only [he] at h
  · rw [run, h]
    exact ⟨rfl, ht⟩
  · obtain ⟨_, rfl, hrun⟩ := h
    rw [run, hrun]
    simp only [runFrom, Stacks.pushAll_singleton, Stacks.push, List.nil_append, total, List.foldr_cons, List.foldr_nil,
      Nat.add_zero, if_true]
    exact ⟨trivial, hw.step _ (hw.step _ ht rfl) rfl⟩

end Trees

/-- Surroundings with a history follow themselves if steps are struck out of the first history. -/
theorem recorded_follows (w : Surroundings σ) :
    Follows w.recorded w.recorded fun s' s => s'.1 = s.1 ∧ s'.2.filter (!·.isOwnStep) = s.2 where
  lookup space name s' s hs := by simp only [Surroundings.recorded, hs.1]
  invoke name arguments s' s hs := by simp only [Surroundings.recorded, hs.1, hs.2, and_self]
  observe notice s' s hs hn := by simp [Surroundings.recorded, hs.1, hs.2, hn]
  step notice s' s hs hn := by simp [Surroundings.recorded, hs.1, hs.2, hn]

/-- The two-stack machine computes what direct evaluation of the tree computes: the same results or the same failure,
with all that is attributed to it, and the same state of the surroundings, however they answer and whatever they keep.
The histories agree notice by notice, in their order: every dispatch with its name and arguments, every warning with
its place and text; the machine's notices of its own steps apart. -/
theorem run_eq_evaluate (w : Surroundings σ) (text : List Char) (file : Option String) (i : Invocation) (s : σ) :
    let machine := run w.recorded false (Program.ofInvocation text file i).instructions (s, [])
    let direct := evaluate w.recorded file i (s, [])
    machine.1 = direct.1 ∧ machine.2.1 = direct.2.1 ∧ machine.2.2.filter (!·.isOwnStep) = direct.2.2 :=
  run_follows_evaluate (recorded_follows w) text file i ⟨rfl, rfl⟩

end CommandScript.Evaluation
