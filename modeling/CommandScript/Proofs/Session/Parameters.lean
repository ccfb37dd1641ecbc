import CommandScript.Proofs.Scopes.Places
import CommandScript.Session.Evaluate

/-! What a function finds bound when its body starts. Its scope is a new one inside the caller's, and all names are
written there one after another, so of several writes to one name the last counts: parameters hide the numbered names,
and a parameter that is given twice has the value of its last place. Every other name is what it is for the caller. -/

namespace CommandScript

/-! ### Bindings -/

namespace Bindings

variable {α : Type}

theorem get?_append (b c : Bindings α) (name : String) : get? (b ++ c) name = (b.get? name).or (get? c name) := by
  induction b with
  | nil => rfl
  | cons entry rest ih =>
    simp only [List.cons_append, get?]
    split
    · rfl
    · exact ih

theorem get?_eq_none {b : Bindings α} {name : String} (h : ∀ entry ∈ b, entry.1 ≠ name) : b.get? name = none := by
  induction b with
  | nil => rfl
  | cons entry rest ih =>
    rw [get?, if_neg (h entry List.mem_cons_self)]
    exact ih fun other hother => h other (List.mem_cons_of_mem _ hother)

/-- A name that is bound, and to one value only, has that value. -/
theorem get?_eq_some {b : Bindings α} {name : String} {value : α} (hbound : (name, value) ∈ b)
    (h : ∀ other, (name, other) ∈ b → other = value) : b.get? name = some value := by
  induction b with
  | nil => cases hbound
  | cons entry rest ih =>
    obtain ⟨key, first⟩ := entry
    by_cases hkey : key = name
    · subst hkey
      rw [get?, if_pos rfl, h first List.mem_cons_self]
    · rw [get?, if_neg hkey]
      have hne : (name, value) ≠ (key, first) := fun heq => hkey (Prod.mk.inj heq).1.symm
      have hrest : (name, value) ∈ rest := (List.mem_cons.mp hbound).resolve_left hne
      exact ih hrest fun other hother => h other (List.mem_cons_of_mem _ hother)

/-- Of names that are bound in the order of a list, each has the value of its last place. -/
theorem get?_reverse_zip {names : List String} {values : List α} (hlength : names.length ≤ values.length) {i : Nat}
    {name : String} (hi : names[i]? = some name) (hlast : name ∉ names.drop (i + 1)) :
    get? (names.zip values).reverse name = values[i]? := by
  induction names generalizing values i with
  | nil => simp at hi
  | cons first names ih =>
    obtain ⟨value, values, rfl⟩ := List.exists_cons_of_length_pos (Nat.lt_of_lt_of_le (Nat.succ_pos _) hlength)
    rw [List.zip_cons_cons, List.reverse_cons, get?_append]
    cases i with
    | zero =>
      obtain rfl : first = name := by simpa using hi
      have hrest : get? (names.zip values).reverse first = none := by
        refine get?_eq_none fun entry hentry heq => hlast ?_
        obtain ⟨key, _⟩ := entry
        obtain rfl : key = first := heq
        exact (List.of_mem_zip (List.mem_reverse.mp hentry)).1
      simp [hrest, get?]
    | succ i =>
      have hlength' : names.length ≤ values.length := Nat.le_of_succ_le_succ hlength
      obtain ⟨hlt, -⟩ := List.getElem?_eq_some_iff.mp hi
      have hvalue : i < values.length := by
        simp only [List.length_cons] at hlt
        omega
      rw [ih hlength' hi hlast, List.getElem?_cons_succ, List.getElem?_eq_getElem hvalue, Option.some_or]

end Bindings

/-! ### Stores -/

namespace Store

/-- All bindings in which a scope looks for a variable are in the store. -/
def Holds (st : Store) (s : Scope) : Prop := ∀ i ∈ s.own :: s.around, st.Has (.plain i)

theorem lookup_eq_or (st : Store) (s : Scope) (name : String) :
    st.lookup s name = (((s.own :: s.around).findSome? fun i => (st.bindingsAt (.plain i)).get? name).or
      (st.lookupCache s name)) := by
  have hchain : (st.chain s).findSome? (·.get? name) =
      (s.own :: s.around).findSome? fun i => (st.bindingsAt (.plain i)).get? name := List.findSome?_map
  rw [← hchain, lookup]
  cases (st.chain s).findSome? (·.get? name) <;> rfl

theorem lookup_set {st : Store} {s : Scope} (hs : st.Has (.plain s.own)) (name value other : String) :
    (st.set s name value).lookup s other = if name = other then some value else st.lookup s other := by
  have hwritten := undergoes_set hs name value
  by_cases hname : name = other
  · have hown : ((st.set s name value).bindingsAt (.plain s.own)).get? other = some value :=
      (hwritten (.plain s.own) other).trans (if_pos ⟨rfl, hname.symm⟩)
    rw [if_pos hname, lookup_eq_or, List.findSome?_cons, hown]
    rfl
  · have hsame : ∀ place, ((st.set s name value).bindingsAt place).get? other = (st.bindingsAt place).get? other :=
      fun place => (hwritten place other).trans (if_neg fun h => hname h.2.symm)
    have hcache : (st.set s name value).lookupCache s other = st.lookupCache s other := hsame (.cache s.cache)
    simp only [if_neg hname, lookup_eq_or, hcache, hsame]

/-- Names that are bound one after another have the values of their last bindings. -/
theorem lookup_foldl_set {s : Scope} (bindings : List (String × String)) {st : Store} (hs : st.Has (.plain s.own))
    (name : String) : (bindings.foldl (fun st (name, value) => st.set s name value) st).lookup s name =
      (Bindings.get? bindings.reverse name).or (st.lookup s name) := by
  induction bindings generalizing st with
  | nil => rfl
  | cons binding bindings ih =>
    obtain ⟨key, value⟩ := binding
    have hset : (st.set s key value).Has (.plain s.own) := (has_modifyOwn ..).mpr hs
    refine (ih hset).trans ?_
    rw [lookup_set hs, List.reverse_cons, Bindings.get?_append, Option.or_assoc]
    by_cases hkey : key = name <;> simp [Bindings.get?, hkey]

theorem bindingsAt_foldl_set {s : Scope} (bindings : List (String × String)) {st : Store}
    (hs : st.Has (.plain s.own)) {place : Place} (hplace : place ≠ .plain s.own) :
    (bindings.foldl (fun st (name, value) => st.set s name value) st).bindingsAt place = st.bindingsAt place := by
  induction bindings generalizing st with
  | nil => rfl
  | cons binding bindings ih =>
    have hset : (st.set s binding.1 binding.2).Has (.plain s.own) := (has_modifyOwn ..).mpr hs
    exact (ih hset).trans ((bindingsAt_modifyOwn hs _ place).trans (if_neg hplace))

theorem bindingsAt_child {st : Store} (s : Scope) {place : Place} (h : st.Has place) :
    (st.child s).2.bindingsAt place = st.bindingsAt place := by
  cases place with
  | environment | cache _ => rfl
  | plain i => simp only [bindingsAt, child, Array.getElem?_push_lt h, Array.getElem?_eq_getElem h]

theorem has_child (st : Store) (s : Scope) : (st.child s).2.Has (.plain (st.child s).1.own) := by
  simp [Has, child]

/-- A new scope inside another sees what that sees. -/
theorem lookup_child {st : Store} {s : Scope} (hs : st.Holds s) (name : String) :
    (st.child s).2.lookup (st.child s).1 name = st.lookup s name := by
  have hempty : (st.child s).2.bindingsAt (.plain (st.child s).1.own) = [] := by
    simp [bindingsAt, child]
  have hchain : (st.child s).2.chain (st.child s).1 = [] :: st.chain s :=
    List.cons_eq_cons.mpr ⟨hempty, List.map_congr_left fun i hi => bindingsAt_child s (hs i hi)⟩
  rw [lookup, hchain]
  rfl

end Store

namespace Session

open Text Code Command

/-! ### The bindings of a call -/

/-- The name under which an argument is bound by its number. -/
def numbered (i : Nat) : String := "ARGV" ++ toString i

theorem toList_numbered (i : Nat) : (numbered i).toList = ['A', 'R', 'G', 'V'] ++ Nat.toDigits 10 i := by
  rw [numbered, Nat.toString_eq_ofList_toDigits, String.toList_append]
  exact congrArg (['A', 'R', 'G', 'V'] ++ ·) String.toList_ofList

theorem numbered_injective {i j : Nat} (h : numbered i = numbered j) : i = j := by
  have hdigits : Nat.toDigits 10 i = Nat.toDigits 10 j := by
    have htext := congrArg String.toList h
    rwa [toList_numbered, toList_numbered, List.append_cancel_left_eq] at htext
  rw [← Nat.ofDigitChars_ten_toDigits (n := i), hdigits, Nat.ofDigitChars_ten_toDigits]

/-- No number makes one of the other names: behind their common letters it would have to be empty, or a letter. -/
theorem numbered_not_mem (i : Nat) : numbered i ∉ ["ARGC", "ARGV", "ARGN"] := by
  intro h
  have hletters : (numbered i).toList ∈ [['A', 'R', 'G', 'C'], ['A', 'R', 'G', 'V'], ['A', 'R', 'G', 'N']] :=
    List.mem_map_of_mem h
  rw [toList_numbered] at hletters
  have hdigits : Nat.toDigits 10 i ≠ [] := Nat.toDigits_ne_nil
  simp [hdigits] at hletters

section Numbers

variable {arguments : List String}

theorem get?_numbered {j : Nat} {value : String} (hj : arguments[j]? = some value) :
    Bindings.get? (arguments.mapIdx fun i argument => (numbered i, argument)).reverse (numbered j) = some value := by
  obtain ⟨hlt, rfl⟩ := List.getElem?_eq_some_iff.mp hj
  refine Bindings.get?_eq_some ?_ fun other hother => ?_
  · exact List.mem_reverse.mpr (List.mem_mapIdx.mpr ⟨j, hlt, rfl⟩)
  · obtain ⟨i, hi, heq⟩ := List.mem_mapIdx.mp (List.mem_reverse.mp hother)
    obtain ⟨hname, rfl⟩ := Prod.mk.inj heq
    obtain rfl := numbered_injective hname
    rfl

theorem get?_not_numbered {name : String} (h : ∀ j < arguments.length, name ≠ numbered j) :
    Bindings.get? (arguments.mapIdx fun i argument => (numbered i, argument)).reverse name = none := by
  refine Bindings.get?_eq_none fun entry hentry heq => ?_
  obtain ⟨i, hi, rfl⟩ := List.mem_mapIdx.mp (List.mem_reverse.mp hentry)
  exact h i hi heq.symm

end Numbers

section Calls

variable {κ ω : Type} (f : ScriptFunction) (caller : Frame) (arguments : List String) {s : State κ ω}

/-- What the arguments of a call are as a whole. -/
def summaries : Bindings String :=
  [("ARGN", ItemList.join (arguments.drop f.parameters.length)), ("ARGV", ItemList.join arguments),
    ("ARGC", toString arguments.length)]

/-- The last bindings of a call come first. -/
theorem reverse_argumentBindings : (argumentBindings f arguments).reverse = (f.parameters.zip arguments).reverse ++
    ((arguments.mapIdx fun i argument => (numbered i, argument)).reverse ++ summaries f arguments) := by
  rw [argumentBindings, List.reverse_append, List.reverse_append]
  rfl

/-- In the scope of a call a name has the value of its last binding, or else the one that it has for the caller. -/
theorem lookup_enterFunction (hcaller : s.store.Holds caller.scope) (name : String) :
    (enterFunction f caller arguments s).2.store.lookup (enterFunction f caller arguments s).1.scope name =
      (Bindings.get? (argumentBindings f arguments).reverse name).or (s.store.lookup caller.scope name) := by
  have hbound := Store.lookup_foldl_set (argumentBindings f arguments) (s.store.has_child caller.scope) name
  rw [Store.lookup_child hcaller] at hbound
  exact hbound

theorem lookup_parameter (hcaller : s.store.Holds caller.scope) (henough : f.parameters.length ≤ arguments.length)
    {i : Nat} {name : String} (hi : f.parameters[i]? = some name) (hlast : name ∉ f.parameters.drop (i + 1)) :
    ∃ argument, arguments[i]? = some argument ∧
      (enterFunction f caller arguments s).2.store.lookup (enterFunction f caller arguments s).1.scope name =
        some argument := by
  obtain ⟨hlt, -⟩ := List.getElem?_eq_some_iff.mp hi
  have hargument := List.getElem?_eq_getElem (Nat.lt_of_lt_of_le hlt henough)
  refine ⟨_, hargument, ?_⟩
  rw [lookup_enterFunction f caller arguments hcaller, reverse_argumentBindings, Bindings.get?_append,
    Bindings.get?_reverse_zip henough hi hlast, hargument]
  rfl

/-- A name that is no parameter is looked for among the numbered ones, then among the others and then by the caller. -/
theorem lookup_besides (hcaller : s.store.Holds caller.scope) {name : String} (hname : name ∉ f.parameters) :
    (enterFunction f caller arguments s).2.store.lookup (enterFunction f caller arguments s).1.scope name =
      ((Bindings.get? (arguments.mapIdx fun i argument => (numbered i, argument)).reverse name).or
        ((summaries f arguments).get? name)).or (s.store.lookup caller.scope name) := by
  have hnone : Bindings.get? (f.parameters.zip arguments).reverse name = none := by
    refine Bindings.get?_eq_none fun entry hentry heq => hname ?_
    obtain rfl : entry.1 = name := heq
    exact (List.of_mem_zip (List.mem_reverse.mp hentry)).1
  rw [lookup_enterFunction f caller arguments hcaller, reverse_argumentBindings, Bindings.get?_append, hnone,
    Option.none_or, Bindings.get?_append]

/-- No number hides the names for all arguments. -/
theorem lookup_summary (hcaller : s.store.Holds caller.scope) {name value : String} (hname : name ∉ f.parameters)
    (hmem : name ∈ ["ARGC", "ARGV", "ARGN"]) (hvalue : (summaries f arguments).get? name = some value) :
    (enterFunction f caller arguments s).2.store.lookup (enterFunction f caller arguments s).1.scope name =
      some value := by
  have hnumber : ∀ j < arguments.length, name ≠ numbered j := by
    rintro j - rfl
    exact numbered_not_mem j hmem
  rw [lookup_besides f caller arguments hcaller hname, get?_not_numbered hnumber, hvalue]
  rfl

theorem summaries_get?_none {name : String} (h : name ∉ ["ARGC", "ARGV", "ARGN"]) :
    (summaries f arguments).get? name = none := by
  refine Bindings.get?_eq_none fun entry hentry heq => h ?_
  have hkeys : entry.1 ∈ (summaries f arguments).map Prod.fst := List.mem_map_of_mem hentry
  rw [heq] at hkeys
  simpa [summaries, or_comm, or_left_comm] using hkeys

/-- Entering a function changes nothing that was there before. -/
theorem bindingsAt_enterFunction {place : Store.Place} (h : s.store.Has place) :
    (enterFunction f caller arguments s).2.store.bindingsAt place = s.store.bindingsAt place := by
  have hnew : place ≠ .plain (s.store.child caller.scope).1.own := by
    rintro rfl
    exact Nat.lt_irrefl _ h
  exact (Store.bindingsAt_foldl_set _ (s.store.has_child caller.scope) hnew).trans (Store.bindingsAt_child _ h)

end Calls

/-- A call with too few arguments is refused before anything is done for it. Any other has its body executed in a scope
of its own inside the caller's. There a name is bound to the argument at its last place among the parameters; if it is
no parameter, to what the numbers, `ARGC`, `ARGV` and `ARGN` stand for; and any other name is what it is for the caller.
None of the variables that there were, the caller's among them, is changed by that. -/
theorem arguments_bound_faithfully {κ ω : Type} (ev : Evaluator κ ω) (f : ScriptFunction) (caller : Frame)
    (arguments : List String) (s : State κ ω) (hcaller : s.store.Holds caller.scope) :
    (arguments.length < f.parameters.length → ∃ failure : Failure, failure.cause.kind = "SpliceArityError" ∧
      callFunction ev f caller arguments s = (.error failure, s)) ∧
    (f.parameters.length ≤ arguments.length →
      let entered := enterFunction f caller arguments s
      let body := execute ev f.body entered.1 entered.2
      let found := entered.2.store.lookup entered.1.scope
      callFunction ev f caller arguments s = (body.1.map fun _ => body.2.1.result, body.2.2) ∧
      (∀ i name, f.parameters[i]? = some name → name ∉ f.parameters.drop (i + 1) →
        ∃ argument, arguments[i]? = some argument ∧ found name = some argument) ∧
      (∀ name, name ∉ f.parameters →
        (∀ j argument, name = numbered j → arguments[j]? = some argument → found name = some argument) ∧
        (name = "ARGC" → found name = some (toString arguments.length)) ∧
        (name = "ARGV" → found name = some (ItemList.join arguments)) ∧
        (name = "ARGN" → found name = some (ItemList.join (arguments.drop f.parameters.length))) ∧
        ((∀ j < arguments.length, name ≠ numbered j) → name ∉ ["ARGC", "ARGV", "ARGN"] →
          found name = s.store.lookup caller.scope name)) ∧
      ∀ place, s.store.Has place → entered.2.store.bindingsAt place = s.store.bindingsAt place) := by
  refine ⟨fun hfew => ⟨tooFewArguments f arguments.length, rfl, if_pos hfew⟩, fun henough => ?_⟩
  refine ⟨if_neg (Nat.not_lt.mpr henough), fun i name => lookup_parameter f caller arguments hcaller henough,
    fun name hname => ⟨?_, ?_, ?_, ?_, fun hnumber hother => ?_⟩,
    fun place => bindingsAt_enterFunction f caller arguments⟩
  · rintro j argument rfl hj
    exact (lookup_besides f caller arguments hcaller hname).trans (by rw [get?_numbered hj]; rfl)
  · rintro rfl
    exact lookup_summary f caller arguments hcaller hname (by decide) rfl
  · rintro rfl
    exact lookup_summary f caller arguments hcaller hname (by decide) rfl
  · rintro rfl
    exact lookup_summary f caller arguments hcaller hname (by decide) rfl
  · refine (lookup_besides f caller arguments hcaller hname).trans ?_
    rw [get?_not_numbered hnumber, summaries_get?_none f arguments hother]
    rfl

/-- Among the parameters `ARGC x x` a count is hidden, and `x` has the third argument. -/
theorem arguments_bound_faithfully_hidden :
    let s : State Empty Unit := State.initial [("y", "outer")] [] [] ()
    let f : ScriptFunction := ⟨"f", ["ARGC", "x", "x"], []⟩
    let entered := enterFunction f s.topFrame ["a", "b", "c", "d"] s
    let found := entered.2.store.lookup entered.1.scope
    s.store.Holds s.topFrame.scope ∧ found "ARGC" = some "a" ∧ found "x" = some "c" ∧ found "ARGN" = some "d" ∧
      found (numbered 1) = some "b" ∧ found "y" = some "outer" := by
  intro s f entered found
  have hcaller : s.store.Holds s.topFrame.scope := by
    intro i hi
    obtain rfl : i = 0 := List.mem_singleton.mp hi
    exact Nat.zero_lt_one
  obtain ⟨-, hbound⟩ := arguments_bound_faithfully (fun _ frame _ s => (.ok [], frame, s)) f s.topFrame
    ["a", "b", "c", "d"] s hcaller
  obtain ⟨-, hparameters, hothers, -⟩ := hbound (by decide)
  obtain ⟨_, ⟨⟩, hcount⟩ := hparameters 0 "ARGC" rfl (by decide)
  obtain ⟨_, ⟨⟩, hlast⟩ := hparameters 2 "x" rfl (by decide)
  obtain ⟨-, -, -, hunnamed, -⟩ := hothers "ARGN" (by decide)
  obtain ⟨hnumber, -⟩ := hothers (numbered 1) (by decide)
  obtain ⟨-, -, -, -, houter⟩ := hothers "y" (by decide)
  exact ⟨hcaller, hcount, hlast, hunnamed rfl, hnumber 1 "b" rfl rfl, houter (by decide) (by decide)⟩

end Session
end CommandScript
