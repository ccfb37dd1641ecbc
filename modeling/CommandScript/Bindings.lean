/-! Names bound to values, in the order in which they were first bound. -/

namespace CommandScript

/-- At most one value for a name, as long as names are bound by `insert` only. -/
abbrev Bindings (α : Type) := List (String × α)

namespace Bindings

variable {α : Type}

/-- The value a name is bound to. -/
def get? : Bindings α → String → Option α
  | [], _ => none
  | (key, value) :: rest, name => if key = name then some value else get? rest name

/-- Binds a name to a value. A name that is bound keeps its place. -/
def insert : Bindings α → String → α → Bindings α
  | [], name, value => [(name, value)]
  | (key, old) :: rest, name, value =>
    if key = name then (key, value) :: rest else (key, old) :: insert rest name value

/-- Leaves a name unbound. -/
def erase : Bindings α → String → Bindings α
  | [], _ => []
  | (key, value) :: rest, name => if key = name then erase rest name else (key, value) :: erase rest name

/-- The names that are bound. -/
def names (b : Bindings α) : List String := b.map Prod.fst

@[simp] theorem get?_nil (name : String) : get? ([] : Bindings α) name = none := rfl

@[simp] theorem get?_insert (b : Bindings α) (name other : String) (value : α) :
    (b.insert name value).get? other = if name = other then some value else b.get? other := by
  induction b with
  | nil => simp [insert, get?]
  | cons entry rest ih =>
    obtain ⟨key, old⟩ := entry
    by_cases hk : key = name
    · subst hk
      by_cases ho : key = other <;> simp [insert, get?, ho]
    · by_cases ho : key = other
      · subst ho
        simp [insert, get?, hk, Ne.symm hk]
      · simp [insert, get?, hk, ho, ih]

@[simp] theorem get?_erase (b : Bindings α) (name other : String) :
    (b.erase name).get? other = if name = other then none else b.get? other := by
  induction b with
  | nil => simp [erase]
  | cons entry rest ih =>
    obtain ⟨key, old⟩ := entry
    by_cases hk : key = name
    · subst hk
      by_cases ho : key = other <;> simp_all [erase, get?]
    · by_cases ho : key = other
      · subst ho
        simp [erase, get?, hk, Ne.symm hk]
      · simp [erase, get?, hk, ho, ih]

end Bindings

end CommandScript
