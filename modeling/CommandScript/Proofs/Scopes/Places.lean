import CommandScript.Scope

/-! Where a store keeps bindings, and what each of its writes does to all of them. A write through a scope changes what
is kept in one place under one name, provided that the store has the place. -/

namespace CommandScript.Store

/-- What keeps bindings in a store: the environment, a cache or the variables of a scope. -/
inductive Place where
  | environment
  | cache (i : Nat)
  | plain (i : Nat)
  deriving DecidableEq

def bindingsAt (st : Store) : Place → Bindings String
  | .environment => st.environment
  | .cache i => st.caches[i]?.getD []
  | .plain i => st.maps[i]?.getD []

def Has (st : Store) : Place → Prop
  | .environment => True
  | .cache i => i < st.caches.size
  | .plain i => i < st.maps.size

/-- A value for a name in one place, or its absence. -/
structure Change where
  place : Place
  name : String
  value : Option String

/-- Two stores keep the same everywhere, but for the change. -/
def Undergoes (st : Store) (c : Change) (st' : Store) : Prop :=
  ∀ place name, (st'.bindingsAt place).get? name =
    if place = c.place ∧ name = c.name then c.value else (st.bindingsAt place).get? name

variable {st : Store}

/-! ### One write -/

theorem getD_modify {maps : Array (Bindings String)} {i : Nat} (hi : i < maps.size)
    (f : Bindings String → Bindings String) (j : Nat) :
    (maps.modify i f)[j]?.getD [] = if j = i then f (maps[j]?.getD []) else maps[j]?.getD [] := by
  by_cases hj : j = i
  · subst hj
    simp [Array.getElem?_modify, Array.getElem?_eq_getElem hi]
  · simp [Array.getElem?_modify, hj, Ne.symm hj]

/-- Writing to the bindings in one place leaves those in all others alone. -/
theorem bindingsAt_modifyOwn {s : Scope} (hs : st.Has (.plain s.own)) (f : Bindings String → Bindings String)
    (place : Place) : (st.modifyOwn s f).bindingsAt place =
      if place = .plain s.own then f (st.bindingsAt place) else st.bindingsAt place := by
  cases place with
  | environment | cache _ => rfl
  | plain i => simp only [bindingsAt, modifyOwn, getD_modify hs, Place.plain.injEq]

theorem bindingsAt_modifyCache {s : Scope} (hs : st.Has (.cache s.cache)) (f : Bindings String → Bindings String)
    (place : Place) : (st.modifyCache s f).bindingsAt place =
      if place = .cache s.cache then f (st.bindingsAt place) else st.bindingsAt place := by
  cases place with
  | environment | plain _ => rfl
  | cache i => simp only [bindingsAt, modifyCache, getD_modify hs, Place.cache.injEq]

@[simp] theorem has_modifyOwn (s : Scope) (f : Bindings String → Bindings String) (place : Place) :
    (st.modifyOwn s f).Has place ↔ st.Has place := by
  cases place <;> simp [Has, modifyOwn]

@[simp] theorem has_modifyCache (s : Scope) (f : Bindings String → Bindings String) (place : Place) :
    (st.modifyCache s f).Has place ↔ st.Has place := by
  cases place <;> simp [Has, modifyCache]

@[simp] theorem has_setCache (s : Scope) (name value : String) (force : Bool) (place : Place) :
    (st.setCache s name value force).Has place ↔ st.Has place := by
  unfold setCache
  split <;> simp

section Changes

variable {st' : Store} {target : Place} {name : String}

theorem undergoes_insert {value : String}
    (h : ∀ place, st'.bindingsAt place =
      if place = target then (st.bindingsAt place).insert name value else st.bindingsAt place) :
    st.Undergoes ⟨target, name, some value⟩ st' := by
  intro place other
  rw [h place]
  by_cases hp : place = target <;> simp [hp, eq_comm (a := name)]

theorem undergoes_erase
    (h : ∀ place, st'.bindingsAt place =
      if place = target then (st.bindingsAt place).erase name else st.bindingsAt place) :
    st.Undergoes ⟨target, name, none⟩ st' := by
  intro place other
  rw [h place]
  by_cases hp : place = target <;> simp [hp, eq_comm (a := name)]

end Changes

/-! ### The writes of a store -/

theorem undergoes_set {s : Scope} (hs : st.Has (.plain s.own)) (name value : String) :
    st.Undergoes ⟨.plain s.own, name, some value⟩ (st.set s name value) :=
  undergoes_insert (bindingsAt_modifyOwn hs _)

theorem undergoes_unset {s : Scope} (hs : st.Has (.plain s.own)) (name : String) :
    st.Undergoes ⟨.plain s.own, name, none⟩ (st.unset s name) :=
  undergoes_erase (bindingsAt_modifyOwn hs _)

/-- An entry of the cache that exists stays, unless the write is forced. -/
theorem setCache_of_isSome {s : Scope} {name : String} (h : (st.lookupCache s name).isSome) (value : String) :
    st.setCache s name value false = st := by
  simp [setCache, Option.isSome_iff_ne_none.mp h]

theorem undergoes_setCache {s : Scope} {name : String} {force : Bool} (hs : st.Has (.cache s.cache)) (value : String)
    (h : force = true ∨ st.lookupCache s name = none) :
    st.Undergoes ⟨.cache s.cache, name, some value⟩ (st.setCache s name value force) := by
  have hwrites : st.setCache s name value force = st.modifyCache s (·.insert name value) := by
    rcases h with h | h <;> simp [setCache, h]
  exact hwrites ▸ undergoes_insert (bindingsAt_modifyCache hs _)

theorem undergoes_unsetCache {s : Scope} (hs : st.Has (.cache s.cache)) (name : String) :
    st.Undergoes ⟨.cache s.cache, name, none⟩ (st.unsetCache s name) :=
  undergoes_erase (bindingsAt_modifyCache hs _)

theorem undergoes_setEnvironment (name value : String) :
    st.Undergoes ⟨.environment, name, some value⟩ (st.setEnvironment name value) :=
  undergoes_insert fun place => by cases place <;> rfl

theorem undergoes_unsetEnvironment (name : String) :
    st.Undergoes ⟨.environment, name, none⟩ (st.unsetEnvironment name) :=
  undergoes_erase fun place => by cases place <;> rfl

end CommandScript.Store
