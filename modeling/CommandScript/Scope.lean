import CommandScript.Bindings

/-! Scopes of variables. A scope writes to bindings of its own and reads through to those of the scopes around it,
then to a cache. Scopes are handles; the store they share holds every set of bindings, so a write through one scope
is seen through all that read the same bindings. -/

namespace CommandScript

/-- A scope names, by their places in the store, its own bindings, those it reads through to, nearest first, and its
cache. -/
structure Scope where
  own : Nat
  around : List Nat := []
  cache : Nat
  parent : Option Scope := none

/-- All bindings behind a family of scopes, with one environment for all. -/
structure Store where
  maps : Array (Bindings String) := #[]
  caches : Array (Bindings String) := #[]
  environment : Bindings String := []

namespace Store

/-- The bindings in which a scope looks for a variable, its own first. -/
def chain (st : Store) (s : Scope) : List (Bindings String) :=
  (s.own :: s.around).map fun i => st.maps[i]?.getD []

def ownBindings (st : Store) (s : Scope) : Bindings String := st.maps[s.own]?.getD []

def cacheBindings (st : Store) (s : Scope) : Bindings String := st.caches[s.cache]?.getD []

/-! ### Reading -/

def lookupCache (st : Store) (s : Scope) (name : String) : Option String := (st.cacheBindings s).get? name

def lookupEnvironment (st : Store) (name : String) : Option String := st.environment.get? name

/-- The nearest binding of a variable, or else the cache's. -/
def lookup (st : Store) (s : Scope) (name : String) : Option String :=
  match (st.chain s).findSome? (·.get? name) with
  | some value => some value
  | none => st.lookupCache s name

/-- Every variable that a scope sees in its own bindings or around it. -/
def visible (st : Store) (s : Scope) : Bindings String :=
  (st.chain s).foldr (fun bindings seen => bindings.foldl (fun b (name, value) => b.insert name value) seen) []

/-! ### Making scopes -/

/-- A scope with no parent, over given bindings and a given cache. -/
def root (st : Store) (own cache : Bindings String) : Scope × Store :=
  ({ own := st.maps.size, cache := st.caches.size },
    { st with maps := st.maps.push own, caches := st.caches.push cache })

/-- A scope inside another, with empty bindings of its own. -/
def child (st : Store) (s : Scope) : Scope × Store :=
  ({ own := st.maps.size, around := s.own :: s.around, cache := s.cache, parent := some s },
    { st with maps := st.maps.push [] })

/-- A scope inside another that shares its bindings and has an empty cache of its own. -/
def adopt (st : Store) (s : Scope) : Scope × Store :=
  ({ s with cache := st.caches.size, parent := some s }, { st with caches := st.caches.push [] })

/-! ### Writing -/

def modifyOwn (st : Store) (s : Scope) (f : Bindings String → Bindings String) : Store :=
  { st with maps := st.maps.modify s.own f }

def modifyCache (st : Store) (s : Scope) (f : Bindings String → Bindings String) : Store :=
  { st with caches := st.caches.modify s.cache f }

def set (st : Store) (s : Scope) (name value : String) : Store := st.modifyOwn s (·.insert name value)

def unset (st : Store) (s : Scope) (name : String) : Store := st.modifyOwn s (·.erase name)

/-- Writes to the cache. An entry that exists is kept unless the write is forced. -/
def setCache (st : Store) (s : Scope) (name value : String) (force : Bool) : Store :=
  if force || (st.lookupCache s name).isNone then st.modifyCache s (·.insert name value) else st

def unsetCache (st : Store) (s : Scope) (name : String) : Store := st.modifyCache s (·.erase name)

def setEnvironment (st : Store) (name value : String) : Store :=
  { st with environment := st.environment.insert name value }

def unsetEnvironment (st : Store) (name : String) : Store :=
  { st with environment := st.environment.erase name }

end Store

end CommandScript
