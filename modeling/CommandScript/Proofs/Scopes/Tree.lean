import CommandScript.Proofs.Scopes.Places

/-! Scopes that are made inside one another from one that has no parent. They share one cache and one environment, and
each has variables of its own. Such a family reads as a tree would: a scope sees the nearest value on its way to the
root, and a write to a scope's own variables is seen through that way only. -/

namespace CommandScript

/-- A scope and those that it is inside of, nearest first. -/
def Scope.lineage : Scope → List Scope
  | ⟨own, around, cache, none⟩ => [⟨own, around, cache, none⟩]
  | ⟨own, around, cache, some parent⟩ => ⟨own, around, cache, some parent⟩ :: parent.lineage

namespace Scope

theorem lineage_of_root {s : Scope} (h : s.parent = none) : s.lineage = [s] := by
  obtain ⟨own, around, cache, parent⟩ := s
  subst h
  simp [lineage]

theorem lineage_of_child {s parent : Scope} (h : s.parent = some parent) : s.lineage = s :: parent.lineage := by
  obtain ⟨own, around, cache, parent⟩ := s
  subst h
  simp [lineage]

end Scope

namespace Store

/-- The value in the nearest scope, from a given one on, whose own variables bind a name. -/
def nearest? (st : Store) (t : Scope) (name : String) : Option String :=
  t.lineage.findSome? fun s => (st.ownBindings s).get? name

/-- One scope is another or around it, and nothing between them binds a name. -/
def Reaches (st : Store) (t s : Scope) (name : String) : Prop :=
  ∃ nearer farther, t.lineage = nearer ++ s :: farther ∧ ∀ u ∈ nearer, (st.ownBindings u).get? name = none

/-- What a scope binds itself to a name: a value or, without one, nothing. -/
def assign (st : Store) (s : Scope) (name : String) : Option String → Store
  | some value => st.set s name value
  | none => st.unset s name

theorem undergoes_assign {st : Store} {s : Scope} (hs : st.Has (.plain s.own)) (name : String)
    (value : Option String) : st.Undergoes ⟨.plain s.own, name, value⟩ (st.assign s name value) := by
  cases value with
  | some value => exact undergoes_set hs name value
  | none => exact undergoes_unset hs name

end Store

/-! ### Families -/

/-- What can be done with a scope: a scope is made inside it, or something is written through it. -/
inductive Scope.Operation where
  | child
  | set (name value : String)
  | unset (name : String)
  | setCache (name value : String) (force : Bool)
  | unsetCache (name : String)
  | setEnvironment (name value : String)
  | unsetEnvironment (name : String)

/-- Scopes over one store, and the one that was the first of them. -/
structure Family where
  root : Scope
  scopes : List Scope
  store : Store

namespace Family

open Scope (Operation)

/-- A scope without a parent, over given variables and a given cache. -/
def start (st : Store) (own cache : Bindings String) : Family :=
  let (root, store) := st.root own cache
  { root, scopes := [root], store }

def perform (f : Family) (s : Scope) : Operation → Family
  | .child => let (t, store) := f.store.child s; { f with scopes := t :: f.scopes, store }
  | .set name value => { f with store := f.store.set s name value }
  | .unset name => { f with store := f.store.unset s name }
  | .setCache name value force => { f with store := f.store.setCache s name value force }
  | .unsetCache name => { f with store := f.store.unsetCache s name }
  | .setEnvironment name value => { f with store := f.store.setEnvironment name value }
  | .unsetEnvironment name => { f with store := f.store.unsetEnvironment name }

/-- What any operations, each on some scope that was made before it, lead to. -/
inductive IsMade : Family → Prop where
  | start (st : Store) (own cache : Bindings String) : IsMade (start st own cache)
  | perform {f : Family} (h : f.IsMade) {s : Scope} (hs : s ∈ f.scopes) (op : Operation) : IsMade (f.perform s op)

/-- Each scope but the root reads through to one of the family, its parent; it has its own variables, which no other
has, and all have one cache. -/
structure IsTree (f : Family) : Prop where
  linked : ∀ s ∈ f.scopes, (s.parent = none ∧ s.around = []) ∨
    ∃ parent ∈ f.scopes, s.parent = some parent ∧ s.around = parent.own :: parent.around
  distinct : ∀ s ∈ f.scopes, ∀ t ∈ f.scopes, s.own = t.own → s = t
  owned : ∀ s ∈ f.scopes, f.store.Has (.plain s.own)
  shared : ∀ s ∈ f.scopes, s.cache = f.root.cache
  cached : f.store.Has (.cache f.root.cache)

namespace IsTree

variable {f : Family}

theorem start (st : Store) (own cache : Bindings String) : (start st own cache).IsTree where
  linked := by simp [Family.start, Store.root]
  distinct := by simp [Family.start]
  owned := by simp [Family.start, Store.root, Store.Has]
  shared := by simp [Family.start]
  cached := by simp [Family.start, Store.root, Store.Has]

theorem child (h : f.IsTree) {s : Scope} (hs : s ∈ f.scopes) : (f.perform s .child).IsTree where
  linked := by
    intro t ht
    obtain rfl | ht := List.mem_cons.mp ht
    · exact .inr ⟨s, List.mem_cons_of_mem _ hs, rfl, rfl⟩
    · obtain hroot | ⟨parent, hp, hlink⟩ := h.linked t ht
      · exact .inl hroot
      · exact .inr ⟨parent, List.mem_cons_of_mem _ hp, hlink⟩
  distinct := by
    -- The place of the new variables is behind those of all others.
    have hnew : ∀ t ∈ f.scopes, t.own ≠ f.store.maps.size := fun t ht => Nat.ne_of_lt (h.owned t ht)
    intro t ht u hu heq
    obtain rfl | ht := List.mem_cons.mp ht <;> obtain rfl | hu := List.mem_cons.mp hu
    · rfl
    · exact absurd heq.symm (hnew u hu)
    · exact absurd heq (hnew t ht)
    · exact h.distinct t ht u hu heq
  owned := by
    intro t ht
    simp only [perform, Store.child, Store.Has, Array.size_push]
    obtain rfl | ht := List.mem_cons.mp ht
    · exact Nat.lt_succ_self _
    · exact Nat.lt_succ_of_lt (h.owned t ht)
  shared := by
    intro t ht
    obtain rfl | ht := List.mem_cons.mp ht
    · exact h.shared s hs
    · exact h.shared t ht
  cached := h.cached

theorem withStore (h : f.IsTree) {st : Store} (hst : ∀ place, st.Has place ↔ f.store.Has place) :
    ({ f with store := st } : Family).IsTree :=
  { h with owned := fun s hs => (hst _).mpr (h.owned s hs), cached := (hst _).mpr h.cached }

theorem perform (h : f.IsTree) {s : Scope} (hs : s ∈ f.scopes) (op : Operation) : (f.perform s op).IsTree := by
  cases op with
  | child => exact h.child hs
  | set name value | unset name => exact h.withStore (Store.has_modifyOwn s _)
  | unsetCache name => exact h.withStore (Store.has_modifyCache s _)
  | setCache name value force => exact h.withStore (Store.has_setCache s name value force)
  | setEnvironment name value | unsetEnvironment name => exact h.withStore fun place => by cases place <;> rfl

end IsTree

theorem IsMade.isTree {f : Family} (h : f.IsMade) : f.IsTree := by
  induction h with
  | start st own cache => exact .start st own cache
  | perform _ hs op ih => exact ih.perform hs op

/-! ### Reading -/

namespace IsTree

variable {f : Family} {s t : Scope}

/-- What holds of the root, and of a scope if it holds of its parent, holds of all scopes. -/
theorem induction (h : f.IsTree) {motive : Scope → Prop}
    (root : ∀ s ∈ f.scopes, s.parent = none → s.around = [] → motive s)
    (child : ∀ s ∈ f.scopes, ∀ parent ∈ f.scopes, s.parent = some parent → s.around = parent.own :: parent.around →
      motive parent → motive s) : ∀ t ∈ f.scopes, motive t := by
  intro t
  induction t using Scope.lineage.induct with
  | case1 own around cache =>
    intro ht
    obtain ⟨hroot, haround⟩ | ⟨parent, -, hparent, -⟩ := h.linked _ ht
    · exact root _ ht hroot haround
    · cases hparent
  | case2 own around cache inner ih =>
    intro ht
    obtain ⟨hroot, -⟩ | ⟨parent, hp, hparent, haround⟩ := h.linked _ ht
    · cases hroot
    · cases hparent
      exact child _ ht inner hp rfl haround (ih hp)

theorem mem_of_lineage (h : f.IsTree) : ∀ t ∈ f.scopes, ∀ u ∈ t.lineage, u ∈ f.scopes := by
  refine h.induction (fun t ht hroot _ => ?_) (fun t ht parent hp hparent _ ih => ?_)
  · simpa [Scope.lineage_of_root hroot] using ht
  · simpa [Scope.lineage_of_child hparent] using ⟨ht, ih⟩

/-- What a scope reads through to is what its parents have of their own. -/
theorem places_eq (h : f.IsTree) : ∀ t ∈ f.scopes, t.own :: t.around = t.lineage.map Scope.own := by
  refine h.induction (fun t _ hroot haround => ?_) (fun t _ parent _ hparent haround ih => ?_)
  · simp [Scope.lineage_of_root hroot, haround]
  · simp [Scope.lineage_of_child hparent, haround, ih]

variable {st : Store}

theorem chain_eq (h : f.IsTree) (st : Store) (ht : t ∈ f.scopes) : st.chain t = t.lineage.map st.ownBindings := by
  simp only [Store.chain, h.places_eq t ht, List.map_map]
  rfl

theorem lookupCache_eq (h : f.IsTree) (hs : s ∈ f.scopes) (st : Store) (name : String) :
    st.lookupCache s name = st.lookupCache f.root name := by
  simp only [Store.lookupCache, Store.cacheBindings, h.shared s hs]

/-- A scope looks a variable up as a tree of variables over one cache would. -/
theorem lookup_eq (h : f.IsTree) (st : Store) (ht : t ∈ f.scopes) (name : String) :
    st.lookup t name = (st.nearest? t name).or (st.lookupCache f.root name) := by
  simp only [Store.lookup, h.chain_eq st ht, List.findSome?_map, h.lookupCache_eq ht]
  show (match st.nearest? t name with | some value => some value | none => _) = _
  cases st.nearest? t name <;> rfl

/-! ### Writing -/

/-- Two searches that differ at some elements only find the same, unless both get as far as one of those. -/
theorem findSome?_eq_or {α β : Type} {g g' : α → Option β} {differs : α → Prop} {xs : List α}
    (h : ∀ x ∈ xs, ¬differs x → g' x = g x) : xs.findSome? g' = xs.findSome? g ∨
      ∃ nearer x farther, xs = nearer ++ x :: farther ∧ differs x ∧ ∀ y ∈ nearer, g y = none := by
  induction xs with
  | nil => exact .inl rfl
  | cons x xs ih =>
    by_cases hx : differs x
    · exact .inr ⟨[], x, xs, rfl, hx, by simp⟩
    have hsame : g' x = g x := h x (by simp) hx
    cases hg : g x with
    | some value => simp [hsame, hg]
    | none =>
      obtain heq | ⟨nearer, z, farther, rfl, hz, hnear⟩ := ih fun y hy => h y (List.mem_cons_of_mem _ hy)
      · exact .inl (by simp [hsame, hg, heq])
      · exact .inr ⟨x :: nearer, z, farther, rfl, hz, by simpa [hg] using hnear⟩

/-- A write to a scope's own variables is seen under its name only, and only from where nothing nearer is bound. -/
theorem reaches_of_lookup_ne (h : f.IsTree) (hs : s ∈ f.scopes) (ht : t ∈ f.scopes) {name other : String}
    {value : Option String} (hst : f.store.Undergoes ⟨.plain s.own, name, value⟩ st)
    (hne : st.lookup t other ≠ f.store.lookup t other) : other = name ∧ f.store.Reaches t s name := by
  have hcache : st.lookupCache f.root other = f.store.lookupCache f.root other :=
    (hst (.cache f.root.cache) other).trans (if_neg fun hp => nomatch hp.1)
  have hnearest : st.nearest? t other ≠ f.store.nearest? t other := by
    intro heq
    exact hne (by rw [h.lookup_eq st ht, h.lookup_eq f.store ht, heq, hcache])
  have hsame : ∀ u ∈ t.lineage, ¬(u = s ∧ other = name) →
      (st.ownBindings u).get? other = (f.store.ownBindings u).get? other := by
    intro u hu hno
    refine (hst (.plain u.own) other).trans (if_neg ?_)
    rintro ⟨hplace, hname⟩
    exact hno ⟨h.distinct u (h.mem_of_lineage t ht u hu) s hs (Store.Place.plain.inj hplace), hname⟩
  obtain ⟨nearer, _, farther, hsplit, ⟨rfl, rfl⟩, hnear⟩ := (findSome?_eq_or hsame).resolve_left hnearest
  exact ⟨rfl, nearer, farther, hsplit, hnear⟩

/-- A write to the cache is seen from every scope: all have one, and none has other variables than before. -/
theorem lookup_of_undergoes (h : f.IsTree) (ht : t ∈ f.scopes) {name : String} {value : Option String}
    (hst : f.store.Undergoes ⟨.cache f.root.cache, name, value⟩ st) :
    st.lookupCache t name = value ∧ st.lookup t name = (f.store.nearest? t name).or value := by
  have hcache : st.lookupCache f.root name = value := (hst (.cache f.root.cache) name).trans (if_pos ⟨rfl, rfl⟩)
  have hown : ∀ u : Scope, (st.ownBindings u).get? name = (f.store.ownBindings u).get? name :=
    fun u => (hst (.plain u.own) name).trans (if_neg fun hp => nomatch hp.1)
  have hnearest : st.nearest? t name = f.store.nearest? t name := congrArg (t.lineage.findSome? ·) (funext hown)
  exact ⟨(h.lookupCache_eq ht st name).trans hcache, by rw [h.lookup_eq st ht, hnearest, hcache]⟩

/-- Through whichever scope the cache is written, it is the one of the root. -/
theorem undergoes_setCache (h : f.IsTree) (hs : s ∈ f.scopes) {name : String} (value : String) {force : Bool}
    (hwrites : force = true ∨ f.store.lookupCache f.root name = none) :
    f.store.Undergoes ⟨.cache f.root.cache, name, some value⟩ (f.store.setCache s name value force) := by
  have hcached : f.store.Has (.cache s.cache) := h.shared s hs ▸ h.cached
  have hwritten := Store.undergoes_setCache hcached value (h.lookupCache_eq hs f.store name ▸ hwrites)
  rwa [h.shared s hs] at hwritten

theorem undergoes_unsetCache (h : f.IsTree) (hs : s ∈ f.scopes) (name : String) :
    f.store.Undergoes ⟨.cache f.root.cache, name, none⟩ (f.store.unsetCache s name) := by
  have hcached : f.store.Has (.cache s.cache) := h.shared s hs ▸ h.cached
  have herased := Store.undergoes_unsetCache hcached name
  rwa [h.shared s hs] at herased

end IsTree

/-- Operations on scopes made inside one another keep them a tree of bindings over one cache and one environment.
What a scope reads through to is what its parents have of their own, and it sees the nearest value, or else the
cache's. A write to a scope's own variables changes nothing else, and is seen only under its name and from where nothing
nearer is bound; a write to the cache or to the environment is seen from everywhere, and without force an entry of the
cache stays. -/
theorem made_reads_as_tree {f : Family} (hf : f.IsMade) :
    (∀ t ∈ f.scopes, t.own :: t.around = t.lineage.map Scope.own ∧
      f.store.chain t = t.lineage.map f.store.ownBindings ∧ ∀ u ∈ t.lineage, u ∈ f.scopes) ∧
    (∀ t ∈ f.scopes, ∀ name, f.store.lookup t name = (f.store.nearest? t name).or (f.store.lookupCache f.root name)) ∧
    (∀ s ∈ f.scopes, ∀ name value, let written := f.store.assign s name value
      f.store.Undergoes ⟨.plain s.own, name, value⟩ written ∧ (∀ t ∈ f.scopes, t.own = s.own → t = s) ∧
      ∀ t ∈ f.scopes, ∀ other, written.lookup t other ≠ f.store.lookup t other →
        other = name ∧ f.store.Reaches t s name) ∧
    (∀ s ∈ f.scopes, ∀ name value force,
      ((f.store.lookupCache f.root name).isSome → f.store.setCache s name value false = f.store) ∧
      (force = true ∨ f.store.lookupCache f.root name = none → let written := f.store.setCache s name value force
        f.store.Undergoes ⟨.cache f.root.cache, name, some value⟩ written ∧ ∀ t ∈ f.scopes,
          written.lookupCache t name = some value ∧
          written.lookup t name = (f.store.nearest? t name).or (some value)) ∧
      let erased := f.store.unsetCache s name
      f.store.Undergoes ⟨.cache f.root.cache, name, none⟩ erased ∧ ∀ t ∈ f.scopes,
        erased.lookupCache t name = none ∧ erased.lookup t name = (f.store.nearest? t name).or none) ∧
    ∀ name value, let written := f.store.setEnvironment name value
      let erased := f.store.unsetEnvironment name
      f.store.Undergoes ⟨.environment, name, some value⟩ written ∧ written.lookupEnvironment name = some value ∧
      f.store.Undergoes ⟨.environment, name, none⟩ erased ∧ erased.lookupEnvironment name = none := by
  have h := hf.isTree
  refine ⟨fun t ht => ⟨h.places_eq t ht, h.chain_eq f.store ht, h.mem_of_lineage t ht⟩,
    fun t ht => h.lookup_eq f.store ht, fun s hs name value => ?_, fun s hs name value force => ⟨fun hbound => ?_,
      fun hwrites => ?_, ?_⟩, fun name value => ?_⟩
  · have hwrites := Store.undergoes_assign (h.owned s hs) name value
    exact ⟨hwrites, fun t ht => h.distinct t ht s hs, fun t ht _ => h.reaches_of_lookup_ne hs ht hwrites⟩
  · exact Store.setCache_of_isSome (h.lookupCache_eq hs f.store name ▸ hbound) value
  · have hwritten := h.undergoes_setCache hs value hwrites
    exact ⟨hwritten, fun t ht => h.lookup_of_undergoes ht hwritten⟩
  · have herased := h.undergoes_unsetCache hs name
    exact ⟨herased, fun t ht => h.lookup_of_undergoes ht herased⟩
  · have hwritten := f.store.undergoes_setEnvironment name value
    have herased := f.store.undergoes_unsetEnvironment name
    exact ⟨hwritten, (hwritten .environment name).trans (if_pos ⟨rfl, rfl⟩), herased,
      (herased .environment name).trans (if_pos ⟨rfl, rfl⟩)⟩

/-- A scope inside a root that binds a name sees the root's value when it has bound and unbound the name itself. -/
theorem made_reads_as_tree_of_child :
    let root : Scope := ⟨0, [], 0, none⟩
    let child : Scope := ⟨1, [0], 0, some root⟩
    let f := (((start {} [("name", "outer")] []).perform root .child).perform child
      (.set "name" "inner")).perform child (.unset "name")
    f.IsMade ∧ f.store.lookup child "name" = some "outer" := by
  intro root child f
  have hf : f.IsMade := by
    refine .perform (.perform (.perform (.start {} _ _) ?_ .child) ?_ _) ?_ _
    · exact List.mem_singleton.mpr rfl
    all_goals exact List.mem_cons_self
  exact ⟨hf, ((made_reads_as_tree hf).2.1 child List.mem_cons_self "name").trans (by decide)⟩

end Family
end CommandScript
