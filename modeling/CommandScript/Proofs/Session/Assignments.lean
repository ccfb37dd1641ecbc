import CommandScript.Proofs.Scopes.Tree
import CommandScript.Session.Builtin

/-! What the commands that bind and unbind variables write. Which of their forms an invocation has is told by its name
and by the words among its other arguments; for each form, at most one binding changes, and nothing else does. -/

namespace CommandScript.Session

open Text Command Machine
open Store (Place Change)

/-! ### Names of the environment -/

/-- A name in braces behind the word for the environment. -/
def NamesEnvironment (name x : String) : Prop :=
  name.toList = 'E' :: 'N' :: 'V' :: '\x7b' :: x.toList ++ ['\x7d'] ∧ '\n' ∉ x.toList

theorem environmentName?_eq_some_iff {name x : String} : environmentName? name = some x ↔ NamesEnvironment name x := by
  constructor
  · intro h
    unfold environmentName? at h
    split at h
    · rename_i rest hname
      split at h
      · rename_i hlast
        split at h
        · cases h
        · rename_i hnl
          cases h
          obtain ⟨ini, rfl⟩ : ∃ ini, rest = ini ++ ['\x7d'] := List.getLast?_eq_some_iff.mp hlast
          simpa [NamesEnvironment, hname] using hnl
      · cases h
    · cases h
  · rintro ⟨hname, hnl⟩
    simp [environmentName?, hname, hnl]

theorem environmentName?_eq_none_iff {name : String} :
    environmentName? name = none ↔ ∀ x, ¬NamesEnvironment name x := by
  simp [← environmentName?_eq_some_iff, Option.eq_none_iff_forall_ne_some]

/-! ### Forms -/

/-- Values bound to a name as one list, or nothing if there are none. -/
def listed? : List String → Option String
  | [] => none
  | values => some (ItemList.join values)

/-- The store has what may be written from a frame: its variables, its cache, and the variables of the parent. -/
structure Frame.IsKept (f : Frame) (st : Store) : Prop where
  own : st.Has (.plain f.scope.own)
  cache : st.Has (.cache f.scope.cache)
  parent : ∀ parent, f.scope.parent = some parent → st.Has (.plain parent.own)

/-- Scopes that were made inside one another keep what their frames write. -/
theorem Frame.isKept_of_isTree {family : Family} (h : family.IsTree) {f : Frame} (hf : f.scope ∈ family.scopes) :
    f.IsKept family.store where
  own := h.owned _ hf
  cache := h.shared _ hf ▸ h.cached
  parent := by
    intro parent hparent
    obtain ⟨hroot, -⟩ | ⟨linked, hlinked, hp, -⟩ := h.linked _ hf
    · cases hroot.symm.trans hparent
    · cases hp.symm.trans hparent
      exact h.owned _ hlinked

/-- A warning about a name that there is no parent to bind in. -/
def topLevelWarning (name : String) : String :=
  "Cannot set `" ++ name ++ "` with PARENT_SCOPE from the top-level scope."

/-- What `set` changes at a desk, and its warning. -/
inductive Desk.Sets (d : Desk) (name : String) : List String → Option Change → Option String → Prop where
  | environment {x : String} {values : List String} (hname : NamesEnvironment name x) :
      Sets d name values (some ⟨.environment, x, values.head?⟩) none
  | cache {values rest : List String} (hname : ∀ x, ¬NamesEnvironment name x) (hfirst : "CACHE" ∉ values)
      (hwrites : rest.getLast? = some "FORCE" ∨ d.store.lookupCache d.frame.scope name = none) :
      Sets d name (values ++ "CACHE" :: rest)
        (some ⟨.cache d.frame.scope.cache, name, some (ItemList.join values)⟩) none
  | cached {values rest : List String} (hname : ∀ x, ¬NamesEnvironment name x) (hfirst : "CACHE" ∉ values)
      (hforce : rest.getLast? ≠ some "FORCE") (hbound : (d.store.lookupCache d.frame.scope name).isSome) :
      Sets d name (values ++ "CACHE" :: rest) none none
  | parent {parent : Scope} {values : List String} (hname : ∀ x, ¬NamesEnvironment name x)
      (hcache : "CACHE" ∉ values) (hparent : d.frame.scope.parent = some parent) :
      Sets d name (values ++ ["PARENT_SCOPE"]) (some ⟨.plain parent.own, name, listed? values⟩) none
  | topLevel {values : List String} (hname : ∀ x, ¬NamesEnvironment name x) (hcache : "CACHE" ∉ values)
      (hparent : d.frame.scope.parent = none) :
      Sets d name (values ++ ["PARENT_SCOPE"]) none (some (topLevelWarning name))
  | own {values : List String} (hname : ∀ x, ¬NamesEnvironment name x) (hcache : "CACHE" ∉ values)
      (hlast : values.getLast? ≠ some "PARENT_SCOPE") :
      Sets d name values (some ⟨.plain d.frame.scope.own, name, listed? values⟩) none

/-- What `unset` changes at a desk. -/
inductive Desk.Unsets (d : Desk) (name : String) (options : List String) : Option Change → Prop where
  | environment {x : String} (hname : NamesEnvironment name x) : Unsets d name options (some ⟨.environment, x, none⟩)
  | cache (hname : ∀ x, ¬NamesEnvironment name x) (hcache : "CACHE" ∈ options) :
      Unsets d name options (some ⟨.cache d.frame.scope.cache, name, none⟩)
  | parent {parent : Scope} (hname : ∀ x, ¬NamesEnvironment name x) (hcache : "CACHE" ∉ options)
      (hword : "PARENT_SCOPE" ∈ options) (hparent : d.frame.scope.parent = some parent) :
      Unsets d name options (some ⟨.plain parent.own, name, none⟩)
  | topLevel (hname : ∀ x, ¬NamesEnvironment name x) (hcache : "CACHE" ∉ options)
      (hword : "PARENT_SCOPE" ∈ options) (hparent : d.frame.scope.parent = none) : Unsets d name options none
  | own (hname : ∀ x, ¬NamesEnvironment name x) (hcache : "CACHE" ∉ options) (hword : "PARENT_SCOPE" ∉ options) :
      Unsets d name options (some ⟨.plain d.frame.scope.own, name, none⟩)

namespace Desk

/-- Nothing at a desk differs from another but one binding, if any, and one more warning, if any. -/
structure Becomes (d : Desk) (change : Option Change) (warning : Option String) (d' : Desk) : Prop where
  frame : d'.frame = d.frame
  store : match change with
    | none => d'.store = d.store
    | some c => d.store.Undergoes c d'.store
  record : d'.record = match warning with
    | none => d.record
    | some text => d.record.diagnose .warning d.frame.location text

variable {d : Desk} {name : String} {values options : List String} {change : Option Change} {warning : Option String}

/-- Some form of `set` applies to all arguments. -/
theorem exists_sets (d : Desk) (name : String) (values : List String) :
    ∃ change warning, Sets d name values change warning := by
  by_cases hname : ∃ x, NamesEnvironment name x
  · obtain ⟨x, hx⟩ := hname
    exact ⟨_, _, .environment hx⟩
  replace hname : ∀ x, ¬NamesEnvironment name x := fun x hx => hname ⟨x, hx⟩
  by_cases hcache : "CACHE" ∈ values
  · obtain ⟨values, rest, rfl, hfirst⟩ := List.eq_append_cons_of_mem hcache
    by_cases hforce : rest.getLast? = some "FORCE"
    · exact ⟨_, _, .cache hname hfirst (.inl hforce)⟩
    cases hbound : d.store.lookupCache d.frame.scope name with
    | none => exact ⟨_, _, .cache hname hfirst (.inr hbound)⟩
    | some value => exact ⟨_, _, .cached hname hfirst hforce (by simp [hbound])⟩
  by_cases hlast : values.getLast? = some "PARENT_SCOPE"
  · obtain ⟨values, rfl⟩ := List.getLast?_eq_some_iff.mp hlast
    have hcache : "CACHE" ∉ values := fun h => hcache (List.mem_append_left _ h)
    cases hparent : d.frame.scope.parent with
    | none => exact ⟨_, _, .topLevel hname hcache hparent⟩
    | some parent => exact ⟨_, _, .parent hname hcache hparent⟩
  · exact ⟨_, _, .own hname hcache hlast⟩

theorem exists_unsets (d : Desk) (name : String) (options : List String) : ∃ change, Unsets d name options change := by
  by_cases hname : ∃ x, NamesEnvironment name x
  · obtain ⟨x, hx⟩ := hname
    exact ⟨_, .environment hx⟩
  replace hname : ∀ x, ¬NamesEnvironment name x := fun x hx => hname ⟨x, hx⟩
  by_cases hcache : "CACHE" ∈ options
  · exact ⟨_, .cache hname hcache⟩
  by_cases hword : "PARENT_SCOPE" ∈ options
  · cases hparent : d.frame.scope.parent with
    | none => exact ⟨_, .topLevel hname hcache hword hparent⟩
    | some parent => exact ⟨_, .parent hname hcache hword hparent⟩
  · exact ⟨_, .own hname hcache hword⟩

theorem Becomes.of_undergoes {c : Change} {st : Store} (h : d.store.Undergoes c st) :
    d.Becomes (some c) none { d with store := st } :=
  ⟨rfl, h, rfl⟩

theorem becomes_writeVariable {scope : Scope} (hs : d.store.Has (.plain scope.own)) (name : String)
    (values : List String) :
    d.Becomes (some ⟨.plain scope.own, name, listed? values⟩) none (d.writeVariable scope name values) := by
  cases values with
  | nil => exact .of_undergoes (Store.undergoes_unset hs name)
  | cons value values => exact .of_undergoes (Store.undergoes_set hs name _)

/-- The values in front of the word for the cache are joined, and the last argument of all says whether to force. -/
theorem set_cache (d : Desk) (hname : environmentName? name = none) (hfirst : "CACHE" ∉ values) (rest : List String) :
    set false (name :: (values ++ "CACHE" :: rest)) d = (.ok [], { d with
      store := d.store.setCache d.frame.scope name (ItemList.join values) (rest.getLast? = some "FORCE") }) := by
  have htake : (values ++ "CACHE" :: rest).takeWhile (· ≠ "CACHE") = values := by
    have hbefore : ∀ v ∈ values, decide (v ≠ "CACHE") = true :=
      fun v hv => decide_eq_true fun heq => hfirst (heq ▸ hv)
    rw [List.takeWhile_append_of_pos hbefore, List.takeWhile_cons_of_neg (by simp), List.append_nil]
  have hlast : (values ++ "CACHE" :: rest).getLast? = some "FORCE" ↔ rest.getLast? = some "FORCE" := by
    cases rest <;> simp [List.getLast?_cons]
  have hmem : "CACHE" ∈ values ++ "CACHE" :: rest := by simp
  simp only [set, hname, if_pos hmem, htake, hlast]

/-- Each form of `set` that applies says what it does. -/
theorem Sets.set_eq (hd : d.frame.IsKept d.store) (h : Sets d name values change warning) :
    ∃ d', set false (name :: values) d = (.ok [], d') ∧ d.Becomes change warning d' := by
  cases h with
  | environment hname =>
    rw [← environmentName?_eq_some_iff] at hname
    cases values with
    | nil =>
      refine ⟨_, ?_, .of_undergoes (Store.undergoes_unsetEnvironment _)⟩
      simp only [set, hname, writeEnvironment]
    | cons value values =>
      refine ⟨_, ?_, .of_undergoes (Store.undergoes_setEnvironment _ value)⟩
      simp [set, hname, writeEnvironment]
  | cache hname hfirst hwrites =>
    rw [← environmentName?_eq_none_iff] at hname
    refine ⟨_, set_cache d hname hfirst _, .of_undergoes (Store.undergoes_setCache hd.cache _ ?_)⟩
    simpa using hwrites
  | @cached values rest hname hfirst hforce hbound =>
    rw [← environmentName?_eq_none_iff] at hname
    have hset := set_cache d hname hfirst rest
    rw [decide_eq_false hforce, Store.setCache_of_isSome hbound] at hset
    exact ⟨d, hset, rfl, rfl, rfl⟩
  | parent hname hcache hparent =>
    rw [← environmentName?_eq_none_iff] at hname
    refine ⟨_, ?_, becomes_writeVariable (hd.parent _ hparent) name _⟩
    simp [set, hname, hcache, hparent]
  | topLevel hname hcache hparent =>
    rw [← environmentName?_eq_none_iff] at hname
    refine ⟨{ d with record := d.record.diagnose .warning d.frame.location (topLevelWarning name) }, ?_, rfl, rfl, rfl⟩
    simp [set, hname, hcache, hparent, topLevelWarning]
  | own hname hcache hlast =>
    rw [← environmentName?_eq_none_iff] at hname
    refine ⟨_, ?_, becomes_writeVariable hd.own name values⟩
    simp [set, hname, hcache, hlast]

/-- Each form of `unset` that applies says what it does. -/
theorem Unsets.unset_eq (hd : d.frame.IsKept d.store) (h : Unsets d name options change) :
    ∃ d', unset (name :: options) d = (.ok [], d') ∧ d.Becomes change none d' := by
  cases h with
  | environment hname =>
    rw [← environmentName?_eq_some_iff] at hname
    exact ⟨_, by simp only [unset, hname], .of_undergoes (Store.undergoes_unsetEnvironment _)⟩
  | cache hname hcache =>
    rw [← environmentName?_eq_none_iff] at hname
    refine ⟨_, ?_, .of_undergoes (Store.undergoes_unsetCache hd.cache name)⟩
    simp only [unset, hname, if_pos hcache]
  | parent hname hcache hword hparent =>
    rw [← environmentName?_eq_none_iff] at hname
    refine ⟨_, ?_, .of_undergoes (Store.undergoes_unset (hd.parent _ hparent) name)⟩
    simp only [unset, hname, if_neg hcache, if_pos hword, hparent]
  | topLevel hname hcache hword hparent =>
    rw [← environmentName?_eq_none_iff] at hname
    exact ⟨d, by simp only [unset, hname, if_neg hcache, if_pos hword, hparent], rfl, rfl, rfl⟩
  | own hname hcache hword =>
    rw [← environmentName?_eq_none_iff] at hname
    refine ⟨_, ?_, .of_undergoes (Store.undergoes_unset hd.own name)⟩
    simp only [unset, hname, if_neg hcache, if_neg hword]

/-- `set` and `unset` fail only without arguments, and then leave all as it is. Given any, they have one of their
forms, and each form that they have says which binding they change, if any, what it becomes, and whether there is a
warning: nothing else is different afterwards. -/
theorem assignments_change_one_binding (d : Desk) (hd : d.frame.IsKept d.store) :
    (∀ name values, (∃ change warning, Sets d name values change warning) ∧
      ∀ change warning, Sets d name values change warning →
        ∃ d', Builtin.set.perform false (name :: values) d = (.ok [], d') ∧ d.Becomes change warning d') ∧
    (∀ name options, (∃ change, Unsets d name options change) ∧
      ∀ change, Unsets d name options change →
        ∃ d', Builtin.unset.perform false (name :: options) d = (.ok [], d') ∧ d.Becomes change none d') ∧
    Builtin.set.perform false [] d = (.error (noArguments "set"), d) ∧
    Builtin.unset.perform false [] d = (.error (noArguments "unset"), d) :=
  ⟨fun name values => ⟨exists_sets d name values, fun _ _ h => h.set_eq hd⟩,
    fun name options => ⟨exists_unsets d name options, fun _ h => h.unset_eq hd⟩, rfl, rfl⟩

/-- A frame whose scope is inside a root binds a list in the root. -/
theorem assignments_change_one_binding_of_parent :
    let root : Scope := ⟨0, [], 0, none⟩
    let d : Desk := ⟨{ scope := ⟨1, [0], 0, some root⟩ }, { maps := #[[], []], caches := #[[]] }, {}⟩
    d.frame.IsKept d.store ∧ ∃ d', Builtin.set.perform false ["name", "a", "b", "PARENT_SCOPE"] d = (.ok [], d') ∧
      d.Becomes (some ⟨.plain root.own, "name", some "a;b"⟩) none d' := by
  intro root d
  have hd : d.frame.IsKept d.store :=
    Frame.isKept_of_isTree ((Family.IsTree.start {} [] []).child (List.mem_singleton.mpr rfl)) List.mem_cons_self
  have hname : ∀ x, ¬NamesEnvironment "name" x := environmentName?_eq_none_iff.mp (by decide)
  have hform : Sets d "name" (["a", "b"] ++ ["PARENT_SCOPE"]) _ none := .parent hname (by decide) rfl
  exact ⟨hd, ((assignments_change_one_binding d hd).1 "name" _).2 _ _ hform⟩

end Desk
end CommandScript.Session
