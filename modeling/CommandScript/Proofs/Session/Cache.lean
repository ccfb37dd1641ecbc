import CommandScript.Session.ParseCache

/-! What is kept of the scripts that were read is what reading them again would give. So however many scripts a session
has read, and whichever it has kept of them, a script is read as if it were the first. -/

namespace CommandScript.Session

open Text Syntax Code

/-- A script that is read is one of text, whose calls are put together without fault and end their blocks. -/
theorem readScript_ok {key : ScriptKey} {ps : List Program} (h : readScript key = .ok ps) :
    ∃ text, key.source.normalize? = some text ∧ programsOfText text key.file = .ok ps ∧ checkBlocks ps = .ok () := by
  unfold readScript at h
  split at h
  · cases h
  · rename_i text htext
    split at h
    · cases h
    · rename_i hps
      split at h <;> rename_i hblocks <;> cases h
      exact ⟨text, htext, hps, hblocks⟩

namespace ParseCache

/-- The caches that reading scripts one after another can leave. -/
inductive Kept (capacity : Nat) : ParseCache → Prop where
  | empty : Kept capacity {}
  | read {c : ParseCache} (h : Kept capacity c) (key : ScriptKey) : Kept capacity (c.read capacity key).2

/-- Every entry holds what its key is read as. -/
def Faithful (c : ParseCache) : Prop := ∀ entry ∈ c.entries, readScript entry.1 = .ok entry.2.programs

theorem Faithful.find? {c : ParseCache} {key : ScriptKey} {script : Script} (h : c.Faithful)
    (hf : c.find? key = some script) : readScript key = .ok script.programs := by
  unfold ParseCache.find? at hf
  obtain ⟨⟨k, s⟩, hs, rfl⟩ := Option.map_eq_some_iff.1 hf
  have hk : k = key := by simpa using List.find?_some hs
  subst hk
  exact h _ (List.mem_of_find?_eq_some hs)

theorem Faithful.use {c : ParseCache} {capacity : Nat} {key : ScriptKey} {script : Script} (h : c.Faithful)
    (hs : readScript key = .ok script.programs) (stamp : Nat) :
    (ParseCache.mk (use c.entries capacity key script) stamp).Faithful := by
  intro entry hentry
  rcases List.mem_append.1 (List.mem_of_mem_drop hentry) with hmem | hmem
  · exact h entry ((List.mem_filter.1 hmem).1)
  · rw [List.mem_singleton.1 hmem]
    exact hs

theorem Faithful.read {c : ParseCache} {capacity : Nat} (h : c.Faithful) (key : ScriptKey) :
    (c.read capacity key).2.Faithful := by
  unfold ParseCache.read
  split
  · rename_i script hf
    exact h.use (h.find? hf) _
  · split
    · exact h
    · rename_i programs hp
      exact h.use hp _

theorem Kept.faithful {c : ParseCache} {capacity : Nat} (h : Kept capacity c) : c.Faithful := by
  induction h with
  | empty => intro entry hentry; cases hentry
  | read _ key ih => exact ih.read key

/-- A script is read the same with and without a cache. -/
theorem Faithful.read_eq {c : ParseCache} (h : c.Faithful) (capacity : Nat) (key : ScriptKey) :
    (c.read capacity key).1.map Script.programs = readScript key := by
  unfold ParseCache.read
  split
  · rename_i script hf
    exact (h.find? hf).symm
  · split
    · rename_i failure hr
      exact hr.symm
    · rename_i programs hr
      exact hr.symm

end ParseCache

end CommandScript.Session
