import CommandScript.Proofs.Session.Cache
import Mathlib.Data.List.DropRight
import Mathlib.Data.List.Dedup

/-! Which scripts are kept. After any readings these are the scripts that were read last, each once, as many of them as
there is room for; readings that fail do not count. -/

namespace CommandScript.Session

/-! ### The last of a list -/

section Lists

variable {α : Type} [DecidableEq α]

/-- In a list without duplicates, taking one element out can bring one more among the first. -/
theorem take_filter_take_succ {l : List α} (h : l.Nodup) (x : α) (n : Nat) :
    ((l.take (n + 1)).filter (· ≠ x)).take n = (l.filter (· ≠ x)).take n := by
  induction l generalizing n with
  | nil => rfl
  | cons a l ih =>
    obtain ⟨ha, hl⟩ := List.nodup_cons.1 h
    rw [List.take_succ_cons]
    by_cases hax : a = x
    · have kept (m : List α) (hm : ∀ y ∈ m, y ∈ l) : m.filter (· ≠ x) = m :=
        List.filter_eq_self.2 fun y hy => decide_eq_true fun hyx => ha (by rw [hax, ← hyx]; exact hm y hy)
      rw [List.filter_cons_of_neg (by simpa using hax), List.filter_cons_of_neg (by simpa using hax),
        kept _ fun y hy => List.mem_of_mem_take hy, kept _ fun y hy => hy, List.take_take, Nat.min_self]
    · rw [List.filter_cons_of_pos (by simpa using hax), List.filter_cons_of_pos (by simpa using hax)]
      cases n with
      | zero => rfl
      | succ n => rw [List.take_succ_cons, List.take_succ_cons, ih hl]

/-- What is used last goes to the end of the last ones, whatever else there was. -/
theorem rtake_use {l : List α} (h : l.Nodup) (x : α) (n : Nat) :
    (((l.rtake n).filter (· ≠ x)) ++ [x]).rtake n = (l.filter (· ≠ x) ++ [x]).rtake n := by
  cases n with
  | zero => rw [List.rtake_zero, List.rtake_zero]
  | succ n =>
    rw [List.rtake_concat_succ, List.rtake_concat_succ]
    simp only [List.rtake_eq_reverse_take_reverse, ← List.filter_reverse, List.reverse_reverse]
    rw [take_filter_take_succ (List.nodup_reverse.2 h)]

/-- Of equal elements the last is the one that counts. -/
theorem dedup_concat (l : List α) (x : α) : (l ++ [x]).dedup = l.dedup.filter (· ≠ x) ++ [x] := by
  induction l with
  | nil => rfl
  | cons a l ih =>
    rw [List.cons_append]
    by_cases hmem : a ∈ l
    · rw [List.dedup_cons_of_mem (List.mem_append_left _ hmem), List.dedup_cons_of_mem hmem, ih]
    · rw [List.dedup_cons_of_notMem hmem]
      by_cases hax : a = x
      · rw [List.filter_cons_of_neg (by simpa using hax), ← ih, hax]
        exact List.dedup_cons_of_mem (List.mem_append_right _ (List.mem_singleton.2 rfl))
      · rw [List.filter_cons_of_pos (by simpa using hax), List.cons_append, ← ih]
        refine List.dedup_cons_of_notMem fun hmem' => ?_
        rcases List.mem_append.1 hmem' with hl | hx
        · exact hmem hl
        · exact hax (List.mem_singleton.1 hx)

end Lists

namespace ParseCache

/-! ### Scripts by their last use -/

/-- The cache after more scripts were asked for, one after another. -/
def readAll (capacity : Nat) (c : ParseCache) (keys : List ScriptKey) : ParseCache :=
  keys.foldl (fun c key => (c.read capacity key).2) c

theorem readAll_append (capacity : Nat) (c : ParseCache) (keys more : List ScriptKey) :
    c.readAll capacity (keys ++ more) = (c.readAll capacity keys).readAll capacity more :=
  List.foldl_append ..

theorem readAll_concat (capacity : Nat) (c : ParseCache) (keys : List ScriptKey) (key : ScriptKey) :
    c.readAll capacity (keys ++ [key]) = ((c.readAll capacity keys).read capacity key).2 :=
  readAll_append ..

theorem kept_readAll (capacity : Nat) (keys : List ScriptKey) :
    Kept capacity (({} : ParseCache).readAll capacity keys) := by
  induction keys using List.reverseRecOn with
  | nil => exact .empty
  | append_singleton keys key ih =>
    rw [readAll_concat]
    exact ih.read key

/-- The scripts that could be read, each at its last use. -/
def recent (keys : List ScriptKey) : List ScriptKey := (keys.filter fun key => (readScript key).isOk).dedup

theorem recent_concat_ok {keys : List ScriptKey} {key : ScriptKey} {programs : List Code.Program}
    (h : readScript key = .ok programs) : recent (keys ++ [key]) = (recent keys).filter (· ≠ key) ++ [key] := by
  have hok : (readScript key).isOk = true := by rw [h]; rfl
  have hlast : [key].filter (fun key => (readScript key).isOk) = [key] := List.filter_cons_of_pos hok
  rw [recent, List.filter_append, hlast, dedup_concat]
  rfl

theorem recent_concat_error {keys : List ScriptKey} {key : ScriptKey} {failure : Failure}
    (h : readScript key = .error failure) : recent (keys ++ [key]) = recent keys := by
  have hok : ¬(readScript key).isOk = true := by rw [h]; exact Bool.false_ne_true
  have hlast : [key].filter (fun key => (readScript key).isOk) = [] := List.filter_cons_of_neg hok
  rw [recent, List.filter_append, hlast, List.append_nil]
  rfl

theorem nodup_recent (keys : List ScriptKey) : (recent keys).Nodup := List.nodup_dedup _

/-! ### What a reading does -/

theorem map_filter_keys (entries : List (ScriptKey × Script)) (key : ScriptKey) :
    (entries.filter fun (k, _) => k ≠ key).map Prod.fst = (entries.map Prod.fst).filter (· ≠ key) := by
  rw [List.filter_map]
  rfl

theorem keys_use (entries : List (ScriptKey × Script)) (capacity : Nat) (key : ScriptKey) (script : Script) :
    (use entries capacity key script).map Prod.fst =
      ((entries.map Prod.fst).filter (· ≠ key) ++ [key]).rtake capacity := by
  rw [use, List.map_drop, List.map_append, map_filter_keys, List.rtake, ← map_filter_keys]
  simp only [List.length_append, List.length_map, List.map_cons, List.map_nil, List.length_cons, List.length_nil]

/-- A script that cannot be read leaves the cache as it was, provided that nothing else is kept for it. -/
theorem Faithful.read_error {c : ParseCache} (h : c.Faithful) (capacity : Nat) {key : ScriptKey} {failure : Failure}
    (hr : readScript key = .error failure) : c.read capacity key = (.error failure, c) := by
  unfold ParseCache.read
  cases hf : c.find? key with
  | none => simp only [hr]
  | some script =>
    rw [h.find? hf] at hr
    cases hr

/-- A script that can be read becomes the most recent one, whether it was kept or not. -/
theorem keys_read (c : ParseCache) (capacity : Nat) {key : ScriptKey}
    {programs : List Code.Program} (hr : readScript key = .ok programs) :
    (c.read capacity key).2.entries.map Prod.fst =
      ((c.entries.map Prod.fst).filter (· ≠ key) ++ [key]).rtake capacity := by
  unfold ParseCache.read
  cases hf : c.find? key with
  | none =>
    simp only [hr]
    exact keys_use ..
  | some script => exact keys_use ..

/-! ### Readings one after another -/

/-- What is kept are the scripts that were read last, in that order. -/
theorem keys_readAll (capacity : Nat) (keys : List ScriptKey) :
    (({} : ParseCache).readAll capacity keys).entries.map Prod.fst = (recent keys).rtake capacity := by
  induction keys using List.reverseRecOn with
  | nil => exact (List.rtake_nil capacity).symm
  | append_singleton keys key ih =>
    have hfaithful := (kept_readAll capacity keys).faithful
    rw [readAll_concat]
    cases hr : readScript key with
    | error failure => rw [hfaithful.read_error capacity hr, recent_concat_error hr, ih]
    | ok programs =>
      rw [keys_read _ capacity hr, recent_concat_ok hr, ih, rtake_use (nodup_recent keys)]

theorem length_rtake {α : Type} (l : List α) (n : Nat) : (l.rtake n).length = min n l.length := by
  rw [List.rtake, List.length_drop]
  omega

/-- As many are kept as there is room for. -/
theorem length_readAll (capacity : Nat) (keys : List ScriptKey) :
    (({} : ParseCache).readAll capacity keys).entries.length = min capacity (recent keys).length := by
  rw [← length_rtake, ← keys_readAll, List.length_map]

end ParseCache

end CommandScript.Session
