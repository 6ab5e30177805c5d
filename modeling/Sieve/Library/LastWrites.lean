import Mathlib.Data.List.Induction
import Mathlib.Logic.Function.Basic

/-!
# The last write to each key

A sequence of writes, each to one key, that sets a value or removes it, over any type of writes:

* `replay`: the values after the writes, in order;
* `replay_eq_find?`: the value of a key is that of its first write from the end;
* `BackScan`: what a scan from the end keeps, the values found and the keys found removed.
-/

namespace Sieve.Library

variable {α κ ν : Type} [DecidableEq κ] (key : α → κ) (val : α → Option ν)

/-- Each write sets the value of its key, or removes it. -/
def replay (writes : List α) : κ → Option ν :=
  writes.foldl (fun values write => Function.update values (key write) (val write)) fun _ => none

theorem replay_concat (writes : List α) (write : α) :
    replay key val (writes ++ [write]) =
      Function.update (replay key val writes) (key write) (val write) := by
  rw [replay, List.foldl_append]
  rfl

/-- **The first write from the end counts.** -/
theorem replay_eq_find? (writes : List α) (k : κ) :
    replay key val writes k = (writes.reverse.find? fun write => key write = k).bind val := by
  induction writes using List.reverseRecOn with
  | nil => rfl
  | append_singleton writes write ih =>
    rw [replay_concat, List.reverse_append, List.reverse_singleton, List.singleton_append,
      List.find?_cons]
    by_cases hkey : key write = k
    · subst hkey
      simp
    · rw [Function.update_of_ne (Ne.symm hkey), ih]
      simp [hkey]

/-- After a scan of the writes from the end: the values found so far, and the removed keys. -/
structure BackScan (scanned : List α) (found : κ → Option ν) (removed : κ → Prop) : Prop where
  found_eq : ∀ k, found k = (scanned.find? fun write => key write = k).bind val
  removed_iff : ∀ k, removed k ↔ ∃ write, (scanned.find? fun write => key write = k) = some write ∧
    val write = none

variable {key val} {scanned : List α} {found : κ → Option ν} {removed : κ → Prop}

/-- A key is settled once one of its writes has been scanned. -/
theorem BackScan.settled_iff (h : BackScan key val scanned found removed) (k : κ) :
    removed k ∨ (found k).isSome ↔ (scanned.find? fun write => key write = k).isSome := by
  rw [h.removed_iff, h.found_eq]
  cases scanned.find? fun write => key write = k with
  | none => simp
  | some write => cases hval : val write <;> simp [hval]

/-- The next write counts unless its key is settled. -/
theorem BackScan.concat (h : BackScan key val scanned found removed) (write : α)
    {found' : κ → Option ν} {removed' : κ → Prop}
    (hsettled : removed (key write) ∨ (found (key write)).isSome →
      found' = found ∧ ∀ k, removed' k ↔ removed k)
    (hnew : ¬ (removed (key write) ∨ (found (key write)).isSome) →
      found' = Function.update found (key write) (val write) ∧
        ∀ k, removed' k ↔ removed k ∨ k = key write ∧ val write = none) :
    BackScan key val (scanned ++ [write]) found' removed' := by
  have hfind : ∀ k, ((scanned ++ [write]).find? fun write => key write = k) =
      (scanned.find? fun write => key write = k).or (if key write = k then some write else none) := by
    intro k
    rw [List.find?_append]
    by_cases hkey : key write = k
    · simp [hkey]
    · simp [hkey]
  rw [h.settled_iff] at hsettled hnew
  by_cases hdone : (scanned.find? fun write' => key write' = key write).isSome
  · obtain ⟨rfl, hremoved⟩ := hsettled hdone
    have hsame : ∀ k, ((scanned ++ [write]).find? fun write => key write = k) =
        scanned.find? fun write => key write = k := by
      intro k
      rw [hfind]
      by_cases hkey : key write = k
      · subst hkey
        rw [Option.or_of_isSome hdone]
      · rw [if_neg hkey, Option.or_none]
    refine ⟨fun k => ?_, fun k => ?_⟩
    · rw [hsame, h.found_eq]
    · rw [hsame, hremoved, h.removed_iff]
  · obtain ⟨rfl, hremoved⟩ := hnew hdone
    have hnone : (scanned.find? fun write' => key write' = key write) = none := by
      simpa using hdone
    refine ⟨fun k => ?_, fun k => ?_⟩
    · rw [hfind]
      by_cases hkey : key write = k
      · subst hkey
        rw [hnone, if_pos rfl, Function.update_self]
        rfl
      · rw [if_neg hkey, Option.or_none, Function.update_of_ne (Ne.symm hkey), h.found_eq]
    · rw [hfind, hremoved, h.removed_iff]
      by_cases hkey : key write = k
      · subst hkey
        simp [hnone]
      · simp [hkey, Ne.symm hkey]

theorem BackScan.nil : BackScan key val [] (fun _ => none) (fun _ => False) :=
  ⟨fun _ => rfl, fun _ => by simp⟩

/-- **A scan of all writes from the end finds what a replay leaves.** -/
theorem BackScan.eq_replay {writes : List α} (h : BackScan key val writes.reverse found removed) :
    found = replay key val writes := by
  funext k
  rw [h.found_eq, replay_eq_find?]

end Sieve.Library
