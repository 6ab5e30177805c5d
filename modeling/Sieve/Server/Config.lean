import Sieve.Library.Glob
import Sieve.Library.PatternTable

/-!
# The tables of masks in the coordinator

`config.go`: the coordinator merges the files of masks, copies the masks of patterns to the resource keys
they match, and keeps what it has looked up.  The orders in which Go ranges over maps are arguments.

* `mergeMask`, `handleWildcardsForMask`: the parts of `getMergedMask`;
* `getMaskByResourceKey`: a lookup and the table after it;
* `GetMergedMask`, `Lookups`: whatever the orders are;
* `Lookups.belongs`: what lookups find.
-/

namespace Sieve.Server

open Sieve.Library

/-- A decoded file of masks: the masked fields under resource keys and patterns for them. -/
abbrev MaskFile := List (String × List (List String))

/-- `map[string]map[string]struct\x7b\x7d`. -/
abbrev MaskTable := PatternTable String String

/-- `path.Match` for patterns in which only `*` is special: it stands for any letters but slashes. -/
def pathMatch (pattern name : String) : Bool := globWithin '*' '/' pattern.toList name.toList

/-- `strings.Contains(key, "*")`. -/
def containsStar (key : String) : Bool := key.toList.contains '*'

/-- `strings.Join(item, "/")`. -/
def maskedPath (item : List String) : Option String := some ("/".intercalate item)

/-- `item[0]`; the process ends where there is none. -/
def maskedKey (item : List String) : Option String := item.head?

/-- The loop over a file. -/
def mergeMask (masked : List String → Option String) (mask : MaskTable) (file : MaskFile) :
    Option MaskTable :=
  file.foldlM (fun mask entry =>
    entry.2.foldlM (fun mask item => (masked item).map fun k => mask.addAll entry.1 {k})
      (mask.ensure entry.1)) mask

/-- The two nested loops over the same table. -/
def handleWildcardsForMask (outer : List String) (inner : String → List String) (mask : MaskTable) :
    MaskTable :=
  outer.foldl (fun mask resourceKey1 =>
    if containsStar resourceKey1 then
      (inner resourceKey1).foldl (fun mask resourceKey2 =>
        if !containsStar resourceKey2 then
          if pathMatch resourceKey1 resourceKey2 then
            mask.addAll resourceKey2 (mask.own resourceKey1)
          else mask
        else mask) mask
    else mask) mask

/-- What is found, and the table afterwards. -/
def getMaskByResourceKey (order : List String) (mask : MaskTable) (resourceKey : String) :
    Finset String × MaskTable :=
  match mask resourceKey with
  | some val => (val, mask)
  | none =>
    let mask : MaskTable := Function.update mask resourceKey (some ∅)
    let mask := order.foldl (fun mask existingResourceKey =>
      if containsStar existingResourceKey then
        if pathMatch existingResourceKey resourceKey then
          mask.addAll resourceKey (mask.own existingResourceKey)
        else mask
      else mask) mask
    (mask.own resourceKey, mask)

/-! ### In any order -/

/-- `handleWildcardsForMask` turns the first table into the second. -/
inductive HandlesWildcards (mask : MaskTable) : MaskTable → Prop where
  | ranges {outer : List String} {inner : String → List String} (houter : mask.Ranges outer)
      (hinner : ∀ key, mask.Ranges (inner key)) :
      HandlesWildcards mask (handleWildcardsForMask outer inner mask)

/-- `getMergedMask` turns the files into the two tables. -/
structure GetMergedMask (learnedFieldPathMask configuredFieldPathMask configuredFieldKeyMask : MaskFile)
    (mergedFieldPathMask mergedFieldKeyMask : MaskTable) : Prop where
  paths : ∃ learned merged, mergeMask maskedPath (fun _ => none) learnedFieldPathMask = some learned ∧
    mergeMask maskedPath learned configuredFieldPathMask = some merged ∧
      HandlesWildcards merged mergedFieldPathMask
  keys : ∃ merged, mergeMask maskedKey (fun _ => none) configuredFieldKeyMask = some merged ∧
    HandlesWildcards merged mergedFieldKeyMask

/-- A sequence of lookups in one table, and what each finds. -/
inductive Lookups : MaskTable → List (String × Finset String) → Prop where
  | nil (mask : MaskTable) : Lookups mask []
  | cons {mask : MaskTable} {resourceKey : String} {order : List String}
      {rest : List (String × Finset String)} (horder : (mask.ensure resourceKey).Ranges order)
      (hrest : Lookups (getMaskByResourceKey order mask resourceKey).2 rest) :
      Lookups mask ((resourceKey, (getMaskByResourceKey order mask resourceKey).1) :: rest)

/-! ### As tables with patterns -/

theorem handleWildcardsForMask_eq (outer : List String) (inner : String → List String)
    (mask : MaskTable) : handleWildcardsForMask outer inner mask =
      (PatternTable.patternPairs containsStar outer inner).foldl (PatternTable.copy pathMatch) mask := by
  rw [PatternTable.patternPairs, List.foldl_flatMap, List.foldl_filter]
  refine congrArg (fun f => outer.foldl f mask) ?_
  funext mask resourceKey1
  rw [List.foldl_map, List.foldl_filter]
  rfl

theorem getMaskByResourceKey_eq (order : List String) (mask : MaskTable) (resourceKey : String) :
    getMaskByResourceKey order mask resourceKey =
      PatternTable.lookup containsStar pathMatch order mask resourceKey := by
  rw [getMaskByResourceKey, PatternTable.lookup]
  cases hkey : mask resourceKey with
  | some val => rfl
  | none =>
    have hensure : mask.ensure resourceKey = Function.update mask resourceKey (some ∅) := by
      rw [PatternTable.ensure, hkey]
      rfl
    rw [hensure, List.foldl_map, List.foldl_filter]
    rfl

theorem HandlesWildcards.completes {mask mask' : MaskTable} (h : HandlesWildcards mask mask') :
    PatternTable.Completes containsStar pathMatch mask mask' := by
  cases h with
  | ranges houter hinner =>
    rw [handleWildcardsForMask_eq]
    exact PatternTable.completes_copyAll houter hinner

/-- **Every lookup finds what belongs to its key**, whatever has been looked up before. -/
theorem Lookups.belongs {mask mask' : MaskTable} {lookups : List (String × Finset String)}
    (hmask : PatternTable.Completes containsStar pathMatch mask mask') (h : Lookups mask' lookups)
    (hkeys : ∀ found ∈ lookups, containsStar found.1 = false) : ∀ found ∈ lookups, ∀ x,
      x ∈ found.2 ↔ PatternTable.Belongs containsStar pathMatch mask found.1 x := by
  induction h with
  | nil => exact fun _ h => absurd h List.not_mem_nil
  | @cons mask' resourceKey order rest horder hrest ih =>
    obtain ⟨hkey, hkeys⟩ := List.forall_mem_cons.mp hkeys
    obtain ⟨hfound, hmask⟩ := PatternTable.lookup_completes hmask hkey horder
    rw [← getMaskByResourceKey_eq] at hfound hmask
    exact List.forall_mem_cons.mpr ⟨hfound, ih hmask hkeys⟩

/-! ### The merged tables -/

/-- The inner loop: the masks of one entry. -/
theorem mem_mergeItems {masked : List String → Option String} {items : List (List String)}
    {mask mask' : MaskTable} {key : String} (hkey : (mask key).isSome)
    (h : items.foldlM (fun mask item => (masked item).map fun k => mask.addAll key {k}) mask = some mask')
    (key' x : String) : x ∈ mask'.own key' ↔
      x ∈ mask.own key' ∨ key = key' ∧ ∃ item ∈ items, masked item = some x := by
  induction items generalizing mask with
  | nil =>
    rw [List.foldlM_nil] at h
    obtain rfl := Option.some.inj h
    simp
  | cons item items ih =>
    rw [List.foldlM_cons] at h
    obtain ⟨added, hadded, h⟩ := Option.bind_eq_some_iff.mp h
    obtain ⟨k, hk, rfl⟩ := Option.map_eq_some_iff.mp hadded
    rw [ih (by rw [PatternTable.isSome_addAll]; exact hkey) h]
    by_cases heq : key = key'
    · rw [← heq, PatternTable.mem_own_addAll hkey]
      simp [hk, or_assoc, eq_comm]
    · rw [PatternTable.own_of_eq (PatternTable.addAll_of_ne (Ne.symm heq) {k})]
      simp [heq]

/-- What stands under a key in a merged table. -/
theorem mem_mergeMask {masked : List String → Option String} {file : MaskFile} {mask mask' : MaskTable}
    (h : mergeMask masked mask file = some mask') (key x : String) :
    x ∈ mask'.own key ↔ x ∈ mask.own key ∨
      ∃ entry ∈ file, entry.1 = key ∧ ∃ item ∈ entry.2, masked item = some x := by
  induction file generalizing mask with
  | nil =>
    rw [mergeMask, List.foldlM_nil] at h
    obtain rfl := Option.some.inj h
    simp
  | cons entry file ih =>
    rw [mergeMask, List.foldlM_cons] at h
    obtain ⟨merged, hmerged, h⟩ := Option.bind_eq_some_iff.mp h
    rw [ih h, mem_mergeItems (PatternTable.isSome_ensure.mpr (.inl rfl)) hmerged,
      PatternTable.own_ensure, or_assoc]
    simp

/-! ### There are such tables -/

theorem exists_mergeItems {masked : List String → Option String} {items : List (List String)}
    (hitems : ∀ item ∈ items, (masked item).isSome) (mask : MaskTable) (key : String) :
    ∃ mask', items.foldlM (fun mask item => (masked item).map fun k => mask.addAll key {k}) mask =
      some mask' ∧ ∀ key', (mask' key').isSome = (mask key').isSome := by
  induction items generalizing mask with
  | nil => exact ⟨mask, rfl, fun _ => rfl⟩
  | cons item items ih =>
    obtain ⟨hitem, hitems⟩ := List.forall_mem_cons.mp hitems
    obtain ⟨k, hk⟩ := Option.isSome_iff_exists.mp hitem
    obtain ⟨mask', hmask', hsame⟩ := ih hitems (mask.addAll key {k})
    refine ⟨mask', ?_, fun key' => by rw [hsame, PatternTable.isSome_addAll]⟩
    rw [List.foldlM_cons, hk]
    exact hmask'

/-- A merged table has finitely many keys. -/
theorem exists_mergeMask {masked : List String → Option String} {file : MaskFile}
    (hfile : ∀ entry ∈ file, ∀ item ∈ entry.2, (masked item).isSome) {mask : MaskTable}
    (hmask : ∃ order, mask.Ranges order) :
    ∃ mask', mergeMask masked mask file = some mask' ∧ ∃ order, mask'.Ranges order := by
  induction file generalizing mask with
  | nil => exact ⟨mask, rfl, hmask⟩
  | cons entry file ih =>
    obtain ⟨hentry, hfile⟩ := List.forall_mem_cons.mp hfile
    obtain ⟨order, horder⟩ := hmask
    obtain ⟨merged, hmerged, hsame⟩ := exists_mergeItems hentry (mask.ensure entry.1) entry.1
    obtain ⟨mask', hmask', hranges⟩ := ih hfile ⟨_, (horder.ensure entry.1).congr hsame⟩
    refine ⟨mask', ?_, hranges⟩
    rw [mergeMask, List.foldlM_cons, hmerged]
    exact hmask'

theorem exists_handlesWildcards {mask : MaskTable} (hmask : ∃ order, mask.Ranges order) :
    ∃ mask', HandlesWildcards mask mask' := by
  obtain ⟨order, horder⟩ := hmask
  exact ⟨_, .ranges horder fun _ => horder⟩

theorem HandlesWildcards.exists_ranges {mask mask' : MaskTable} (h : HandlesWildcards mask mask') :
    ∃ order, mask'.Ranges order := by
  cases h with
  | @ranges outer inner houter hinner =>
    refine ⟨outer, houter.congr fun key => ?_⟩
    rw [handleWildcardsForMask_eq, PatternTable.isSome_copyAll]

/-- Every sequence of resource keys can be looked up. -/
theorem exists_lookups {mask : MaskTable} (hmask : ∃ order, mask.Ranges order)
    (resourceKeys : List String) :
    ∃ lookups, lookups.map Prod.fst = resourceKeys ∧ Lookups mask lookups := by
  induction resourceKeys generalizing mask with
  | nil => exact ⟨[], rfl, .nil mask⟩
  | cons resourceKey resourceKeys ih =>
    obtain ⟨order, horder⟩ := hmask
    have hranges := horder.ensure resourceKey
    have hafter : ((getMaskByResourceKey (resourceKey :: order) mask resourceKey).2).Ranges
        (resourceKey :: order) :=
      hranges.congr fun key => by rw [getMaskByResourceKey_eq, PatternTable.isSome_lookup]
    obtain ⟨rest, hrest, hlookups⟩ := ih ⟨_, hafter⟩
    exact ⟨_, by rw [List.map_cons, hrest], .cons hranges hlookups⟩

/-- `getMergedMask` returns when no entry of the file of masked keys is empty. -/
theorem exists_getMergedMask (learnedFieldPathMask configuredFieldPathMask : MaskFile)
    {configuredFieldKeyMask : MaskFile}
    (hkeys : ∀ entry ∈ configuredFieldKeyMask, ∀ item ∈ entry.2, item ≠ []) :
    ∃ mergedFieldPathMask mergedFieldKeyMask, GetMergedMask learnedFieldPathMask
      configuredFieldPathMask configuredFieldKeyMask mergedFieldPathMask mergedFieldKeyMask := by
  have hempty : ∃ order, PatternTable.Ranges order (fun _ => none : MaskTable) :=
    ⟨[], by simp [PatternTable.Ranges]⟩
  obtain ⟨learned, hlearned, hranges⟩ :=
    @exists_mergeMask maskedPath learnedFieldPathMask (fun _ _ _ _ => rfl) _ hempty
  obtain ⟨merged, hmerged, hranges⟩ :=
    @exists_mergeMask maskedPath configuredFieldPathMask (fun _ _ _ _ => rfl) _ hranges
  obtain ⟨keys, hmergedKeys, hrangesKeys⟩ := @exists_mergeMask maskedKey configuredFieldKeyMask
    (fun entry hentry item hitem => List.isSome_head?.mpr (hkeys entry hentry item hitem)) _ hempty
  obtain ⟨pathMask, hpathMask⟩ := exists_handlesWildcards hranges
  obtain ⟨keyMask, hkeyMask⟩ := exists_handlesWildcards hrangesKeys
  exact ⟨pathMask, keyMask, ⟨learned, merged, hlearned, hmerged, hpathMask⟩,
    ⟨keys, hmergedKeys, hkeyMask⟩⟩

end Sieve.Server
