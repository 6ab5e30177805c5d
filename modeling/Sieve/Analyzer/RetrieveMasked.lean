import Sieve.Analyzer.K8sEvent
import Sieve.Event.Paths
import Sieve.Library.FoldExcept
import Sieve.Library.Glob

/-!
# The masks of the learner

`get_mask_by_resource_key` and `EventGraph.retrieve_masked`: the learner goes through the tables of masks
for every resource key.

* `purePathMatch`: `PurePath.match` of absolute paths;
* `mem_getMaskByResourceKey`: what is found for a key.
-/

namespace Sieve.Analyzer

open Sieve.Event Sieve.Library

/-- The masked fields under resource keys and patterns for them. -/
abbrev MaskMap := List (String × List (List String))

/-- Exactly two leading slashes are a root of their own. -/
def hasDoubleRoot (path : List Char) : Bool := (path.takeWhile (· == '/')).length == 2

/-- The parts of an absolute path; `PurePath` drops empty parts and single dots. -/
def purePathParts (path : List Char) : List (List Char) :=
  (splitSlash path).filter fun part => !(part == [] || part == ['.'])

/-- `fnmatch.fnmatchcase` for patterns in which only `*` is special: it stands for any letters. -/
def fnmatchcase (name pat : List Char) : Bool := globAny '*' pat name

/-- `PurePath(path).match(pattern)` of absolute paths: the whole path must match, part by part. -/
def purePathMatch (path pattern : List Char) : Bool :=
  hasDoubleRoot path == hasDoubleRoot pattern &&
    ((purePathParts pattern).length == (purePathParts path).length &&
      ((purePathParts pattern).zip (purePathParts path)).all fun parts => fnmatchcase parts.2 parts.1)

/-- How a masked field is written. -/
def fieldPath : List String → Except AnalysisError String
  | [] => .error .assertion
  | [key] => .ok key
  | fieldPathList => .ok ("/".intercalate fieldPathList)

/-- `key == resource_key or PurePath("/" + resource_key).match("/" + key)`. -/
def appliesTo (key resourceKey : String) : Bool :=
  key == resourceKey || purePathMatch ('/' :: resourceKey.toList) ('/' :: key.toList)

def getMaskByResourceKey (keyMaskMap : MaskMap) (resourceKey : String) :
    Except AnalysisError (List String) :=
  keyMaskMap.foldlM (fun maskedKeys entry =>
    if appliesTo entry.1 resourceKey then
      entry.2.foldlM (fun maskedKeys fieldPathList => do
        let field ← fieldPath fieldPathList
        .ok (maskedKeys ++ [field])) maskedKeys
    else .ok maskedKeys) []

def retrieveMasked (configuredMaskedKeys configuredMaskedPaths learnedMaskedPaths : MaskMap)
    (resourceKey : String) : Except AnalysisError Masks := do
  let maskedKeys ← getMaskByResourceKey configuredMaskedKeys resourceKey
  let configured ← getMaskByResourceKey configuredMaskedPaths resourceKey
  let learned ← getMaskByResourceKey learnedMaskedPaths resourceKey
  .ok ⟨maskedKeys.toFinset, configured.toFinset ∪ learned.toFinset⟩

/-! ### What is found -/

/-- The learner writes a path as the coordinator does. -/
theorem fieldPath_eq_ok {item : List String} {field : String} (h : fieldPath item = .ok field) :
    field = "/".intercalate item := by
  cases item with
  | nil => cases h
  | cons first rest =>
    cases rest with
    | nil => exact (Except.ok.inj h).symm
    | cons second rest => exact (Except.ok.inj h).symm

theorem mem_foldl_fieldPath {items : List (List String)} {maskedKeys masked : List String}
    (h : items.foldlM (fun maskedKeys fieldPathList => do
      let field ← fieldPath fieldPathList
      Except.ok (maskedKeys ++ [field])) maskedKeys = .ok masked) (x : String) :
    x ∈ masked ↔ x ∈ maskedKeys ∨ ∃ item ∈ items, "/".intercalate item = x := by
  induction items generalizing maskedKeys with
  | nil =>
    rw [List.foldlM_nil] at h
    obtain rfl := Except.ok.inj h
    simp
  | cons item items ih =>
    rw [List.foldlM_cons] at h
    obtain ⟨added, hadded, h⟩ := bind_ok_iff.mp h
    obtain ⟨field, hfield, hadded⟩ := bind_ok_iff.mp hadded
    obtain rfl := Except.ok.inj hadded
    rw [ih h, fieldPath_eq_ok hfield]
    simp [or_assoc, eq_comm]

/-- **What is found for a key.** -/
theorem mem_getMaskByResourceKey {keyMaskMap : MaskMap} {resourceKey : String} {masked : List String}
    (h : getMaskByResourceKey keyMaskMap resourceKey = .ok masked) (x : String) :
    x ∈ masked ↔ ∃ entry ∈ keyMaskMap, appliesTo entry.1 resourceKey = true ∧
      ∃ item ∈ entry.2, "/".intercalate item = x := by
  have hall : ∀ maskedKeys masked, keyMaskMap.foldlM (fun maskedKeys entry =>
      if appliesTo entry.1 resourceKey then
        entry.2.foldlM (fun maskedKeys fieldPathList => do
          let field ← fieldPath fieldPathList
          Except.ok (maskedKeys ++ [field])) maskedKeys
      else Except.ok maskedKeys) maskedKeys = .ok masked →
      (x ∈ masked ↔ x ∈ maskedKeys ∨ ∃ entry ∈ keyMaskMap, appliesTo entry.1 resourceKey = true ∧
        ∃ item ∈ entry.2, "/".intercalate item = x) := by
    clear h
    induction keyMaskMap with
    | nil =>
      intro maskedKeys masked h
      obtain rfl := Except.ok.inj h
      simp
    | cons entry keyMaskMap ih =>
      intro maskedKeys masked h
      rw [List.foldlM_cons] at h
      obtain ⟨found, hfound, h⟩ := bind_ok_iff.mp h
      rw [ih _ _ h]
      split at hfound
      · rename_i happlies
        rw [mem_foldl_fieldPath hfound]
        simp [happlies, or_assoc]
      · rename_i happlies
        obtain rfl := Except.ok.inj hfound
        simp [happlies]
  rw [hall [] masked h]
  simp

/-- Without empty paths no assertion fails. -/
theorem getMaskByResourceKey_ok {keyMaskMap : MaskMap}
    (hpaths : ∀ entry ∈ keyMaskMap, ∀ item ∈ entry.2, item ≠ []) (resourceKey : String) :
    ∃ masked, getMaskByResourceKey keyMaskMap resourceKey = .ok masked := by
  refine foldlM_total fun maskedKeys entry hentry => ?_
  split
  · refine foldlM_total fun maskedKeys item hitem => ?_
    obtain ⟨first, rest, rfl⟩ := List.exists_cons_of_ne_nil (hpaths entry hentry item hitem)
    cases rest with
    | nil => exact ⟨_, rfl⟩
    | cons second rest => exact ⟨_, rfl⟩
  · exact ⟨_, rfl⟩

end Sieve.Analyzer
