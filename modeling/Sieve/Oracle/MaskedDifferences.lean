import Sieve.Event.Paths
import Sieve.Oracle.MaskPaths
import Sieve.Oracle.SecondPassTrim

/-!
# Masked fields in the comparison of states

Which differences at masked paths `compare_states` passes over.

* `Covers`: a masked path matches a path or lies above it, component by component;
* `equalPath_iff`: `equal_path` compares the components split at their slashes;
* `maskedSilent_iff`: when no difference at a masked path is reported.
-/

namespace Sieve.Oracle

open Sieve.Event Sieve.Library

/-! ### Paths -/

/-- The masked path matches the path or lies above it; a star matches any component. -/
def Covers : List (List Char) → List (List Char) → Prop
  | [], _ => True
  | _ :: _, [] => False
  | masked :: maskedPath, component :: path =>
    (masked = ['*'] ∨ masked = component) ∧ Covers maskedPath path

theorem covers_iff (template value : List (List Char)) :
    (template.length ≤ value.length && (template.zip value).all fun parts =>
      parts.1 == ['*'] || parts.1 == parts.2) = true ↔ Covers template value := by
  induction template generalizing value with
  | nil => simp [Covers]
  | cons masked template ih =>
    cases value with
    | nil => simp [Covers]
    | cons component value =>
      rw [Covers, ← ih]
      simp only [List.length_cons, List.zip_cons_cons, List.all_cons, Bool.and_eq_true,
        decide_eq_true_eq, Bool.or_eq_true, beq_iff_eq, Nat.add_le_add_iff_right]
      tauto

theorem joined_toList (path : List String) :
    ("/".intercalate path).toList = ['/'].intercalate (path.map String.toList) := by
  rw [String.toList_intercalate]
  rfl

/-- **The joined paths are compared part by part.** -/
theorem equalPath_iff {item path : List String} (hitem : item ≠ []) (hpath : path ≠ []) :
    equalPath ("/".intercalate item) ("/".intercalate path) = true ↔
      Covers ((item.map String.toList).flatMap splitSlash)
        ((path.map String.toList).flatMap splitSlash) := by
  have hsplit : ∀ {components : List String}, components ≠ [] →
      splitSlash ("/".intercalate components).toList =
        (components.map String.toList).flatMap splitSlash := by
    intro components hne
    obtain ⟨first, rest, rfl⟩ := List.exists_cons_of_ne_nil hne
    rw [joined_toList, List.map_cons, splitSlash_intercalate]
  rw [← hsplit hitem, ← hsplit hpath, ← covers_iff]
  rfl

/-- Components without slashes are their own parts. -/
theorem Covers.split {maskedPath path : List (List Char)} (h : Covers maskedPath path)
    (hpath : ∀ component ∈ path, '/' ∉ component) :
    Covers (maskedPath.flatMap splitSlash) (path.flatMap splitSlash) := by
  have hself : ∀ {component : List Char}, '/' ∉ component → splitSlash component = [component] := by
    intro component hslash
    rw [splitSlash_eq, List.splitOn_eq_singleton hslash]
  induction maskedPath generalizing path with
  | nil => trivial
  | cons masked maskedPath ih =>
    cases path with
    | nil => exact h.elim
    | cons component path =>
      rw [List.forall_mem_cons] at hpath
      obtain ⟨hhead, htail⟩ := h
      have hmasked : '/' ∉ masked := by
        rcases hhead with rfl | rfl
        · decide
        · exact hpath.1
      rw [List.flatMap_cons, List.flatMap_cons, hself hmasked, hself hpath.1]
      exact ⟨hhead, ih htail hpath.2⟩

/-! ### Masked differences -/

/-- A state as it is decoded: distinct resource keys, with any values. -/
structure KeyedState where
  entries : List (String × PythonValue)
  distinct : (DataTree.fields entries : PythonValue).Distinct
  parsed : ∀ entry ∈ entries, (parseKey entry.1).isSome

def KeyedState.value (state : KeyedState) : PythonValue := .fields state.entries

def componentsOf (path : DeltaPath) : List (List Char) := path.map fun step => (stepText step).toList

namespace CheckerContext

/-- The assertions on the two tables hold: no path is empty. -/
structure HasPaths (testContext : CheckerContext) : Prop where
  keys : ∀ entry ∈ testContext.fieldKeyMask, ∀ item ∈ entry.2, item ≠ []
  paths : ∀ entry ∈ testContext.fieldPathMask, ∀ item ∈ entry.2, item ≠ []

/-- The masked path applies to the resource. -/
def MasksPath (testContext : CheckerContext) (resourceKey : String) (item : List String) : Prop :=
  ∃ entry ∈ testContext.fieldPathMask, Analyzer.appliesTo entry.1 resourceKey = true ∧ item ∈ entry.2

end CheckerContext

/-- The difference is at a masked path or below it. -/
def IsMasked (python : PythonLower) (testContext : CheckerContext) (delta : StateDelta) : Prop :=
  ∃ resourceKey rest item, delta.path = .key resourceKey :: rest ∧
    testContext.MasksPath resourceKey item ∧ Covers (item.map String.toList)
      (componentsOf (controllerPath python testContext resourceKey rest))

/-- No difference at a masked path is reported. -/
def MaskedSilent (deepDiff : PythonValue → PythonValue → List StateDelta) (python : PythonLower)
    (testContext : CheckerContext) (referenceState testingState : KeyedState) : Prop :=
  ∀ delta ∈ deepDiff referenceState.value testingState.value, IsMasked python testContext delta →
    fieldMessage python testContext delta = some none

/-- The difference is passed over whatever the masked paths are. -/
inductive OtherwisePassed (python : PythonLower) (testContext : CheckerContext) (delta : StateDelta)
    (resourceKey : String) (path : DeltaPath) : Prop where
  | native (h : kindNativeObjects resourceKey = some true)
  | resource (h : testContext.resourceKeyShouldBeMasked resourceKey = some true)
  | change (h : isChange delta.deltaType = true) (hpassed : passedOver delta.t1 delta.t2 = true)
  | fieldKey {entry : String × List (List String)} {item : List String}
      (hentry : entry ∈ testContext.fieldKeyMask)
      (happlies : Analyzer.appliesTo entry.1 resourceKey = true) (hitem : item ∈ entry.2)
      (h : .key ("/".intercalate item) ∈ (.key resourceKey :: path : DeltaPath))
  | field (h : testContext.resourceFieldPathShouldBeMasked resourceKey (path.map stepText) = true)

/-- The masked path is found: the difference is not at a field of the object itself, and the parts of
the masked path match. -/
def FoundMasked (testContext : CheckerContext) (resourceKey : String) (path : DeltaPath) : Prop :=
  2 ≤ path.length ∧ ∃ item, testContext.MasksPath resourceKey item ∧
    Covers ((item.map String.toList).flatMap splitSlash) ((componentsOf path).flatMap splitSlash)

/-! ### Where differences are -/

theorem KeyedState.parsed_of_child {state : KeyedState} {step : TreeStep String}
    (h : (state.value.child step).isSome) :
    ∃ resourceKey, step = .key resourceKey ∧ (parseKey resourceKey).isSome := by
  obtain ⟨x, hx⟩ := Option.isSome_iff_exists.mp h
  cases step with
  | index i => cases hx
  | key k => exact ⟨k, rfl, state.parsed _ (DataTree.mem_of_lookup hx)⟩

/-- Every difference of two states is at or below a resource key. -/
theorem exists_resourceKey {referenceState testingState : KeyedState} {delta : StateDelta}
    (h : Reported PythonScalar.type referenceState.value testingState.value delta) :
    ∃ resourceKey rest, delta.path = .key resourceKey :: rest ∧ (parseKey resourceKey).isSome := by
  obtain ⟨step, rest, hpath, hchild⟩ := h.exists_step (.fields _ _) (.fields rfl)
  obtain ⟨resourceKey, rfl, hkey⟩ := hchild.elim KeyedState.parsed_of_child KeyedState.parsed_of_child
  exact ⟨resourceKey, rest, hpath, hkey⟩

/-! ### Masked differences are found -/

variable {deepDiff : PythonValue → PythonValue → List StateDelta} {python : PythonLower}
  {testContext : CheckerContext}

theorem exists_rule_iff (hctx : testContext.HasPaths) {resourceKey : String} {maskPaths : List String}
    (hpaths : Analyzer.getMaskByResourceKey testContext.fieldPathMask resourceKey = .ok maskPaths)
    {path : DeltaPath} (hne : path ≠ []) :
    (∃ rule ∈ maskPaths, equalPath rule ("/".intercalate (path.map stepText)) = true) ↔
      ∃ item, testContext.MasksPath resourceKey item ∧
        Covers ((item.map String.toList).flatMap splitSlash)
          ((componentsOf path).flatMap splitSlash) := by
  have hcomponents : componentsOf path = (path.map stepText).map String.toList := by
    simp [componentsOf]
  have hequal : ∀ {item}, testContext.MasksPath resourceKey item →
      (equalPath ("/".intercalate item) ("/".intercalate (path.map stepText)) = true ↔
        Covers ((item.map String.toList).flatMap splitSlash)
          ((componentsOf path).flatMap splitSlash)) := by
    intro item ⟨entry, hentry, _, hitem⟩
    rw [hcomponents]
    exact equalPath_iff (hctx.paths entry hentry item hitem) (by simpa using hne)
  constructor
  · intro ⟨rule, hrule, hmatch⟩
    obtain ⟨entry, hentry, happlies, item, hitem, rfl⟩ :=
      (Analyzer.mem_getMaskByResourceKey hpaths rule).mp hrule
    have hmasks : testContext.MasksPath resourceKey item := ⟨entry, hentry, happlies, hitem⟩
    exact ⟨item, hmasks, (hequal hmasks).mp hmatch⟩
  · intro ⟨item, hmasks, hcovers⟩
    obtain ⟨entry, hentry, happlies, hitem⟩ := hmasks
    have hrule := (Analyzer.mem_getMaskByResourceKey hpaths _).mpr
      ⟨entry, hentry, happlies, item, hitem, rfl⟩
    exact ⟨_, hrule, (hequal ⟨entry, hentry, happlies, hitem⟩).mpr hcovers⟩

/-- **When a difference below a resource is passed over**: a masked path is found, or it is for another
reason. -/
theorem fieldMessage_passes_iff_found (hctx : testContext.HasPaths) {delta : StateDelta}
    {resourceKey : String} {rest : DeltaPath} (hpath : delta.path = .key resourceKey :: rest)
    (hkey : (parseKey resourceKey).isSome) (hrest : rest ≠ []) :
    fieldMessage python testContext delta = some none ↔
      FoundMasked testContext resourceKey (controllerPath python testContext resourceKey rest) ∨
        OtherwisePassed python testContext delta resourceKey
          (controllerPath python testContext resourceKey rest) := by
  obtain ⟨maskKeys, hkeys⟩ := Analyzer.getMaskByResourceKey_ok hctx.keys resourceKey
  obtain ⟨maskPaths, hpaths⟩ := Analyzer.getMaskByResourceKey_ok hctx.paths resourceKey
  rw [fieldMessage_passes_iff hpath hkey hkeys hpaths]
  generalize controllerPath python testContext resourceKey rest = path
  have hfound : (2 ≤ path.length ∧ ∃ rule ∈ maskPaths,
      equalPath rule ("/".intercalate (path.map stepText)) = true) ↔
        FoundMasked testContext resourceKey path := by
    refine and_congr_right fun hlength => exists_rule_iff hctx hpaths ?_
    rintro rfl
    simp at hlength
  rw [hfound]
  constructor
  · rintro (h | h | ⟨h, hpassed⟩ | ⟨key, hmask, hmem⟩ | h | h | h)
    · exact .inr (.native h)
    · exact absurd h hrest
    · exact .inr (.change h hpassed)
    · obtain ⟨entry, hentry, happlies, item, hitem, rfl⟩ :=
        (Analyzer.mem_getMaskByResourceKey hkeys key).mp hmask
      exact .inr (.fieldKey hentry happlies hitem hmem)
    · exact .inl h
    · exact .inr (.resource h)
    · exact .inr (.field h)
  · rintro (h | h)
    · simp [h]
    · cases h with
      | native h => simp [h]
      | resource h => simp [h]
      | change h hpassed => simp [h, hpassed]
      | fieldKey hentry happlies hitem h =>
        have hmask := (Analyzer.mem_getMaskByResourceKey hkeys _).mpr
          ⟨_, hentry, happlies, _, hitem, rfl⟩
        exact .inr (.inr (.inr (.inl ⟨_, hmask, h⟩)))
      | field h => simp [h]

/-- Without slashes in the path, a masked path is found unless the difference is at a field of the
object itself. -/
theorem foundMasked_of_covers {resourceKey : String} {path : DeltaPath} {item : List String}
    (hitem : testContext.MasksPath resourceKey item)
    (hcovers : Covers (item.map String.toList) (componentsOf path))
    (hslash : ∀ component ∈ componentsOf path, '/' ∉ component) (hlength : 2 ≤ path.length) :
    FoundMasked testContext resourceKey path :=
  ⟨hlength, item, hitem, hcovers.split hslash⟩

/-- **The masked differences are not reported** where their masked paths are found or they are passed over
otherwise. -/
theorem maskedSilent_iff (hdeep : IsDeepDiff deepDiff) (python : PythonLower)
    (hctx : testContext.HasPaths) (referenceState testingState : KeyedState) :
    MaskedSilent deepDiff python testContext referenceState testingState ↔
      ∀ delta ∈ deepDiff referenceState.value testingState.value, IsMasked python testContext delta →
        ∀ resourceKey rest, delta.path = .key resourceKey :: rest →
          FoundMasked testContext resourceKey (controllerPath python testContext resourceKey rest) ∨
            OtherwisePassed python testContext delta resourceKey
              (controllerPath python testContext resourceKey rest) := by
  refine forall₂_congr fun delta hdelta => forall_congr' fun hmasked => ?_
  obtain ⟨resourceKey, rest, item, hpath, ⟨entry, hentry, _, hitem⟩, hcovers⟩ := hmasked
  have hreported := (hdeep.mem_iff _ _ referenceState.distinct testingState.distinct delta).mp hdelta
  obtain ⟨resourceKey', rest', hpath', hkey⟩ := exists_resourceKey hreported
  obtain ⟨rfl, rfl⟩ : resourceKey' = resourceKey ∧ rest' = rest := by
    simpa using hpath'.symm.trans hpath
  -- a masked path is not empty, so the difference is below the resource
  have hrest : rest' ≠ [] := by
    rintro rfl
    obtain ⟨first, others, rfl⟩ := List.exists_cons_of_ne_nil (hctx.paths entry hentry item hitem)
    have hempty : controllerPath python testContext resourceKey' [] = [] := by
      rw [controllerPath]
      split
      · split <;> rfl
      · rfl
    rw [hempty] at hcovers
    exact hcovers
  rw [fieldMessage_passes_iff_found hctx hpath hkey hrest]
  constructor
  · intro h resourceKey rest hpath''
    obtain ⟨rfl, rfl⟩ : resourceKey' = resourceKey ∧ rest' = rest := by
      simpa using hpath.symm.trans hpath''
    exact h
  · intro h
    exact h resourceKey' rest' hpath

/-! ### Endpoints -/

/-- The field of endpoints that the configuration masks. -/
def endpointsContext : CheckerContext where
  customResourceDefinitions := []
  fieldKeyMask := []
  fieldPathMask := [("endpoints/*/*", [["subsets"]])]
  endStateCheckerMask := []
  testWorkload := "test"
  currentControllerFamily := []
  referenceControllerFamily := []

def endpointsState (subsets : List PythonScalar) (found : Bool) : KeyedState where
  entries := [("endpoints/default/web",
    .fields [("Subsets", if found then .items (subsets.map .leaf) else .leaf .none)])]
  distinct := by
    refine .fields (List.nodup_singleton _) fun f hf => ?_
    rw [List.mem_singleton.mp hf]
    refine .fields (List.nodup_singleton _) fun f hf => ?_
    rw [List.mem_singleton.mp hf]
    cases found with
    | false => exact .leaf _
    | true =>
      refine .items fun x hx => ?_
      obtain ⟨subset, _, rfl⟩ := List.mem_map.mp hx
      exact .leaf subset
  parsed := by
    intro entry hentry
    rw [List.mem_singleton.mp hentry]
    show (parseKey "endpoints/default/web").isSome = true
    decide

/-- An address that changes. -/
theorem maskedSilent_iff_address : MaskedSilent (treeDiff PythonScalar.type) asciiLower endpointsContext
    (endpointsState [.str "10.0.0.1"] true) (endpointsState [.str "10.0.0.2"] true) := by
  have hctx : endpointsContext.HasPaths := by
    constructor
    · simp [endpointsContext]
    · simp [endpointsContext]
  refine (maskedSilent_iff isDeepDiff_treeDiff asciiLower hctx (endpointsState [.str "10.0.0.1"] true)
    (endpointsState [.str "10.0.0.2"] true)).mpr fun delta hdelta _ resourceKey rest hpath => .inl ?_
  rw [List.mem_singleton.mp hdelta] at hpath
  obtain ⟨hkey, rfl⟩ := List.cons.inj hpath
  obtain rfl := TreeStep.key.inj hkey
  have hmasks : endpointsContext.MasksPath "endpoints/default/web" ["subsets"] :=
    ⟨_, List.mem_singleton_self _, by decide, by decide⟩
  exact ⟨by decide, ["subsets"], hmasks, .inr rfl, trivial⟩

/-- **A masked field of the object that appears as a whole is reported.** -/
theorem not_maskedSilent_subsets : ¬ MaskedSilent (treeDiff PythonScalar.type) asciiLower endpointsContext
    (endpointsState [] false) (endpointsState [.str "10.0.0.1"] true) := by
  intro h
  have hmasks : endpointsContext.MasksPath "endpoints/default/web" ["subsets"] :=
    ⟨_, List.mem_singleton_self _, by decide, by decide⟩
  have hsilent := h _ (List.mem_singleton_self _)
    ⟨"endpoints/default/web", [.key "Subsets"], ["subsets"], rfl, hmasks, .inr rfl, trivial⟩
  have hreported : fieldMessage asciiLower endpointsContext ⟨.typeChanges,
      [.key "endpoints/default/web", .key "Subsets"], some (.leaf .none),
      some (.items [.leaf (.str "10.0.0.1")])⟩ = some (some (.different "endpoints/default/web"
        [.key "subsets"] (some (.leaf .none)) (some (.items [.leaf (.str "10.0.0.1")])))) := rfl
  cases hreported.symm.trans hsilent

end Sieve.Oracle
