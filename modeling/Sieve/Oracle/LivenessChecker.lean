import Sieve.Analyzer.RetrieveMasked
import Sieve.Library.TreeDiff
import Sieve.Oracle.StateMask

/-!
# The end states of two runs

`second_pass_learn_trim` of `checker_common.py` makes the reference state from the end states of both
learning runs; `compare_states` of `liveness_checker.py` compares it with the end state of a run.  The
differences come from `DeepDiff`, which is an argument.

* `IsDeepDiff`: what `DeepDiff(t1, t2, ignore_order=False, view="tree")` reports;
* `secondPassLearnTrim`: the reference state;
* `compareFields`: the fields that `compare_states` reports;
* `fieldMessage_passes_iff`: when a difference is passed over;
* `fieldMessage_eq_none_iff`: what is reported when no masks are configured.
-/

namespace Sieve.Oracle

open Sieve.Event Sieve.Library

/-! ### Decoded values -/

inductive PythonScalar where
  | none
  | bool (b : Bool)
  | int (n : ℤ)
  | float (q : ℚ)
  | str (s : String)
  deriving DecidableEq

inductive PythonType where
  | none
  | bool
  | int
  | float
  | str
  deriving DecidableEq

def PythonScalar.type : PythonScalar → PythonType
  | .none => .none
  | .bool _ => .bool
  | .int _ => .int
  | .float _ => .float
  | .str _ => .str

/-- What `json.loads` makes. -/
abbrev PythonValue := DataTree String PythonScalar

/-- `key.path(output_format="list")`. -/
abbrev DeltaPath := List (TreeStep String)

abbrev StateDelta := TreeDelta String PythonScalar

/-- The tree view has the differences place by place, each once with its type and both values. -/
structure IsDeepDiff (deepDiff : PythonValue → PythonValue → List StateDelta) : Prop where
  mem_iff : ∀ t1 t2, t1.Distinct → t2.Distinct → ∀ delta,
    delta ∈ deepDiff t1 t2 ↔ Reported PythonScalar.type t1 t2 delta

theorem isDeepDiff_treeDiff : IsDeepDiff (treeDiff PythonScalar.type) where
  mem_iff _ _ h1 h2 _ := mem_treeDiff_iff h1 h2

def learnMask : PythonValue := .leaf (.str SIEVE_LEARN_VALUE_MASK)

/-! ### The reference state -/

/-- The walk to the last key and the assignment there; `none` where there is no such place. -/
def nestedSet (value : PythonValue) : PythonValue → DeltaPath → Option PythonValue
  | _, [] => none
  | dic, [key] => dic.setChild key value
  | dic, key :: keys => do
    let inner ← dic.child key
    let inner ← nestedSet value inner keys
    dic.setChild key inner

def pathsOf (deltaType : DeltaType) (ddiff : List StateDelta) : List DeltaPath :=
  (ddiff.filter fun delta => delta.deltaType = deltaType).map TreeDelta.path

def secondPassLearnTrim (deepDiff : PythonValue → PythonValue → List StateDelta)
    (baseResources twiceResources : PythonValue) : Option PythonValue := do
  let ddiff := deepDiff twiceResources baseResources
  let storedLearn ← (pathsOf .valuesChanged ddiff).foldlM (nestedSet learnMask) baseResources
  (pathsOf .dictionaryItemAdded ddiff).foldlM (nestedSet learnMask) storedLearn

/-! ### Resource keys -/

/-- `none` where the assertion fails. -/
def parseKey (key : String) : Option (String × String × String) :=
  match splitSlash key.toList with
  | [resourceType, objNamespace, name] =>
    some (String.ofList resourceType, String.ofList objNamespace, String.ofList name)
  | _ => none

/-- Objects that every cluster has. -/
def kindNativeObjects (key : String) : Option Bool := do
  let (rtype, _, name) ← parseKey key
  some ((rtype == "endpoints" && name == "kubernetes") ||
    (rtype == "secret" && "default-token-".toList.isPrefixOf name.toList && name.length == 19) ||
    (rtype == "serviceaccount" && name == "default") ||
    (rtype == "service" && name == "kubernetes") ||
    (rtype == "endpointslice" && name == "kubernetes"))

/-- What the checker reads of the test context. -/
structure CheckerContext where
  customResourceDefinitions : List String
  fieldKeyMask : Analyzer.MaskMap
  fieldPathMask : Analyzer.MaskMap
  endStateCheckerMask : List (String × Analyzer.MaskMap)
  testWorkload : String
  currentControllerFamily : List String
  referenceControllerFamily : List String

namespace CheckerContext

variable (testContext : CheckerContext)

/-- The tables of `end_state_checker_mask` for the workload. -/
def stateMasks : List Analyzer.MaskMap :=
  (testContext.endStateCheckerMask.filter fun entry =>
    entry.1 == testContext.testWorkload || entry.1 == "*").map Prod.snd

def resourceKeyShouldBeMasked (resourceKey : String) : Option Bool := do
  let (_, _, name) ← parseKey resourceKey
  some (name == "sieve-testing-global-config" ||
    testContext.currentControllerFamily.contains resourceKey ||
    testContext.referenceControllerFamily.contains resourceKey ||
    testContext.stateMasks.any fun mask => mask.any fun entry =>
      Analyzer.appliesTo entry.1 resourceKey && entry.2.isEmpty)

def resourceFieldPathShouldBeMasked (resourceKey : String) (fieldPathList : List String) : Bool :=
  testContext.stateMasks.any fun mask => mask.any fun entry =>
    Analyzer.appliesTo entry.1 resourceKey && entry.2.any fun maskedPath =>
      fieldPathList.inits.tail.any fun fields =>
        Analyzer.appliesTo ("/".intercalate maskedPath) ("/".intercalate fields)

end CheckerContext

/-! ### Paths -/

/-- `str(x)`. -/
def stepText : TreeStep String → String
  | .key k => k
  | .index i => String.ofList (Nat.toDigits 10 i)

def equalPath (template value : String) : Bool :=
  let template := splitSlash template.toList
  let value := splitSlash value.toList
  template.length ≤ value.length && (template.zip value).all fun parts =>
    parts.1 == ['*'] || parts.1 == parts.2

/-- The loop over the path. -/
def lowerSteps (python : PythonLower) : DeltaPath → DeltaPath
  | [] => []
  | .index i :: path => .index i :: lowerSteps python path
  | .key k :: path =>
    if "SIEVE".toList.isPrefixOf k.toList then .key k :: path
    else .key (String.ofList (python.lowerFirst k.toList)) :: lowerSteps python path

def tranlateApiserverShapeToControllerShape (python : PythonLower) : DeltaPath → DeltaPath
  | first :: .key k :: path =>
    if k ∈ METADATA_FIELDS then first :: .key "metadata" :: .key k :: path
    else first :: lowerSteps python (.key k :: path)
  | first :: path => first :: lowerSteps python path
  | [] => []

/-! ### The comparison -/

def matchMaskRegex : Option PythonValue → Bool
  | some (.leaf (.str val)) => python.isMasked val
  | _ => false

def isLearnValueMask : Option PythonValue → Bool
  | some (.leaf (.str val)) => val == SIEVE_LEARN_VALUE_MASK
  | _ => false

/-- A changed value or type that is passed over. -/
def passedOver (t1 t2 : Option PythonValue) : Bool :=
  isLearnValueMask t1 || matchMaskRegex t1 || matchMaskRegex t2

/-- A reported field: the resource, the field, and both values. -/
inductive FieldMessage where
  | more (resourceKey : String) (field : DeltaPath) (t2 : Option PythonValue)
  | fewer (resourceKey : String) (field : DeltaPath) (t1 : Option PythonValue)
  | different (resourceKey : String) (field : DeltaPath) (t1 t2 : Option PythonValue)

def messageOf (resourceKey : String) (field : DeltaPath) (delta : StateDelta) : FieldMessage :=
  match delta.deltaType with
  | .dictionaryItemAdded | .iterableItemAdded => .more resourceKey field delta.t2
  | .dictionaryItemRemoved | .iterableItemRemoved => .fewer resourceKey field delta.t1
  | .valuesChanged | .typeChanges => .different resourceKey field delta.t1 delta.t2

def isChange : DeltaType → Bool
  | .valuesChanged | .typeChanges => true
  | _ => false

/-- The body of the loop over the differences: the message, if any; `none` where an exception ends the
check. -/
def fieldMessage (python : PythonLower) (testContext : CheckerContext) (delta : StateDelta) :
    Option (Option FieldMessage) :=
  match delta.path with
  | .key resourceKey :: rest => do
    if ← kindNativeObjects resourceKey then return none
    let (resourceType, _, _) ← parseKey resourceKey
    let path := if resourceType ∈ testContext.customResourceDefinitions then .key resourceKey :: rest
      else tranlateApiserverShapeToControllerShape python (.key resourceKey :: rest)
    let maskKeys ← (Analyzer.getMaskByResourceKey testContext.fieldKeyMask resourceKey).toOption
    let maskPaths ← (Analyzer.getMaskByResourceKey testContext.fieldPathMask resourceKey).toOption
    if path.length = 1 then return none
    if isChange delta.deltaType && passedOver delta.t1 delta.t2 then return none
    if path.any fun step => maskKeys.any fun key => step = .key key then return none
    if decide (2 < path.length) && maskPaths.any fun rule =>
      equalPath rule ("/".intercalate (path.tail.map stepText)) then return none
    if ← testContext.resourceKeyShouldBeMasked resourceKey then return none
    if testContext.resourceFieldPathShouldBeMasked resourceKey (path.tail.map stepText) then return none
    return some (messageOf resourceKey path.tail delta)
  | _ => none

/-- The messages about fields. -/
def compareFields (deepDiff : PythonValue → PythonValue → List StateDelta) (python : PythonLower)
    (testContext : CheckerContext) (referenceState testingState : PythonValue) :
    Option (List FieldMessage) :=
  ((deepDiff referenceState testingState).mapM (fieldMessage python testContext)).map List.reduceOption

/-! ### What is reported -/

variable {deepDiff : PythonValue → PythonValue → List StateDelta} {python : PythonLower}
  {testContext : CheckerContext}

theorem mem_pathsOf {deltaType : DeltaType} {ddiff : List StateDelta} {path : DeltaPath} :
    path ∈ pathsOf deltaType ddiff ↔
      ∃ delta ∈ ddiff, delta.path = path ∧ delta.deltaType = deltaType := by
  simp only [pathsOf, List.mem_map, List.mem_filter, decide_eq_true_eq]
  constructor
  · intro ⟨delta, ⟨hmem, htype⟩, hpath⟩
    exact ⟨delta, hmem, hpath, htype⟩
  · intro ⟨delta, hmem, hpath, htype⟩
    exact ⟨delta, ⟨hmem, htype⟩, hpath⟩

/-- No message, and no exception: every difference is passed over. -/
theorem compareFields_eq_nil_iff (hdeep : IsDeepDiff deepDiff) {referenceState testingState : PythonValue}
    (h1 : referenceState.Distinct) (h2 : testingState.Distinct) :
    compareFields deepDiff python testContext referenceState testingState = some [] ↔
      ∀ delta, Reported PythonScalar.type referenceState testingState delta →
        fieldMessage python testContext delta = some none := by
  have hall : ∀ deltas : List StateDelta,
      (deltas.mapM (fieldMessage python testContext)).map List.reduceOption = some [] ↔
        ∀ delta ∈ deltas, fieldMessage python testContext delta = some none := by
    intro deltas
    induction deltas with
    | nil => simp [List.reduceOption]
    | cons delta deltas ih =>
      rw [List.forall_mem_cons, ← ih, List.mapM_cons]
      cases fieldMessage python testContext delta with
      | none => simp
      | some message =>
        cases deltas.mapM (fieldMessage python testContext) with
        | none => simp
        | some messages => cases message <;> simp [List.reduceOption]
  rw [compareFields, hall]
  exact forall_congr' fun delta => by rw [hdeep.mem_iff _ _ h1 h2]

theorem length_lowerSteps (path : DeltaPath) : (lowerSteps python path).length = path.length := by
  induction path with
  | nil => rfl
  | cons step path ih =>
    cases step with
    | index i => simp [lowerSteps, ih]
    | key k =>
      rw [lowerSteps]
      split
      · rfl
      · simp [ih]

/-- A translated path has a single component only when the path has. -/
theorem length_translate_eq_one_iff (first : TreeStep String) (rest : DeltaPath) :
    (tranlateApiserverShapeToControllerShape python (first :: rest)).length = 1 ↔ rest = [] := by
  cases rest with
  | nil => simp [tranlateApiserverShapeToControllerShape, lowerSteps]
  | cons step rest =>
    cases step with
    | index i => simp [tranlateApiserverShapeToControllerShape, length_lowerSteps]
    | key k =>
      rw [tranlateApiserverShapeToControllerShape]
      split <;> simp [length_lowerSteps]

namespace CheckerContext

/-- Nothing is masked by configuration. -/
structure NoMasks (testContext : CheckerContext) : Prop where
  keys : testContext.fieldKeyMask = []
  paths : testContext.fieldPathMask = []
  states : testContext.endStateCheckerMask = []

/-- The fields of the resource are compared. -/
def Compares (testContext : CheckerContext) (resourceKey : String) : Prop :=
  kindNativeObjects resourceKey = some false ∧
    testContext.resourceKeyShouldBeMasked resourceKey = some false

end CheckerContext

/-- The path below the resource key, as the controller sees it. -/
def controllerPath (python : PythonLower) (testContext : CheckerContext) (resourceKey : String)
    (rest : DeltaPath) : DeltaPath :=
  match parseKey resourceKey with
  | some (resourceType, _, _) =>
    if resourceType ∈ testContext.customResourceDefinitions then rest
    else (tranlateApiserverShapeToControllerShape python (.key resourceKey :: rest)).tail
  | none => rest

theorem translate_eq_cons (first : TreeStep String) (rest : DeltaPath) :
    tranlateApiserverShapeToControllerShape python (first :: rest) =
      first :: (tranlateApiserverShapeToControllerShape python (first :: rest)).tail := by
  cases rest with
  | nil => rfl
  | cons step rest =>
    cases step with
    | index i => rfl
    | key k =>
      rw [tranlateApiserverShapeToControllerShape]
      split <;> rfl

/-- **When a difference is passed over.** -/
theorem fieldMessage_passes_iff {delta : StateDelta} {resourceKey : String} {rest : DeltaPath}
    {maskKeys maskPaths : List String} (hpath : delta.path = .key resourceKey :: rest)
    (hkey : (parseKey resourceKey).isSome)
    (hkeys : Analyzer.getMaskByResourceKey testContext.fieldKeyMask resourceKey = .ok maskKeys)
    (hpaths : Analyzer.getMaskByResourceKey testContext.fieldPathMask resourceKey = .ok maskPaths) :
    fieldMessage python testContext delta = some none ↔
      kindNativeObjects resourceKey = some true ∨ rest = [] ∨
        (isChange delta.deltaType = true ∧ passedOver delta.t1 delta.t2 = true) ∨
        (∃ key ∈ maskKeys,
          .key key ∈ TreeStep.key resourceKey :: controllerPath python testContext resourceKey rest) ∨
        (2 ≤ (controllerPath python testContext resourceKey rest).length ∧ ∃ rule ∈ maskPaths,
          equalPath rule ("/".intercalate
            ((controllerPath python testContext resourceKey rest).map stepText)) = true) ∨
        testContext.resourceKeyShouldBeMasked resourceKey = some true ∨
        testContext.resourceFieldPathShouldBeMasked resourceKey
          ((controllerPath python testContext resourceKey rest).map stepText) = true := by
  obtain ⟨⟨resourceType, objNamespace, name⟩, hparse⟩ := Option.isSome_iff_exists.mp hkey
  have hcons : (if resourceType ∈ testContext.customResourceDefinitions then .key resourceKey :: rest
      else tranlateApiserverShapeToControllerShape python (.key resourceKey :: rest)) =
        .key resourceKey :: controllerPath python testContext resourceKey rest := by
    simp only [controllerPath, hparse]
    split
    · rfl
    · exact translate_eq_cons _ rest
  have hempty : (TreeStep.key resourceKey :: controllerPath python testContext resourceKey rest).length = 1 ↔
      rest = [] := by
    rw [← hcons]
    split
    · simp
    · exact length_translate_eq_one_iff _ rest
  obtain ⟨native, hnative⟩ : ∃ native, kindNativeObjects resourceKey = some native := by
    simp [kindNativeObjects, hparse]
  obtain ⟨masked, hmasked⟩ : ∃ masked, testContext.resourceKeyShouldBeMasked resourceKey =
      some masked := by
    simp [CheckerContext.resourceKeyShouldBeMasked, hparse]
  have hkeysAny : ((TreeStep.key resourceKey :: controllerPath python testContext resourceKey rest).any
      fun step => maskKeys.any fun key => step = .key key) = true ↔ ∃ key ∈ maskKeys,
        .key key ∈ TreeStep.key resourceKey :: controllerPath python testContext resourceKey rest := by
    simp only [List.any_eq_true, decide_eq_true_eq]
    constructor
    · intro ⟨step, hstep, key, hkey, heq⟩
      exact ⟨key, hkey, heq ▸ hstep⟩
    · intro ⟨key, hkey, hstep⟩
      exact ⟨_, hstep, key, hkey, rfl⟩
  have hpathsAny : (decide (2 < (TreeStep.key resourceKey ::
      controllerPath python testContext resourceKey rest).length) && maskPaths.any fun rule =>
        equalPath rule ("/".intercalate
          ((controllerPath python testContext resourceKey rest).map stepText))) = true ↔
      2 ≤ (controllerPath python testContext resourceKey rest).length ∧ ∃ rule ∈ maskPaths,
        equalPath rule ("/".intercalate
          ((controllerPath python testContext resourceKey rest).map stepText)) = true := by
    rw [Bool.and_eq_true, decide_eq_true_eq, List.any_eq_true, List.length_cons]
    exact and_congr_left' (by omega)
  rw [← hkeysAny, ← hpathsAny]
  simp only [fieldMessage, hpath, hnative, hparse, hkeys, hpaths, hmasked, hcons, hempty,
    Except.toOption, Option.bind_eq_bind, Option.bind_some, List.tail_cons, Option.some.injEq]
  cases native with
  | true => simp
  | false =>
    by_cases hrest : rest = []
    · simp [hrest]
    · simp only [hrest, if_false, Bool.false_eq_true, false_or, Bool.and_eq_true]
      cases masked <;> split_ifs <;> simp_all

/-- **The message for a difference when no masks are configured.** -/
theorem fieldMessage_eq_none_iff (hmasks : testContext.NoMasks) {delta : StateDelta}
    {resourceKey : String} {rest : DeltaPath} (hpath : delta.path = .key resourceKey :: rest)
    (hkey : (parseKey resourceKey).isSome) :
    fieldMessage python testContext delta = some none ↔
      (testContext.Compares resourceKey → rest ≠ [] →
        isChange delta.deltaType = true ∧ passedOver delta.t1 delta.t2 = true) := by
  have hmask : Analyzer.getMaskByResourceKey [] resourceKey = .ok [] := rfl
  obtain ⟨parts, hparse⟩ := Option.isSome_iff_exists.mp hkey
  obtain ⟨native, hnative⟩ : ∃ native, kindNativeObjects resourceKey = some native := by
    simp [kindNativeObjects, hparse]
  obtain ⟨masked, hmasked⟩ : ∃ masked, testContext.resourceKeyShouldBeMasked resourceKey =
      some masked := by
    simp [CheckerContext.resourceKeyShouldBeMasked, hparse]
  have hfields : ∀ path, testContext.resourceFieldPathShouldBeMasked resourceKey path = false := by
    intro path
    simp [CheckerContext.resourceFieldPathShouldBeMasked, CheckerContext.stateMasks, hmasks.states]
  rw [fieldMessage_passes_iff hpath hkey (hmasks.keys ▸ hmask) (hmasks.paths ▸ hmask)]
  simp only [CheckerContext.Compares, hnative, hmasked, hfields]
  cases native <;> cases masked <;> simp
  tauto

end Sieve.Oracle
