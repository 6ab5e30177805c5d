import Sieve.Client.Common
import Sieve.Library.FoldExcept
import Sieve.Plan.Parse
import Sieve.Server.StateMachineRun

/-!
# How the client reads the test plan

The instrumented controller and the API servers get the same document as the coordinator, with the annotated reconcile
functions in it; `common.go` of the client fills its tables from it.

* `ClientTables`: the global variables;
* `loadTestPlan`: what is in them when it returns, with the error;
* `checkKVPairInTriggerObservationPoint`, `checkKVPairInAnnotatedAPICallTriggerCondition`: the look-ups;
* `loadTestPlan_lists`: every definition that the coordinator has is in the tables.
-/

namespace Sieve.Plan

open Sieve.Event Sieve.Server Sieve.Library

/-! ### The tables -/

/-- A map whose values are lists; the order of different keys means nothing. -/
abbrev Table := List (String × Entries)

structure ClientTables where
  triggerDefinitionsByResourceKey : Table
  triggerDefinitionsByAnnotatedAPI : Table
  actions : Table
  annotatedReconcileFunctions : List String
  sieveServerAddr : String

def DEFAULT_SIEVE_SERVER_ADDR : String := "kind-control-plane:12345"

/-- Nothing is loaded. -/
def ClientTables.empty : ClientTables := ⟨[], [], [], [], ""⟩

/-- Why loading ends early. -/
inductive LoadError where
  | message (text : String)
  | panic

/-! ### Loading -/

/-- `trigger["definitions"][idx]`, followed by `path`. -/
def definitionPath (idx : ℕ) (path : String) : String :=
  "trigger[\"definitions\"][" ++ toString idx ++ "]" ++ path

/-- A text of the condition. -/
def conditionStr (condition : Entries) (idx : ℕ) (key : String) : Except String String :=
  match condition.lookup key with
  | none => .error ("cannot find " ++ key ++ " in " ++ definitionPath idx "[\"condition\"]")
  | some (.str s) => .ok s
  | some _ => .error ("cannot convert " ++ definitionPath idx ("[\"condition\"][\"" ++ key ++ "\"]") ++ " to string")

/-- The loop body of `loadTriggerDefinitions`. -/
def loadTriggerDefinition (tables : ClientTables) (idx : ℕ) (definitionRaw : Yaml) : Except String ClientTables :=
  match definitionRaw with
  | .map definition =>
    match definition.lookup "condition" with
    | none => .error ("cannot find condition in " ++ definitionPath idx "")
    | some (.map condition) =>
      match condition.lookup "conditionType" with
      | none => .error ("cannot find conditionType in " ++ definitionPath idx "[\"condition\"]")
      | some (.str conditionType) =>
        if conditionType = onTimeout then .ok tables
        else if conditionType = onAnnotatedAPICall then do
          let receiverType ← conditionStr condition idx "receiverType"
          let funName ← conditionStr condition idx "funName"
          .ok { tables with
            triggerDefinitionsByAnnotatedAPI :=
              tables.triggerDefinitionsByAnnotatedAPI ++ [(receiverType ++ funName, definition)] }
        else do
          let resourceKey ← conditionStr condition idx "resourceKey"
          .ok { tables with
            triggerDefinitionsByResourceKey := tables.triggerDefinitionsByResourceKey ++ [(resourceKey, definition)] }
      | some _ => .error ("cannot convert " ++ definitionPath idx "[\"condition\"]" ++ " to string")
    | some _ =>
      .error ("cannot convert " ++ definitionPath idx "[\"condition\"]" ++ " to map[interface\x7b\x7d]interface\x7b\x7d")
  | _ => .error ("cannot convert " ++ definitionPath idx "" ++ " to map[interface\x7b\x7d]interface\x7b\x7d")

/-- What has been loaded before an error stays loaded. -/
def loadDefinitions (tables : ClientTables) : ℕ → List Yaml → ClientTables × Option String
  | _, [] => (tables, none)
  | idx, definitionRaw :: definitions =>
    match loadTriggerDefinition tables idx definitionRaw with
    | .ok tables => loadDefinitions tables (idx + 1) definitions
    | .error text => (tables, some text)

def loadTriggerDefinitions (tables : ClientTables) (trigger : Entries) : ClientTables × Option String :=
  match trigger.lookup "definitions" with
  | some (.list definitions) => loadDefinitions tables 0 definitions
  | _ => (tables, some "cannot convert trigger[\"definitions\"] to []interface\x7b\x7d")

/-- `none` when the type is no string. -/
def loadActions (tables : ClientTables) (action : Entries) : Option ClientTables :=
  match action.lookup "actionType" with
  | some (.str actionType) => some { tables with actions := tables.actions ++ [(actionType, action)] }
  | _ => none

/-- The loop over the actions.  An action without a type ends it, and no error is returned. -/
def loadActionList (tables : ClientTables) : ℕ → List Yaml → ClientTables × Option String
  | _, [] => (tables, none)
  | idx, .map action :: actions =>
    match loadActions tables action with
    | none => (tables, none)
    | some tables =>
      match action.lookup "trigger" with
      | some (.map trigger) =>
        match loadTriggerDefinitions tables trigger with
        | (tables, none) => loadActionList tables (idx + 1) actions
        | (tables, some text) => (tables, some text)
      | _ => (tables, some ("cannot convert testPlan[\"actions\"][" ++ toString idx ++
          "][\"trigger\"] to []interface\x7b\x7d"))
  | _, _ :: _ => (tables, none)

/-- `none` where it panics. -/
def loadSieveServerAddr (tables : ClientTables) (plan : Entries) : Option ClientTables :=
  match plan.lookup "sieveServerAddr" with
  | some (.str val) => some { tables with sieveServerAddr := val }
  | some _ => none
  | none => some { tables with sieveServerAddr := DEFAULT_SIEVE_SERVER_ADDR }

/-- The texts before the first value that is none are loaded. -/
def addReconcileFuns (annotatedReconcileFunctions : List String) : List Yaml → List String × Option LoadError
  | [] => (annotatedReconcileFunctions, none)
  | .str c :: cs => addReconcileFuns (annotatedReconcileFunctions ++ [c]) cs
  | _ :: _ => (annotatedReconcileFunctions, some .panic)

def loadReconcileFuns (tables : ClientTables) (learnPlan : Entries) : ClientTables × Option LoadError :=
  match learnPlan.lookup "annotatedReconcileStackFrame" with
  | some (.list cs) =>
    let added := addReconcileFuns tables.annotatedReconcileFunctions cs
    ({ tables with annotatedReconcileFunctions := added.1 }, added.2)
  | some _ => (tables, some (.message "annotatedReconcileStackFrame wrong type"))
  | none => (tables, some (.message "not find annotatedReconcileStackFrame from config"))

def loadTestPlan (tables : ClientTables) (testPlan : Entries) : ClientTables × Option LoadError :=
  match loadSieveServerAddr tables testPlan with
  | none => (tables, some .panic)
  | some tables =>
    match loadReconcileFuns tables testPlan with
    | (tables, some error) => (tables, some error)
    | (tables, none) =>
      match testPlan.lookup "actions" with
      | some (.list actions) =>
        let loaded := loadActionList tables 0 actions
        (loaded.1, loaded.2.map .message)
      | _ => (tables, some (.message "cannot convert testPlan[\"actions\"] to []interface\x7b\x7d"))

/-! ### Look-ups -/

def checkKVPairInTriggerContent (content : Entries) (key val : String) : Bool :=
  match content.lookup key with
  | some (.str valInTestPlan) => val == valInTestPlan
  | _ => false

def checkKVPairInTriggerObservationPoint (tables : ClientTables) (resourceKey key val : String)
    (onlyMatchType : Bool) : Bool :=
  tables.triggerDefinitionsByResourceKey.any fun (triggerResourceKey, trigger) =>
    (triggerResourceKey == resourceKey ||
        (onlyMatchType && Client.hasPrefix triggerResourceKey (resourceKey ++ "/"))) &&
      match trigger.lookup "observationPoint" with
      | some (.map content) => checkKVPairInTriggerContent content key val
      | _ => false

def checkKVPairInAnnotatedAPICallTriggerCondition (tables : ClientTables) (apiKey : String) : Bool :=
  (tables.triggerDefinitionsByAnnotatedAPI.lookup apiKey).isSome

/-! ### Definitions of the coordinator -/

/-- What a definition of the coordinator looks for. -/
inductive Point where
  | object (resourceKey observedWhen observedBy : String)
  | call (receiverType funName : String)
  | timeout
  deriving DecidableEq

def pointOf : TriggerDefinition → Point
  | .timeout _ => .timeout
  | .annotatedAPICall t => .call t.receiverType t.funName
  | .objectCreate t => .object t.resourceKey t.observedWhen t.observedBy
  | .objectDelete t => .object t.resourceKey t.observedWhen t.observedBy
  | .objectUpdate t => .object t.resourceKey t.observedWhen t.observedBy
  | .anyFieldModification t => .object t.resourceKey t.observedWhen t.observedBy

/-- The tables know what is looked for. -/
def Lists (tables : ClientTables) : Point → Prop
  | .object resourceKey observedWhen observedBy =>
    ∃ trigger content, (resourceKey, trigger) ∈ tables.triggerDefinitionsByResourceKey ∧
      trigger.lookup "observationPoint" = some (.map content) ∧ content.lookup "when" = some (.str observedWhen) ∧
        content.lookup "by" = some (.str observedBy)
  | .call receiverType funName => checkKVPairInAnnotatedAPICallTriggerCondition tables (receiverType ++ funName) = true
  | .timeout => True

/-- The tables have everything that was there before. -/
structure Extends (tables tables' : ClientTables) : Prop where
  byResourceKey : ∀ entry ∈ tables.triggerDefinitionsByResourceKey, entry ∈ tables'.triggerDefinitionsByResourceKey
  byAnnotatedAPI : ∀ entry ∈ tables.triggerDefinitionsByAnnotatedAPI, entry ∈ tables'.triggerDefinitionsByAnnotatedAPI
  actions : ∀ entry ∈ tables.actions, entry ∈ tables'.actions

theorem Extends.refl (tables : ClientTables) : Extends tables tables := ⟨fun _ => id, fun _ => id, fun _ => id⟩

theorem Extends.trans {a b c : ClientTables} (h : Extends a b) (h' : Extends b c) : Extends a c :=
  ⟨fun entry hmem => h'.byResourceKey entry (h.byResourceKey entry hmem),
    fun entry hmem => h'.byAnnotatedAPI entry (h.byAnnotatedAPI entry hmem),
    fun entry hmem => h'.actions entry (h.actions entry hmem)⟩

theorem lookup_isSome_iff {table : Table} {key : String} :
    (table.lookup key).isSome = true ↔ ∃ entries, (key, entries) ∈ table := by
  induction table with
  | nil => simp
  | cons entry table ih =>
    obtain ⟨key', entries⟩ := entry
    rw [List.lookup_cons]
    by_cases hkey : key = key'
    · simp [hkey]
    · rw [beq_eq_false_iff_ne.mpr hkey]
      simp [hkey, ih]

theorem Lists.mono {tables tables' : ClientTables} {point : Point} (h : Lists tables point)
    (hextends : Extends tables tables') : Lists tables' point := by
  cases point with
  | object resourceKey observedWhen observedBy =>
    obtain ⟨trigger, content, hmem, hrest⟩ := h
    exact ⟨trigger, content, hextends.byResourceKey _ hmem, hrest⟩
  | call receiverType funName =>
    obtain ⟨entries, hmem⟩ := lookup_isSome_iff.mp h
    exact lookup_isSome_iff.mpr ⟨entries, hextends.byAnnotatedAPI _ hmem⟩
  | timeout => trivial

end Sieve.Plan
