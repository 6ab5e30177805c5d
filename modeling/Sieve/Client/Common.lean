import Mathlib.Data.Int.Notation
import Mathlib.Data.List.Basic
import Mathlib.Logic.Function.Basic

/-!
# The client's copy of the test plan

What `common.go` of the client keeps of a test plan, and how it is looked up:

* `YamlMap`: a map of the plan as the YAML parser delivers it;
* `loadTestPlan`: the actions by their type, and the trigger definitions;
* `checkKVPairInAction`, `checkKVPairInTriggerObservationPoint`: the look-ups of the client's filters.
-/

namespace Sieve.Client

/-- A value of a YAML map, as far as the client and the coordinator convert it. -/
inductive Yaml where
  | str (s : String)
  | bool (b : Bool)
  | int (n : ℤ)
  | other
  deriving DecidableEq

abbrev YamlMap := String → Option Yaml

/-- Go's `strings.HasPrefix`. -/
def hasPrefix (value start : String) : Bool := start.toList.isPrefixOf value.toList

/-- A trigger definition that has a resource key. -/
structure TriggerDefinition where
  resourceKey : String
  /-- Absent when it is no map. -/
  observationPoint : Option YamlMap

/-- An action of the plan with the definitions of its trigger. -/
structure RawAction where
  fields : YamlMap
  definitions : List TriggerDefinition

/-- The global variables `actions` and `triggerDefinitionsByResourceKey`. -/
structure TestConfig where
  actions : String → List YamlMap
  triggerDefinitions : List TriggerDefinition

/-- Nothing is loaded yet. -/
def TestConfig.empty : TestConfig := ⟨fun _ => [], []⟩

/-- `none` when the type is no string. -/
def loadActions (config : TestConfig) (action : YamlMap) : Option TestConfig :=
  match action "actionType" with
  | some (.str actionType) =>
    some { config with
      actions := Function.update config.actions actionType (config.actions actionType ++ [action]) }
  | _ => none

/-- The loop over the actions, which ends at an action without a type.  Triggers that cannot be
converted end it too, but no coordinator runs a plan that has one. -/
def loadTestPlan (config : TestConfig) : List RawAction → TestConfig
  | [] => config
  | action :: plan =>
    match loadActions config action.fields with
    | none => config
    | some loaded =>
      loadTestPlan
        { loaded with triggerDefinitions := loaded.triggerDefinitions ++ action.definitions } plan

def checkKVPairInAction (config : TestConfig) (actionType key val : String) (matchPrefix : Bool) :
    Bool :=
  (config.actions actionType).any fun action =>
    match action key with
    | some (.str valInTestPlan) =>
      val == valInTestPlan || (matchPrefix && hasPrefix valInTestPlan val)
    | _ => false

def checkKVPairInTriggerContent (content : YamlMap) (key val : String) : Bool :=
  match content key with
  | some (.str valInTestPlan) => val == valInTestPlan
  | _ => false

def checkKVPairInTriggerObservationPoint (config : TestConfig) (resourceKey key val : String)
    (onlyMatchType : Bool) : Bool :=
  config.triggerDefinitions.any fun trigger =>
    (trigger.resourceKey == resourceKey ||
      (onlyMatchType && hasPrefix trigger.resourceKey (resourceKey ++ "/"))) &&
    match trigger.observationPoint with
    | some content => checkKVPairInTriggerContent content key val
    | none => false

/-! ### What is loaded -/

/-- Every action of the plan has a type. -/
def Typed (plan : List RawAction) : Prop :=
  ∀ action ∈ plan, ∃ actionType, action.fields "actionType" = some (.str actionType)

theorem mem_loadActions {config loaded : TestConfig} {action fields : YamlMap} {actionType : String}
    (h : loadActions config action = some loaded) :
    fields ∈ loaded.actions actionType ↔
      fields ∈ config.actions actionType ∨
        fields = action ∧ action "actionType" = some (.str actionType) := by
  rw [loadActions] at h
  split at h
  · rename_i actionType' htype
    obtain rfl := Option.some.inj h
    by_cases heq : actionType = actionType'
    · simp [heq, htype]
    · simp [heq, htype, Ne.symm heq]
  · cases h

/-- **The actions of a plan are loaded by their type.** -/
theorem mem_loadTestPlan {config : TestConfig} {plan : List RawAction} (hplan : Typed plan)
    {fields : YamlMap} {actionType : String} :
    fields ∈ (loadTestPlan config plan).actions actionType ↔
      fields ∈ config.actions actionType ∨
        ∃ action ∈ plan, action.fields = fields ∧
          action.fields "actionType" = some (.str actionType) := by
  induction plan generalizing config with
  | nil => simp [loadTestPlan]
  | cons action plan ih =>
    have htype := hplan action List.mem_cons_self
    have hrest : Typed plan := fun action' hmem => hplan action' (List.mem_cons_of_mem _ hmem)
    rw [loadTestPlan]
    cases hload : loadActions config action.fields with
    | none =>
      obtain ⟨actionType', htype'⟩ := htype
      rw [loadActions, htype'] at hload
      cases hload
    | some loaded =>
      show fields ∈ (loadTestPlan { loaded with triggerDefinitions := _ } plan).actions _ ↔ _
      rw [ih hrest, mem_loadActions hload, List.exists_mem_cons_iff, or_assoc, eq_comm]

theorem checkKVPairInAction_iff {plan : List RawAction} (hplan : Typed plan)
    (actionType key val : String) (matchPrefix : Bool) :
    checkKVPairInAction (loadTestPlan .empty plan) actionType key val matchPrefix = true ↔
      ∃ action ∈ plan, action.fields "actionType" = some (.str actionType) ∧
        ∃ valInTestPlan, action.fields key = some (.str valInTestPlan) ∧
          (val = valInTestPlan ∨ matchPrefix = true ∧ hasPrefix valInTestPlan val = true) := by
  rw [checkKVPairInAction, List.any_eq_true]
  constructor
  · intro ⟨fields, hmem, hval⟩
    obtain habsurd | ⟨action, haction, rfl, htype⟩ := (mem_loadTestPlan hplan).mp hmem
    · cases habsurd
    · refine ⟨action, haction, htype, ?_⟩
      split at hval
      · rename_i valInTestPlan hfield
        exact ⟨valInTestPlan, hfield, by simpa using hval⟩
      · cases hval
  · intro ⟨action, haction, htype, valInTestPlan, hfield, hval⟩
    refine ⟨action.fields, (mem_loadTestPlan hplan).mpr (.inr ⟨action, haction, rfl, htype⟩), ?_⟩
    rw [hfield]
    simpa using hval

end Sieve.Client
