import Sieve.Event.ReadValues
import Sieve.Server.APIStates
import Sieve.Server.ObjectMaps
import Sieve.Server.TestPlan

/-!
# How the coordinator reads a test plan

The second half of `test_plan.go`, over the values of a YAML document.  A missing key and a value of another type
end in the same panic.

* `strToMap`: the text of a difference, with its numbers as floats;
* `parseTriggerDefinition`: the six types of conditions;
* `parseAction`, `parseTestPlan`: the six types of actions, with the trigger graph of `Server.parseAction`.
-/

namespace Sieve.Plan

open Sieve.Event Sieve.Server

/-! ### Documents -/

/-- A value of a YAML document. -/
inductive Yaml where
  | null
  | str (s : String)
  | bool (b : Bool)
  | int (n : ℤ)
  | list (items : List Yaml)
  | map (entries : List (String × Yaml))

/-- A map: its entries in any order. -/
abbrev Entries := List (String × Yaml)

/-- Why the coordinator does not come up. -/
inductive PlanError where
  | interfaceConversion
  | cannotUnmarshal (str : String)
  | noAPIForm
  | triggerGraph (error : Fatal)
  | invalidTriggerType (conditionType : String)
  | invalidActionType (actionType : String)

/-- `raw[key].(string)`. -/
def getStr (raw : Entries) (key : String) : Except PlanError String :=
  match raw.lookup key with
  | some (.str s) => .ok s
  | _ => .error .interfaceConversion

/-- `raw[key].(int)`. -/
def getInt (raw : Entries) (key : String) : Except PlanError ℤ :=
  match raw.lookup key with
  | some (.int n) => .ok n
  | _ => .error .interfaceConversion

/-- `raw[key].(map[interface{}]interface{})`. -/
def getMap (raw : Entries) (key : String) : Except PlanError Entries :=
  match raw.lookup key with
  | some (.map entries) => .ok entries
  | _ => .error .interfaceConversion

/-- `raw[key].([]interface{})`. -/
def getList (raw : Entries) (key : String) : Except PlanError (List Yaml) :=
  match raw.lookup key with
  | some (.list items) => .ok items
  | _ => .error .interfaceConversion

/-- An entry that may be missing. -/
def getStrOr (raw : Entries) (key default : String) : Except PlanError String :=
  if (raw.lookup key).isSome then getStr raw key else .ok default

def getIntOr (raw : Entries) (key : String) (default : ℤ) : Except PlanError ℤ :=
  if (raw.lookup key).isSome then getInt raw key else .ok default

def getBoolOr (raw : Entries) (key : String) (default : Bool) : Except PlanError Bool :=
  match raw.lookup key with
  | none => .ok default
  | some (.bool b) => .ok b
  | some _ => .error .interfaceConversion

/-- `item.(map[interface{}]interface{})`. -/
def Yaml.asMap : Yaml → Except PlanError Entries
  | .map entries => .ok entries
  | _ => .error .interfaceConversion

/-! ### Trigger definitions -/

def onObjectCreate : String := "onObjectCreate"
def onObjectDelete : String := "onObjectDelete"
def onObjectUpdate : String := "onObjectUpdate"
def onAnyFieldModification : String := "onAnyFieldModification"
def onTimeout : String := "onTimeout"
def onAnnotatedAPICall : String := "onAnnotatedAPICall"

def strToMap (str : String) : Except PlanError GoMap :=
  match Server.strToMap (unmarshalText str) with
  | some m => .ok m
  | none => .error (.cannotUnmarshal str)

/-- A difference, in the form of the API server if the trigger says so. -/
def parseStateDiff (condition : Entries) (key : String) (convertStateToAPIForm : Bool) :
    Except PlanError GoMap := do
  let str ← getStr condition key
  let stateDiff ← strToMap str
  if convertStateToAPIForm then
    match convertObjectStateToAPIForm stateDiff with
    | some converted => .ok (some converted)
    | none => .error .noAPIForm
  else .ok stateDiff

/-- The two differences, if both are there. -/
def parseStateDiffs (condition : Entries) (convertStateToAPIForm : Bool) : Except PlanError (GoMap × GoMap) :=
  if (condition.lookup "prevStateDiff").isSome && (condition.lookup "curStateDiff").isSome then do
    let prevStateDiff ← parseStateDiff condition "prevStateDiff" convertStateToAPIForm
    let curStateDiff ← parseStateDiff condition "curStateDiff" convertStateToAPIForm
    .ok (prevStateDiff, curStateDiff)
  else .ok (none, none)

def parseObjectCreate (raw condition : Entries) : Except PlanError TriggerDefinition := do
  let observationPoint ← getMap raw "observationPoint"
  let name ← getStr raw "triggerName"
  let resourceKey ← getStr condition "resourceKey"
  let desiredOccurrence ← getInt condition "occurrence"
  let observedWhen ← getStr observationPoint "when"
  let observedBy ← getStr observationPoint "by"
  .ok (.objectCreate ⟨name, resourceKey, desiredOccurrence, 0, observedWhen, observedBy⟩)

def parseObjectDelete (raw condition : Entries) : Except PlanError TriggerDefinition := do
  let observationPoint ← getMap raw "observationPoint"
  let name ← getStr raw "triggerName"
  let resourceKey ← getStr condition "resourceKey"
  let desiredOccurrence ← getInt condition "occurrence"
  let observedWhen ← getStr observationPoint "when"
  let observedBy ← getStr observationPoint "by"
  .ok (.objectDelete ⟨name, resourceKey, desiredOccurrence, 0, observedWhen, observedBy⟩)

def parseObjectUpdate (raw condition : Entries) : Except PlanError TriggerDefinition := do
  let convertStateToAPIForm ← getBoolOr condition "convertStateToAPIForm" false
  let (prevStateDiff, curStateDiff) ← parseStateDiffs condition convertStateToAPIForm
  let observationPoint ← getMap raw "observationPoint"
  let name ← getStr raw "triggerName"
  let resourceKey ← getStr condition "resourceKey"
  let desiredOccurrence ← getInt condition "occurrence"
  let observedWhen ← getStr observationPoint "when"
  let observedBy ← getStr observationPoint "by"
  .ok (.objectUpdate ⟨name, resourceKey, prevStateDiff, curStateDiff, convertStateToAPIForm, desiredOccurrence, 0,
    observedWhen, observedBy⟩)

def parseAnyFieldModification (raw condition : Entries) : Except PlanError TriggerDefinition := do
  let convertStateToAPIForm ← getBoolOr condition "convertStateToAPIForm" false
  let prevStateDiff ← parseStateDiff condition "prevStateDiff" convertStateToAPIForm
  let observationPoint ← getMap raw "observationPoint"
  let name ← getStr raw "triggerName"
  let resourceKey ← getStr condition "resourceKey"
  let desiredOccurrence ← getInt condition "occurrence"
  let observedWhen ← getStr observationPoint "when"
  let observedBy ← getStr observationPoint "by"
  .ok (.anyFieldModification ⟨name, resourceKey, prevStateDiff, convertStateToAPIForm, desiredOccurrence, 0,
    observedWhen, observedBy⟩)

def parseTimeout (raw condition : Entries) : Except PlanError TriggerDefinition := do
  let name ← getStr raw "triggerName"
  let timeoutValue ← getInt condition "timeoutValue"
  .ok (.timeout ⟨name, timeoutValue⟩)

def parseAnnotatedAPICall (raw condition : Entries) : Except PlanError TriggerDefinition := do
  let observationPoint ← getMap raw "observationPoint"
  let name ← getStr raw "triggerName"
  let module ← getStr condition "module"
  let filePath ← getStr condition "filePath"
  let receiverType ← getStr condition "receiverType"
  let funName ← getStr condition "funName"
  let desiredOccurrence ← getInt condition "occurrence"
  let observedWhen ← getStr observationPoint "when"
  let observedBy ← getStr observationPoint "by"
  .ok (.annotatedAPICall ⟨name, module, filePath, receiverType, funName, desiredOccurrence, 0, observedWhen,
    observedBy⟩)

def parseTriggerDefinition (raw : Entries) : Except PlanError TriggerDefinition := do
  let condition ← getMap raw "condition"
  let conditionType ← getStr condition "conditionType"
  if conditionType = onObjectCreate then parseObjectCreate raw condition
  else if conditionType = onObjectDelete then parseObjectDelete raw condition
  else if conditionType = onObjectUpdate then parseObjectUpdate raw condition
  else if conditionType = onAnyFieldModification then parseAnyFieldModification raw condition
  else if conditionType = onTimeout then parseTimeout raw condition
  else if conditionType = onAnnotatedAPICall then parseAnnotatedAPICall raw condition
  else .error (.invalidTriggerType conditionType)

/-- The definitions of a trigger, one after the other. -/
def parseTriggerDefinitions : List Yaml → Except PlanError (List TriggerDefinition)
  | [] => .ok []
  | definition :: definitions => do
    let raw ← definition.asMap
    let triggerDefinition ← parseTriggerDefinition raw
    let triggerDefinitions ← parseTriggerDefinitions definitions
    .ok (triggerDefinition :: triggerDefinitions)

/-! ### Actions -/

def pauseAPIServer : String := "pauseAPIServer"
def resumeAPIServer : String := "resumeAPIServer"
def pauseController : String := "pauseController"
def resumeController : String := "resumeController"
def restartController : String := "restartController"
def reconnectController : String := "reconnectController"

/-- What the types of actions differ in. -/
inductive ActionKind where
  | pauseAPIServer (apiServerName pauseScope : String)
  | resumeAPIServer (apiServerName pauseScope : String)
  | pauseController (pauseScope pauseAt : String) (avoidOngoingRead : Bool)
  | resumeController (pauseScope pauseAt : String)
  | restartController (controllerLabel : String)
  | reconnectController (controllerLabel reconnectAPIServer : String)

/-- An action of a plan; `action` holds its trigger and whether it is asynchronous. -/
structure PlannedAction where
  kind : ActionKind
  waitBefore : ℤ
  waitAfter : ℤ
  action : Action

def parseActionKind (raw : Entries) (actionType : String) : Except PlanError ActionKind :=
  if actionType = pauseAPIServer then do
    let apiServerName ← getStr raw "apiServerName"
    let pauseScope ← getStr raw "pauseScope"
    .ok (.pauseAPIServer apiServerName pauseScope)
  else if actionType = resumeAPIServer then do
    let apiServerName ← getStr raw "apiServerName"
    let pauseScope ← getStr raw "pauseScope"
    .ok (.resumeAPIServer apiServerName pauseScope)
  else if actionType = pauseController then do
    let pauseScope ← getStrOr raw "pauseScope" "all"
    let avoidOngoingRead ← getBoolOr raw "avoidOngoingRead" false
    let pauseAt ← getStr raw "pauseAt"
    .ok (.pauseController pauseScope pauseAt avoidOngoingRead)
  else if actionType = resumeController then do
    let pauseScope ← getStrOr raw "pauseScope" "all"
    let pauseAt ← getStr raw "pauseAt"
    .ok (.resumeController pauseScope pauseAt)
  else if actionType = restartController then do
    let controllerLabel ← getStr raw "controllerLabel"
    .ok (.restartController controllerLabel)
  else if actionType = reconnectController then do
    let controllerLabel ← getStr raw "controllerLabel"
    let reconnectAPIServer ← getStr raw "reconnectAPIServer"
    .ok (.reconnectController controllerLabel reconnectAPIServer)
  else .error (.invalidActionType actionType)

/-- The graph of an expression. -/
def parseTriggerGraph (expression : String) : Except PlanError TriggerGraph :=
  match expressionToBinaryTree expression >>= binaryTreeToTriggerGraph with
  | .ok triggerGraph => .ok triggerGraph
  | .error error => .error (.triggerGraph error)

def parseAction (raw : Entries) : Except PlanError PlannedAction := do
  let trigger ← getMap raw "trigger"
  let expression ← getStr trigger "expression"
  let triggerGraph ← parseTriggerGraph expression
  let definitions ← getList trigger "definitions"
  let triggerDefinitions ← parseTriggerDefinitions definitions
  let actionType ← getStr raw "actionType"
  let async ← getBoolOr raw "async" false
  let waitBefore ← getIntOr raw "waitBefore" 0
  let waitAfter ← getIntOr raw "waitAfter" 0
  let kind ← parseActionKind raw actionType
  .ok ⟨kind, waitBefore, waitAfter, ⟨triggerGraph, definitionTable triggerDefinitions, async⟩⟩

def parseActions : List Yaml → Except PlanError (List PlannedAction)
  | [] => .ok []
  | rawAction :: rawActions => do
    let actionInTestPlan ← rawAction.asMap
    let action ← parseAction actionInTestPlan
    let actions ← parseActions rawActions
    .ok (action :: actions)

/-- The actions of the plan, or nil when there is no list of them. -/
def parseTestPlan (raw : Entries) : Except PlanError (Option (List PlannedAction)) :=
  match raw.lookup "actions" with
  | some (.list actionsInTestPlan) => do
    let actions ← parseActions actionsInTestPlan
    .ok (some actions)
  | _ => .ok none

end Sieve.Plan
