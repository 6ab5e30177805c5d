import Sieve.Plan.Parse
import Sieve.Policies.IntermediateState
import Sieve.Policies.StaleState
import Sieve.Policies.UnobservedState

/-!
# The test plans that are generated

The last functions of the three policies, which write a plan for what the passes before have selected:

* `generateIntermediateStateTestPlanForControllerWrite`, `…ForAnnotatedAPIInvocation`: the controller restarts after
  one of its writes;
* `generateUnobservedStateTestPlan`: it does not see an event until another one has come;
* `generateStaleStateTestPlan`: it goes back to an API server that has been paused;
* `generateTestPlan`: all four;
* `createPlanForTestMode`: what is added before the test.

The text of a YAML file is left out: both sides share the document.
-/

namespace Sieve.Plan

open Sieve.Event Sieve.Server Sieve.Analyzer Sieve.Policies

/-- What the plans take from the configuration. -/
structure PlanContext where
  testWorkload : String
  controllerPodLabel : String
  leadingApi : String
  followingApi : String
  customResourceDefinitions : List String

/-! ### Parts of a plan -/

/-- The condition of one of the types that count. -/
def objectCondition (conditionType resourceKey : String) (occurrence : ℤ) : Entries :=
  [("conditionType", .str conditionType), ("resourceKey", .str resourceKey), ("occurrence", .int occurrence)]

def updateCondition (resourceKey : String) (slimPrevObjMap slimCurObjMap : Option Fields)
    (convertStateToAPIForm : Bool) (occurrence : ℤ) : Entries :=
  [("conditionType", .str onObjectUpdate), ("resourceKey", .str resourceKey),
      ("prevStateDiff", .str (dumpsMap slimPrevObjMap)), ("curStateDiff", .str (dumpsMap slimCurObjMap))] ++
    (if convertStateToAPIForm then [("convertStateToAPIForm", .bool true)] else []) ++
    [("occurrence", .int occurrence)]

def modificationCondition (resourceKey : String) (slimCurObjMap : Option Fields) (occurrence : ℤ) : Entries :=
  [("conditionType", .str onAnyFieldModification), ("resourceKey", .str resourceKey),
    ("prevStateDiff", .str (dumpsMap slimCurObjMap)), ("occurrence", .int occurrence)]

def definitionAt (triggerName : String) (condition : Entries) (observedWhen observedBy : String) : Yaml :=
  .map [("triggerName", .str triggerName), ("condition", .map condition),
    ("observationPoint", .map [("when", .str observedWhen), ("by", .str observedBy)])]

def triggerEntry (definitions : List Yaml) (expression : String) : String × Yaml :=
  ("trigger", .map [("definitions", .list definitions), ("expression", .str expression)])

def planOf (context : PlanContext) (actions : List Yaml) : Entries :=
  [("workload", .str context.testWorkload), ("actions", .list actions)]

/-! ### Intermediate states -/

def writeCondition (write : ControllerWrite) : Entries :=
  match write.etype with
  | .create => objectCondition onObjectCreate write.key write.signatureCounter
  | .delete => objectCondition onObjectDelete write.key write.signatureCounter
  | .update | .patch | .statusUpdate | .statusPatch =>
    updateCondition write.key write.slimPrevObjMap write.slimCurObjMap false write.signatureCounter

def generateIntermediateStateTestPlanForControllerWrite (context : PlanContext) (write : ControllerWrite) :
    Entries :=
  planOf context
    [.map [("actionType", .str restartController), ("controllerLabel", .str context.controllerPodLabel),
      triggerEntry [definitionAt "trigger1" (writeCondition write) afterControllerWrite write.reconcileFun]
        "trigger1"]]

def callCondition (call : ControllerNonK8sWrite) : Entries :=
  [("conditionType", .str onAnnotatedAPICall), ("module", .str call.module), ("filePath", .str call.filePath),
    ("receiverType", .str call.recvType), ("funName", .str call.funName),
    ("occurrence", .int call.signatureCounter)]

def generateIntermediateStateTestPlanForAnnotatedAPIInvocation (context : PlanContext)
    (call : ControllerNonK8sWrite) : Entries :=
  planOf context
    [.map [("actionType", .str restartController), ("controllerLabel", .str context.controllerPodLabel),
      triggerEntry [definitionAt "trigger1" (callCondition call) afterAnnotatedAPICall call.reconcileFun]
        "trigger1"]]

/-! ### Unobserved states -/

/-- `condition_for_trigger1` of the policies that select an event received. -/
def hearCondition (hear : ControllerHear) (convertStateToAPIForm : Bool) : Entries :=
  match hear.etype with
  | .added => objectCondition onObjectCreate hear.key hear.signatureCounter
  | .deleted => objectCondition onObjectDelete hear.key hear.signatureCounter
  | .updated | .replaced | .sync =>
    updateCondition hear.key hear.slimPrevObjMap hear.slimCurObjMap convertStateToAPIForm hear.signatureCounter

/-- The conditions `trigger2` and `trigger3`: what the event turns into. -/
def nextConditions (hear : ControllerHear) : Entries × Entries :=
  match hear.etype with
  | .added => (objectCondition onObjectUpdate hear.key 1, objectCondition onObjectDelete hear.key 1)
  | .deleted => (objectCondition onObjectCreate hear.key 1, objectCondition onObjectUpdate hear.key 1)
  | .updated | .replaced | .sync =>
    (modificationCondition hear.key hear.slimCurObjMap 1, objectCondition onObjectDelete hear.key 1)

def generateUnobservedStateTestPlan (context : PlanContext) (hear : ControllerHear) : Entries :=
  planOf context
    [.map [("actionType", .str pauseController), ("pauseAt", .str beforeControllerRead),
      ("pauseScope", .str hear.key), ("avoidOngoingRead", .bool true),
      triggerEntry [definitionAt "trigger1" (hearCondition hear false) beforeControllerRecv "informer"]
        "trigger1"],
    .map [("actionType", .str resumeController), ("pauseAt", .str beforeControllerRead),
      ("pauseScope", .str hear.key),
      triggerEntry [definitionAt "trigger2" (nextConditions hear).1 afterControllerRecv "informer",
        definitionAt "trigger3" (nextConditions hear).2 afterControllerRecv "informer"] "trigger2|trigger3"]]

/-! ### Stale states -/

/-- The states of a built-in resource look different in the API server. -/
def convertsToAPIForm (context : PlanContext) (hear : ControllerHear) : Bool :=
  !context.customResourceDefinitions.contains hear.rtype

def pausedWhen (pauseTiming : Timing) : String :=
  if pauseTiming = .after then afterAPIServerRecv else beforeAPIServerRecv

def generateStaleStateTestPlan (context : PlanContext) (hear : ControllerHear) (write : ControllerWrite)
    (pauseTiming : Timing) : Entries :=
  planOf context
    [.map [("actionType", .str pauseAPIServer), ("apiServerName", .str context.followingApi),
      ("pauseScope", .str hear.key),
      triggerEntry [definitionAt "trigger1" (hearCondition hear (convertsToAPIForm context hear))
        (pausedWhen pauseTiming) context.followingApi] "trigger1"],
    .map [("actionType", .str reconnectController), ("controllerLabel", .str context.controllerPodLabel),
      ("reconnectAPIServer", .str context.followingApi), ("async", .bool true), ("waitBefore", .int 10),
      triggerEntry [definitionAt "trigger2" (objectCondition onObjectCreate write.key 1) afterAPIServerRecv
        context.leadingApi] "trigger2"],
    .map [("actionType", .str resumeAPIServer), ("apiServerName", .str context.followingApi),
      ("pauseScope", .str hear.key),
      triggerEntry [.map [("triggerName", .str "trigger3"),
        ("condition", .map [("conditionType", .str onTimeout), ("timeoutValue", .int 20)])]] "trigger3"]]

/-! ### All plans -/

/-- What a plan is generated for. -/
inductive Selection where
  | write (write : ControllerWrite)
  | call (call : ControllerNonK8sWrite)
  | unobserved (hear : ControllerHear)
  | stale (hear : ControllerHear) (write : ControllerWrite) (pauseTiming : Timing)

def generateTestPlan (context : PlanContext) : Selection → Entries
  | .write write => generateIntermediateStateTestPlanForControllerWrite context write
  | .call call => generateIntermediateStateTestPlanForAnnotatedAPIInvocation context call
  | .unobserved hear => generateUnobservedStateTestPlan context hear
  | .stale hear write pauseTiming => generateStaleStateTestPlan context hear write pauseTiming

end Sieve.Plan
