import Sieve.Server.Event
import Sieve.Server.TriggerGraph

/-!
# Notifications, trigger definitions and actions

The coordinator's `notification.go` and the triggers of `test_plan.go`.  `satisfy` changes the
trigger (its counter, or its own difference) and may change the states of an update notification,
which are canonicalized in place; it returns both as they are afterwards.
-/

namespace Sieve.Server

open Sieve.Event (Masks)

/-! ### Observation points -/

def beforeAPIServerRecv : String := "beforeAPIServerRecv"
def afterAPIServerRecv : String := "afterAPIServerRecv"
def beforeControllerRecv : String := "beforeControllerRecv"
def afterControllerRecv : String := "afterControllerRecv"
def beforeControllerWrite : String := "beforeControllerWrite"
def afterControllerWrite : String := "afterControllerWrite"
def beforeControllerRead : String := "beforeControllerRead"
def afterControllerRead : String := "afterControllerRead"
def beforeAnnotatedAPICall : String := "beforeAnnotatedAPICall"
def afterAnnotatedAPICall : String := "afterAnnotatedAPICall"

/-! ### Notifications -/

structure AnnotatedAPICallNotification where
  module : String
  filePath : String
  receiverType : String
  funName : String
  observedWhen : String
  observedBy : String

structure ObjectCreateNotification where
  resourceKey : String
  observedWhen : String
  observedBy : String

structure ObjectDeleteNotification where
  resourceKey : String
  observedWhen : String
  observedBy : String

structure ObjectUpdateNotification where
  resourceKey : String
  observedWhen : String
  observedBy : String
  prevState : GoMap
  curState : GoMap
  masks : Masks
  masksAPIForm : Masks

inductive TriggerNotification where
  | timeout (conditionName : String)
  | annotatedAPICall (notification : AnnotatedAPICallNotification)
  | objectCreate (notification : ObjectCreateNotification)
  | objectDelete (notification : ObjectDeleteNotification)
  | objectUpdate (notification : ObjectUpdateNotification)

/-! ### Trigger definitions -/

structure TimeoutTrigger where
  name : String
  timeoutValue : ℤ

structure AnnotatedAPICallTrigger where
  name : String
  module : String
  filePath : String
  receiverType : String
  funName : String
  desiredOccurrence : ℤ
  actualOccurrence : ℤ
  observedWhen : String
  observedBy : String

structure ObjectCreateTrigger where
  name : String
  resourceKey : String
  desiredOccurrence : ℤ
  actualOccurrence : ℤ
  observedWhen : String
  observedBy : String

structure ObjectDeleteTrigger where
  name : String
  resourceKey : String
  desiredOccurrence : ℤ
  actualOccurrence : ℤ
  observedWhen : String
  observedBy : String

structure ObjectUpdateTrigger where
  name : String
  resourceKey : String
  prevStateDiff : GoMap
  curStateDiff : GoMap
  convertStateToAPIForm : Bool
  desiredOccurrence : ℤ
  actualOccurrence : ℤ
  observedWhen : String
  observedBy : String

structure AnyFieldModificationTrigger where
  name : String
  resourceKey : String
  prevStateDiff : GoMap
  convertStateToAPIForm : Bool
  desiredOccurrence : ℤ
  actualOccurrence : ℤ
  observedWhen : String
  observedBy : String

namespace AnnotatedAPICallTrigger

/-- The trigger looks at this notification. -/
def covers (t : AnnotatedAPICallTrigger) (n : AnnotatedAPICallNotification) : Bool :=
  n.module == t.module && n.filePath == t.filePath && n.receiverType == t.receiverType &&
    n.funName == t.funName && n.observedWhen == t.observedWhen && n.observedBy == t.observedBy

def satisfy (t : AnnotatedAPICallTrigger) (n : AnnotatedAPICallNotification) :
    Bool × AnnotatedAPICallTrigger :=
  if t.covers n then
    let t := { t with actualOccurrence := t.actualOccurrence + 1 }
    (t.actualOccurrence == t.desiredOccurrence, t)
  else (false, t)

end AnnotatedAPICallTrigger

namespace ObjectCreateTrigger

def covers (t : ObjectCreateTrigger) (n : ObjectCreateNotification) : Bool :=
  n.resourceKey == t.resourceKey && n.observedWhen == t.observedWhen &&
    n.observedBy == t.observedBy

def satisfy (t : ObjectCreateTrigger) (n : ObjectCreateNotification) :
    Bool × ObjectCreateTrigger :=
  if t.covers n then
    let t := { t with actualOccurrence := t.actualOccurrence + 1 }
    (t.actualOccurrence == t.desiredOccurrence, t)
  else (false, t)

end ObjectCreateTrigger

namespace ObjectDeleteTrigger

def covers (t : ObjectDeleteTrigger) (n : ObjectDeleteNotification) : Bool :=
  n.resourceKey == t.resourceKey && n.observedWhen == t.observedWhen &&
    n.observedBy == t.observedBy

def satisfy (t : ObjectDeleteTrigger) (n : ObjectDeleteNotification) :
    Bool × ObjectDeleteTrigger :=
  if t.covers n then
    let t := { t with actualOccurrence := t.actualOccurrence + 1 }
    (t.actualOccurrence == t.desiredOccurrence, t)
  else (false, t)

end ObjectDeleteTrigger

/-- The masks `fieldKeyMaskToUse` and `fieldPathMaskToUse`. -/
def ObjectUpdateNotification.masksToUse (n : ObjectUpdateNotification)
    (convertStateToAPIForm : Bool) : Masks :=
  if convertStateToAPIForm then n.masksAPIForm else n.masks

namespace ObjectUpdateTrigger

def covers (t : ObjectUpdateTrigger) (n : ObjectUpdateNotification) : Bool :=
  n.resourceKey == t.resourceKey && n.observedWhen == t.observedWhen &&
    n.observedBy == t.observedBy

/-- Without a difference to look for, the first covered update is the one; the counter is not
used. -/
def anyUpdate (t : ObjectUpdateTrigger) : Bool :=
  t.prevStateDiff.isNone && t.curStateDiff.isNone

def satisfy (t : ObjectUpdateTrigger) (n : ObjectUpdateNotification) :
    Except Fatal (Bool × ObjectUpdateTrigger × ObjectUpdateNotification) :=
  if t.covers n then
    if t.anyUpdate then .ok (true, t, n)
    else do
      let exactMatch :=
        !(n.observedWhen == beforeAPIServerRecv || n.observedWhen == afterAPIServerRecv)
      let (desired, prevState, curState) ← isDesiredUpdate n.prevState n.curState
        t.prevStateDiff t.curStateDiff (n.masksToUse t.convertStateToAPIForm) exactMatch
      let n := { n with prevState := prevState, curState := curState }
      if desired then
        let t := { t with actualOccurrence := t.actualOccurrence + 1 }
        .ok (t.actualOccurrence == t.desiredOccurrence, t, n)
      else .ok (false, t, n)
  else .ok (false, t, n)

end ObjectUpdateTrigger

namespace AnyFieldModificationTrigger

def covers (t : AnyFieldModificationTrigger) (n : ObjectUpdateNotification) : Bool :=
  n.resourceKey == t.resourceKey && n.observedWhen == t.observedWhen &&
    n.observedBy == t.observedBy

def satisfy (t : AnyFieldModificationTrigger) (n : ObjectUpdateNotification) :
    Except Fatal (Bool × AnyFieldModificationTrigger × ObjectUpdateNotification) :=
  if t.covers n then do
    let (modified, curState, prevStateDiff) ← isAnyFieldModified n.curState t.prevStateDiff
      (n.masksToUse t.convertStateToAPIForm)
    let n := { n with curState := curState }
    let t := { t with prevStateDiff := prevStateDiff }
    if modified then
      let t := { t with actualOccurrence := t.actualOccurrence + 1 }
      .ok (t.actualOccurrence == t.desiredOccurrence, t, n)
    else .ok (false, t, n)
  else .ok (false, t, n)

end AnyFieldModificationTrigger

inductive TriggerDefinition where
  | timeout (t : TimeoutTrigger)
  | annotatedAPICall (t : AnnotatedAPICallTrigger)
  | objectCreate (t : ObjectCreateTrigger)
  | objectDelete (t : ObjectDeleteTrigger)
  | objectUpdate (t : ObjectUpdateTrigger)
  | anyFieldModification (t : AnyFieldModificationTrigger)

def TriggerDefinition.getTriggerName : TriggerDefinition → String
  | .timeout t => t.name
  | .annotatedAPICall t => t.name
  | .objectCreate t => t.name
  | .objectDelete t => t.name
  | .objectUpdate t => t.name
  | .anyFieldModification t => t.name

/-- What one call of `satisfy` does: the answer, the trigger and the notification afterwards. -/
structure Test where
  answer : Bool
  trigger : TriggerDefinition
  notification : TriggerNotification

/-- `satisfy`, by the dynamic types of the trigger and of the notification. -/
def TriggerDefinition.satisfy : TriggerDefinition → TriggerNotification → Except Fatal Test
  | .timeout t, .timeout conditionName =>
    .ok ⟨conditionName == t.name, .timeout t, .timeout conditionName⟩
  | .annotatedAPICall t, .annotatedAPICall n =>
    .ok ⟨(t.satisfy n).1, .annotatedAPICall (t.satisfy n).2, .annotatedAPICall n⟩
  | .objectCreate t, .objectCreate n =>
    .ok ⟨(t.satisfy n).1, .objectCreate (t.satisfy n).2, .objectCreate n⟩
  | .objectDelete t, .objectDelete n =>
    .ok ⟨(t.satisfy n).1, .objectDelete (t.satisfy n).2, .objectDelete n⟩
  | .objectUpdate t, .objectUpdate n => do
    let (answer, t, n) ← t.satisfy n
    .ok ⟨answer, .objectUpdate t, .objectUpdate n⟩
  | .anyFieldModification t, .objectUpdate n => do
    let (answer, t, n) ← t.satisfy n
    .ok ⟨answer, .anyFieldModification t, .objectUpdate n⟩
  | t, n => .ok ⟨false, t, n⟩

/-! ### Actions -/

/-- An action, as far as the state machine looks at it; what running it does is modelled where it
matters. -/
structure Action where
  triggerGraph : TriggerGraph
  triggerDefinitions : String → Option TriggerDefinition
  async : Bool

/-- `triggerDefinitions`: the definitions under their names, later ones over earlier ones. -/
def definitionTable (definitions : List TriggerDefinition) : String → Option TriggerDefinition :=
  definitions.foldl (fun triggerDefinitions definition =>
    Function.update triggerDefinitions definition.getTriggerName (some definition)) fun _ => none

/-- The part of `parseAction` that all action types share. -/
def parseAction (expression : String) (definitions : List TriggerDefinition) (async : Bool) :
    Except Fatal Action := do
  let binaryTreeRoot ← expressionToBinaryTree expression
  let triggerGraph ← binaryTreeToTriggerGraph binaryTreeRoot
  .ok ⟨triggerGraph, definitionTable definitions, async⟩

end Sieve.Server
