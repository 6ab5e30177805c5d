import Sieve.Event.EventType
import Sieve.Server.ObjectMaps
import Sieve.Server.TestPlan

/-!
# From requests to notifications

The handlers of `test_coordinator.go` that turn what the instrumented controller reports into
notifications for the state machine, and the triggers as the coordinator reads them.  Objects are what
their texts say, with exact numbers, until a handler decodes them.  `objectStates` keeps the states
reported last; an entry that has not been written is the empty state, which
`InitializeObjectStatesEntry` enters before any read.  A handler without a result ends the process.
-/

namespace Sieve.Server

open Sieve.Event

structure TestCoordinator where
  objectStates : String → String → String → Fields
  masks : String → Masks
  masksAPIForm : String → Masks

namespace TestCoordinator

/-- The coordinator as it starts. -/
def new (masks masksAPIForm : String → Masks) : TestCoordinator :=
  ⟨fun _ _ _ => [], masks, masksAPIForm⟩

/-- A coordinator that masks no fields. -/
def unmasked : TestCoordinator := new (fun _ => ⟨∅, ∅⟩) fun _ => ⟨∅, ∅⟩

def readFromObjectStates (tc : TestCoordinator) (observedBy observedWhen resourceKey : String) :
    Fields := tc.objectStates observedBy observedWhen resourceKey

def writeToObjectStates (tc : TestCoordinator) (observedBy observedWhen resourceKey : String)
    (value : Fields) : TestCoordinator :=
  { tc with
    objectStates := Function.update tc.objectStates observedBy
      (Function.update (tc.objectStates observedBy) observedWhen
        (Function.update (tc.objectStates observedBy observedWhen) resourceKey value)) }

@[simp] theorem read_write_self (tc : TestCoordinator) (b w k : String) (v : Fields) :
    (tc.writeToObjectStates b w k v).readFromObjectStates b w k = v := by
  simp [readFromObjectStates, writeToObjectStates]

theorem read_write_other (tc : TestCoordinator) {b w k b' w' k' : String} (v : Fields)
    (h : ¬ (b' = b ∧ w' = w ∧ k' = k)) :
    (tc.writeToObjectStates b w k v).readFromObjectStates b' w' k' =
      tc.readFromObjectStates b' w' k' := by
  show Function.update tc.objectStates b (Function.update (tc.objectStates b) w
    (Function.update (tc.objectStates b w) k v)) b' w' k' = tc.objectStates b' w' k'
  by_cases hb : b' = b
  · rw [hb, Function.update_self]
    by_cases hw : w' = w
    · rw [hw, Function.update_self]
      exact Function.update_of_ne (fun hk => h ⟨hb, hw, hk⟩) _ _
    · rw [Function.update_of_ne hw]
  · rw [Function.update_of_ne hb]

/-- The notification that `SendObjectUpdateNotificationAndBlock` sends. -/
def objectUpdateNotification (tc : TestCoordinator)
    (resourceKey observedWhen observedBy : String) (prevState curState : Fields) :
    TriggerNotification :=
  .objectUpdate ⟨resourceKey, observedWhen, observedBy, some prevState, some curState,
    tc.masks resourceKey, tc.masksAPIForm resourceKey⟩

/-! ### Events received by the controller -/

/-- `NotifyTestBeforeControllerRecv` and `NotifyTestAfterControllerRecv`. -/
def notifyControllerRecv (observedWhen : String) (tc : TestCoordinator) (operationType : HearType)
    (resourceKey : String) (object : Fields) : Option (TriggerNotification × TestCoordinator) := do
  let notification ← match operationType with
    | .added => some (.objectCreate ⟨resourceKey, observedWhen, "informer"⟩)
    | .deleted => some (.objectDelete ⟨resourceKey, observedWhen, "informer"⟩)
    | .updated | .replaced | .sync => do
      let prevState ← decodeObject (tc.readFromObjectStates "informer" observedWhen resourceKey)
      let curState ← decodeObject object
      some (tc.objectUpdateNotification resourceKey observedWhen "informer" prevState curState)
  some (notification, tc.writeToObjectStates "informer" observedWhen resourceKey object)

def notifyTestAfterControllerRecv := notifyControllerRecv afterControllerRecv

/-! ### Writes of the controller -/

/-- `NotifyTestBeforeControllerWrite` and `NotifyTestAfterControllerWrite`. -/
def notifyControllerWrite (observedWhen : String) (tc : TestCoordinator) (writeType : WriteType)
    (resourceKey reconcileFun : String) (object : Fields) : Option TriggerNotification :=
  match writeType with
  | .create => some (.objectCreate ⟨resourceKey, observedWhen, reconcileFun⟩)
  | .delete => some (.objectDelete ⟨resourceKey, observedWhen, reconcileFun⟩)
  | .update | .patch | .statusUpdate | .statusPatch => do
    let prevState ← decodeObject (tc.readFromObjectStates reconcileFun observedWhen resourceKey)
    let curState ← decodeObject object
    some (tc.objectUpdateNotification resourceKey observedWhen reconcileFun
      (trimKindApiversion prevState) (trimKindApiversion curState))

def notifyTestBeforeControllerWrite := notifyControllerWrite beforeControllerWrite

def notifyTestAfterControllerWrite := notifyControllerWrite afterControllerWrite

/-! ### Annotated API calls -/

/-- `NotifyTestBeforeAnnotatedAPICall` and `NotifyTestAfterAnnotatedAPICall`. -/
def notifyAnnotatedAPICall (observedWhen moduleName filePath receiverType funName reconcileFun :
    String) : TriggerNotification :=
  .annotatedAPICall ⟨moduleName, filePath, receiverType, funName, observedWhen, reconcileFun⟩

def notifyTestBeforeAnnotatedAPICall := notifyAnnotatedAPICall beforeAnnotatedAPICall

def notifyTestAfterAnnotatedAPICall := notifyAnnotatedAPICall afterAnnotatedAPICall

/-! ### Reads of the controller -/

def notifyTestAfterControllerGet (tc : TestCoordinator) (resourceKey reconcileFun : String)
    (object : Fields) : TestCoordinator :=
  (tc.writeToObjectStates reconcileFun beforeControllerWrite resourceKey object).writeToObjectStates
    reconcileFun afterControllerWrite resourceKey object

/-- The objects of the list, under the keys made of their names and namespaces. -/
def notifyTestAfterControllerList (tc : TestCoordinator) (reconcileFun : String)
    (objects : List (String × Fields)) : TestCoordinator :=
  objects.foldl (fun tc object =>
    tc.notifyTestAfterControllerGet object.1 reconcileFun object.2) tc

end TestCoordinator

/-! ### Triggers -/

end Sieve.Server
