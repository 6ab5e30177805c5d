import Sieve.Client.ResourceKeys
import Sieve.Client.TestClient

/-!
# The hooks around REST calls

`NotifyTestBeforeRestCall` and `NotifyTestAfterRestCall` of `test_client.go`, with what they send to
the coordinator.
-/

namespace Sieve.Client

/-- What a REST call does. -/
inductive ControllerOperation where
  | get
  | list
  | create
  | update
  | statusUpdate
  | patch
  | delete
  | deleteAllOf
  | unknown
  deriving DecidableEq

def ControllerOperation.text : ControllerOperation → String
  | .get => "Get"
  | .list => "List"
  | .create => "Create"
  | .update => "Update"
  | .statusUpdate => "StatusUpdate"
  | .patch => "Patch"
  | .delete => "Delete"
  | .deleteAllOf => "DeleteAllOf"
  | .unknown => "Unknown"

def httpVerbToControllerOperation (verb : HttpVerb) (resourceName subresource : String) :
    ControllerOperation :=
  match verb with
  | .get => if resourceName == "" then .list else .get
  | .post => .create
  | .put => if subresource == "status" then .statusUpdate else .update
  | .patch => .patch
  | .delete => if resourceName == "" then .deleteAllOf else .delete
  | .other => .unknown

structure RestCall where
  verb : HttpVerb
  objNamespace : String
  resourceType : String
  resourceName : String
  subresource : String
  /-- The name in the metadata of the object, if it has metadata. -/
  objectName : Option String
  /-- The JSON of the object, if it has one. -/
  serialized : Option String

namespace RestCall

variable (call : RestCall)

def operation : ControllerOperation :=
  httpVerbToControllerOperation call.verb call.resourceName call.subresource

def resourceKey : String :=
  generateResourceKeyFromRestCall call.verb call.resourceType call.objNamespace call.resourceName
    call.objectName

end RestCall

/-- What the hooks around REST calls send. -/
inductive RestRequest where
  | request (request : Request)
  | controllerWrite (before : Bool) (writeType : ControllerOperation)
    (resourceKey reconcileFun object : String)
  deriving DecidableEq

variable (config : TestConfig)

/-- The request about a write, for a trigger that observes the object at the point. -/
def notifyWrite (before : Bool) (call : RestCall) (reconcileFun serializedObj : String) :
    List RestRequest :=
  let observedWhen := if before then "beforeControllerWrite" else "afterControllerWrite"
  if !checkKVPairInTriggerObservationPoint config call.resourceKey "when" observedWhen false then []
  else if !checkKVPairInTriggerObservationPoint config call.resourceKey "by" reconcileFun false then []
  else [.controllerWrite before call.operation call.resourceKey reconcileFun serializedObj]

/-- The number that is returned, and the requests.  The pause request is deferred. -/
def notifyTestBeforeRestCall (ready : Bool) (reconcileFun : String) (call : RestCall) :
    ℤ × List RestRequest :=
  if !ready then (-1, [])
  else if call.resourceType == "" then (-1, [])
  else if reconcileFun == unknownReconcileFun then (-1, [])
  else
    match call.serialized with
    | none => (-1, [])
    | some serializedObj =>
      match call.operation with
      | .unknown => (-1, [])
      | .get | .list => (1, [])
      | operation =>
        (1, notifyWrite config true call reconcileFun serializedObj ++
          (notifyTestBeforeControllerWritePause config operation.text call.resourceKey).map .request)

/-- `respErr`: the call has failed, or its result could not be decoded. -/
def notifyTestAfterRestCall (ready : Bool) (reconcileFun : String) (controllerOperationID : ℤ)
    (call : RestCall) (respErr : Bool) : List RestRequest :=
  if !ready then []
  else if controllerOperationID == -1 then []
  else if respErr then []
  else if call.resourceType == "" then []
  else if reconcileFun == unknownReconcileFun then []
  else
    match call.serialized with
    | none => []
    | some serializedObj =>
      match call.operation with
      | .unknown => []
      | .get =>
        (notifyObserved config call.resourceKey reconcileFun false
          (.afterControllerGet call.resourceKey reconcileFun serializedObj)).map .request
      | .list =>
        let resourceType := pluralToSingular call.resourceType
        (notifyObserved config resourceType reconcileFun true
          (.afterControllerList resourceType reconcileFun serializedObj)).map .request
      | operation =>
        notifyWrite config false call reconcileFun serializedObj ++
          (notifyTestAfterControllerWritePause config operation.text call.resourceKey).map .request

end Sieve.Client
