import Sieve.Client.Common
import Sieve.Event.Dialect

/-!
# The hooks of the test client

The hooks of `test_client.go` around cache reads, and the filters for pause requests.  Each function
returns the requests that it sends to the coordinator, in order:

* `requestPause`: what the six filters have in common;
* `notifyTestBeforeCacheGet`, `notifyTestAfterCacheGet`, `notifyTestBeforeCacheList`,
  `notifyTestAfterCacheList`: the hooks, with their early returns.
-/

namespace Sieve.Client

open Sieve.Event (goJoin)

def unknownReconcileFun : String := "Unknown"

/-- What the client sends. -/
inductive Request where
  | readPause (before : Bool) (operationType resourceKey resourceType : String)
  | writePause (before : Bool) (writeType resourceKey : String)
  | afterControllerGet (resourceKey reconcileFun object : String)
  | afterControllerList (resourceType reconcileFun objectList : String)
  deriving DecidableEq

/-! ### Filters -/

/-- Some `pauseController` action has a scope that matches, and some has one of the two points. -/
def selectsPause (config : TestConfig) (val : String) (matchPrefix : Bool)
    (pointBefore pointAfter : String) : Bool :=
  checkKVPairInAction config "pauseController" "pauseScope" val matchPrefix &&
    (checkKVPairInAction config "pauseController" "pauseAt" pointBefore false ||
      checkKVPairInAction config "pauseController" "pauseAt" pointAfter false)

def requestPause (config : TestConfig) (val : String) (matchPrefix : Bool)
    (pointBefore pointAfter : String) (request : Request) : List Request :=
  if selectsPause config val matchPrefix pointBefore pointAfter then [request] else []

variable (config : TestConfig)

def notifyTestBeforeCacheGetPause (resourceKey : String) : List Request :=
  requestPause config resourceKey false "beforeControllerRead" "afterControllerRead"
    (.readPause true "Get" resourceKey "")

def notifyTestAfterCacheGetPause (resourceKey : String) : List Request :=
  requestPause config resourceKey false "beforeControllerRead" "afterControllerRead"
    (.readPause false "Get" resourceKey "")

def notifyTestBeforeCacheListPause (resourceType : String) : List Request :=
  requestPause config resourceType true "beforeControllerRead" "afterControllerRead"
    (.readPause true "List" "" resourceType)

def notifyTestAfterCacheListPause (resourceType : String) : List Request :=
  requestPause config resourceType true "beforeControllerRead" "afterControllerRead"
    (.readPause false "List" "" resourceType)

def notifyTestBeforeControllerWritePause (writeType resourceKey : String) : List Request :=
  requestPause config resourceKey false "beforeControllerWrite" "afterControllerWrite"
    (.writePause true writeType resourceKey)

def notifyTestAfterControllerWritePause (writeType resourceKey : String) : List Request :=
  requestPause config resourceKey false "beforeControllerWrite" "afterControllerWrite"
    (.writePause false writeType resourceKey)

/-! ### Hooks around cache reads -/

/-- An object of the cache. -/
structure CachedObject where
  resourceType : String
  /-- Its JSON, if it has one. -/
  serialized : Option String

/-- `json.Marshal` of a list of objects. -/
def serializeAll (items : List CachedObject) : Option String :=
  (items.mapM CachedObject.serialized).map fun texts => "[" ++ ",".intercalate texts ++ "]"

/-- The request of an after-read hook, for a trigger that observes the resource. -/
def notifyObserved (resource reconcileFun : String) (onlyMatchType : Bool) (request : Request) :
    List Request :=
  if !checkKVPairInTriggerObservationPoint config resource "when" "afterControllerWrite" onlyMatchType
  then []
  else if !checkKVPairInTriggerObservationPoint config resource "by" reconcileFun onlyMatchType then []
  else [request]

/-- `ready`: the configuration has been loaded, and the coordinator is connected. -/
def notifyTestBeforeCacheGet (ready : Bool) (reconcileFun key : String) (items : List CachedObject) :
    List Request :=
  if !ready then []
  else if reconcileFun == unknownReconcileFun then []
  else
    match items with
    | [] => []
    | item :: _ => notifyTestBeforeCacheGetPause config (goJoin item.resourceType key)

/-- The pause request is deferred, so it is the last one. -/
def notifyTestAfterCacheGet (ready : Bool) (reconcileFun key : String) (item : CachedObject)
    (exists' : Bool) : List Request :=
  if !ready then []
  else if !exists' then []
  else if reconcileFun == unknownReconcileFun then []
  else
    let resourceKey := goJoin item.resourceType key
    match item.serialized with
    | none => []
    | some serializedObj =>
      notifyObserved config resourceKey reconcileFun false
          (.afterControllerGet resourceKey reconcileFun serializedObj) ++
        notifyTestAfterCacheGetPause config resourceKey

def notifyTestBeforeCacheList (ready : Bool) (reconcileFun : String) (items : List CachedObject) :
    List Request :=
  if !ready then []
  else if reconcileFun == unknownReconcileFun then []
  else
    match items with
    | [] => []
    | item :: _ => notifyTestBeforeCacheListPause config item.resourceType

def notifyTestAfterCacheList (ready : Bool) (reconcileFun : String) (items : List CachedObject)
    (listErr : Bool) : List Request :=
  if !ready then []
  else if listErr then []
  else
    match items with
    | [] => []
    | item :: _ =>
      if reconcileFun == unknownReconcileFun then []
      else
        match serializeAll items with
        | none => []
        | some serializedObjList =>
          notifyObserved config item.resourceType reconcileFun true
              (.afterControllerList item.resourceType reconcileFun serializedObjList) ++
            notifyTestAfterCacheListPause config item.resourceType

end Sieve.Client
