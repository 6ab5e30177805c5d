import Mathlib.Logic.Function.Basic
import Sieve.Server.LearnLog

/-!
# The learn server

The handlers of `learn_server.go` and the goroutine that coordinates them, without the rate limiter.
Any number of clients call the handlers, each client one after the other.

* `LearnState`: what handlers and coordinator share, and where each client stands;
* `LearnState.coordinate`: what the coordinator does with a notification;
* `LearnStep`: the steps, between which anything may happen.

Texts as keys of the channel maps stand for the numbers in them.
-/

namespace Sieve.Server

open Sieve.Library

/-- The counters that ids are taken from. -/
inductive IdCounter where
  | event
  | controllerOperation
  | annotatedAPICall
  deriving DecidableEq

/-- What an id is for. -/
inductive OperationKind where
  | hear
  | restWrite
  | restRead
  | annotatedAPICall
  deriving DecidableEq

def OperationKind.counter : OperationKind → IdCounter
  | .hear => .event
  | .restWrite | .restRead => .controllerOperation
  | .annotatedAPICall => .annotatedAPICall

/-- The call before an operation. -/
inductive BeforeRequest where
  | controllerRecv (operationType resourceType object : Text)
  | restWrite
  | restRead
  | annotatedAPICall

namespace BeforeRequest

def kind : BeforeRequest → OperationKind
  | .controllerRecv _ _ _ => .hear
  | .restWrite => .restWrite
  | .restRead => .restRead
  | .annotatedAPICall => .annotatedAPICall

def notification (id : ℤ) : BeforeRequest → Notification
  | .controllerRecv operationType resourceType object =>
    .beforeControllerRecv id operationType resourceType object
  | .restWrite => .beforeRestWrite id
  | .restRead => .beforeRestRead id
  | .annotatedAPICall => .beforeAnnotatedAPICall id

end BeforeRequest

namespace Notification

/-- The operation that is announced. -/
def begins : Notification → Option (OperationKind × ℤ)
  | .beforeControllerRecv id _ _ _ => some (.hear, id)
  | .beforeRestWrite id => some (.restWrite, id)
  | .beforeRestRead id => some (.restRead, id)
  | .beforeAnnotatedAPICall id => some (.annotatedAPICall, id)
  | _ => none

/-- The operation that is over. -/
def ends : Notification → Option (OperationKind × ℤ)
  | .afterControllerRecv id => some (.hear, id)
  | .afterRestWrite id _ => some (.restWrite, id)
  | .afterRestRead id _ => some (.restRead, id)
  | .afterAnnotatedAPICall id _ => some (.annotatedAPICall, id)
  | _ => none

def isCacheRead : Notification → Bool
  | .afterCacheGet _ _ _ _ _ _ | .afterCacheList _ _ _ _ => true
  | _ => false

end Notification

/-- Where a client stands in the handler that it calls. -/
inductive Activity where
  | idle
  /-- `AddInt32` is next. -/
  | counts (request : BeforeRequest)
  /-- The channel is stored next. -/
  | stores (request : BeforeRequest) (id : ℤ)
  /-- The entry of the reconciler is tested next. -/
  | testsBegin (reconcilerName : Text)
  | storesBegin (reconcilerName : Text)
  | testsEnd (reconcilerName : Text)
  | storesEnd (reconcilerName : Text)
  /-- The notification is sent next, and then the channel, if any, is waited on. -/
  | sends (notification : Notification) (channel : Option ℕ)
  | waits (notification : Notification) (channel : ℕ)

/-- What the clients know of an id. -/
inductive IdStatus where
  | unknown
  /-- The client waits for the id. -/
  | begins (client : ℕ)
  | returned (kind : OperationKind)
  | ends (client : ℕ)
  | over

/-- What the clients know of a reconciler, which has at most one worker. -/
inductive RoundStatus where
  | between
  | begins (client : ℕ)
  | runs
  | ends (client : ℕ)

/-- A line of the log. -/
structure LoggedLine where
  stamp : Stamp
  count : ℤ
  notification : Notification

def LoggedLine.text (line : LoggedLine) : Text := logLine line.stamp line.count line.notification

structure LearnState where
  ids : IdCounter → BitVec 32
  chMap : IdCounter → ℤ → Option ℕ
  /-- An entry may be `nil`. -/
  reconcileChMap : Text → Option (Option ℕ)
  notificationCh : List Notification
  ongoingReconcileCnt : ℤ
  reconcileCntMap : Text → Option ℤ
  /-- The channel that the coordinator sends into. -/
  releases : Option ℕ
  fatal : Bool
  /-- Newest first. -/
  log : List LoggedLine
  /-- How many channels have been made. -/
  channels : ℕ
  activity : ℕ → Activity
  idStatus : IdCounter → ℤ → IdStatus
  roundStatus : Text → RoundStatus
  /-- The ids that have been given to calls. -/
  given : IdCounter → List ℤ
  /-- The channels over which a call has been released, and the notification of the call. -/
  released : List (ℕ × Notification)

/-- `NewLearnListener`. -/
def LearnState.start : LearnState where
  ids := fun _ => -1
  chMap := fun _ _ => none
  reconcileChMap := fun _ => none
  notificationCh := []
  ongoingReconcileCnt := 0
  reconcileCntMap := fun _ => none
  releases := none
  fatal := false
  log := []
  channels := 0
  activity := fun _ => .idle
  idStatus := fun _ _ => .unknown
  roundStatus := fun _ => .between
  given := fun _ => []
  released := []

namespace LearnState

variable (s : LearnState)

def setActivity (client : ℕ) (activity : Activity) : LearnState :=
  { s with activity := Function.update s.activity client activity }

def setIdStatus (counter : IdCounter) (id : ℤ) (status : IdStatus) : LearnState :=
  { s with
    idStatus := Function.update s.idStatus counter
      (Function.update (s.idStatus counter) id status) }

def setRoundStatus (reconcilerName : Text) (status : RoundStatus) : LearnState :=
  { s with roundStatus := Function.update s.roundStatus reconcilerName status }

/-- `AddInt32`. -/
def addId (client : ℕ) (request : BeforeRequest) : LearnState :=
  let counter := request.kind.counter
  let id := (s.ids counter + 1).toInt
  { s.setActivity client (.stores request id) with
    ids := Function.update s.ids counter (s.ids counter + 1)
    given := Function.update s.given counter (id :: s.given counter) }.setIdStatus counter id
      (.begins client)

/-- A new channel is stored under the id. -/
def storeChannel (client : ℕ) (request : BeforeRequest) (id : ℤ) : LearnState :=
  let counter := request.kind.counter
  { s.setActivity client (.sends (request.notification id) (some s.channels)) with
    chMap := Function.update s.chMap counter
      (Function.update (s.chMap counter) id (some s.channels))
    channels := s.channels + 1 }

def testBegin (client : ℕ) (reconcilerName : Text) : LearnState :=
  match s.reconcileChMap reconcilerName with
  | some (some _) => { s with fatal := true }
  | _ => s.setActivity client (.storesBegin reconcilerName)

def storeBegin (client : ℕ) (reconcilerName : Text) : LearnState :=
  { s.setActivity client
      (.sends (.beforeControllerReconcile reconcilerName) (some s.channels)) with
    reconcileChMap := Function.update s.reconcileChMap reconcilerName (some (some s.channels))
    channels := s.channels + 1 }

def testEnd (client : ℕ) (reconcilerName : Text) : LearnState :=
  match s.reconcileChMap reconcilerName with
  | some (some _) => s.setActivity client (.storesEnd reconcilerName)
  | _ => { s with fatal := true }

def storeEnd (client : ℕ) (reconcilerName : Text) : LearnState :=
  { s.setActivity client (.sends (.afterControllerReconcile reconcilerName) none) with
    reconcileChMap := Function.update s.reconcileChMap reconcilerName (some none) }

def send (notification : Notification) : LearnState :=
  { s with notificationCh := s.notificationCh ++ [notification] }

def printf (stamp : Stamp) (count : ℤ) (notification : Notification) : LearnState :=
  { s with log := ⟨stamp, count, notification⟩ :: s.log }

/-- The counter of the reconciler when a round begins. -/
def nextCount (reconcilerName : Text) : ℤ :=
  match s.reconcileCntMap reconcilerName with
  | some count => count + 1
  | none => 0

/-- `coordinatingEvents`, for the notification that has been received.  What is not a channel cannot be
sent into. -/
def coordinate (stamp : Stamp) : Notification → LearnState
  | .beforeControllerReconcile f =>
    let counted : LearnState := { s with
      ongoingReconcileCnt := s.ongoingReconcileCnt + 1
      reconcileCntMap := Function.update s.reconcileCntMap f (some (s.nextCount f)) }
    match s.reconcileChMap f with
    | none => { counted with fatal := true }
    | some none =>
      { counted.printf stamp (s.nextCount f) (.beforeControllerReconcile f) with fatal := true }
    | some (some channel) =>
      { counted.printf stamp (s.nextCount f) (.beforeControllerReconcile f) with
        releases := some channel }
  | .afterControllerReconcile f =>
    let counted : LearnState := { s with ongoingReconcileCnt := s.ongoingReconcileCnt - 1 }
    if counted.ongoingReconcileCnt < 0 then { counted with fatal := true }
    else counted.printf stamp ((s.reconcileCntMap f).getD 0) (.afterControllerReconcile f)
  | notification =>
    match notification.begins with
    | none => s.printf stamp 0 notification
    | some (kind, id) =>
      match s.chMap kind.counter id with
      | none => { s with fatal := true }
      | some channel => { s.printf stamp 0 notification with releases := some channel }

/-- A call has been released over the channel. -/
def release (client channel : ℕ) (notification : Notification) : LearnState :=
  { s.setActivity client .idle with
    releases := none
    released := (channel, notification) :: s.released }

/-- What the client knows when the call that it waits for returns. -/
def returnFrom : Notification → LearnState
  | .beforeControllerReconcile f => s.setRoundStatus f .runs
  | notification =>
    match notification.begins with
    | none => s
    | some (kind, id) => s.setIdStatus kind.counter id (.returned kind)

/-- What the clients know when the notification has been sent: the call after an operation or a round
returns. -/
def returnAfter : Notification → LearnState
  | .afterControllerReconcile f => s.setRoundStatus f .between
  | notification =>
    match notification.ends with
    | none => s
    | some (kind, id) => s.setIdStatus kind.counter id .over

end LearnState

/-- Who takes a step. -/
inductive LearnLabel where
  | begins (client : ℕ) (request : BeforeRequest)
  | ends (client : ℕ) (notification : Notification)
  | beginsRound (client : ℕ) (reconcilerName : Text)
  | endsRound (client : ℕ) (reconcilerName : Text)
  /-- The handler that the client calls goes on. -/
  | serves (client : ℕ)
  | coordinates (stamp : Stamp)

inductive LearnStep (s : LearnState) : LearnLabel → LearnState → Prop where
  /-- A client may call a Before handler at any time. -/
  | begins {client : ℕ} (request : BeforeRequest) (hidle : s.activity client = .idle) :
    LearnStep s (.begins client request) (s.setActivity client (.counts request))
  /-- It calls an After handler for an id that has been returned to it, or reports a cache read. -/
  | ends {client : ℕ} {notification : Notification} {kind : OperationKind} {id : ℤ}
    (hidle : s.activity client = .idle) (hends : notification.ends = some (kind, id))
    (hreturned : s.idStatus kind.counter id = .returned kind) :
    LearnStep s (.ends client notification)
      ((s.setActivity client (.sends notification none)).setIdStatus kind.counter id (.ends client))
  | cacheRead {client : ℕ} {notification : Notification} (hidle : s.activity client = .idle)
    (hread : notification.isCacheRead = true) :
    LearnStep s (.ends client notification) (s.setActivity client (.sends notification none))
  | beginsRound {client : ℕ} {f : Text} (hidle : s.activity client = .idle)
    (hround : s.roundStatus f = .between) :
    LearnStep s (.beginsRound client f)
      ((s.setActivity client (.testsBegin f)).setRoundStatus f (.begins client))
  | endsRound {client : ℕ} {f : Text} (hidle : s.activity client = .idle)
    (hround : s.roundStatus f = .runs) :
    LearnStep s (.endsRound client f)
      ((s.setActivity client (.testsEnd f)).setRoundStatus f (.ends client))
  | counts {client : ℕ} {request : BeforeRequest} (halive : s.fatal = false)
    (hcounts : s.activity client = .counts request) :
    LearnStep s (.serves client) (s.addId client request)
  | stores {client : ℕ} {request : BeforeRequest} {id : ℤ} (halive : s.fatal = false)
    (hstores : s.activity client = .stores request id) :
    LearnStep s (.serves client) (s.storeChannel client request id)
  | testsBegin {client : ℕ} {f : Text} (halive : s.fatal = false)
    (htests : s.activity client = .testsBegin f) :
    LearnStep s (.serves client) (s.testBegin client f)
  | storesBegin {client : ℕ} {f : Text} (halive : s.fatal = false)
    (hstores : s.activity client = .storesBegin f) :
    LearnStep s (.serves client) (s.storeBegin client f)
  | testsEnd {client : ℕ} {f : Text} (halive : s.fatal = false)
    (htests : s.activity client = .testsEnd f) :
    LearnStep s (.serves client) (s.testEnd client f)
  | storesEnd {client : ℕ} {f : Text} (halive : s.fatal = false)
    (hstores : s.activity client = .storesEnd f) :
    LearnStep s (.serves client) (s.storeEnd client f)
  /-- The channel of the notifications is buffered. -/
  | sends {client : ℕ} {notification : Notification} {channel : ℕ} (halive : s.fatal = false)
    (hsends : s.activity client = .sends notification (some channel))
    (hroom : s.notificationCh.length < 500) :
    LearnStep s (.serves client)
      ((s.send notification).setActivity client (.waits notification channel))
  /-- The call is over. -/
  | sendsAfter {client : ℕ} {notification : Notification} (halive : s.fatal = false)
    (hsends : s.activity client = .sends notification none)
    (hroom : s.notificationCh.length < 500) :
    LearnStep s (.serves client)
      (((s.send notification).setActivity client .idle).returnAfter notification)
  /-- The coordinator sends and the handler receives. -/
  | receives {client : ℕ} {notification : Notification} {channel : ℕ} (halive : s.fatal = false)
    (hwaits : s.activity client = .waits notification channel)
    (hreleases : s.releases = some channel) :
    LearnStep s (.serves client)
      ((s.release client channel notification).returnFrom notification)
  | coordinates {stamp : Stamp} {notification : Notification} {rest : List Notification}
    (halive : s.fatal = false) (hfree : s.releases = none)
    (hnext : s.notificationCh = notification :: rest) :
    LearnStep s (.coordinates stamp) ({ s with notificationCh := rest }.coordinate stamp notification)

end Sieve.Server
