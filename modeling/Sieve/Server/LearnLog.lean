import Sieve.Library.Text

/-!
# The lines of the learner's log

What `coordinatingEvents` of `learn_server.go` logs for a notification.  The payload of a
notification is kept in its parts, which the handlers join with tabs.
-/

namespace Sieve.Server

open Sieve.Library

/-- What is reported after a REST call. -/
structure RestReport where
  controllerOperationType : Text
  reconcileFun : Text
  error : Text
  resourceType : Text
  objNamespace : Text
  name : Text
  objectBody : Text
  deriving DecidableEq

/-- What is reported after an annotated API call. -/
structure CallReport where
  moduleName : Text
  filePath : Text
  receiverType : Text
  funName : Text
  reconcileFun : Text
  deriving DecidableEq

/-- `notificationWrapper`, its payload taken apart. -/
inductive Notification where
  | beforeControllerReconcile (reconcilerName : Text)
  | afterControllerReconcile (reconcilerName : Text)
  | beforeRestWrite (id : ℤ)
  | afterRestWrite (id : ℤ) (report : RestReport)
  | beforeRestRead (id : ℤ)
  | afterRestRead (id : ℤ) (report : RestReport)
  | beforeAnnotatedAPICall (id : ℤ)
  | afterAnnotatedAPICall (id : ℤ) (report : CallReport)
  | afterCacheGet (resourceType objNamespace name reconcileFun error object : Text)
  | afterCacheList (resourceType reconcileFun error objectList : Text)
  | beforeControllerRecv (id : ℤ) (operationType resourceType object : Text)
  | afterControllerRecv (id : ℤ)
  deriving DecidableEq

def RestReport.payload (report : RestReport) : List Text :=
  [report.controllerOperationType, report.reconcileFun, report.error, report.resourceType,
    report.objNamespace, report.name, report.objectBody]

def CallReport.payload (report : CallReport) : List Text :=
  [report.moduleName, report.filePath, report.receiverType, report.funName, report.reconcileFun]

namespace Notification

/-- The texts that the client reports. -/
def texts : Notification → List Text
  | .beforeControllerReconcile f | .afterControllerReconcile f => [f]
  | .beforeRestWrite _ | .beforeRestRead _ | .beforeAnnotatedAPICall _ | .afterControllerRecv _ => []
  | .afterRestWrite _ report | .afterRestRead _ report => report.payload
  | .afterAnnotatedAPICall _ report => report.payload
  | .afterCacheGet resourceType objNamespace name reconcileFun error object =>
    [resourceType, objNamespace, name, reconcileFun, error, object]
  | .afterCacheList resourceType reconcileFun error objectList =>
    [resourceType, reconcileFun, error, objectList]
  | .beforeControllerRecv _ operationType resourceType object =>
    [operationType, resourceType, object]

def mark : Notification → Text
  | .beforeControllerReconcile _ => "[SIEVE-BEFORE-RECONCILE]".toList
  | .afterControllerReconcile _ => "[SIEVE-AFTER-RECONCILE]".toList
  | .beforeRestWrite _ => "[SIEVE-BEFORE-REST-WRITE]".toList
  | .afterRestWrite _ _ => "[SIEVE-AFTER-REST-WRITE]".toList
  | .beforeRestRead _ => "[SIEVE-BEFORE-REST-READ]".toList
  | .afterRestRead _ _ => "[SIEVE-AFTER-REST-READ]".toList
  | .beforeAnnotatedAPICall _ => "[SIEVE-BEFORE-ANNOTATED-API-INVOCATION]".toList
  | .afterAnnotatedAPICall _ _ => "[SIEVE-AFTER-ANNOTATED-API-INVOCATION]".toList
  | .afterCacheGet _ _ _ _ _ _ | .afterCacheList _ _ _ _ => "[SIEVE-AFTER-CACHE-READ]".toList
  | .beforeControllerRecv _ _ _ _ => "[SIEVE-BEFORE-HEAR]".toList
  | .afterControllerRecv _ => "[SIEVE-AFTER-HEAR]".toList

/-- What follows the mark; `count` is that of the reconciler in `reconcileCntMap`. -/
def fields (count : ℤ) : Notification → List Text
  | .beforeControllerReconcile f | .afterControllerReconcile f => [f, formatInt count]
  | .beforeRestWrite id | .beforeRestRead id | .beforeAnnotatedAPICall id
  | .afterControllerRecv id => [formatInt id]
  | .afterRestWrite id report | .afterRestRead id report => formatInt id :: report.payload
  | .afterAnnotatedAPICall id report => formatInt id :: report.payload
  | .afterCacheGet resourceType objNamespace name reconcileFun error object =>
    ["Get".toList, resourceType, objNamespace, name, reconcileFun, error, object]
  | .afterCacheList resourceType reconcileFun error objectList =>
    ["List".toList, resourceType, reconcileFun, error, objectList]
  | .beforeControllerRecv id operationType resourceType object =>
    [formatInt id, operationType, resourceType, object]

end Notification

/-- The date and the time that the logger puts before a line. -/
abbrev Stamp := { stamp : Text // ∀ c ∈ stamp, c.isDigit = true ∨ c = '/' ∨ c = ':' ∨ c = ' ' }

/-- A line of the log, with its newline. -/
def logLine (stamp : Stamp) (count : ℤ) (notification : Notification) : Text :=
  stamp.1 ++ ['\t'].intercalate (notification.mark :: notification.fields count) ++ ['\n']

end Sieve.Server
