import Sieve.Event.Dumps
import Sieve.Event.EventDelta
import Sieve.Event.EventType

/-!
# Events of a learning run

The learner's events, from `k8s_event.py`, with `diff_event` of `event_delta.py`.  A `None` that
stands for a missing difference is `none`.
-/

namespace Sieve.Analyzer

open Sieve.Event

/-- What ends the analysis. -/
inductive AnalysisError where
  | assertion
  | keyError
  | attributeError
  deriving DecidableEq, Repr

/-! ### Keys and types -/

def generateKey (resourceType objNamespace name : String) : String :=
  resourceType ++ "/" ++ objNamespace ++ "/" ++ name

/-! ### Events -/

structure ControllerHear where
  id : ℤ
  etype : HearType
  rtype : String
  objNamespace : String
  name : String
  objMap : Fields
  prevEtype : Option HearType
  slimPrevObjMap : Option Fields
  slimCurObjMap : Option Fields
  cancelledBy : List ℤ
  signatureCounter : ℕ

/-- What a read asks for. -/
inductive ReadType where
  | get
  | list
  deriving DecidableEq, Repr

/-- A write; what the constructor does not set is as in an object that is new.  A reconcile id is the
number of the round, or -1 outside of all rounds. -/
structure ControllerWrite where
  id : ℤ
  etype : WriteType
  rtype : String
  objNamespace : String
  name : String
  reconcileFun : String
  error : String
  objMap : Fields
  reconcileId : ℤ := -1
  startTimestamp : ℤ := -1
  endTimestamp : ℤ := -1
  rangeStartTimestamp : ℤ := -1
  rangeEndTimestamp : ℤ := -1
  readTypes : Finset String := ∅
  readKeys : Finset String := ∅
  prevObjMap : Fields := []
  prevEtype : Option ReadType := none
  slimPrevObjMap : Option Fields := none
  slimCurObjMap : Option Fields := none
  signatureCounter : ℕ := 1

/-- An annotated API call. -/
structure ControllerNonK8sWrite where
  id : ℤ
  module : String
  filePath : String
  recvType : String
  funName : String
  reconcileFun : String
  reconcileId : ℤ := -1
  startTimestamp : ℤ := -1
  endTimestamp : ℤ := -1
  rangeStartTimestamp : ℤ := -1
  rangeEndTimestamp : ℤ := -1
  signatureCounter : ℕ := 1

/-- A read; the constructor asserts that a list has no key twice. -/
structure ControllerRead where
  etype : ReadType
  rtype : String
  reconcileFun : String
  error : String
  keyToObj : List (String × Fields)
  nodup : (keyToObj.map Prod.fst).Nodup
  reconcileId : ℤ := -1
  endTimestamp : ℤ := -1

def ControllerRead.keySet (read : ControllerRead) : Finset String :=
  (read.keyToObj.map Prod.fst).toFinset

/-- `ReconcileBegin` and `ReconcileEnd`. -/
structure ReconcileMark where
  reconcileFun : String
  reconcileId : ℤ
  endTimestamp : ℤ

def ControllerHear.key (hear : ControllerHear) : String :=
  generateKey hear.rtype hear.objNamespace hear.name

/-- What the vertices of the reconcilers' events hold. -/
inductive ReconcilerEvent where
  | write (write : ControllerWrite)
  | nonK8sWrite (call : ControllerNonK8sWrite)
  | read (read : ControllerRead)
  | reconcileBegin (mark : ReconcileMark)
  | reconcileEnd (mark : ReconcileMark)

/-- `set_range`. -/
def ControllerWrite.setRange (write : ControllerWrite) (startTimestamp endTimestamp : ℤ) :
    Except AnalysisError ControllerWrite :=
  if startTimestamp < endTimestamp then
    .ok { write with rangeStartTimestamp := startTimestamp, rangeEndTimestamp := endTimestamp }
  else .error .assertion

def ControllerWrite.key (write : ControllerWrite) : String :=
  generateKey write.rtype write.objNamespace write.name

/-! ### Differences and signatures -/

def canonicalizeEvent (event : Fields) (masks : Masks) : Fields :=
  canonicalizeEventAsMap python masks.fieldKeyMask masks.fieldPathMask "" event

/-- `diff_event`, on copies of the events. -/
def diffEvent (prevEvent curEvent : Fields) (masks : Masks) (trimKa can : Bool) :
    Option (Fields × Fields) :=
  let trim (event : Fields) : Fields := if trimKa then trimKindApiversion event else event
  let canonicalize (event : Fields) : Fields := if can then canonicalizeEvent event masks else event
  diffEventAsMap python (canonicalize (trim prevEvent)) (canonicalize (trim curEvent))

/-- The parts of a signature.  The learner joins them with tabs, which none of them contains. -/
abbrev Signature := List String

/-- `get_event_signature`. -/
def eventSignature (etype : String) (isCreationOrDeletion : Bool)
    (slimPrevObjMap slimCurObjMap : Option Fields) : Signature :=
  if isCreationOrDeletion then [etype]
  else [etype, dumpsMap slimPrevObjMap, dumpsMap slimCurObjMap]

def ControllerHear.signature (hear : ControllerHear) : Signature :=
  eventSignature hear.etype.text hear.etype.isCreationOrDeletion hear.slimPrevObjMap
    hear.slimCurObjMap

def ControllerWrite.signature (write : ControllerWrite) : Signature :=
  eventSignature write.etype.text write.etype.isCreationOrDeletion write.slimPrevObjMap
    write.slimCurObjMap

def conflictingEventPayload (smallEvent : Option Fields) (largeEvent : Fields) (masks : Masks) :
    Bool :=
  match smallEvent with
  | none => false
  | some smallEvent => !partOfEventAsMap python smallEvent (canonicalizeEvent largeEvent masks)

end Sieve.Analyzer
