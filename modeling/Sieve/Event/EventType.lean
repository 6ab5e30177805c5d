import Mathlib.Data.Nat.Notation

/-!
# Types of events

The learner (`ControllerHearTypes`, `ControllerWriteTypes`) and the coordinator (`HEAR_ADDED`, …) use
the same texts.
-/

namespace Sieve.Event

/-- `ControllerHearTypes`. -/
inductive HearType where
  | added
  | updated
  | deleted
  | replaced
  | sync
  deriving DecidableEq, Repr

/-- `ControllerWriteTypes`, without `DeleteAllOf`, which `ControllerWrite` refuses. -/
inductive WriteType where
  | create
  | update
  | delete
  | patch
  | statusUpdate
  | statusPatch
  deriving DecidableEq, Repr

def HearType.text : HearType → String
  | .added => "Added"
  | .updated => "Updated"
  | .deleted => "Deleted"
  | .replaced => "Replaced"
  | .sync => "Sync"

def WriteType.text : WriteType → String
  | .create => "Create"
  | .update => "Update"
  | .delete => "Delete"
  | .patch => "Patch"
  | .statusUpdate => "StatusUpdate"
  | .statusPatch => "StatusPatch"

/-- `is_creation_or_deletion`. -/
def HearType.isCreationOrDeletion (etype : HearType) : Bool :=
  etype == .added || etype == .deleted

def WriteType.isCreationOrDeletion (etype : WriteType) : Bool :=
  etype == .create || etype == .delete

end Sieve.Event
