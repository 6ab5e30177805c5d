import Sieve.Event.Canonical
import Sieve.Server.Expression

/-!
# Object states in the coordinator

The rest of the coordinator's `event.go`.  A `map[string]interface{}` is `none` when it is nil; the
functions that write into their arguments return the new states.

* `canonicalizeEvent`: masks a state in place, once, and leaves a marker;
* `canonicalState`: the state it leaves;
* `isDesiredUpdate`, `isAnyFieldModified`: what the update triggers ask;
* `canonicalizeEvent_twice`: the marker makes a second canonicalization do nothing, whatever its
  masks are.
-/

namespace Sieve.Server

open Sieve.Event

/-- A Go map of a decoded state; `none` is the nil map. -/
abbrev GoMap := Option Fields

def SIEVE_CAN_MARKER : String := "SIEVE-CAN"

/-- Reading a nil map finds no marker, writing the marker into it panics. -/
def canonicalizeEvent (event : GoMap) (masks : Masks) : Except Fatal GoMap :=
  match event with
  | none => .error .nilMapAssignment
  | some event =>
    if (event.lookup SIEVE_CAN_MARKER).isSome then .ok (some event)
    else .ok (some (Fields.insert
      (canonicalizeEventAsMap go masks.fieldKeyMask masks.fieldPathMask "" event)
      SIEVE_CAN_MARKER (.str "")))

/-- The state that `canonicalizeEvent` leaves: masked and with the marker, or as it came with it. -/
def canonicalState (masks : Masks) (event : Fields) : Fields :=
  if (event.lookup SIEVE_CAN_MARKER).isSome then event
  else Fields.insert (canonicalizeEventAsMap go masks.fieldKeyMask masks.fieldPathMask "" event)
    SIEVE_CAN_MARKER (.str "")

theorem canonicalizeEvent_eq (event : Fields) (masks : Masks) :
    canonicalizeEvent (some event) masks = .ok (some (canonicalState masks event)) := by
  rw [canonicalizeEvent, canonicalState]
  split
  · rfl
  · rfl

theorem canonicalizeEvent_some (event : Fields) (masks : Masks) :
    ∃ event', canonicalizeEvent (some event) masks = .ok (some event') :=
  ⟨_, canonicalizeEvent_eq event masks⟩

theorem canonicalState_distinct (masks : Masks) {event : Fields}
    (h : Json.Distinct (.obj event)) : Json.Distinct (.obj (canonicalState masks event)) := by
  rw [canonicalState]
  split
  · exact h
  · exact insert_distinct (canonicalizeEventAsMap_distinct "" h) (.scalar trivial)

/-- `diffEventAsMap` returns two nil maps when the events are identical. -/
def diffEventAsMap (prevEvent curEvent : GoMap) : GoMap × GoMap :=
  match Event.diffEventAsMap go (prevEvent.getD []) (curEvent.getD []) with
  | none => (none, none)
  | some diff => (some diff.1, some diff.2)

/-- The two differences, and the two events as they are afterwards. -/
def diffEvent (prevEvent curEvent : GoMap) (masks : Masks) :
    Except Fatal ((GoMap × GoMap) × GoMap × GoMap) := do
  let prevEvent ← canonicalizeEvent prevEvent masks
  let curEvent ← canonicalizeEvent curEvent masks
  .ok (diffEventAsMap prevEvent curEvent, prevEvent, curEvent)

/-- `reflect.DeepEqual` on two maps. -/
def equivalentEvent : GoMap → GoMap → Bool
  | none, none => true
  | some eventA, some eventB => (Json.obj eventA).equal go.scalarEqual (.obj eventB)
  | _, _ => false

def partOfEventAsMap (eventA eventB : GoMap) : Bool :=
  Event.partOfEventAsMap go (eventA.getD []) (eventB.getD [])

def isDesiredUpdate (prevState curState desiredPrevStateDiff desiredCurStateDiff : GoMap)
    (masks : Masks) (exactMatch : Bool) : Except Fatal (Bool × GoMap × GoMap) := do
  let ((actualPrevStateDiff, actualCurStateDiff), prevState, curState) ←
    diffEvent prevState curState masks
  .ok (if exactMatch then
      equivalentEvent actualPrevStateDiff desiredPrevStateDiff &&
        equivalentEvent actualCurStateDiff desiredCurStateDiff
    else
      partOfEventAsMap desiredPrevStateDiff actualPrevStateDiff &&
        partOfEventAsMap desiredCurStateDiff actualCurStateDiff,
    prevState, curState)

/-- The answer, the current state and the trigger's own difference as they are afterwards. -/
def isAnyFieldModified (curState prevStateDiffToModify : GoMap) (masks : Masks) :
    Except Fatal (Bool × GoMap × GoMap) := do
  let prevStateDiffToModify ← canonicalizeEvent prevStateDiffToModify masks
  let curState ← canonicalizeEvent curState masks
  .ok (!partOfEventAsMap prevStateDiffToModify curState, curState, prevStateDiffToModify)

/-- Comparing states that are there does not end the process. -/
theorem isDesiredUpdate_some (prevState curState : Fields)
    (desiredPrevStateDiff desiredCurStateDiff : GoMap) (masks : Masks) (exactMatch : Bool) :
    ∃ desired prevState' curState', isDesiredUpdate (some prevState) (some curState)
      desiredPrevStateDiff desiredCurStateDiff masks exactMatch =
        .ok (desired, prevState', curState') := by
  rw [isDesiredUpdate, diffEvent, canonicalizeEvent_eq, canonicalizeEvent_eq]
  exact ⟨_, _, _, rfl⟩

/-- **A canonical state stays as it is**, also under other masks. -/
theorem canonicalizeEvent_twice {event event' : GoMap} {masks : Masks}
    (h : canonicalizeEvent event masks = .ok event') (masks' : Masks) :
    canonicalizeEvent event' masks' = .ok event' := by
  cases event with
  | none => cases h
  | some event =>
    rw [canonicalizeEvent] at h
    split at h
    · rename_i hmarker
      rw [← Except.ok.inj h, canonicalizeEvent, if_pos hmarker]
    · rw [← Except.ok.inj h, canonicalizeEvent, Fields.lookup_insert_self]
      rfl

end Sieve.Server
