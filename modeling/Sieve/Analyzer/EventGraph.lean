import Sieve.Analyzer.K8sEvent
import Sieve.Library.OccurrenceCount

/-!
# The learner's event graph

`compute_event_diff` and `compute_event_cancel` of `event_graph.py`: which state an event is compared
with, which number it gets among the events with its signature, and which later events undo it.
-/

namespace Sieve.Analyzer

open Sieve.Event Sieve.Library

/-! ### Hears -/

/-- `controller_read_key_to_vertices` of a key. -/
def controllerReads (events : List ReconcilerEvent) (key : String) : List ControllerRead :=
  events.filterMap fun event =>
    match event with
    | .read read => if key ∈ read.keySet then some read else none
    | _ => none

def controllerWrites (events : List ReconcilerEvent) : List ControllerWrite :=
  events.filterMap fun event =>
    match event with
    | .write write => some write
    | _ => none

theorem mem_controllerReads_iff {events : List ReconcilerEvent} {key : String}
    {read : ControllerRead} :
    read ∈ controllerReads events key ↔ .read read ∈ events ∧ key ∈ read.keySet := by
  rw [controllerReads, List.mem_filterMap]
  constructor
  · intro h
    obtain ⟨event, hmem, hread⟩ := h
    cases event with
    | read r =>
      simp only [Option.ite_none_right_eq_some, Option.some.injEq] at hread
      rw [← hread.2]
      exact ⟨hmem, hread.1⟩
    | _ => cases hread
  · intro h
    exact ⟨.read read, h.1, if_pos h.2⟩

theorem mem_controllerWrites_iff {events : List ReconcilerEvent} {write : ControllerWrite} :
    write ∈ controllerWrites events ↔ .write write ∈ events := by
  rw [controllerWrites, List.mem_filterMap]
  constructor
  · intro h
    obtain ⟨event, hmem, hwrite⟩ := h
    cases event with
    | write w => exact Option.some.inj hwrite ▸ hmem
    | _ => cases hwrite
  · exact fun h => ⟨_, h, rfl⟩

/-- The loop over the reads of a write's key: the last one that ended before the write, in the same
round. -/
def prevRead (write : ControllerWrite) (prev : Fields × Option ReadType) :
    List ControllerRead → Except AnalysisError (Fields × Option ReadType)
  | [] => .ok prev
  | read :: reads =>
    if write.startTimestamp < read.endTimestamp then .ok prev
    else
      match read.keyToObj.lookup write.key with
      | none => .error .assertion
      | some obj =>
        if read.endTimestamp < write.startTimestamp then
          prevRead write (if read.reconcileFun == write.reconcileFun &&
            read.reconcileId == write.reconcileId then (obj, some read.etype) else prev) reads
        else .error .assertion

/-- The previous objects of the writes. -/
def assignPrevReads (events : List ReconcilerEvent) :
    List ControllerWrite → Except AnalysisError (List ControllerWrite)
  | [] => .ok []
  | write :: writes => do
    let prev ← prevRead write ([], none) (controllerReads events write.key)
    let writes ← assignPrevReads events writes
    .ok ({ write with prevObjMap := prev.1, prevEtype := prev.2 } :: writes)

/-- `compute_event_diff` for the writes, once their previous objects are known.  The counters of a
key are its own. -/
def computeWriteDiff (masks : String → Masks) (writes : List ControllerWrite) :
    List ControllerWrite :=
  number (fun write : ControllerWrite => (write.key, write.signature))
    (fun write n => { write with signatureCounter := n }) (fun _ => 0)
    (writes.map fun write =>
      let diff := diffEvent write.prevObjMap write.objMap (masks write.key) true true
      { write with slimPrevObjMap := diff.map Prod.fst, slimCurObjMap := diff.map Prod.snd })

/-- `compute_event_diff` for the writes among the events. -/
def computeEventDiffOfWrites (masks : String → Masks) (events : List ReconcilerEvent) :
    Except AnalysisError (List ControllerWrite) := do
  let writes ← assignPrevReads events (controllerWrites events)
  .ok (computeWriteDiff masks writes)

end Sieve.Analyzer
