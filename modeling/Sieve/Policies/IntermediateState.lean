import Sieve.Analyzer.EventGraph
import Sieve.Policies.Common
import Sieve.Server.TestPlan

/-!
# The intermediate-state policy

`intermediate_state.py`: the writes that are candidates for a restart after them, and the triggers of
the actions that restart the controller.  Every annotated API call is a candidate.
-/

namespace Sieve.Policies

open Sieve.Event Sieve.Analyzer Sieve.Server

def intermediateStateDetectablePass (testContext : TestContext) (writes : List ControllerWrite) :
    List ControllerWrite :=
  writes.filter fun write =>
    !nondeterministicKey testContext write.key write.name write.objMap &&
      detectableWriteDiff write.slimPrevObjMap write.slimCurObjMap write.etype
        write.signatureCounter

/-- The write changes nothing, even before volatile values are masked. -/
def emptyWrite (write : ControllerWrite) : Bool :=
  let diff := diffEvent write.prevObjMap write.objMap ⟨∅, ∅⟩ true false
  sameDiff (diff.map Prod.fst) (diff.map Prod.snd) ||
    missesStatus (diff.map Prod.fst) (diff.map Prod.snd) write.etype

def effectiveWriteFilteringPass (writes : List ControllerWrite) : List ControllerWrite :=
  writes.filter fun write => write.etype.isCreationOrDeletion || !emptyWrite write

/-- `trigger1` of the plan that `generate_intermediate_state_test_plan_for_controller_write` writes,
as the coordinator reads it. -/
def controllerWriteTrigger (write : ControllerWrite) : TriggerDefinition :=
  match write.etype with
  | .create => .objectCreate ⟨"trigger1", write.key, write.signatureCounter, 0,
      afterControllerWrite, write.reconcileFun⟩
  | .delete => .objectDelete ⟨"trigger1", write.key, write.signatureCounter, 0,
      afterControllerWrite, write.reconcileFun⟩
  | .update | .patch | .statusUpdate | .statusPatch => .objectUpdate ⟨"trigger1", write.key,
      write.slimPrevObjMap, write.slimCurObjMap, false, write.signatureCounter, 0,
      afterControllerWrite, write.reconcileFun⟩

/-- `trigger1` of the plan that
`generate_intermediate_state_test_plan_for_annotated_api_invocation` writes. -/
def annotatedAPIInvocationTrigger (call : ControllerNonK8sWrite) : TriggerDefinition :=
  .annotatedAPICall ⟨"trigger1", call.module, call.filePath, call.recvType, call.funName,
    call.signatureCounter, 0, afterAnnotatedAPICall, call.reconcileFun⟩

end Sieve.Policies
