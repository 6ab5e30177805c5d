import Sieve.Analyzer.EventGraph
import Sieve.Policies.Common
import Sieve.Server.TestPlan

/-!
# The unobserved-state policy

`unobserved_state.py`: the events that are candidates for being missed, and the trigger of the action
that pauses the controller.
-/

namespace Sieve.Policies

open Sieve.Event Sieve.Analyzer Sieve.Server

/-- A received event in the event graph. -/
structure HearVertex where
  content : ControllerHear
  hasOutInterReconcilerEdges : Bool

def overwriteFilteringPass (eventVertices : List HearVertex) : List HearVertex :=
  eventVertices.filter fun vertex => !vertex.content.cancelledBy.isEmpty

def causalityHearFilteringPass (eventVertices : List HearVertex) : List HearVertex :=
  eventVertices.filter HearVertex.hasOutInterReconcilerEdges

def unobservedStateDetectablePass (testContext : TestContext) :
    List HearVertex → Except AnalysisError (List HearVertex)
  | [] => .ok []
  | vertex :: vertices => do
    let hear := vertex.content
    if nondeterministicKey testContext hear.key hear.name hear.objMap then
      unobservedStateDetectablePass testContext vertices
    else do
      let detectable ← detectableHearDiff hear.slimPrevObjMap hear.slimCurObjMap hear.prevEtype
        hear.etype hear.signatureCounter
      let candidateVertices ← unobservedStateDetectablePass testContext vertices
      .ok (if detectable then vertex :: candidateVertices else candidateVertices)

/-- The events that `unobserved_state_analysis` makes test plans for. -/
def unobservedStateAnalysis (testContext : TestContext) (eventVertices : List HearVertex) :
    Except AnalysisError (List HearVertex) :=
  let candidateVertices := overwriteFilteringPass eventVertices
  let candidateVertices :=
    if testContext.causalityPruningEnabled then causalityHearFilteringPass candidateVertices
    else candidateVertices
  if testContext.nondeterministicPruningEnabled then
    unobservedStateDetectablePass testContext candidateVertices
  else .ok candidateVertices

/-- `trigger1` of the plan that `generate_unobserved_state_test_plan` writes, as the coordinator
reads it. -/
def unobservedStateTrigger (hear : ControllerHear) : TriggerDefinition :=
  match hear.etype with
  | .added => .objectCreate
      ⟨"trigger1", hear.key, hear.signatureCounter, 0, beforeControllerRecv, "informer"⟩
  | .deleted => .objectDelete
      ⟨"trigger1", hear.key, hear.signatureCounter, 0, beforeControllerRecv, "informer"⟩
  | .updated | .replaced | .sync => .objectUpdate
      ⟨"trigger1", hear.key, hear.slimPrevObjMap, hear.slimCurObjMap, false, hear.signatureCounter,
        0, beforeControllerRecv, "informer"⟩

end Sieve.Policies
