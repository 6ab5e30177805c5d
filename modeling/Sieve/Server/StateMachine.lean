import Sieve.Library.FoldExcept
import Sieve.Library.MapRange
import Sieve.Server.TestPlan
import Mathlib.Data.Multiset.Filter

/-!
# The state machine of the coordinator

The definitions follow `state_machine.go`.  `processNotification` is a relation, because Go leaves
the order open in which `toSatisfy` is ranged over:

* `visit`: one round of the loop;
* `processNotification`: the loop over `toSatisfy`, behind its three early returns;
* `Step`, `Reachable`: the runs of `StateMachine.run`;
* `visit_undefined`, …, `visit_complete`: everything a round can do.

`timeouts` holds the sleeping `waitForTimeout` goroutines and `ran` the actions run so far; what an
action does is not modelled here.
-/

namespace Sieve.Server

open Sieve.Library

structure StateMachine where
  states : Option (List Action)
  nextState : ℕ
  asyncActionInExecution : Bool
  timeouts : Multiset (ℤ × String)
  ran : List ℕ

namespace StateMachine

/-- `NewStateMachine`. -/
def new (actions : Option (List Action)) : StateMachine := ⟨actions, 0, false, 0, []⟩

/-- `sm.states[sm.nextState]`. -/
def currentAction (sm : StateMachine) : Except Fatal Action :=
  match (sm.states.getD [])[sm.nextState]? with
  | some action => .ok action
  | none => .error .indexOutOfRange

/-- The current action is shared, so its graph and its definitions change in place. -/
def setAction (sm : StateMachine) (action : Action) : StateMachine :=
  { sm with states := sm.states.map fun states => states.set sm.nextState action }

def setTimeoutForTimeoutTriggers (sm : StateMachine) : Except Fatal StateMachine := do
  let action ← sm.currentAction
  .ok { sm with timeouts := sm.timeouts + action.triggerGraph.toSatisfy.val.filterMap fun name =>
    match action.triggerDefinitions name with
    | some (.timeout t) => some (t.timeoutValue, t.name)
    | _ => none }

/-- On to the next action, if there is one. -/
def advance (sm : StateMachine) : Except Fatal StateMachine :=
  let sm := { sm with nextState := sm.nextState + 1 }
  if sm.nextState ≥ (sm.states.getD []).length then .ok sm else sm.setTimeoutForTimeoutTriggers

/-- What follows when all triggers of the current action are satisfied. -/
def runAction (sm : StateMachine) (action : Action) : Except Fatal StateMachine :=
  let sm := { sm with ran := sm.ran ++ [sm.nextState] }
  if !action.async then sm.advance else .ok { sm with asyncActionInExecution := true }

end StateMachine

/-- The state of the loop: the state machine and the notification, whose states change in place. -/
structure Loop where
  sm : StateMachine
  notification : TriggerNotification

/-- The present keys of the map that is ranged over. -/
def Loop.toSatisfy (loop : Loop) : Finset String :=
  match loop.sm.currentAction with
  | .ok action => action.triggerGraph.toSatisfy
  | .error _ => ∅

/-- One round of the loop over `toSatisfy`; the flag says whether it ends at the `break`. -/
def visit (triggerName : String) (loop : Loop) : Except Fatal (Loop × Bool) := do
  let action ← loop.sm.currentAction
  match action.triggerDefinitions triggerName with
  | none => .ok (loop, false)
  | some triggerDefinition =>
    let test ← triggerDefinition.satisfy loop.notification
    let action := { action with
      triggerDefinitions :=
        Function.update action.triggerDefinitions triggerName (some test.trigger) }
    if test.answer then
      let triggerGraph ← action.triggerGraph.trigger triggerName
      let action := { action with triggerGraph := triggerGraph }
      if ← triggerGraph.fullyTriggered then
        let sm ← (loop.sm.setAction action).runAction action
        .ok (⟨sm, test.notification⟩, true)
      else
        let sm ← (loop.sm.setAction action).setTimeoutForTimeoutTriggers
        .ok (⟨sm, test.notification⟩, false)
    else
      .ok (⟨loop.sm.setAction action, test.notification⟩, false)

/-- The loop over `toSatisfy` may end so. -/
def LoopEnds (loop : Loop) (r : Except Fatal Loop) : Prop :=
  RangesOver Loop.toSatisfy (fun k loop => .ofExcept (visit k loop)) loop r

/-- The notification is not handled: there is no test plan, all actions are finished, or an
asynchronous action is not. -/
def StateMachine.Ignores (sm : StateMachine) : Prop :=
  sm.states = none ∨ (sm.states.getD []).length ≤ sm.nextState ∨ sm.asyncActionInExecution = true

/-- `processNotification` may end so. -/
inductive processNotification (sm : StateMachine) (notification : TriggerNotification) :
    Except Fatal StateMachine → Prop where
  | ignored (h : sm.Ignores) : processNotification sm notification (.ok sm)
  | handled {r : Except Fatal Loop} (h : ¬ sm.Ignores) (hloop : LoopEnds ⟨sm, notification⟩ r) :
      processNotification sm notification (r.map Loop.sm)

def processAsyncDone (sm : StateMachine) : Except Fatal StateMachine :=
  StateMachine.advance { sm with asyncActionInExecution := false }

/-- One round of the `select` in `run`.  An asynchronous action reports once it is done. -/
inductive Step (sm : StateMachine) : Except Fatal StateMachine → Prop where
  | notification {n : TriggerNotification} {r : Except Fatal StateMachine}
      (h : processNotification sm n r) : Step sm r
  | asyncDone (h : sm.asyncActionInExecution = true) : Step sm (processAsyncDone sm)

/-- The states that `run` reaches from `sm₀`. -/
inductive Reachable (sm₀ : StateMachine) : StateMachine → Prop where
  | initial : Reachable sm₀ sm₀
  | step {sm sm' : StateMachine} (h : Reachable sm₀ sm) (hstep : Step sm (.ok sm')) :
      Reachable sm₀ sm'

/-! ### What the operations change -/

namespace StateMachine

theorem currentAction_ok {sm : StateMachine} {action : Action} :
    sm.currentAction = .ok action ↔ (sm.states.getD [])[sm.nextState]? = some action := by
  rw [currentAction]
  cases (sm.states.getD [])[sm.nextState]? <;> simp

theorem not_ignores {sm : StateMachine} (h : ¬ sm.Ignores) :
    ∃ action, sm.currentAction = .ok action ∧ sm.asyncActionInExecution = false := by
  rw [Ignores, not_or, not_or, Bool.not_eq_true, Nat.not_le] at h
  obtain ⟨_, hlt, hasync⟩ := h
  exact ⟨_, currentAction_ok.mpr (List.getElem?_eq_getElem hlt), hasync⟩

theorem setAction_current {sm : StateMachine} {action : Action}
    (h : sm.currentAction = .ok action) (action' : Action) :
    (sm.setAction action').currentAction = .ok action' := by
  rw [currentAction_ok] at h ⊢
  cases hs : sm.states with
  | none =>
    rw [hs] at h
    cases h
  | some states =>
    rw [hs] at h
    rw [setAction, hs]
    have hlt : sm.nextState < states.length := (List.getElem?_eq_some_iff.mp h).1
    exact List.getElem?_set_self hlt

theorem setAction_of_ne {sm : StateMachine} {action : Action} {i : ℕ} (h : i ≠ sm.nextState) :
    ((sm.setAction action).states.getD [])[i]? = (sm.states.getD [])[i]? := by
  rw [setAction]
  cases sm.states with
  | none => rfl
  | some states => exact List.getElem?_set_ne (Ne.symm h)

theorem setAction_setAction (sm : StateMachine) (action action' : Action) :
    (sm.setAction action).setAction action' = sm.setAction action' := by
  rw [setAction, setAction, setAction]
  cases sm.states with
  | none => rfl
  | some states => simp

theorem setAction_self {sm : StateMachine} {action : Action}
    (h : sm.currentAction = .ok action) : sm.setAction action = sm := by
  rw [currentAction_ok] at h
  obtain ⟨states, nextState, async, timeouts, ran⟩ := sm
  cases states with
  | none => rfl
  | some states =>
    replace h : states[nextState]? = some action := h
    have hset : states.set nextState action = states := by
      apply List.ext_getElem?
      intro i
      by_cases hi : i = nextState
      · rw [hi, List.getElem?_set_self (List.getElem?_eq_some_iff.mp h).1, h]
      · rw [List.getElem?_set_ne (Ne.symm hi)]
    exact congrArg (fun states => StateMachine.mk (some states) nextState async timeouts ran) hset

/-- Setting timeouts changes nothing but the timeouts. -/
theorem setTimeout_ok {sm : StateMachine} {action : Action} (h : sm.currentAction = .ok action) :
    ∃ timeouts, sm.setTimeoutForTimeoutTriggers = .ok { sm with timeouts := timeouts } := by
  rw [setTimeoutForTimeoutTriggers, h]
  exact ⟨_, rfl⟩

/-- Up to timeouts, `advance` moves on to the next action. -/
theorem advance_ok (sm : StateMachine) : ∃ timeouts, sm.advance = .ok
    { sm with nextState := sm.nextState + 1, timeouts := timeouts } := by
  rw [advance]
  split
  · exact ⟨_, rfl⟩
  · rename_i hlt
    exact setTimeout_ok (currentAction_ok.mpr (List.getElem?_eq_getElem (Nat.not_le.mp hlt)))

/-- What the state machine becomes, up to timeouts, when all triggers of `action` are satisfied. -/
def afterRun (sm : StateMachine) (action : Action) : StateMachine :=
  { sm with
    nextState := if action.async then sm.nextState else sm.nextState + 1
    asyncActionInExecution := if action.async then true else sm.asyncActionInExecution
    ran := sm.ran ++ [sm.nextState] }

theorem runAction_ok (sm : StateMachine) (action : Action) :
    ∃ timeouts, sm.runAction action = .ok { sm.afterRun action with timeouts := timeouts } := by
  rw [runAction, afterRun]
  cases action.async with
  | true => exact ⟨_, rfl⟩
  | false => exact advance_ok _

end StateMachine

theorem Loop.toSatisfy_eq {loop : Loop} {action : Action}
    (h : loop.sm.currentAction = .ok action) :
    loop.toSatisfy = action.triggerGraph.toSatisfy := by
  rw [Loop.toSatisfy, h]

/-! ### What a round can do -/

/-- Enter a tested trigger. -/
def Action.define (action : Action) (triggerName : String) (trigger : TriggerDefinition) : Action :=
  { action with
    triggerDefinitions := Function.update action.triggerDefinitions triggerName (some trigger) }

/-- Enter a tested trigger that has changed the graph. -/
def Action.fire (action : Action) (triggerName : String) (trigger : TriggerDefinition)
    (triggerGraph : TriggerGraph) : Action :=
  { action.define triggerName trigger with triggerGraph := triggerGraph }

section Visit

variable {name : String} {loop : Loop} {action : Action} {definition : TriggerDefinition}
  {test : Test} {triggerGraph : TriggerGraph} {e : Fatal}

theorem visit_undefined (hcur : loop.sm.currentAction = .ok action)
    (hdef : action.triggerDefinitions name = none) : visit name loop = .ok (loop, false) := by
  rw [visit, hcur]
  show (match action.triggerDefinitions name with | none => _ | some _ => _) = _
  rw [hdef]

theorem visit_defined (hcur : loop.sm.currentAction = .ok action)
    (hdef : action.triggerDefinitions name = some definition) :
    visit name loop = definition.satisfy loop.notification >>= fun test =>
      if test.answer then do
        let triggerGraph ← action.triggerGraph.trigger name
        let action := action.fire name test.trigger triggerGraph
        if ← triggerGraph.fullyTriggered then
          let sm ← (loop.sm.setAction action).runAction action
          .ok (⟨sm, test.notification⟩, true)
        else
          let sm ← (loop.sm.setAction action).setTimeoutForTimeoutTriggers
          .ok (⟨sm, test.notification⟩, false)
      else .ok (⟨loop.sm.setAction (action.define name test.trigger), test.notification⟩, false) := by
  rw [visit, hcur]
  show (match action.triggerDefinitions name with | none => _ | some _ => _) = _
  rw [hdef]
  rfl

theorem visit_testFails (hcur : loop.sm.currentAction = .ok action)
    (hdef : action.triggerDefinitions name = some definition)
    (htest : definition.satisfy loop.notification = .error e) : visit name loop = .error e := by
  rw [visit_defined hcur hdef, htest]
  rfl

theorem visit_unsatisfied (hcur : loop.sm.currentAction = .ok action)
    (hdef : action.triggerDefinitions name = some definition)
    (htest : definition.satisfy loop.notification = .ok test) (hanswer : test.answer = false) :
    visit name loop =
      .ok (⟨loop.sm.setAction (action.define name test.trigger), test.notification⟩, false) := by
  rw [visit_defined hcur hdef, htest]
  show (if test.answer then _ else _) = _
  rw [hanswer]
  rfl

theorem visit_triggerFails (hcur : loop.sm.currentAction = .ok action)
    (hdef : action.triggerDefinitions name = some definition)
    (htest : definition.satisfy loop.notification = .ok test) (hanswer : test.answer = true)
    (htrigger : action.triggerGraph.trigger name = .error e) : visit name loop = .error e := by
  rw [visit_defined hcur hdef, htest]
  show (if test.answer then _ else _) = _
  rw [hanswer, if_pos rfl, htrigger]
  rfl

/-- The trigger is satisfied and others are still awaited. -/
theorem visit_pending (hcur : loop.sm.currentAction = .ok action)
    (hdef : action.triggerDefinitions name = some definition)
    (htest : definition.satisfy loop.notification = .ok test) (hanswer : test.answer = true)
    (htrigger : action.triggerGraph.trigger name = .ok triggerGraph)
    (hfull : triggerGraph.fullyTriggered = .ok false) :
    ∃ timeouts, visit name loop = .ok
      (⟨{ loop.sm.setAction (action.fire name test.trigger triggerGraph) with
        timeouts := timeouts }, test.notification⟩, false) := by
  obtain ⟨timeouts, hset⟩ := StateMachine.setTimeout_ok (StateMachine.setAction_current hcur
    (action.fire name test.trigger triggerGraph))
  refine ⟨timeouts, ?_⟩
  rw [visit_defined hcur hdef, htest]
  show (if test.answer then _ else _) = _
  rw [hanswer, if_pos rfl, htrigger]
  show (triggerGraph.fullyTriggered >>= fun b => _) = _
  rw [hfull]
  show (StateMachine.setTimeoutForTimeoutTriggers _ >>= fun sm => _) = _
  rw [hset]
  rfl

/-- The trigger is satisfied and was the last one. -/
theorem visit_complete (hcur : loop.sm.currentAction = .ok action)
    (hdef : action.triggerDefinitions name = some definition)
    (htest : definition.satisfy loop.notification = .ok test) (hanswer : test.answer = true)
    (htrigger : action.triggerGraph.trigger name = .ok triggerGraph)
    (hfull : triggerGraph.fullyTriggered = .ok true) :
    ∃ timeouts, visit name loop = .ok
      (⟨{ (loop.sm.setAction (action.fire name test.trigger triggerGraph)).afterRun
        (action.fire name test.trigger triggerGraph) with
        timeouts := timeouts }, test.notification⟩, true) := by
  obtain ⟨timeouts, hrun⟩ := StateMachine.runAction_ok
    (loop.sm.setAction (action.fire name test.trigger triggerGraph))
    (action.fire name test.trigger triggerGraph)
  refine ⟨timeouts, ?_⟩
  rw [visit_defined hcur hdef, htest]
  show (if test.answer then _ else _) = _
  rw [hanswer, if_pos rfl, htrigger]
  show (triggerGraph.fullyTriggered >>= fun b => _) = _
  rw [hfull]
  show (StateMachine.runAction _ _ >>= fun sm => _) = _
  rw [hrun]
  rfl

end Visit

end Sieve.Server
