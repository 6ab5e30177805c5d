import Sieve.Server.StateMachine

/-!
# Everything a round of the loop can do

* `Action.timers`: the goroutines that `setTimeoutForTimeoutTriggers` starts;
* `RoundEnds`, `roundEnds_of_visit`: how a round over `toSatisfy` ends when the process survives
  it, whatever the plan is;
* `satisfy_timeout_iff`: a test never makes a timeout trigger out of another one.
-/

namespace Sieve.Server

open Sieve.Library

/-- The timeout values and the names of the timeout triggers in `toSatisfy`. -/
def Action.timers (action : Action) : Multiset (ℤ × String) :=
  action.triggerGraph.toSatisfy.val.filterMap fun name =>
    match action.triggerDefinitions name with
    | some (.timeout t) => some (t.timeoutValue, t.name)
    | _ => none

theorem Action.mem_timers {action : Action} {value : ℤ} {name : String} :
    (value, name) ∈ action.timers ↔ ∃ key ∈ action.triggerGraph.toSatisfy,
      action.triggerDefinitions key = some (.timeout ⟨name, value⟩) := by
  rw [timers, Multiset.mem_filterMap]
  constructor
  · rintro ⟨key, hkey, hsome⟩
    refine ⟨key, hkey, ?_⟩
    split at hsome
    · rename_i t hdef
      obtain ⟨rfl, rfl⟩ := Prod.mk.inj (Option.some.inj hsome)
      exact hdef
    · cases hsome
  · rintro ⟨key, hkey, hdef⟩
    refine ⟨key, hkey, ?_⟩
    rw [hdef]

namespace StateMachine

theorem setTimeout_eq {sm : StateMachine} {action : Action} (h : sm.currentAction = .ok action) :
    sm.setTimeoutForTimeoutTriggers = .ok { sm with timeouts := sm.timeouts + action.timers } := by
  rw [setTimeoutForTimeoutTriggers, h]
  rfl

/-- The timers that are started for the current action, if there is one. -/
def timers (sm : StateMachine) : Multiset (ℤ × String) :=
  match sm.currentAction with
  | .ok action => action.timers
  | .error _ => 0

theorem timers_eq {sm : StateMachine} {action : Action} (h : sm.currentAction = .ok action) :
    sm.timers = action.timers := by
  rw [timers, h]

/-- The state machine at its next action, before timers are started. -/
def next (sm : StateMachine) : StateMachine := { sm with nextState := sm.nextState + 1 }

theorem timers_finished {sm : StateMachine} (h : (sm.states.getD []).length ≤ sm.nextState) :
    sm.timers = 0 := by
  rw [timers, currentAction, List.getElem?_eq_none h]

theorem advance_eq (sm : StateMachine) :
    sm.advance = .ok { sm.next with timeouts := sm.timeouts + sm.next.timers } := by
  show (if sm.next.nextState ≥ (sm.next.states.getD []).length then Except.ok sm.next
    else sm.next.setTimeoutForTimeoutTriggers) = _
  by_cases h : sm.next.nextState ≥ (sm.next.states.getD []).length
  · rw [if_pos h, timers_finished h, Multiset.add_zero]
    rfl
  · have hcur : sm.next.currentAction = .ok _ :=
      currentAction_ok.mpr (List.getElem?_eq_getElem (Nat.not_le.mp h))
    rw [if_neg h, timers_eq hcur]
    exact setTimeout_eq hcur

end StateMachine

/-- How a round for `name` ends: the state of the loop, and whether at the `break`. -/
inductive RoundEnds (name : String) (loop : Loop) : Loop → Bool → Prop where
  | undefined {action : Action} (hcur : loop.sm.currentAction = .ok action)
      (hdef : action.triggerDefinitions name = none) : RoundEnds name loop loop false
  | unsatisfied {action : Action} {definition : TriggerDefinition} {test : Test}
      (hcur : loop.sm.currentAction = .ok action)
      (hdef : action.triggerDefinitions name = some definition)
      (htest : definition.satisfy loop.notification = .ok test) (hanswer : test.answer = false) :
      RoundEnds name loop ⟨loop.sm.setAction (action.define name test.trigger), test.notification⟩
        false
  | pending {action : Action} {definition : TriggerDefinition} {test : Test}
      {triggerGraph : TriggerGraph} (hcur : loop.sm.currentAction = .ok action)
      (hdef : action.triggerDefinitions name = some definition)
      (htest : definition.satisfy loop.notification = .ok test) (hanswer : test.answer = true)
      (htrigger : action.triggerGraph.trigger name = .ok triggerGraph)
      (hfull : triggerGraph.fullyTriggered = .ok false) :
      RoundEnds name loop
        ⟨{ loop.sm.setAction (action.fire name test.trigger triggerGraph) with
          timeouts := loop.sm.timeouts + (action.fire name test.trigger triggerGraph).timers },
          test.notification⟩ false
  | complete {action : Action} {definition : TriggerDefinition} {test : Test}
      {triggerGraph : TriggerGraph} {sm : StateMachine}
      (hcur : loop.sm.currentAction = .ok action)
      (hdef : action.triggerDefinitions name = some definition)
      (htest : definition.satisfy loop.notification = .ok test) (hanswer : test.answer = true)
      (htrigger : action.triggerGraph.trigger name = .ok triggerGraph)
      (hfull : triggerGraph.fullyTriggered = .ok true)
      (hrun : (loop.sm.setAction (action.fire name test.trigger triggerGraph)).runAction
        (action.fire name test.trigger triggerGraph) = .ok sm) :
      RoundEnds name loop ⟨sm, test.notification⟩ true

/-- **What a round can do** when the process survives it. -/
theorem roundEnds_of_visit {name : String} {loop loop' : Loop} {ended : Bool}
    (h : visit name loop = .ok (loop', ended)) : RoundEnds name loop loop' ended := by
  cases hcur : loop.sm.currentAction with
  | error e =>
    rw [visit, hcur] at h
    cases h
  | ok action =>
    cases hdef : action.triggerDefinitions name with
    | none =>
      rw [visit_undefined hcur hdef] at h
      obtain ⟨rfl, rfl⟩ := Prod.mk.inj (Except.ok.inj h)
      exact .undefined hcur hdef
    | some definition =>
      rw [visit_defined hcur hdef] at h
      obtain ⟨test, htest, h⟩ := bind_ok_iff.mp h
      cases hanswer : test.answer with
      | false =>
        rw [hanswer, if_neg Bool.false_ne_true] at h
        obtain ⟨rfl, rfl⟩ := Prod.mk.inj (Except.ok.inj h)
        exact .unsatisfied hcur hdef htest hanswer
      | true =>
        rw [hanswer, if_pos rfl] at h
        obtain ⟨triggerGraph, htrigger, h⟩ := bind_ok_iff.mp h
        obtain ⟨full, hfull, h⟩ := bind_ok_iff.mp h
        cases full with
        | false =>
          rw [if_neg Bool.false_ne_true] at h
          obtain ⟨sm, hset, h⟩ := bind_ok_iff.mp h
          obtain ⟨rfl, rfl⟩ := Prod.mk.inj (Except.ok.inj h)
          rw [StateMachine.setTimeout_eq (StateMachine.setAction_current hcur _)] at hset
          rw [← Except.ok.inj hset]
          exact .pending hcur hdef htest hanswer htrigger hfull
        | true =>
          rw [if_pos rfl] at h
          obtain ⟨sm, hrun, h⟩ := bind_ok_iff.mp h
          obtain ⟨rfl, rfl⟩ := Prod.mk.inj (Except.ok.inj h)
          exact .complete hcur hdef htest hanswer htrigger hfull hrun

/-- A test changes a trigger and a notification, but not their kinds; timeouts it leaves as they
are. -/
theorem satisfy_timeouts {definition : TriggerDefinition} {n : TriggerNotification} {test : Test}
    (h : definition.satisfy n = .ok test) :
    (∀ t, test.trigger = .timeout t ↔ definition = .timeout t) ∧
      ∀ conditionName, test.notification = .timeout conditionName ↔ n = .timeout conditionName := by
  cases definition with
  | objectUpdate u | anyFieldModification u =>
    cases n with
    | objectUpdate n =>
      obtain ⟨⟨answer, u', n'⟩, _, h⟩ := bind_ok_iff.mp h
      rw [← Except.ok.inj h]
      simp
    | _ =>
      rw [← Except.ok.inj h]
      simp
  | _ =>
    cases n <;> rw [← Except.ok.inj h] <;> simp

theorem satisfy_timeout_iff {definition : TriggerDefinition} {n : TriggerNotification}
    {test : Test} (h : definition.satisfy n = .ok test) (t : TimeoutTrigger) :
    test.trigger = .timeout t ↔ definition = .timeout t := (satisfy_timeouts h).1 t

theorem satisfy_notification_iff {definition : TriggerDefinition} {n : TriggerNotification}
    {test : Test} (h : definition.satisfy n = .ok test) (conditionName : String) :
    test.notification = .timeout conditionName ↔ n = .timeout conditionName :=
  (satisfy_timeouts h).2 conditionName

end Sieve.Server
