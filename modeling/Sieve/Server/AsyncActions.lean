import Sieve.Library.Runs
import Sieve.Server.Rounds

/-!
# Actions in plan order

`run` of an action either does its work in the goroutine of the state machine or starts a goroutine
for it, which sends one `AsyncDoneNotification` when the work is done:

* `Execution`: the state machine with the goroutines that have not reported yet;
* `Keeps`, `Runs`: what a notification does to the progress through the plan;
* `run_in_plan_order`: the actions run are the first ones of the plan, in plan order.
-/

namespace Sieve.Server

open Sieve.Library

/-- Whether the `i`-th action of the plan is asynchronous. -/
def StateMachine.isAsync (sm : StateMachine) (i : ℕ) : Bool :=
  ((sm.states.getD [])[i]?.map Action.async).getD false

/-- The asynchronous actions whose `run` was called between the two states. -/
def StateMachine.asyncStarted (sm sm' : StateMachine) : ℕ :=
  (sm'.ran.drop sm.ran.length).countP sm.isAsync

/-- The state machine together with the goroutines of asynchronous actions that are still to send
on `asyncDoneCh`.  The channel is unbuffered, so a send is a receive. -/
structure Execution where
  sm : StateMachine
  unreported : ℕ

namespace Execution

/-- `NewStateMachine`. -/
def new (actions : Option (List Action)) : Execution := ⟨.new actions, 0⟩

/-- One round of the `select` in `run`. -/
inductive Step (ex : Execution) : Execution → Prop where
  | notification {n : TriggerNotification} {sm : StateMachine}
      (h : processNotification ex.sm n (.ok sm)) :
      Step ex ⟨sm, ex.unreported + ex.sm.asyncStarted sm⟩
  | asyncDone {unreported : ℕ} {sm : StateMachine} (hsent : ex.unreported = unreported + 1)
      (h : processAsyncDone ex.sm = .ok sm) : Step ex ⟨sm, unreported⟩

end Execution

/-! ### Progress through the plan -/

namespace StateMachine

/-- Which actions of the plan are asynchronous. -/
def flags (sm : StateMachine) : List Bool := (sm.states.getD []).map Action.async

theorem isAsync_eq (sm : StateMachine) (i : ℕ) : sm.isAsync i = (sm.flags[i]?).getD false := by
  rw [isAsync, flags, List.getElem?_map]

theorem isAsync_current {sm : StateMachine} {action : Action} (h : sm.currentAction = .ok action) :
    sm.isAsync sm.nextState = action.async := by
  rw [isAsync, currentAction_ok.mp h]
  rfl

theorem nextState_lt {sm : StateMachine} {action : Action} (h : sm.currentAction = .ok action) :
    sm.nextState < sm.flags.length := by
  rw [flags, List.length_map]
  exact (List.getElem?_eq_some_iff.mp (currentAction_ok.mp h)).1

theorem flags_setAction {sm : StateMachine} {action action' : Action}
    (h : sm.currentAction = .ok action) (hasync : action'.async = action.async) :
    (sm.setAction action').flags = sm.flags := by
  apply List.ext_getElem?
  intro i
  rw [flags, flags, List.getElem?_map, List.getElem?_map]
  by_cases hi : i = sm.nextState
  · have hset : ((sm.setAction action').states.getD [])[sm.nextState]? = some action' :=
      currentAction_ok.mp (setAction_current h action')
    rw [hi, currentAction_ok.mp h, hset, Option.map_some, Option.map_some, hasync]
  · rw [setAction_of_ne hi]

/-- No action was run between the two states. -/
structure Keeps (sm sm' : StateMachine) : Prop where
  flags : sm'.flags = sm.flags
  nextState : sm'.nextState = sm.nextState
  async : sm'.asyncActionInExecution = sm.asyncActionInExecution
  ran : sm'.ran = sm.ran

/-- The current action was run between the two states. -/
structure Runs (sm sm' : StateMachine) : Prop where
  flags : sm'.flags = sm.flags
  current : sm.nextState < sm.flags.length
  nextState : sm'.nextState = if sm.isAsync sm.nextState then sm.nextState else sm.nextState + 1
  async : sm'.asyncActionInExecution = (sm.isAsync sm.nextState || sm.asyncActionInExecution)
  ran : sm'.ran = sm.ran ++ [sm.nextState]

theorem Keeps.refl (sm : StateMachine) : Keeps sm sm := ⟨rfl, rfl, rfl, rfl⟩

theorem Keeps.trans {sm sm' sm'' : StateMachine} (h : Keeps sm sm') (h' : Keeps sm' sm'') :
    Keeps sm sm'' :=
  ⟨h'.flags.trans h.flags, h'.nextState.trans h.nextState, h'.async.trans h.async,
    h'.ran.trans h.ran⟩

theorem Keeps.runs {sm sm' sm'' : StateMachine} (h : Keeps sm sm') (h' : Runs sm' sm'') :
    Runs sm sm'' := by
  obtain ⟨hflags, hcur, hnext, hasync, hran⟩ := h'
  rw [isAsync_eq, h.nextState, h.flags, ← isAsync_eq] at hnext hasync
  rw [h.nextState, h.flags] at hcur
  rw [h.ran, h.nextState] at hran
  rw [h.async] at hasync
  exact ⟨hflags.trans h.flags, hcur, hnext, hasync, hran⟩

theorem keeps_setAction {sm : StateMachine} {action action' : Action}
    (h : sm.currentAction = .ok action) (hasync : action'.async = action.async)
    (timeouts : Multiset (ℤ × String)) :
    Keeps sm { sm.setAction action' with timeouts := timeouts } :=
  ⟨flags_setAction h hasync, rfl, rfl, rfl⟩

theorem runs_runAction {sm sm' : StateMachine} {action action' : Action}
    (h : sm.currentAction = .ok action) (hasync : action'.async = action.async)
    (hrun : (sm.setAction action').runAction action' = .ok sm') : Runs sm sm' := by
  obtain ⟨timeouts, hrun'⟩ := runAction_ok (sm.setAction action') action'
  rw [← Except.ok.inj (hrun'.symm.trans hrun)]
  refine ⟨flags_setAction h hasync, nextState_lt h, ?_, ?_, rfl⟩
  · rw [isAsync_current h, ← hasync]
    rfl
  · rw [isAsync_current h, ← hasync]
    show (if action'.async then true else sm.asyncActionInExecution) = _
    cases action'.async <;> rfl

end StateMachine

open StateMachine (Keeps Runs)

/-- A round runs the current action exactly when it ends at the `break`. -/
theorem RoundEnds.progress {name : String} {loop loop' : Loop} {ended : Bool}
    (h : RoundEnds name loop loop' ended) :
    if ended then Runs loop.sm loop'.sm else Keeps loop.sm loop'.sm := by
  cases h with
  | undefined _ _ => exact Keeps.refl _
  | @unsatisfied action _ test hcur _ _ _ =>
    have hasync : (action.define name test.trigger).async = action.async := rfl
    exact StateMachine.keeps_setAction hcur hasync loop.sm.timeouts
  | @pending action _ test triggerGraph hcur _ _ _ _ _ =>
    have hasync : (action.fire name test.trigger triggerGraph).async = action.async := rfl
    exact StateMachine.keeps_setAction hcur hasync _
  | @complete action _ test triggerGraph _ hcur _ _ _ _ _ hrun =>
    have hasync : (action.fire name test.trigger triggerGraph).async = action.async := rfl
    exact StateMachine.runs_runAction hcur hasync hrun

/-- **What a notification does**: it runs no action, or it runs the current one while no
asynchronous action is in execution. -/
theorem processNotification_progress {sm sm' : StateMachine} {n : TriggerNotification}
    (h : processNotification sm n (.ok sm')) :
    sm' = sm ∨ sm.asyncActionInExecution = false ∧ (Keeps sm sm' ∨ Runs sm sm') := by
  have hall : ∀ r, processNotification sm n r → r = .ok sm' →
      sm' = sm ∨ sm.asyncActionInExecution = false ∧ (Keeps sm sm' ∨ Runs sm sm') := by
    intro r h
    cases h with
    | ignored _ => exact fun hr => Or.inl (Except.ok.inj hr).symm
    | handled hig hloop =>
      obtain ⟨_, _, hidle⟩ := StateMachine.not_ignores hig
      refine MapRange.rule (fun _ _ loop => Keeps sm loop.sm)
        (fun r => r.map Loop.sm = .ok sm' → sm' = sm ∨ sm.asyncActionInExecution = false ∧
          (Keeps sm sm' ∨ Runs sm sm')) ?_ ?_ ?_ ?_ hloop (Keeps.refl sm)
      · intro _ _ loop hkeeps _ hr
        rw [← Except.ok.inj hr]
        exact Or.inr ⟨hidle, Or.inl hkeeps⟩
      · intro _ _ loop name loop' hkeeps _ _ hbody
        exact hkeeps.trans (roundEnds_of_visit (Round.ofExcept_fell.mp hbody)).progress
      · intro _ _ loop name loop' hkeeps _ _ hbody hr
        rw [← Except.ok.inj hr]
        exact Or.inr ⟨hidle,
          Or.inr (hkeeps.runs (roundEnds_of_visit (Round.ofExcept_broke.mp hbody)).progress)⟩
      · exact fun _ _ _ _ _ _ _ _ _ hr => nomatch hr
  exact hall _ h rfl

/-! ### Runs -/

/-- What holds between two notifications. -/
structure InPlanOrder (plan : List Bool) (ex : Execution) : Prop where
  flags : ex.sm.flags = plan
  bounded : ex.sm.nextState ≤ plan.length
  current : ex.sm.asyncActionInExecution = true → ex.sm.nextState < plan.length
  unreported : ex.unreported = ex.sm.asyncActionInExecution.toNat
  ran : ex.sm.ran = List.range (ex.sm.nextState + ex.sm.asyncActionInExecution.toNat)

theorem inPlanOrder_new (actions : Option (List Action)) :
    InPlanOrder ((actions.getD []).map Action.async) (.new actions) :=
  ⟨rfl, Nat.zero_le _, nofun, rfl, rfl⟩

theorem InPlanOrder.notification {plan : List Bool} {ex : Execution} {n : TriggerNotification}
    {sm : StateMachine} (h : InPlanOrder plan ex) (hn : processNotification ex.sm n (.ok sm)) :
    InPlanOrder plan ⟨sm, ex.unreported + ex.sm.asyncStarted sm⟩ := by
  have hsame : ∀ sm', sm'.ran = ex.sm.ran → ex.sm.asyncStarted sm' = 0 := by
    intro sm' hran
    rw [StateMachine.asyncStarted, hran, List.drop_length, List.countP_nil]
  rcases processNotification_progress hn with rfl | ⟨hidle, hkeeps | hruns⟩
  · rw [hsame _ rfl]
    exact h
  · rw [hsame _ hkeeps.ran]
    obtain ⟨hflags, hnext, hasync, hran⟩ := hkeeps
    refine ⟨hflags.trans h.flags, hnext ▸ h.bounded, ?_, ?_, ?_⟩
    · intro hbusy
      exact absurd (hasync.symm.trans hbusy) (by rw [hidle]; exact Bool.false_ne_true)
    · show ex.unreported + 0 = sm.asyncActionInExecution.toNat
      rw [hasync]
      exact h.unreported
    · show sm.ran = _
      rw [hran, hnext, hasync]
      exact h.ran
  · obtain ⟨hflags, hcur, hnext, hasync, hran⟩ := hruns
    have hstarted : ex.sm.asyncStarted sm = (ex.sm.isAsync ex.sm.nextState).toNat := by
      rw [StateMachine.asyncStarted, hran, List.drop_left, List.countP_singleton]
      cases ex.sm.isAsync ex.sm.nextState <;> rfl
    have hzero := h.unreported
    have hrange := h.ran
    rw [hidle] at hasync hzero hrange
    rw [Bool.or_false] at hasync
    rw [h.flags] at hcur hflags
    rw [hstarted, hzero]
    rw [hrange] at hran
    refine ⟨hflags, ?_, ?_, ?_, ?_⟩
    · show sm.nextState ≤ plan.length
      rw [hnext]
      split <;> omega
    · intro hbusy
      show sm.nextState < plan.length
      rw [hnext, if_pos (hasync.symm.trans hbusy)]
      exact hcur
    · show 0 + _ = sm.asyncActionInExecution.toNat
      rw [hasync, Nat.zero_add]
    · show sm.ran = List.range (sm.nextState + sm.asyncActionInExecution.toNat)
      rw [hran, hnext, hasync, show false.toNat = 0 from rfl, Nat.add_zero, ← List.range_succ]
      cases ex.sm.isAsync ex.sm.nextState <;> rfl

theorem InPlanOrder.asyncDone {plan : List Bool} {ex : Execution} {unreported : ℕ}
    {sm : StateMachine} (h : InPlanOrder plan ex) (hsent : ex.unreported = unreported + 1)
    (hdone : processAsyncDone ex.sm = .ok sm) : InPlanOrder plan ⟨sm, unreported⟩ := by
  have hbusy : ex.sm.asyncActionInExecution = true := by
    have hcount := h.unreported
    cases hasync : ex.sm.asyncActionInExecution with
    | true => rfl
    | false =>
      rw [hasync] at hcount
      exact absurd (hsent.symm.trans hcount) (Nat.succ_ne_zero _)
  have hcur := h.current hbusy
  have hcount := h.unreported
  have hran := h.ran
  rw [hbusy] at hcount hran
  rw [processAsyncDone, StateMachine.advance_eq] at hdone
  rw [← Except.ok.inj hdone]
  refine ⟨h.flags, hcur, nofun, ?_, hran⟩
  have hone : unreported + 1 = 1 := hsent.symm.trans hcount
  show unreported = 0
  omega

theorem inPlanOrder_always (actions : Option (List Action)) :
    Always Execution.Step (.new actions)
      (InPlanOrder ((actions.getD []).map Action.async)) := by
  refine Always.of_invariant (inPlanOrder_new actions) fun ex ex' h hstep => ?_
  cases hstep with
  | notification hn => exact h.notification hn
  | asyncDone hsent hdone => exact h.asyncDone hsent hdone

/-- **The actions run are the first ones of the plan, in plan order and each once**: all before
`nextState`, and the one at `nextState` too while it is in execution.  One notification runs at
most one action, and none changes the actions of the plan while an asynchronous one is in
execution. -/
theorem run_in_plan_order {actions : Option (List Action)} {ex : Execution}
    (h : Relation.ReflTransGen Execution.Step (.new actions) ex) :
    ex.sm.ran = List.range (ex.sm.nextState + ex.sm.asyncActionInExecution.toNat) ∧
      ex.sm.nextState + ex.sm.asyncActionInExecution.toNat ≤ (actions.getD []).length ∧
      (ex.sm.asyncActionInExecution = true → ex.sm.nextState < (actions.getD []).length) ∧
      (∀ ex', ex.Step ex' →
        ex'.sm.ran = ex.sm.ran ∨ ex'.sm.ran = ex.sm.ran ++ [ex.sm.nextState]) ∧
      (ex.sm.asyncActionInExecution = true →
        ∀ ex', ex.Step ex' → ex'.sm.states = ex.sm.states) := by
  have hinv := inPlanOrder_always actions ex h
  have hcurrent := hinv.current
  have hbounded := hinv.bounded
  rw [List.length_map] at hcurrent hbounded
  refine ⟨hinv.ran, ?_, hcurrent, fun ex' hstep => ?_, fun hbusy ex' hstep => ?_⟩
  · cases hasync : ex.sm.asyncActionInExecution with
    | false => exact hbounded
    | true => exact hcurrent hasync
  · cases hstep with
    | notification hn =>
      rcases processNotification_progress hn with rfl | ⟨_, hkeeps | hruns⟩
      · exact Or.inl rfl
      · exact Or.inl hkeeps.ran
      · exact Or.inr hruns.ran
    | asyncDone _ hdone =>
      rw [processAsyncDone, StateMachine.advance_eq] at hdone
      rw [← Except.ok.inj hdone]
      exact Or.inl rfl
  · cases hstep with
    | notification hn =>
      rcases processNotification_progress hn with rfl | ⟨hidle, _⟩
      · rfl
      · rw [hbusy] at hidle
        cases hidle
    | asyncDone _ hdone =>
      rw [processAsyncDone, StateMachine.advance_eq] at hdone
      rw [← Except.ok.inj hdone]
      rfl

/-- After its timeout the only action, an asynchronous one, is in execution. -/
theorem run_in_plan_order_async :
    ∃ action ex, parseAction "a" [.timeout ⟨"a", 5⟩] true = .ok action ∧
      Execution.Step (.new (some [action])) ex ∧ ex.sm.asyncActionInExecution = true ∧
      ex.sm.ran = List.range (ex.sm.nextState + ex.sm.asyncActionInExecution.toNat) ∧
      ex.sm.nextState + ex.sm.asyncActionInExecution.toNat ≤ 1 ∧
      (ex.sm.asyncActionInExecution = true → ex.sm.nextState < 1) ∧
      (∀ ex', ex.Step ex' →
        ex'.sm.ran = ex.sm.ran ∨ ex'.sm.ran = ex.sm.ran ++ [ex.sm.nextState]) ∧
      (ex.sm.asyncActionInExecution = true →
        ∀ ex', ex.Step ex' → ex'.sm.states = ex.sm.states) := by
  obtain ⟨action, hparse⟩ : ∃ action, parseAction "a" [.timeout ⟨"a", 5⟩] true = .ok action :=
    ⟨_, rfl⟩
  obtain ⟨loop, hvisit, hbusy⟩ : ∃ loop, visit "a" ⟨.new (some [action]), .timeout "a"⟩ =
      .ok (loop, true) ∧ loop.sm.asyncActionInExecution = true := by
    rw [← Except.ok.inj hparse]
    exact ⟨_, rfl, rfl⟩
  have hmem : "a" ∈ Loop.toSatisfy ⟨.new (some [action]), .timeout "a"⟩ := by
    rw [← Except.ok.inj hparse]
    decide
  have hloop : LoopEnds ⟨.new (some [action]), .timeout "a"⟩ (.ok loop) :=
    .stop hmem (Finset.notMem_empty _) (Round.ofExcept_broke.mpr hvisit)
  have hstep : Execution.Step (.new (some [action])) ⟨loop.sm, _⟩ :=
    .notification (.handled (by simp [StateMachine.Ignores, StateMachine.new]) hloop)
  exact ⟨action, _, hparse, hstep, hbusy, run_in_plan_order (.single hstep)⟩

end Sieve.Server
