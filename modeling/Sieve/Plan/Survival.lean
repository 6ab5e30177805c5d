import Sieve.Library.Runs
import Sieve.Plan.ReadBack
import Sieve.Server.StateMachineSafety

/-!
# The coordinator survives the generated plans

* `CoordinatorRound`, `Survives`: runs in which the states of every notification are there;
* `SafeAction`, `Awaits.safe_round`: one round of the loop over `toSatisfy`;
* `survives_of_safe`: every run of a plan whose actions are safe;
* `generatedPlan_survives_iff`: the one kind of generated plan that ends the process.
-/

namespace Sieve.Plan

open Sieve.Event Sieve.Server Sieve.Analyzer Sieve.Policies Sieve.Trigger Sieve.Library

/-! ### Runs -/

/-- One round of the `select` in `run`. -/
inductive CoordinatorRound : Except Fatal StateMachine → Except Fatal StateMachine → Prop where
  | notification {sm : StateMachine} {n : TriggerNotification} {r : Except Fatal StateMachine}
      (hstates : n.HasStates) (h : processNotification sm n r) : CoordinatorRound (.ok sm) r
  | asyncDone {sm : StateMachine} (h : sm.asyncActionInExecution = true) :
      CoordinatorRound (.ok sm) (processAsyncDone sm)

/-- No run ends the process. -/
def Survives (actions : List Action) : Prop :=
  Always CoordinatorRound (.ok (.new (some actions))) fun r => ∃ sm, r = .ok sm

/-! ### Tests that do not fail -/

/-- The trigger has the difference that its test writes into. -/
def HasDifference : TriggerDefinition → Prop
  | .anyFieldModification t => t.prevStateDiff ≠ none
  | _ => True

theorem hasDifference_same {definition definition' : TriggerDefinition} (h : SameTrigger definition definition') :
    HasDifference definition' ↔ HasDifference definition := by
  cases h with
  | anyFieldModification t hprev =>
    have hnone := hprev.isNone
    rw [Bool.eq_iff_iff, Option.isNone_iff_eq_none, Option.isNone_iff_eq_none] at hnone
    exact not_congr hnone
  | _ => exact Iff.rfl

/-- Comparing states that are there leaves states that are there. -/
theorem isDesiredUpdate_states {prevState curState : GoMap} (hprev : prevState.isSome) (hcur : curState.isSome)
    (desiredPrev desiredCur : GoMap) (masks : Masks) (exactMatch : Bool) :
    ∃ desired prevState' curState', isDesiredUpdate prevState curState desiredPrev desiredCur masks exactMatch =
      .ok (desired, some prevState', some curState') := by
  obtain ⟨prev, rfl⟩ := Option.isSome_iff_exists.mp hprev
  obtain ⟨cur, rfl⟩ := Option.isSome_iff_exists.mp hcur
  obtain ⟨prev', hcanPrev⟩ := canonicalizeEvent_some prev masks
  obtain ⟨cur', hcanCur⟩ := canonicalizeEvent_some cur masks
  rw [isDesiredUpdate, Server.diffEvent, hcanPrev, hcanCur]
  exact ⟨_, prev', cur', rfl⟩

theorem isAnyFieldModified_states {curState prevStateDiff : GoMap} (hcur : curState.isSome)
    (hprev : prevStateDiff ≠ none) (masks : Masks) :
    ∃ modified curState' prevStateDiff', isAnyFieldModified curState prevStateDiff masks =
      .ok (modified, some curState', some prevStateDiff') := by
  obtain ⟨cur, rfl⟩ := Option.isSome_iff_exists.mp hcur
  obtain ⟨prev, rfl⟩ := Option.ne_none_iff_exists'.mp hprev
  obtain ⟨prev', hcanPrev⟩ := canonicalizeEvent_some prev masks
  obtain ⟨cur', hcanCur⟩ := canonicalizeEvent_some cur masks
  rw [isAnyFieldModified, hcanPrev, hcanCur]
  exact ⟨_, cur', prev', rfl⟩

/-- **A test does not fail**, and leaves what it needs. -/
theorem satisfy_ok {definition : TriggerDefinition} {n : TriggerNotification} (hdef : HasDifference definition)
    (hn : n.HasStates) : ∃ test, definition.satisfy n = .ok test ∧ HasDifference test.trigger ∧
      test.notification.HasStates := by
  cases definition with
  | timeout t => cases n <;> exact ⟨_, rfl, trivial, hn⟩
  | annotatedAPICall t => cases n <;> exact ⟨_, rfl, trivial, hn⟩
  | objectCreate t => cases n <;> exact ⟨_, rfl, trivial, hn⟩
  | objectDelete t => cases n <;> exact ⟨_, rfl, trivial, hn⟩
  | objectUpdate t =>
    cases n with
    | objectUpdate n =>
      obtain ⟨hprev, hcur⟩ := hn
      rw [TriggerDefinition.satisfy, ObjectUpdateTrigger.satisfy]
      cases t.covers n with
      | false => exact ⟨_, rfl, trivial, hprev, hcur⟩
      | true =>
        cases t.anyUpdate with
        | true => exact ⟨_, rfl, trivial, hprev, hcur⟩
        | false =>
          obtain ⟨desired, prevState, curState, hdesired⟩ := isDesiredUpdate_states hprev hcur t.prevStateDiff
            t.curStateDiff (n.masksToUse t.convertStateToAPIForm)
            (!(n.observedWhen == beforeAPIServerRecv || n.observedWhen == afterAPIServerRecv))
          simp only [if_true, Bool.false_eq_true, if_false, hdesired]
          cases desired <;> exact ⟨_, rfl, trivial, rfl, rfl⟩
    | _ => exact ⟨_, rfl, trivial, hn⟩
  | anyFieldModification t =>
    cases n with
    | objectUpdate n =>
      rw [TriggerDefinition.satisfy, AnyFieldModificationTrigger.satisfy]
      cases t.covers n with
      | false => exact ⟨_, rfl, hdef, hn⟩
      | true =>
        obtain ⟨modified, curState, prevStateDiff, hmodified⟩ :=
          isAnyFieldModified_states hn.2 hdef (n.masksToUse t.convertStateToAPIForm)
        rw [if_pos rfl, hmodified]
        cases modified <;> exact ⟨_, rfl, Option.some_ne_none _, hn.1, rfl⟩
    | _ => exact ⟨_, rfl, hdef, hn⟩

/-! ### Safe actions -/

/-- The definitions of an action that its tests can use. -/
def SafeDefinitions (action : Action) : Prop :=
  ∀ name definition, action.triggerDefinitions name = some definition → HasDifference definition

/-- What is defined when a trigger has been entered. -/
theorem define_eq_some {action : Action} {name name' : String} {trigger definition : TriggerDefinition}
    (h : (action.define name trigger).triggerDefinitions name' = some definition) :
    definition = trigger ∨ action.triggerDefinitions name' = some definition := by
  by_cases hname : name' = name
  · have hself : (action.define name trigger).triggerDefinitions name = some trigger := Function.update_self _ _ _
    rw [hname, hself] at h
    exact .inl (Option.some.inj h).symm
  · exact .inr ((Function.update_of_ne hname _ _).symm.trans h)

theorem SafeDefinitions.define {action : Action} (h : SafeDefinitions action) (name : String)
    {trigger : TriggerDefinition} (htrigger : HasDifference trigger) : SafeDefinitions (action.define name trigger) := by
  intro name' definition hdef
  rcases define_eq_some hdef with rfl | hold
  · exact htrigger
  · exact h name' definition hold

/-- The action belongs to an expression all of whose `|` complete it. -/
structure SafeAction (e : TriggerExpr String) (S : Finset String) (action : Action) : Prop where
  follows : Follows e S action
  orFinal : e.OrFinal
  definitions : SafeDefinitions action

/-- The action in this place, which is incomplete if its turn is still to come or now. -/
def SafeAt (sm : StateMachine) (i : ℕ) (action : Action) : Prop :=
  ∃ e S, SafeAction e S action ∧
    (sm.nextState < i ∨ sm.nextState = i ∧ sm.asyncActionInExecution = false → ¬ e.Complete S)

def SafeState (sm : StateMachine) : Prop :=
  ∀ i action, (sm.states.getD [])[i]? = some action → SafeAt sm i action

/-- Only the current action is replaced. -/
theorem SafeState.replace {sm sm' : StateMachine} (h : SafeState sm) (hnext : sm.nextState ≤ sm'.nextState)
    (hother : ∀ j, j ≠ sm.nextState → (sm'.states.getD [])[j]? = (sm.states.getD [])[j]?)
    (hhere : ∀ a, (sm'.states.getD [])[sm.nextState]? = some a → SafeAt sm' sm.nextState a) : SafeState sm' := by
  intro j a hj
  by_cases hne : j = sm.nextState
  · rw [hne] at hj ⊢
    exact hhere a hj
  · rw [hother j hne] at hj
    obtain ⟨e, S, hsafe, hinc⟩ := h j a hj
    refine ⟨e, S, hsafe, fun hlater => hinc (Or.inl ?_)⟩
    omega

/-- What the loop keeps: the action waits, and its tests do not fail. -/
structure SafeLoop (e : TriggerExpr String) (i : ℕ) (loop : Loop) : Prop where
  waits : ∃ S action, Awaits e i S action loop.sm ∧ SafeDefinitions action
  orFinal : e.OrFinal
  states : loop.notification.HasStates
  safe : SafeState loop.sm

section Round

variable {e : TriggerExpr String} {i : ℕ} {S S' : Finset String} {action action' : Action} {loop : Loop}
  {notification : TriggerNotification}

theorem SafeLoop.fell (h : SafeLoop e i loop) (hawaits : Awaits e i S action loop.sm)
    (hfollows : Follows e S' action') (hdefinitions : SafeDefinitions action') (hincomplete : ¬ e.Complete S')
    (hstates : notification.HasStates) (timeouts : Multiset (ℤ × String)) :
    SafeLoop e i ⟨{ loop.sm.setAction action' with timeouts := timeouts }, notification⟩ := by
  have hcurrent := StateMachine.setAction_current hawaits.current action'
  refine ⟨⟨S', action', ⟨hcurrent, hawaits.index, hawaits.idle, hfollows, hincomplete⟩, hdefinitions⟩, h.orFinal,
    hstates, h.safe.replace le_rfl (fun j hj => StateMachine.setAction_of_ne hj) fun a ha => ?_⟩
  rw [← Option.some.inj ((StateMachine.currentAction_ok.mp hcurrent).symm.trans ha)]
  exact ⟨e, S', ⟨hfollows, h.orFinal, hdefinitions⟩, fun _ => hincomplete⟩

/-- The action has run, so its turn is over. -/
theorem SafeLoop.broke (h : SafeLoop e i loop) (hawaits : Awaits e i S action loop.sm)
    (hfollows : Follows e S' action') (hdefinitions : SafeDefinitions action') (timeouts : Multiset (ℤ × String)) :
    SafeState { (loop.sm.setAction action').afterRun action' with timeouts := timeouts } := by
  have hcurrent := StateMachine.setAction_current hawaits.current action'
  refine h.safe.replace ?_ (fun j hj => StateMachine.setAction_of_ne hj) fun a ha => ?_
  · show loop.sm.nextState ≤ if action'.async then loop.sm.nextState else loop.sm.nextState + 1
    split <;> omega
  · rw [← Option.some.inj ((StateMachine.currentAction_ok.mp hcurrent).symm.trans ha)]
    refine ⟨e, S', ⟨hfollows, h.orFinal, hdefinitions⟩, fun hturn => ?_⟩
    replace hturn : (if action'.async then loop.sm.nextState else loop.sm.nextState + 1) < loop.sm.nextState ∨
        (if action'.async then loop.sm.nextState else loop.sm.nextState + 1) = loop.sm.nextState ∧
          (if action'.async then true else loop.sm.asyncActionInExecution) = false := hturn
    cases hasync : action'.async with
    | false =>
      rw [hasync, if_neg Bool.false_ne_true] at hturn
      rcases hturn with hlt | ⟨heq, _⟩ <;> omega
    | true =>
      rw [hasync, if_pos rfl, if_pos rfl] at hturn
      rcases hturn with hlt | ⟨_, hidle⟩
      · exact absurd hlt (lt_irrefl _)
      · cases hidle

/-- **One round does not fail**, and leaves what the loop keeps. -/
theorem SafeLoop.round (h : SafeLoop e i loop) {name : String} (hname : name ∈ loop.toSatisfy) :
    ∃ loop' broke, visit name loop = .ok (loop', broke) ∧ (broke = false → SafeLoop e i loop') ∧
      SafeState loop'.sm := by
  obtain ⟨S, action, hawaits, hdefinitions⟩ := h.waits
  rw [Loop.toSatisfy_eq hawaits.current] at hname
  have hvisit := hawaits.visited hname
  have htests : ∀ definition, action.triggerDefinitions name = some definition → ∃ test,
      definition.satisfy loop.notification = .ok test ∧ SafeDefinitions (action.define name test.trigger) ∧
        test.notification.HasStates := by
    intro definition hdef
    obtain ⟨test, htest, htrigger, hstates⟩ := satisfy_ok (hdefinitions name definition hdef) h.states
    exact ⟨test, htest, hdefinitions.define name htrigger, hstates⟩
  generalize visit name loop = r at hvisit
  cases hvisit with
  | undefined hdef => exact ⟨loop, false, rfl, fun _ => h, h.safe⟩
  | testFails hdef htest =>
    obtain ⟨test, hok, _⟩ := htests _ hdef
    rw [hok] at htest
    cases htest
  | clash hdef htest hanswer hclash =>
    exact absurd hclash (TriggerExpr.not_clash_insert hawaits.follows.wellNamed.distinct h.orFinal
      hawaits.incomplete hawaits.follows.reflects.clear name)
  | @unsatisfied definition test hdef htest hanswer =>
    obtain ⟨test', hok, hdefinitions', hstates⟩ := htests _ hdef
    rw [Except.ok.inj (hok.symm.trans htest)] at hdefinitions' hstates
    have hloop : SafeLoop e i ⟨loop.sm.setAction (action.define name test.trigger), test.notification⟩ :=
      h.fell hawaits (hawaits.follows.define hdef _) hdefinitions' hawaits.incomplete hstates loop.sm.timeouts
    exact ⟨_, false, rfl, fun _ => hloop, hloop.safe⟩
  | @pending _ _ _ timeouts hdef htest hanswer htrigger hreflects hincomplete =>
    obtain ⟨test', hok, hdefinitions', hstates⟩ := htests _ hdef
    rw [Except.ok.inj (hok.symm.trans htest)] at hdefinitions' hstates
    have hloop := h.fell hawaits (hawaits.follows.fire hdef _ hreflects) hdefinitions' hincomplete hstates timeouts
    exact ⟨_, false, rfl, fun _ => hloop, hloop.safe⟩
  | complete hdef htest hanswer htrigger hreflects hcomplete =>
    obtain ⟨test', hok, hdefinitions', hstates⟩ := htests _ hdef
    rw [Except.ok.inj (hok.symm.trans htest)] at hdefinitions' hstates
    exact ⟨_, true, rfl, nofun, h.broke hawaits (hawaits.follows.fire hdef _ hreflects) hdefinitions' _⟩

end Round

/-! ### Safe plans -/

theorem processNotification_safe {sm : StateMachine} {n : TriggerNotification} {r : Except Fatal StateMachine}
    (h : SafeState sm) (hstates : n.HasStates) (hrun : processNotification sm n r) :
    ∃ sm', r = .ok sm' ∧ SafeState sm' := by
  cases hrun with
  | ignored _ => exact ⟨sm, rfl, h⟩
  | handled hig hloop =>
    obtain ⟨action, hcurrent, hidle⟩ := StateMachine.not_ignores hig
    obtain ⟨e, S, hsafe, hincomplete⟩ := h _ action (StateMachine.currentAction_ok.mp hcurrent)
    have hstart : SafeLoop e sm.nextState ⟨sm, n⟩ :=
      ⟨⟨S, action, ⟨hcurrent, rfl, hidle, hsafe.follows, hincomplete (.inr ⟨rfl, hidle⟩)⟩, hsafe.definitions⟩,
        hsafe.orFinal, hstates, h⟩
    refine MapRange.rule (fun _ _ loop => SafeLoop e sm.nextState loop)
      (fun r => ∃ sm', r.map Loop.sm = .ok sm' ∧ SafeState sm') ?_ ?_ ?_ ?_ hloop hstart
    · exact fun _ _ loop hloop _ => ⟨loop.sm, rfl, hloop.safe⟩
    · intro _ _ loop name loop' hloop hname _ hbody
      obtain ⟨loop'', broke, hvisit, hsafe, _⟩ := hloop.round hname
      rw [Round.ofExcept_fell, hvisit] at hbody
      obtain ⟨rfl, rfl⟩ := Prod.mk.inj (Except.ok.inj hbody)
      exact hsafe rfl
    · intro _ _ loop name loop' hloop hname _ hbody
      obtain ⟨loop'', broke, hvisit, _, hsafe⟩ := hloop.round hname
      rw [Round.ofExcept_broke, hvisit] at hbody
      obtain ⟨rfl, rfl⟩ := Prod.mk.inj (Except.ok.inj hbody)
      exact ⟨_, rfl, hsafe⟩
    · intro _ _ loop name er hloop hname _ hbody
      obtain ⟨loop'', broke, hvisit, _⟩ := hloop.round hname
      rw [Round.ofExcept_failed, hvisit] at hbody
      cases hbody

theorem processAsyncDone_safe {sm : StateMachine} (h : SafeState sm) :
    ∃ sm', processAsyncDone sm = .ok sm' ∧ SafeState sm' := by
  obtain ⟨timeouts, hadvance⟩ := StateMachine.advance_ok { sm with asyncActionInExecution := false }
  refine ⟨_, hadvance, h.replace (Nat.le_succ _) (fun _ _ => rfl) fun a ha => ?_⟩
  obtain ⟨e, S, hsafe, _⟩ := h _ a ha
  refine ⟨e, S, hsafe, fun hturn => ?_⟩
  rcases hturn with hlt | ⟨heq, _⟩
  · exact absurd hlt (Nat.not_lt.mpr (Nat.le_succ _))
  · exact absurd heq (Nat.succ_ne_self _)

/-- **Every run of a plan whose actions are safe** goes on. -/
theorem survives_of_safe {actions : List Action} (h : ∀ action ∈ actions, ∃ e, SafeAction e ∅ action) :
    Survives actions := by
  have hsafe : Always CoordinatorRound (.ok (.new (some actions))) fun r => ∃ sm, r = .ok sm ∧ SafeState sm := by
    refine .of_invariant ⟨_, rfl, fun i action hi => ?_⟩ fun r r' hr hround => ?_
    · obtain ⟨e, hsafe⟩ := h action (List.mem_of_getElem? hi)
      exact ⟨e, ∅, hsafe, fun _ => TriggerExpr.not_complete_of_untouched fun a _ => Finset.notMem_empty a⟩
    · obtain ⟨sm, rfl, hsm⟩ := hr
      cases hround with
      | notification hstates hrun => exact processNotification_safe hsm hstates hrun
      | asyncDone _ => exact processAsyncDone_safe hsm
  exact hsafe.mono fun r ⟨sm, hr, _⟩ => ⟨sm, hr⟩

/-! ### Generated plans -/

/-- The expression and the names of an intended action are in order. -/
structure IntendedAction.InOrder (intended : IntendedAction) : Prop where
  wellNamed : intended.expression.WellNamed
  orFinal : intended.expression.OrFinal
  names : ∀ definition ∈ intended.definitions, OperatorFree definition.getTriggerName

theorem inOrder_name {name : String} (h : OperatorFree name) {kind : ActionKind} {waitBefore waitAfter : ℤ}
    {async : Bool} {definition : TriggerDefinition} (hdef : definition.getTriggerName = name) :
    IntendedAction.InOrder ⟨kind, waitBefore, waitAfter, async, .literal name, [definition]⟩ := by
  refine ⟨⟨fun n hn => ?_, List.nodup_singleton name⟩, trivial, fun d hd => ?_⟩
  · rw [List.mem_singleton.mp hn]
    exact h
  · rw [List.mem_singleton.mp hd, hdef]
    exact h

theorem nextTriggers_names (hear : ControllerHear) :
    (nextTriggers hear).map TriggerDefinition.getTriggerName = ["trigger2", "trigger3"] := by
  rw [nextTriggers]
  cases hear.etype <;> rfl

theorem either_wellNamed : (TriggerExpr.node .or (.literal "trigger2") (.literal "trigger3")).WellNamed :=
  ⟨by decide, by decide⟩

theorem intendedActions_inOrder (context : PlanContext) (selection : Selection) :
    ∀ intended ∈ intendedActions context selection, intended.InOrder := by
  cases selection with
  | write write =>
    refine List.forall_mem_singleton.mpr (inOrder_name (by decide) ?_)
    rw [controllerWriteTrigger]
    cases write.etype <;> rfl
  | call call => exact List.forall_mem_singleton.mpr (inOrder_name (by decide) rfl)
  | unobserved hear =>
    refine List.forall_mem_cons.mpr ⟨inOrder_name (by decide) ?_, List.forall_mem_singleton.mpr
      ⟨either_wellNamed, ⟨trivial, trivial⟩, fun definition hdef => ?_⟩⟩
    · rw [unobservedStateTrigger]
      cases hear.etype <;> rfl
    · have hname := List.mem_map_of_mem (f := TriggerDefinition.getTriggerName) hdef
      rw [nextTriggers_names] at hname
      exact either_wellNamed.operatorFree _ hname
  | stale hear write pauseTiming =>
    refine List.forall_mem_cons.mpr ⟨inOrder_name (by decide) ?_, List.forall_mem_cons.mpr
      ⟨inOrder_name (by decide) rfl, List.forall_mem_singleton.mpr (inOrder_name (by decide) rfl)⟩⟩
    rw [hearTrigger]
    cases hear.etype <;> rfl

theorem Realizes.follows {intended : IntendedAction} {planned : PlannedAction} (h : Realizes intended planned)
    (horder : intended.InOrder) : Follows intended.expression ∅ planned.action := by
  refine ⟨horder.wellNamed, h.graph, fun name hname => ?_⟩
  have hrel := h.definitions name
  cases hdef : definitionTable intended.definitions name with
  | none =>
    rw [hdef] at hrel
    exact absurd (rel_none hrel) hname
  | some definition =>
    obtain ⟨hmem, rfl⟩ := definitionTable_mem hdef
    exact horder.names definition hmem

theorem Realizes.safe {intended : IntendedAction} {planned : PlannedAction} (h : Realizes intended planned)
    (horder : intended.InOrder) (hdifferences : ∀ definition ∈ intended.definitions, HasDifference definition) :
    SafeAction intended.expression ∅ planned.action := by
  refine ⟨h.follows horder, horder.orFinal, fun name definition' hdef' => ?_⟩
  have hrel := h.definitions name
  rw [hdef'] at hrel
  cases hdef : definitionTable intended.definitions name with
  | none =>
    rw [hdef] at hrel
    cases hrel
  | some definition =>
    rw [hdef] at hrel
    cases hrel with
    | some hsame => exact (hasDifference_same hsame).mpr (hdifferences definition (definitionTable_mem hdef).1)

/-- An update in which nothing has changed is to be left unobserved. -/
def Selection.WithoutDifference : Selection → Prop
  | .unobserved hear => hear.etype.isCreationOrDeletion = false ∧ hear.slimPrevObjMap = none ∧
      hear.slimCurObjMap = none
  | _ => False

/-- The two differences are made together. -/
def Selection.Paired : Selection → Prop
  | .unobserved hear => hear.slimPrevObjMap = none ↔ hear.slimCurObjMap = none
  | _ => True

theorem roundedMap_eq_none {m : GoMap} : roundedMap m = none ↔ m = none := Option.map_eq_none_iff

theorem withoutDifference_rounded {selection : Selection} :
    selection.rounded.WithoutDifference ↔ selection.WithoutDifference := by
  cases selection with
  | unobserved hear =>
    exact and_congr_right fun _ => and_congr roundedMap_eq_none roundedMap_eq_none
  | _ => exact Iff.rfl

theorem Selection.Paired.rounded {selection : Selection} (h : selection.Paired) : selection.rounded.Paired := by
  cases selection with
  | unobserved hear => exact roundedMap_eq_none.trans (Iff.trans h roundedMap_eq_none.symm)
  | _ => exact trivial

theorem intendedActions_differences (context : PlanContext) {selection : Selection} (hpaired : selection.Paired)
    (h : ¬ selection.WithoutDifference) :
    ∀ intended ∈ intendedActions context selection, ∀ definition ∈ intended.definitions,
      HasDifference definition := by
  have hhear : ∀ hear convertStateToAPIForm observedWhen observedBy,
      HasDifference (hearTrigger hear convertStateToAPIForm observedWhen observedBy) := by
    intro hear convertStateToAPIForm observedWhen observedBy
    rw [hearTrigger]
    cases hear.etype <;> exact trivial
  cases selection with
  | write write =>
    refine List.forall_mem_singleton.mpr (List.forall_mem_singleton.mpr ?_)
    rw [controllerWriteTrigger]
    cases write.etype <;> exact trivial
  | call call => exact List.forall_mem_singleton.mpr (List.forall_mem_singleton.mpr trivial)
  | unobserved hear =>
    refine List.forall_mem_cons.mpr ⟨List.forall_mem_singleton.mpr ?_, List.forall_mem_singleton.mpr ?_⟩
    · rw [unobservedStateTrigger_eq]
      exact hhear _ _ _ _
    · have hcur : hear.etype.isCreationOrDeletion = false → hear.slimCurObjMap ≠ none :=
        fun hetype hnone => h ⟨hetype, hpaired.mpr hnone, hnone⟩
      show ∀ definition ∈ nextTriggers hear, HasDifference definition
      rw [nextTriggers]
      cases hetype : hear.etype with
      | added | deleted => exact List.forall_mem_cons.mpr ⟨trivial, List.forall_mem_singleton.mpr trivial⟩
      | _ =>
        exact List.forall_mem_cons.mpr ⟨hcur (by rw [hetype]; rfl), List.forall_mem_singleton.mpr trivial⟩
  | stale hear write pauseTiming =>
    refine List.forall_mem_cons.mpr ⟨List.forall_mem_singleton.mpr (hhear _ _ _ _), List.forall_mem_cons.mpr
      ⟨List.forall_mem_singleton.mpr trivial, List.forall_mem_singleton.mpr (List.forall_mem_singleton.mpr trivial)⟩⟩

/-- The actions of a plan, as the state machine has them. -/
def actionsOf (planned : List PlannedAction) : List Action := planned.map PlannedAction.action

theorem survives_of_differences (context : PlanContext) {selection : Selection} (hpaired : selection.Paired)
    (h : ¬ selection.WithoutDifference) {planned : List PlannedAction}
    (hplanned : List.Forall₂ Realizes (intendedActions context selection) planned) :
    Survives (actionsOf planned) := by
  have horder := intendedActions_inOrder context selection
  have hdifferences := intendedActions_differences context hpaired h
  refine survives_of_safe (List.forall_mem_map.mpr ?_)
  generalize intendedActions context selection = intended at hplanned horder hdifferences
  induction hplanned with
  | nil => exact List.forall_mem_nil _
  | cons hrealizes _ ih =>
    rw [List.forall_mem_cons] at horder hdifferences
    exact List.forall_mem_cons.mpr ⟨⟨_, hrealizes.safe horder.1 hdifferences.1⟩, ih horder.2 hdifferences.2⟩

/-! ### The plan that ends the process -/

theorem follows_awaits {e : TriggerExpr String} {action : Action} (h : Follows e ∅ action) {sm : StateMachine}
    (hcurrent : sm.currentAction = .ok action) (hidle : sm.asyncActionInExecution = false) :
    Awaits e sm.nextState ∅ action sm :=
  ⟨hcurrent, rfl, hidle, h, TriggerExpr.not_complete_of_untouched fun a _ => Finset.notMem_empty a⟩

/-- A trigger that completes the expression ends the loop. -/
theorem awaits_runs {e : TriggerExpr String} {i : ℕ} {S : Finset String} {action : Action} {loop : Loop}
    {name : String} (h : Awaits e i S action loop.sm) (hof : e.OrFinal)
    (hname : name ∈ action.triggerGraph.toSatisfy) {definition : TriggerDefinition} {test : Test}
    (hdef : action.triggerDefinitions name = some definition)
    (htest : definition.satisfy loop.notification = .ok test) (hanswer : test.answer = true)
    (hcomplete : e.Complete (insert name S)) :
    ∃ action' timeouts, action'.async = action.async ∧ visit name loop =
      .ok (⟨{ (loop.sm.setAction action').afterRun action' with timeouts := timeouts }, test.notification⟩, true) := by
  have hvisit := h.visited hname
  generalize visit name loop = r at hvisit
  cases hvisit with
  | undefined hdef' =>
    rw [hdef'] at hdef
    cases hdef
  | testFails hdef' htest' =>
    rw [Option.some.inj (hdef'.symm.trans hdef), htest] at htest'
    cases htest'
  | unsatisfied hdef' htest' hanswer' =>
    rw [Option.some.inj (hdef'.symm.trans hdef), htest] at htest'
    rw [← Except.ok.inj htest', hanswer] at hanswer'
    cases hanswer'
  | clash _ _ _ hclash =>
    exact absurd hclash (TriggerExpr.not_clash_insert h.follows.wellNamed.distinct hof h.incomplete
      h.follows.reflects.clear name)
  | pending _ _ _ _ _ hincomplete => exact absurd hcomplete hincomplete
  | @complete _ _ triggerGraph timeouts hdef' htest' _ _ _ _ =>
    rw [Option.some.inj (hdef'.symm.trans hdef), htest] at htest'
    rw [← Except.ok.inj htest']
    exact ⟨action.fire name test.trigger triggerGraph, timeouts, rfl, rfl⟩

/-- The update of an object whose states are empty. -/
def emptyUpdate (resourceKey observedWhen : String) : TriggerNotification :=
  .objectUpdate ⟨resourceKey, observedWhen, "informer", some [], some [], ⟨∅, ∅⟩, ⟨∅, ∅⟩⟩

theorem awaits_pending {e : TriggerExpr String} {i : ℕ} {S : Finset String} {action : Action} {sm : StateMachine}
    (h : Awaits e i S action sm) {name : String} (henabled : name ∈ e.enabled S) (hname : name ∉ S) :
    name ∈ action.triggerGraph.toSatisfy :=
  ((h.follows.reflects.pending_iff h.follows.wellNamed name).mpr ⟨henabled, hname⟩).1

theorem anyUpdate_test (name resourceKey : String) (occurrence : ℤ) (observedWhen : String) :
    (TriggerDefinition.objectUpdate ⟨name, resourceKey, none, none, false, occurrence, 0, observedWhen,
      "informer"⟩).satisfy (emptyUpdate resourceKey observedWhen) = .ok ⟨true, .objectUpdate ⟨name, resourceKey,
        none, none, false, occurrence, 0, observedWhen, "informer"⟩, emptyUpdate resourceKey observedWhen⟩ := by
  simp only [emptyUpdate, TriggerDefinition.satisfy, ObjectUpdateTrigger.satisfy, ObjectUpdateTrigger.covers,
    ObjectUpdateTrigger.anyUpdate, beq_self_eq_true, Bool.and_self, if_true, Option.isNone_none]
  rfl

theorem noDifference_test (name resourceKey : String) (occurrence : ℤ) (observedWhen : String) :
    (TriggerDefinition.anyFieldModification ⟨name, resourceKey, none, false, occurrence, 0, observedWhen,
      "informer"⟩).satisfy (emptyUpdate resourceKey observedWhen) = .error .nilMapAssignment := by
  simp only [emptyUpdate, TriggerDefinition.satisfy, AnyFieldModificationTrigger.satisfy,
    AnyFieldModificationTrigger.covers, beq_self_eq_true, Bool.and_self, if_true]
  rfl

/-- The trigger of the pause, with nothing to compare. -/
theorem pause_trigger {hear : ControllerHear} (h : (Selection.unobserved hear).WithoutDifference)
    {planned : PlannedAction} {kind : ActionKind} {waitBefore waitAfter : ℤ} {async : Bool}
    {expression : TriggerExpr String} (hrealizes : Realizes ⟨kind, waitBefore, waitAfter, async, expression,
      [unobservedStateTrigger hear]⟩ planned) :
    planned.action.triggerDefinitions "trigger1" = some (.objectUpdate ⟨"trigger1", hear.key, none, none, false,
      hear.signatureCounter, 0, beforeControllerRecv, "informer"⟩) := by
  obtain ⟨hetype, hprev, hcur⟩ := h
  have htrigger : unobservedStateTrigger hear = .objectUpdate ⟨"trigger1", hear.key, none, none, false,
      hear.signatureCounter, 0, beforeControllerRecv, "informer"⟩ := by
    rw [unobservedStateTrigger, hprev, hcur]
    cases hhear : hear.etype with
    | added | deleted =>
      rw [hhear] at hetype
      cases hetype
    | _ => rfl
  have hrel := hrealizes.definitions "trigger1"
  rw [htrigger] at hrel
  obtain ⟨definition, hdef, hsame⟩ := rel_some (x := TriggerDefinition.objectUpdate _) hrel
  cases hsame with
  | objectUpdate t hprev hcur => rw [hdef, hprev.eq_none, hcur.eq_none]

/-- The trigger of the resumption, without the difference it writes into. -/
theorem resume_trigger {hear : ControllerHear} (h : (Selection.unobserved hear).WithoutDifference)
    {planned : PlannedAction} {kind : ActionKind} {waitBefore waitAfter : ℤ} {async : Bool}
    {expression : TriggerExpr String} (hrealizes : Realizes ⟨kind, waitBefore, waitAfter, async, expression,
      nextTriggers hear⟩ planned) :
    planned.action.triggerDefinitions "trigger2" = some (.anyFieldModification ⟨"trigger2", hear.key, none, false,
      1, 0, afterControllerRecv, "informer"⟩) := by
  obtain ⟨hetype, hprev, hcur⟩ := h
  have htriggers : nextTriggers hear =
      [.anyFieldModification ⟨"trigger2", hear.key, none, false, 1, 0, afterControllerRecv, "informer"⟩,
        .objectDelete ⟨"trigger3", hear.key, 1, 0, afterControllerRecv, "informer"⟩] := by
    rw [nextTriggers, hcur]
    cases hhear : hear.etype with
    | added | deleted =>
      rw [hhear] at hetype
      cases hetype
    | _ => rfl
  have hrel := hrealizes.definitions "trigger2"
  rw [htriggers] at hrel
  obtain ⟨definition, hdef, hsame⟩ := rel_some (x := TriggerDefinition.anyFieldModification _) hrel
  cases hsame with
  | anyFieldModification t hprev => rw [hdef, hprev.eq_none]

/-- Any update of the object pauses the controller, and the next one ends the process. -/
theorem not_survives_of_withoutDifference (context : PlanContext) {hear : ControllerHear}
    (h : (Selection.unobserved hear).WithoutDifference) {planned : List PlannedAction}
    (hplanned : List.Forall₂ Realizes (intendedActions context (.unobserved hear)) planned) :
    ¬ Survives (actionsOf planned) := by
  have horder := intendedActions_inOrder context (.unobserved hear)
  rw [intendedActions, List.forall_mem_cons, List.forall_mem_singleton] at horder
  rw [intendedActions] at hplanned
  obtain _ | @⟨_, pause, _, _, hpause, _ | @⟨_, resume, _, _, hresume, _ | _⟩⟩ := hplanned
  intro hsurvives
  -- the first update completes the expression of the pause
  have hpaused : Awaits (.literal "trigger1") 0 ∅ pause.action (.new (some (actionsOf [pause, resume]))) :=
    @follows_awaits _ _ (hpause.follows horder.1) (.new (some (actionsOf [pause, resume]))) rfl rfl
  have hpending := awaits_pending hpaused (Finset.mem_singleton_self _) (Finset.notMem_empty "trigger1")
  have htest := anyUpdate_test "trigger1" hear.key hear.signatureCounter beforeControllerRecv
  obtain ⟨action, timeouts, hasync, hvisit⟩ := @awaits_runs _ _ _ _
    ⟨.new (some (actionsOf [pause, resume])), emptyUpdate hear.key beforeControllerRecv⟩ _ hpaused trivial hpending
    _ _ (pause_trigger h hpause) htest rfl (Finset.mem_insert_self _ _)
  rw [hpause.async] at hasync
  have hnext : processNotification (.new (some (actionsOf [pause, resume])))
      (emptyUpdate hear.key beforeControllerRecv)
      (.ok ⟨some [action, resume.action], 1, false, timeouts, [0]⟩) := by
    have hloop : LoopEnds ⟨.new (some (actionsOf [pause, resume])), emptyUpdate hear.key beforeControllerRecv⟩
        (.ok ⟨⟨some [action, resume.action], 1, false, timeouts, [0]⟩, emptyUpdate hear.key beforeControllerRecv⟩) := by
      refine .stop hpending (Finset.notMem_empty _) (Round.ofExcept_broke.mpr ?_)
      rw [hvisit, StateMachine.afterRun, hasync]
      rfl
    exact .handled hpaused.not_ignores hloop
  -- the second is tested against a difference that is not there
  have hresumed : Awaits (.node .or (.literal "trigger2") (.literal "trigger3")) 1 ∅ resume.action
      ⟨some [action, resume.action], 1, false, timeouts, [0]⟩ :=
    @follows_awaits _ _ (hresume.follows horder.2) ⟨some [action, resume.action], 1, false, timeouts, [0]⟩ rfl rfl
  have hpending' := @awaits_pending _ _ _ _ _ hresumed "trigger2" (by decide) (Finset.notMem_empty _)
  have hends : processNotification ⟨some [action, resume.action], 1, false, timeouts, [0]⟩
      (emptyUpdate hear.key afterControllerRecv) (.error .nilMapAssignment) := by
    have hloop : LoopEnds ⟨⟨some [action, resume.action], 1, false, timeouts, [0]⟩,
        emptyUpdate hear.key afterControllerRecv⟩ (.error .nilMapAssignment) := by
      refine .fail hpending' (Finset.notMem_empty _) (Round.ofExcept_failed.mpr ?_)
      exact visit_testFails hresumed.current (resume_trigger h hresume) (noDifference_test _ _ _ _)
    exact .handled hresumed.not_ignores hloop
  have hstates : ∀ observedWhen, (emptyUpdate hear.key observedWhen).HasStates := fun _ => ⟨rfl, rfl⟩
  obtain ⟨sm, hsm⟩ := hsurvives _ ((Relation.ReflTransGen.single (.notification (hstates _) hnext)).tail
    (.notification (hstates _) hends))
  cases hsm

/-- **A generated plan that is read ends the process in some run** exactly if it is for an update in which nothing
has changed. -/
theorem generatedPlan_survives_iff (context : PlanContext) {selection : Selection}
    (h : selection.Readable context) (hpaired : selection.Paired) :
    ∃ planned, parseTestPlan (generateTestPlan context selection) = .ok (some planned) ∧
      (Survives (actionsOf planned) ↔ ¬ selection.WithoutDifference) := by
  obtain ⟨planned, hparse, hrealizes⟩ := parseTestPlan_generateTestPlan context h
  rw [← withoutDifference_rounded]
  refine ⟨planned, hparse, fun hsurvives hwithout => ?_, fun hdifference =>
    survives_of_differences context hpaired.rounded hdifference hrealizes⟩
  cases selection with
  | unobserved hear => exact not_survives_of_withoutDifference context hwithout hrealizes hsurvives
  | _ => exact hwithout

/-- The hear of a pod whose phase has changed. -/
def phaseHear : ControllerHear where
  id := 0
  etype := .updated
  rtype := "pod"
  objNamespace := "default"
  name := "p"
  objMap := []
  prevEtype := some .added
  slimPrevObjMap := some [("phase", .str "Pending")]
  slimCurObjMap := some [("phase", .str "Running")]
  cancelledBy := [1]
  signatureCounter := 1

theorem phaseHear_readable : ReadableDiff false phaseHear.slimPrevObjMap ∧ ReadableDiff false phaseHear.slimCurObjMap := by
  have hdiff : ∀ phase, ReadableDiff false (some [("phase", .str phase)]) := by
    refine fun phase => ⟨⟨fun fields heq => ?_, ?_, ?_⟩, nofun⟩
    · rw [← Option.some.inj heq]
      exact .obj (List.nodup_singleton _) (List.forall_mem_singleton.mpr (.scalar trivial))
    · exact .obj (List.forall_mem_singleton.mpr (.scalar trivial nofun))
    · rw [mapText, inRange_obj_iff, List.forall_mem_singleton, inRange_str]
  exact ⟨hdiff _, hdiff _⟩

theorem generatedPlan_survives_iff_phase : ∃ planned,
    parseTestPlan (generateTestPlan ⟨"recreate", "sonar", "kind-control-plane", "kind-control-plane3", []⟩
      (.unobserved phaseHear)) = .ok (some planned) ∧
      (Survives (actionsOf planned) ↔ ¬ (Selection.unobserved phaseHear).WithoutDifference) :=
  generatedPlan_survives_iff _ phaseHear_readable ⟨nofun, nofun⟩

/-! ### Selected events -/

theorem detectable_difference {hear : ControllerHear} (h : detectableHearDiff hear.slimPrevObjMap hear.slimCurObjMap
    hear.prevEtype hear.etype hear.signatureCounter = .ok true) : ¬ (Selection.unobserved hear).WithoutDifference := by
  rintro ⟨hetype, hprev, hcur⟩
  rw [hprev, hcur, detectableHearDiff] at h
  split at h
  · cases h
  · obtain ⟨_, _, h⟩ := bind_ok_iff.mp h
    split at h
    · cases h
    · cases hhear : hear.etype with
      | added | deleted =>
        rw [hhear] at hetype
        cases hetype
      | _ =>
        rw [hhear] at h
        cases h

theorem detectablePass_difference {testContext : TestContext} {vertices candidates : List HearVertex}
    (h : unobservedStateDetectablePass testContext vertices = .ok candidates) :
    ∀ vertex ∈ candidates, vertex ∈ vertices ∧ ¬ (Selection.unobserved vertex.content).WithoutDifference := by
  induction vertices generalizing candidates with
  | nil =>
    rw [← Except.ok.inj h]
    exact List.forall_mem_nil _
  | cons vertex vertices ih =>
    replace ih : ∀ candidates, unobservedStateDetectablePass testContext vertices = .ok candidates →
        ∀ vertex' ∈ candidates, vertex' ∈ vertex :: vertices ∧
          ¬ (Selection.unobserved vertex'.content).WithoutDifference :=
      fun _ hrest vertex' hmem => (ih hrest vertex' hmem).imp_left (List.mem_cons_of_mem vertex)
    rw [unobservedStateDetectablePass] at h
    split at h
    · exact ih _ h
    · obtain ⟨detectable, hdetectable, h⟩ := bind_ok_iff.mp h
      obtain ⟨candidates', hrest, h⟩ := bind_ok_iff.mp h
      rw [← Except.ok.inj h]
      cases detectable with
      | false => exact ih _ hrest
      | true =>
        exact List.forall_mem_cons.mpr ⟨⟨List.mem_cons_self, detectable_difference hdetectable⟩, ih _ hrest⟩

/-- **With the pruning of nondeterministic events, every plan for an unobserved event survives.** -/
theorem selectedPlans_survive (context : PlanContext) {testContext : TestContext}
    (hpruning : testContext.nondeterministicPruningEnabled = true) {vertices candidates : List HearVertex}
    (hanalysis : unobservedStateAnalysis testContext vertices = .ok candidates)
    (hvertices : ∀ vertex ∈ vertices, (Selection.unobserved vertex.content).Readable context ∧
      (Selection.unobserved vertex.content).Paired) :
    ∀ vertex ∈ candidates, ∃ planned,
      parseTestPlan (generateTestPlan context (.unobserved vertex.content)) = .ok (some planned) ∧
        Survives (actionsOf planned) := by
  intro vertex hmem
  rw [unobservedStateAnalysis, hpruning, if_pos rfl] at hanalysis
  obtain ⟨hselected, hdifference⟩ := detectablePass_difference hanalysis vertex hmem
  have hvertex : vertex ∈ vertices := by
    refine List.mem_of_mem_filter (p := fun vertex => !vertex.content.cancelledBy.isEmpty) ?_
    split at hselected
    · exact List.mem_of_mem_filter hselected
    · exact hselected
  obtain ⟨hreadable, hpaired⟩ := hvertices vertex hvertex
  obtain ⟨planned, hparse, hrealizes⟩ := parseTestPlan_generateTestPlan context hreadable
  exact ⟨planned, hparse, survives_of_differences context hpaired.rounded
    (withoutDifference_rounded.not.mpr hdifference) hrealizes⟩

/-- The first event is overwritten, and no key is ignored. -/
theorem selectedPlans_survive_phase : ∃ planned,
    parseTestPlan (generateTestPlan ⟨"recreate", "sonar", "kind-control-plane", "kind-control-plane3", []⟩
      (.unobserved phaseHear)) = .ok (some planned) ∧ Survives (actionsOf planned) := by
  have hanalysis : unobservedStateAnalysis ⟨true, true, true, fun _ => some (.obj [])⟩ [⟨phaseHear, true⟩] =
      .ok [⟨phaseHear, true⟩] := rfl
  have hvertices : ∀ vertex ∈ [(⟨phaseHear, true⟩ : HearVertex)],
      (Selection.unobserved vertex.content).Readable
        ⟨"recreate", "sonar", "kind-control-plane", "kind-control-plane3", []⟩ ∧
          (Selection.unobserved vertex.content).Paired :=
    List.forall_mem_singleton.mpr ⟨phaseHear_readable, nofun, nofun⟩
  exact selectedPlans_survive _ rfl hanalysis hvertices ⟨phaseHear, true⟩ (List.mem_singleton_self _)

end Sieve.Plan
