import Sieve.Server.Timers

/-!
# Is a timer started for every enabled timeout trigger?

`setTimeoutForTimeoutTriggers` is called when a trigger has been satisfied and when the state
machine has moved on to its next action, but not when the state machine is created.

* `TimersStarted.fresh`, `TimersStarted.kept`: after a call every enabled timeout trigger has a
  timer, and the triggers that were enabled before keep theirs;
* `Follows.toSatisfy_of_complete`: the trigger that completes an action enables no other, so the state machine
  need not start timers when an asynchronous action begins;
* `timers_started_iff`: every enabled timeout trigger has a timer in every run exactly when the
  first action has no timeout trigger enabled from its start.
-/

namespace Sieve.Server

open Sieve.Library Sieve.Trigger

/-- Every timeout trigger in `toSatisfy` of the current action has had a timer started for it since
it became enabled. -/
def TimersStarted (sm : StateMachine) (timers : Timers) : Prop :=
  ∀ action, sm.currentAction = .ok action → ∀ name ∈ action.triggerGraph.toSatisfy,
    ∀ t, action.triggerDefinitions name = some (.timeout t) →
      ∃ timer ∈ timers.started, timer.action = sm.nextState ∧ timer.name = t.name ∧
        timer.timeoutValue = t.timeoutValue ∧
        ∃ since, timers.enabledAt name = some since ∧ since ≤ timer.started

/-! ### The three ways in which timers are kept -/

section Record

variable {sm sm' : StateMachine} {timers : Timers} {time now : ℚ}

theorem TimersStarted.fresh (hnew : sm'.timeouts = sm.timeouts + sm'.timers)
    (hpast : timers.Past now) (htime : now ≤ time) :
    TimersStarted sm' (timers.record sm sm' time) := by
  intro action hcur name hname t hdef
  obtain ⟨since, hsince⟩ : ∃ since, (timers.record sm sm' time).enabledAt name = some since := by
    apply enabledAt_record
    rw [StateMachine.toSatisfy_eq hcur]
    exact hname
  have hmem : (t.timeoutValue, t.name) ∈ sm'.timers := by
    rw [StateMachine.timers_eq hcur]
    exact Action.mem_timers.mpr ⟨name, hname, hdef⟩
  refine ⟨⟨sm'.nextState, t.name, t.timeoutValue, time⟩, ?_, rfl, rfl, rfl, since, hsince,
    hpast.record htime name since hsince⟩
  exact Multiset.mem_add.mpr (Or.inr ((mem_startedTimers hnew).mpr ⟨rfl, hmem, rfl⟩))

theorem TimersStarted.kept (h : TimersStarted sm timers) (hnext : sm'.nextState = sm.nextState)
    (hsub : ∀ action', sm'.currentAction = .ok action' → ∃ action, sm.currentAction = .ok action ∧
      ∀ name ∈ action'.triggerGraph.toSatisfy, ∀ t,
        action'.triggerDefinitions name = some (.timeout t) →
        name ∈ action.triggerGraph.toSatisfy ∧
          action.triggerDefinitions name = some (.timeout t)) :
    TimersStarted sm' (timers.record sm sm' time) := by
  intro action' hcur' name hname t hdef
  obtain ⟨action, hcur, hsub⟩ := hsub action' hcur'
  obtain ⟨hname, hdef⟩ := hsub name hname t hdef
  obtain ⟨timer, hmem, haction, hrest, hvalue, since, hsince, hle⟩ := h action hcur name hname t hdef
  refine ⟨timer, Multiset.mem_add.mpr (Or.inl hmem), haction.trans hnext.symm, hrest, hvalue,
    since, enabledSince_kept hnext hsince, hle⟩

end Record

/-! ### A round -/

/-- A test leaves the timeout triggers of the action as they are. -/
theorem Action.define_timeout {action : Action} {name : String} {definition : TriggerDefinition}
    {n : TriggerNotification} {test : Test} (hdef : action.triggerDefinitions name = some definition)
    (htest : definition.satisfy n = .ok test) (key : String) (t : TimeoutTrigger) :
    (action.define name test.trigger).triggerDefinitions key = some (.timeout t) ↔
      action.triggerDefinitions key = some (.timeout t) := by
  show Function.update _ _ _ _ = _ ↔ _
  by_cases hkey : key = name
  · rw [hkey, Function.update_self, hdef, Option.some_inj, Option.some_inj]
    exact satisfy_timeout_iff htest t
  · rw [Function.update_of_ne hkey]

/-- **The trigger that completes an action enables no other.** -/
theorem Follows.toSatisfy_of_complete {e : TriggerExpr String} {S : Finset String} {action : Action}
    {name : String} {triggerGraph : TriggerGraph} (h : Follows e S action)
    (htrigger : action.triggerGraph.trigger name = .ok triggerGraph)
    (hinc : ¬ e.Complete S) (hfull : triggerGraph.fullyTriggered = .ok true) {key : String}
    (hkey : key ∈ triggerGraph.toSatisfy) (hdef' : action.triggerDefinitions key ≠ none) :
    key ∈ action.triggerGraph.toSatisfy := by
  obtain ⟨hen, hfresh⟩ := h.reflects.of_trigger_ok h.wellNamed htrigger
  have hfire := h.reflects.trigger h.wellNamed hen hfresh
  have hclear : ¬ e.Clash (insert name S) := by
    intro hclash
    obtain ⟨n, hn⟩ := hfire.1 hclash
    rw [hn] at htrigger
    cases htrigger
  obtain ⟨tg, htrigger', hreflects, _⟩ := hfire.2 hclear
  rw [← Except.ok.inj (htrigger.symm.trans htrigger')] at hreflects
  have hc : e.Complete (insert name S) := by
    have hfull' := (hreflects.fullyTriggered h.wellNamed).symm.trans hfull
    exact of_decide_eq_true (Except.ok.inj hfull')
  obtain ⟨hen', hfresh'⟩ := hreflects.enabled h.wellNamed hkey (h.names key hdef')
  have henS := TriggerExpr.enabled_of_completes h.wellNamed.distinct hinc hc hen'
  exact ((h.reflects.pending_iff h.wellNamed key).mpr
    ⟨henS, fun hS => hfresh' (Finset.mem_insert_of_mem hS)⟩).1

theorem RoundEnds.timersStarted {e : TriggerExpr String} {i : ℕ} {S : Finset String}
    {action : Action} {name : String} {loop loop' : Loop} {ended : Bool} {timers : Timers}
    {now done : ℚ} (hround : RoundEnds name loop loop' ended) (hawaits : Awaits e i S action loop.sm)
    (h : TimersStarted loop.sm timers) (hpast : timers.Past now) (hdone : now ≤ done) :
    TimersStarted loop'.sm (timers.record loop.sm loop'.sm (if ended then done else now)) := by
  cases hround with
  | undefined _ _ => exact h.kept rfl fun action hcur => ⟨action, hcur, fun _ hn _ hd => ⟨hn, hd⟩⟩
  | unsatisfied hcur hdef htest _ =>
    refine h.kept rfl fun action' hcur' => ⟨_, hcur, ?_⟩
    rw [StateMachine.setAction_current hcur] at hcur'
    rw [← Except.ok.inj hcur']
    exact fun key hkey t hd => ⟨hkey, (Action.define_timeout hdef htest key t).mp hd⟩
  | @pending action _ test triggerGraph hcur _ _ _ _ _ =>
    refine TimersStarted.fresh ?_ hpast le_rfl
    have hcur' := StateMachine.setAction_current hcur (action.fire name test.trigger triggerGraph)
    exact congrArg (loop.sm.timeouts + ·) (StateMachine.timers_eq hcur').symm
  | @complete action' definition test triggerGraph sm hcur hdef htest _ htrigger hfull hrun =>
    rw [Except.ok.inj (hcur.symm.trans hawaits.current)] at hdef htrigger hrun
    rw [StateMachine.runAction] at hrun
    split at hrun
    · rw [StateMachine.advance_eq] at hrun
      rw [← Except.ok.inj hrun]
      exact TimersStarted.fresh rfl hpast hdone
    · rw [← Except.ok.inj hrun]
      refine h.kept rfl fun action'' hcur'' => ⟨action, hawaits.current, ?_⟩
      have hsame := (StateMachine.setAction_current hawaits.current _).symm.trans hcur''
      rw [← Except.ok.inj hsame]
      intro key hkey t hd
      have hd' := (Action.define_timeout hdef htest key t).mp hd
      refine ⟨hawaits.follows.toSatisfy_of_complete htrigger hawaits.incomplete hfull hkey ?_, hd'⟩
      rw [hd']
      exact fun h => by cases h

/-! ### Runs -/

/-- What every step keeps. -/
def KeepsTimers (c : TimedMachine) : Prop :=
  TimersStarted c.sm c.timers ∧ c.timers.Past c.now

theorem Handles.keepsTimers {c c' : TimedMachine} {n : TriggerNotification} (hhealthy : Healthy c.sm)
    (h : KeepsTimers c) (hstep : Handles c n c') : KeepsTimers c' := by
  cases hstep with
  | ignored _ => exact h
  | @handled tl done hig hdone hloop =>
    obtain ⟨e, S, action, hawaits⟩ := hhealthy.awaits hig
    have hall := MapRange.rule
      (fun _ _ (tl : TimedLoop) => TimersStarted tl.loop.sm tl.timers ∧ tl.timers.Past c.now ∧
        ∃ S action, Awaits e c.sm.nextState S action tl.loop.sm)
      (fun r => ∀ tl, r = .ok tl → KeepsTimers ⟨tl.loop.sm, done, tl.timers⟩)
      ?_ ?_ ?_ ?_ hloop ⟨h.1, h.2, S, action, hawaits⟩
    · exact hall tl rfl
    · intro _ _ tl ⟨hstarted, hpast, _⟩ _ tl' hr
      rw [← Except.ok.inj hr]
      exact ⟨hstarted, fun name since hsince => (hpast name since hsince).trans hdone⟩
    · intro _ _ tl name tl' ⟨hstarted, hpast, S, action, hawaits⟩ hname _ hbody
      obtain ⟨hvisit, htimers⟩ := timedVisit_ok.mp (Round.ofExcept_fell.mp hbody)
      have hround := (roundEnds_of_visit hvisit).timersStarted hawaits hstarted hpast hdone
      rw [if_neg Bool.false_ne_true] at hround htimers
      rw [Loop.toSatisfy_eq hawaits.current] at hname
      have hvisited := hawaits.visited hname
      rw [hvisit] at hvisited
      obtain ⟨S', action', _, hawaits', _⟩ := hawaits.of_fell hvisited
      rw [htimers]
      exact ⟨hround, hpast.record le_rfl, S', action', hawaits'⟩
    · intro _ _ tl name tl' ⟨hstarted, hpast, S, action, hawaits⟩ _ _ hbody tl'' hr
      obtain ⟨hvisit, htimers⟩ := timedVisit_ok.mp (Round.ofExcept_broke.mp hbody)
      have hround := (roundEnds_of_visit hvisit).timersStarted hawaits hstarted hpast hdone
      rw [if_pos rfl] at hround htimers
      rw [← Except.ok.inj hr, htimers]
      exact ⟨hround, hpast.record hdone⟩
    · exact fun _ _ _ _ _ _ _ _ _ _ hr => nomatch hr

theorem TimedStep.keepsTimers {c c' : TimedMachine} (hhealthy : Healthy c.sm) (h : KeepsTimers c)
    (hstep : TimedStep c c') : KeepsTimers c' := by
  cases hstep with
  | tick hlater => exact ⟨h.1, fun name since hsince => (h.2 name since hsince).trans hlater⟩
  | stateNotification _ hstep => exact hstep.keepsTimers hhealthy h
  | @timeoutNotification timer _ _ _ hstep =>
    exact Handles.keepsTimers (c := c.take timer) hhealthy h hstep
  | asyncDone _ hdone =>
    rw [processAsyncDone, StateMachine.advance_eq] at hdone
    rw [← Except.ok.inj hdone]
    exact ⟨TimersStarted.fresh rfl h.2 le_rfl, h.2.record le_rfl⟩

/-- No timer is started when the state machine is created. -/
theorem not_timersStarted_new {actions : Option (List Action)} {action : Action}
    (haction : action ∈ (actions.getD []).head?) {name : String}
    (hname : name ∈ action.triggerGraph.toSatisfy) {t : TimeoutTrigger}
    (hdef : action.triggerDefinitions name = some (.timeout t)) :
    ¬ TimersStarted (.new actions) (TimedMachine.new actions).timers := by
  intro h
  have hcur : (StateMachine.new actions).currentAction = .ok action := by
    rw [StateMachine.currentAction_ok, ← haction, List.head?_eq_getElem?]
    rfl
  obtain ⟨timer, hmem, _⟩ := h action hcur name hname t hdef
  exact Multiset.notMem_zero timer hmem

/-- **Every enabled timeout trigger has a timer exactly when the first action has no timeout
trigger that is enabled from its start.** -/
theorem timers_started_iff {actions : Option (List Action)} (hplan : WellFormedPlan actions) :
    (Always TimedStep (.new actions) fun c => TimersStarted c.sm c.timers) ↔
      ∀ action ∈ (actions.getD []).head?, ∀ name ∈ action.triggerGraph.toSatisfy,
        ∀ t, action.triggerDefinitions name ≠ some (.timeout t) := by
  constructor
  · exact fun h action haction name hname t hdef =>
      not_timersStarted_new haction hname hdef h.initial
  · intro hfirst
    have hinit : KeepsTimers (.new actions) := by
      constructor
      · intro action hcur name hname t hdef
        rw [StateMachine.currentAction_ok] at hcur
        refine absurd hdef (hfirst action ?_ name hname t)
        rw [List.head?_eq_getElem?]
        exact hcur
      · intro name since hsince
        replace hsince : (if name ∈ _ then some (0 : ℚ) else none) = some since := hsince
        split at hsince
        · exact (Option.some.inj hsince).symm.le
        · cases hsince
    have hall := Always.and_of_invariant (timed_reachable actions) hinit
      fun c c' hreach h hstep => hstep.keepsTimers (healthy_of_reachable hplan hreach) h
    exact hall.mono fun c h => h.2.1

/-- In `a;b` the timeout trigger `b` is enabled later, by a creation. -/
theorem timers_started_iff_seq :
    ∃ action, parseAction "a;b" [createTrigger "a" "x" 0, .timeout ⟨"b", 5⟩] false = .ok action ∧
      ((Always TimedStep (.new (some [action])) fun c => TimersStarted c.sm c.timers) ↔
        ∀ first ∈ ((some [action]).getD []).head?, ∀ name ∈ first.triggerGraph.toSatisfy,
          ∀ t, first.triggerDefinitions name ≠ some (.timeout t)) := by
  obtain ⟨action, hparse⟩ : ∃ action,
      parseAction "a;b" [createTrigger "a" "x" 0, .timeout ⟨"b", 5⟩] false = .ok action := ⟨_, rfl⟩
  refine ⟨action, hparse, timers_started_iff ?_⟩
  intro action' haction
  rw [List.mem_singleton.mp haction]
  exact ⟨"a;b", ["a", "b"], _, false, .binary .seq (.name (n := "a") (by decide) (by decide))
    (.name (n := "b") (by decide) (by decide)), by decide, by decide, hparse⟩

/-- **A first action that waits for a timeout only** has no timer. -/
theorem first_timeout_never_started :
    ∃ action, parseAction "a" [.timeout ⟨"a", 5⟩] false = .ok action ∧
      WellFormedPlan (some [action]) ∧
      ¬ Always TimedStep (.new (some [action])) fun c => TimersStarted c.sm c.timers := by
  obtain ⟨action, hparse⟩ : ∃ action, parseAction "a" [.timeout ⟨"a", 5⟩] false = .ok action :=
    ⟨_, rfl⟩
  refine ⟨action, hparse, fun action' haction => ?_, fun h => ?_⟩
  · rw [List.mem_singleton.mp haction]
    exact ⟨"a", ["a"], _, false, .name (n := "a") (by decide) (by decide), by decide, by decide,
      hparse⟩
  · have hname : "a" ∈ action.triggerGraph.toSatisfy := by
      rw [← Except.ok.inj hparse]
      decide
    have hdef : action.triggerDefinitions "a" = some (.timeout ⟨"a", 5⟩) := by
      rw [← Except.ok.inj hparse]
      rfl
    exact not_timersStarted_new rfl hname hdef h.initial

end Sieve.Server
