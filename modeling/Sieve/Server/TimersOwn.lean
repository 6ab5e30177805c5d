import Sieve.Server.TimersStarted

/-!
# Is a timeout trigger only satisfied by its own timer?

Timers are never cancelled and their notifications carry only the name of a trigger.

* `SatisfiesTimeout`, `satisfiesTimeout_iff`: a notification satisfies a timeout trigger;
* `OwnTimers`: what is known of the waiting timers; `OwnTimers.record` keeps it;
* `own_timer_iff`: timeout triggers are satisfied by timers of their own action only, in every run,
  exactly when no timer of an earlier action ever waits under the name of an enabled timeout
  trigger.
-/

namespace Sieve.Server

open Sieve.Library Sieve.Trigger

/-- Every action of the plan is parsed. -/
def ParsedPlan (actions : Option (List Action)) : Prop :=
  ∀ action ∈ actions.getD [], ∃ exp definitions async,
    parseAction exp definitions async = .ok action

/-- A round of the loop over `toSatisfy` finds the timeout trigger `t` under `name`, and its test
says yes. -/
def SatisfiesTimeout (sm : StateMachine) (n : TriggerNotification) (name : String)
    (t : TimeoutTrigger) : Prop :=
  ¬ sm.Ignores ∧ ∃ loop action test,
    Produces Loop.toSatisfy (fun name loop => .ofExcept (visit name loop)) ∅ ⟨sm, n⟩ name loop ∧
    loop.sm.currentAction = .ok action ∧ action.triggerDefinitions name = some (.timeout t) ∧
    (TriggerDefinition.timeout t).satisfy loop.notification = .ok test ∧ test.answer = true

/-- The `select` may take this notification next; it is the one of a timer, or of none. -/
inductive Takes (c : TimedMachine) : TriggerNotification → Option Timer → Prop where
  | state {n : TriggerNotification} (hn : ∀ conditionName, n ≠ .timeout conditionName) :
      Takes c n none
  | timer {timer : Timer} (hwaits : timer ∈ c.timers.waiting)
      (hdue : timer.started + timer.timeoutValue ≤ c.now) :
      Takes c (.timeout timer.name) (some timer)

/-- A timeout trigger is satisfied only by a timer that was started for its action, and no earlier
than its timeout value after it became enabled. -/
def OwnTimer (c : TimedMachine) : Prop :=
  ∀ n origin, Takes c n origin → ∀ name t, SatisfiesTimeout c.sm n name t →
    ∃ timer, origin = some timer ∧ timer.action = c.sm.nextState ∧
      ∃ since, c.timers.enabledAt name = some since ∧ since + t.timeoutValue ≤ c.now

/-- No timer of an earlier action waits under the name of an enabled timeout trigger. -/
def NoLeftover (c : TimedMachine) : Prop :=
  ∀ timer ∈ c.timers.waiting, timer.action < c.sm.nextState → ¬ c.sm.Ignores →
    ∀ action, c.sm.currentAction = .ok action → timer.name ∈ action.triggerGraph.toSatisfy →
      ∀ t, action.triggerDefinitions timer.name ≠ some (.timeout t)

/-! ### Which timeout triggers a notification satisfies -/

/-- Only a timeout trigger of its name says yes to a timeout notification. -/
theorem timeout_of_answer {definition : TriggerDefinition} {conditionName : String} {test : Test}
    (h : definition.satisfy (.timeout conditionName) = .ok test) (hanswer : test.answer = true) :
    ∃ t, definition = .timeout t ∧ t.name = conditionName := by
  cases definition with
  | timeout t =>
    rw [← Except.ok.inj h] at hanswer
    exact ⟨t, rfl, (eq_of_beq hanswer).symm⟩
  | _ =>
    rw [← Except.ok.inj h] at hanswer
    cases hanswer

theorem timeout_satisfy_iff {t : TimeoutTrigger} {n : TriggerNotification} :
    (∃ test, (TriggerDefinition.timeout t).satisfy n = .ok test ∧ test.answer = true) ↔
      n = .timeout t.name := by
  constructor
  · rintro ⟨test, htest, hanswer⟩
    cases n with
    | timeout conditionName =>
      rw [← Except.ok.inj htest] at hanswer
      rw [eq_of_beq hanswer]
    | _ =>
      rw [← Except.ok.inj htest] at hanswer
      cases hanswer
  · rintro rfl
    exact ⟨_, rfl, beq_self_eq_true t.name⟩

/-- The timeout triggers are defined under their names. -/
def Action.NamesTimeouts (action : Action) : Prop :=
  ∀ key t, action.triggerDefinitions key = some (.timeout t) → t.name = key

/-- The timeout triggers of the two actions are the same. -/
def Action.SameTimeouts (action action' : Action) : Prop :=
  ∀ key t, action'.triggerDefinitions key = some (.timeout t) ↔
    action.triggerDefinitions key = some (.timeout t)

theorem Action.NamesTimeouts.of_same {action action' : Action} (h : action.NamesTimeouts)
    (hsame : action.SameTimeouts action') : action'.NamesTimeouts :=
  fun key t hdef => h key t ((hsame key t).mp hdef)

/-- The rounds before the one in question leave the timeout triggers, and all of `toSatisfy` unless
the trigger of this name was in it. -/
theorem satisfiesTimeout_iff {sm : StateMachine} {n : TriggerNotification} {name : String}
    {t : TimeoutTrigger} {action : Action} (hcur : sm.currentAction = .ok action)
    (hnames : action.NamesTimeouts) :
    SatisfiesTimeout sm n name t ↔ ¬ sm.Ignores ∧ n = .timeout name ∧
      name ∈ action.triggerGraph.toSatisfy ∧
      action.triggerDefinitions name = some (.timeout t) := by
  constructor
  · rintro ⟨hig, loop, action', test, hproduces, hcur', hdef, htest, hanswer⟩
    have hn := timeout_satisfy_iff.mp ⟨test, htest, hanswer⟩
    have hinv := hproduces.rule (fun loop => ∃ action', loop.sm.currentAction = .ok action' ∧
      action.SameTimeouts action' ∧
      (∀ m, loop.notification = .timeout m ↔ n = .timeout m) ∧
      (∀ m, n = .timeout m → m ∈ action.triggerGraph.toSatisfy ∨
        action'.triggerGraph.toSatisfy = action.triggerGraph.toSatisfy)) ?_
      ⟨action, hcur, fun _ _ => Iff.rfl, fun _ => Iff.rfl, fun _ _ => Or.inr rfl⟩
    · obtain ⟨⟨action'', hcur'', hsame, hkind, hsat⟩, hmem⟩ := hinv
      rw [← Except.ok.inj (hcur'.symm.trans hcur'')] at hsame hsat
      have hdef' := (hsame name t).mp hdef
      have hname := hnames name t hdef'
      rw [hname] at hn
      have hn' := (hkind name).mp hn
      refine ⟨hig, hn', ?_, hdef'⟩
      rcases hsat name hn' with hmem' | heq
      · exact hmem'
      · rw [Loop.toSatisfy_eq hcur', heq] at hmem
        exact hmem
    · rintro loop key loop' ⟨action', hcur', hsame, hkind, hsat⟩ hkey hbody
      have hround := roundEnds_of_visit (Round.ofExcept_fell.mp hbody)
      cases hround with
      | undefined _ _ => exact ⟨action', hcur', hsame, hkind, hsat⟩
      | unsatisfied hcur'' hdef htest _ =>
        rw [Except.ok.inj (hcur''.symm.trans hcur')] at hdef ⊢
        refine ⟨_, StateMachine.setAction_current hcur' _, fun key t => ?_, fun m => ?_, hsat⟩
        · exact (Action.define_timeout hdef htest key t).trans (hsame key t)
        · exact (satisfy_notification_iff htest m).trans (hkind m)
      | pending hcur'' hdef htest hanswer _ _ =>
        rw [Except.ok.inj (hcur''.symm.trans hcur')] at hdef ⊢
        refine ⟨_, StateMachine.setAction_current hcur' _, fun key t => ?_, fun m => ?_,
          fun m hm => ?_⟩
        · exact (Action.define_timeout hdef htest key t).trans (hsame key t)
        · exact (satisfy_notification_iff htest m).trans (hkind m)
        · -- only a timeout trigger of this name can have said yes
          refine Or.inl ?_
          rw [(hkind m).mpr hm] at htest
          obtain ⟨t', rfl, hm'⟩ := timeout_of_answer htest hanswer
          have hkey' : m = key := hm'.symm.trans (hnames key t' ((hsame key t').mp hdef))
          rw [hkey']
          rcases hsat m hm with hmem | heq
          · exact hkey' ▸ hmem
          · rw [Loop.toSatisfy_eq hcur', heq] at hkey
            exact hkey
  · rintro ⟨hig, rfl, hmem, hdef⟩
    have hname := hnames name t hdef
    obtain ⟨test, htest, hanswer⟩ := timeout_satisfy_iff.mpr
      (show TriggerNotification.timeout name = .timeout t.name by rw [hname])
    refine ⟨hig, _, action, test, .here ?_ (Finset.notMem_empty name), hcur, hdef, htest, hanswer⟩
    rw [Loop.toSatisfy_eq hcur]
    exact hmem

/-! ### What is known of the waiting timers -/

/-- The timeout triggers of every action are defined under their names. -/
def NamesTimeouts (sm : StateMachine) : Prop :=
  ∀ (i : ℕ) (action : Action), (sm.states.getD [])[i]? = some action → action.NamesTimeouts

/-- What one step does to the timeouts. -/
structure Rearms (sm sm' : StateMachine) : Prop where
  names : NamesTimeouts sm → NamesTimeouts sm'
  added : ∃ new, sm'.timeouts = sm.timeouts + new ∧ ∀ timeout ∈ new, timeout ∈ sm'.timers
  stays : sm.nextState < sm'.nextState ∨ sm'.nextState = sm.nextState ∧
    ∀ action', sm'.currentAction = .ok action' →
      ∃ action, sm.currentAction = .ok action ∧ action.SameTimeouts action'

/-- The waiting timers were started for actions up to the current one; those for the current one
were started for its timeout triggers, after they became enabled. -/
structure OwnTimers (sm : StateMachine) (timers : Timers) : Prop where
  earlier : ∀ timer ∈ timers.waiting, timer.action ≤ sm.nextState
  defined : ∀ timer ∈ timers.waiting, timer.action = sm.nextState →
    ∀ action, sm.currentAction = .ok action →
      action.triggerDefinitions timer.name = some (.timeout ⟨timer.name, timer.timeoutValue⟩)
  enabled : ∀ timer ∈ timers.waiting, timer.action = sm.nextState →
    ∃ since, timers.enabledAt timer.name = some since ∧ since ≤ timer.started

theorem Rearms.names_of_set {sm : StateMachine} {action action' : Action}
    (hcur : sm.currentAction = .ok action) (hsame : action.SameTimeouts action')
    (h : NamesTimeouts sm) : NamesTimeouts (sm.setAction action') := by
  intro i a hi
  by_cases hne : i = sm.nextState
  · have hset : ((sm.setAction action').states.getD [])[sm.nextState]? = some action' :=
      StateMachine.currentAction_ok.mp (StateMachine.setAction_current hcur action')
    rw [hne, hset] at hi
    rw [← Option.some.inj hi]
    exact (h _ action (StateMachine.currentAction_ok.mp hcur)).of_same hsame
  · rw [StateMachine.setAction_of_ne hne] at hi
    exact h i a hi

theorem rearms_next (sm : StateMachine) :
    Rearms sm { sm.next with timeouts := sm.timeouts + sm.next.timers } :=
  ⟨id, ⟨_, rfl, fun _ h => h⟩, Or.inl (Nat.lt_succ_self _)⟩

theorem RoundEnds.rearms {name : String} {loop loop' : Loop} {ended : Bool}
    (h : RoundEnds name loop loop' ended) : Rearms loop.sm loop'.sm := by
  cases h with
  | undefined hcur _ =>
    exact ⟨id, ⟨0, (Multiset.add_zero _).symm, by simp⟩,
      Or.inr ⟨rfl, fun action h => ⟨action, h, fun _ _ => Iff.rfl⟩⟩⟩
  | @unsatisfied action definition test hcur hdef htest _ =>
    have hsame : action.SameTimeouts (action.define name test.trigger) :=
      Action.define_timeout hdef htest
    refine ⟨Rearms.names_of_set hcur hsame, ⟨0, (Multiset.add_zero _).symm, by simp⟩,
      Or.inr ⟨rfl, fun action' hcur' => ⟨action, hcur, ?_⟩⟩⟩
    rw [StateMachine.setAction_current hcur] at hcur'
    rw [← Except.ok.inj hcur']
    exact hsame
  | @pending action definition test triggerGraph hcur hdef htest _ _ _ =>
    have hsame : action.SameTimeouts (action.fire name test.trigger triggerGraph) :=
      Action.define_timeout hdef htest
    have hcur' := StateMachine.setAction_current hcur (action.fire name test.trigger triggerGraph)
    refine ⟨Rearms.names_of_set hcur hsame, ⟨_, rfl, fun timeout hmem => ?_⟩,
      Or.inr ⟨rfl, fun action' hcur'' => ⟨action, hcur, ?_⟩⟩⟩
    · rw [← StateMachine.timers_eq hcur'] at hmem
      exact hmem
    · rw [← Except.ok.inj (hcur'.symm.trans hcur'')]
      exact hsame
  | @complete action definition test triggerGraph sm hcur hdef htest _ _ _ hrun =>
    have hsame : action.SameTimeouts (action.fire name test.trigger triggerGraph) :=
      Action.define_timeout hdef htest
    have hcur' := StateMachine.setAction_current hcur (action.fire name test.trigger triggerGraph)
    rw [StateMachine.runAction] at hrun
    split at hrun
    · rw [StateMachine.advance_eq] at hrun
      rw [← Except.ok.inj hrun]
      exact ⟨Rearms.names_of_set hcur hsame, ⟨_, rfl, fun _ h => h⟩, Or.inl (Nat.lt_succ_self _)⟩
    · rw [← Except.ok.inj hrun]
      refine ⟨Rearms.names_of_set hcur hsame, ⟨0, (Multiset.add_zero _).symm, by simp⟩,
        Or.inr ⟨rfl, fun action' hcur'' => ⟨action, hcur, ?_⟩⟩⟩
      rw [← Except.ok.inj (hcur'.symm.trans hcur'')]
      exact hsame

/-- **A step keeps what is known of the waiting timers.** -/
theorem OwnTimers.record {sm sm' : StateMachine} {timers : Timers} {now time : ℚ}
    (h : OwnTimers sm timers) (hrearms : Rearms sm sm') (hnames : NamesTimeouts sm')
    (hpast : timers.Past now) (htime : now ≤ time) :
    OwnTimers sm' (timers.record sm sm' time) := by
  obtain ⟨_, ⟨new, hnew, hsub⟩, hstays⟩ := hrearms
  have hle : sm.nextState ≤ sm'.nextState := by
    rcases hstays with hlt | ⟨heq, _⟩
    · exact hlt.le
    · exact heq.ge
  -- a timer started in this step
  have hfresh : ∀ timer ∈ startedTimers sm sm' time, timer.action = sm'.nextState ∧
      (∀ action, sm'.currentAction = .ok action →
        action.triggerDefinitions timer.name = some (.timeout ⟨timer.name, timer.timeoutValue⟩)) ∧
      ∃ since, (timers.record sm sm' time).enabledAt timer.name = some since ∧
        since ≤ timer.started := by
    intro timer hmem
    obtain ⟨haction, hmem, hstarted⟩ := (mem_startedTimers hnew).mp hmem
    have hmem' := hsub _ hmem
    cases hcur : sm'.currentAction with
    | error e =>
      rw [StateMachine.timers, hcur] at hmem'
      exact absurd hmem' (Multiset.notMem_zero _)
    | ok action =>
      rw [StateMachine.timers_eq hcur] at hmem'
      obtain ⟨key, hkey, hdef⟩ := Action.mem_timers.mp hmem'
      have hname : timer.name = key :=
        hnames _ action (StateMachine.currentAction_ok.mp hcur) key _ hdef
      refine ⟨haction, fun action' hcur' => ?_, ?_⟩
      · rw [← Except.ok.inj hcur', hname]
        rw [hname] at hdef
        exact hdef
      · have hsat : timer.name ∈ sm'.toSatisfy := by
          rw [StateMachine.toSatisfy_eq hcur, hname]
          exact hkey
        obtain ⟨since, hsince⟩ := @enabledAt_record sm sm' timers time timer.name hsat
        refine ⟨since, hsince, ?_⟩
        rw [hstarted]
        exact hpast.record htime _ since hsince
  -- a timer of before that was started for the action that is still current
  have hold : ∀ timer ∈ timers.waiting, timer.action = sm'.nextState →
      sm'.nextState = sm.nextState ∧ ∀ action', sm'.currentAction = .ok action' →
        ∃ action, sm.currentAction = .ok action ∧ action.SameTimeouts action' := by
    intro timer hmem haction
    have hearlier := h.earlier timer hmem
    rcases hstays with hlt | hstays
    · omega
    · exact hstays
  refine ⟨fun timer hmem => ?_, fun timer hmem haction action' hcur' => ?_,
    fun timer hmem haction => ?_⟩
  · rcases Multiset.mem_add.mp hmem with hmem | hmem
    · exact (h.earlier timer hmem).trans hle
    · exact (hfresh timer hmem).1.le
  · rcases Multiset.mem_add.mp hmem with hmem | hmem
    · obtain ⟨hnext, hsame⟩ := hold timer hmem haction
      obtain ⟨action, hcur, hsame⟩ := hsame action' hcur'
      exact (hsame _ _).mpr (h.defined timer hmem (haction.trans hnext) action hcur)
    · exact (hfresh timer hmem).2.1 action' hcur'
  · rcases Multiset.mem_add.mp hmem with hmem | hmem
    · obtain ⟨hnext, _⟩ := hold timer hmem haction
      obtain ⟨since, hsince, hle⟩ := h.enabled timer hmem (haction.trans hnext)
      exact ⟨since, enabledSince_kept hnext hsince, hle⟩
    · exact (hfresh timer hmem).2.2

/-! ### Runs -/

/-- What every step keeps. -/
structure TimersKept (c : TimedMachine) : Prop where
  names : NamesTimeouts c.sm
  own : OwnTimers c.sm c.timers
  past : c.timers.Past c.now

theorem TimersKept.take {c : TimedMachine} (h : TimersKept c) (timer : Timer) :
    TimersKept (c.take timer) := by
  have hsub : ∀ timer' ∈ c.timers.waiting.erase timer, timer' ∈ c.timers.waiting :=
    fun timer' hmem => Multiset.mem_of_mem_erase hmem
  exact ⟨h.names, ⟨fun t hmem => h.own.earlier t (hsub t hmem),
    fun t hmem => h.own.defined t (hsub t hmem), fun t hmem => h.own.enabled t (hsub t hmem)⟩,
    h.past⟩

theorem Handles.timersKept {c c' : TimedMachine} {n : TriggerNotification} (hstep : Handles c n c')
    (h : TimersKept c) : TimersKept c' := by
  cases hstep with
  | ignored _ => exact h
  | @handled tl done hig hdone hloop =>
    have hall := MapRange.rule
      (fun _ _ (tl : TimedLoop) => TimersKept ⟨tl.loop.sm, c.now, tl.timers⟩)
      (fun r => ∀ tl, r = .ok tl → TimersKept ⟨tl.loop.sm, done, tl.timers⟩) ?_ ?_ ?_ ?_ hloop h
    · exact hall tl rfl
    · intro _ _ tl h _ tl' hr
      rw [← Except.ok.inj hr]
      exact ⟨h.names, h.own, fun name since hsince => (h.past name since hsince).trans hdone⟩
    · intro _ _ tl name tl' h _ _ hbody
      obtain ⟨hvisit, htimers⟩ := timedVisit_ok.mp (Round.ofExcept_fell.mp hbody)
      have hrearms := (roundEnds_of_visit hvisit).rearms
      rw [if_neg Bool.false_ne_true] at htimers
      rw [htimers]
      exact ⟨hrearms.names h.names, h.own.record hrearms (hrearms.names h.names) h.past le_rfl,
        h.past.record le_rfl⟩
    · intro _ _ tl name tl' h _ _ hbody tl'' hr
      obtain ⟨hvisit, htimers⟩ := timedVisit_ok.mp (Round.ofExcept_broke.mp hbody)
      have hrearms := (roundEnds_of_visit hvisit).rearms
      rw [if_pos rfl] at htimers
      rw [← Except.ok.inj hr, htimers]
      exact ⟨hrearms.names h.names, h.own.record hrearms (hrearms.names h.names) h.past hdone,
        h.past.record hdone⟩
    · exact fun _ _ _ _ _ _ _ _ _ _ hr => nomatch hr

theorem TimedStep.timersKept {c c' : TimedMachine} (hstep : TimedStep c c') (h : TimersKept c) :
    TimersKept c' := by
  cases hstep with
  | tick hlater =>
    exact ⟨h.names, h.own, fun name since hsince => (h.past name since hsince).trans hlater⟩
  | stateNotification _ hstep => exact hstep.timersKept h
  | timeoutNotification _ _ hstep => exact hstep.timersKept (h.take _)
  | asyncDone _ hdone =>
    rw [processAsyncDone, StateMachine.advance_eq] at hdone
    rw [← Except.ok.inj hdone]
    have hrearms := rearms_next { c.sm with asyncActionInExecution := false }
    have hown : OwnTimers { c.sm with asyncActionInExecution := false } c.timers :=
      ⟨h.own.earlier, h.own.defined, h.own.enabled⟩
    exact ⟨h.names, hown.record hrearms h.names h.past le_rfl, h.past.record le_rfl⟩

theorem timersKept_always {actions : Option (List Action)} (hplan : ParsedPlan actions) :
    Always TimedStep (.new actions) TimersKept := by
  refine Always.of_invariant ?_ fun c c' h hstep => hstep.timersKept h
  refine ⟨fun i action hi key t hdef => ?_, ⟨by simp [TimedMachine.new], by simp [TimedMachine.new],
    by simp [TimedMachine.new]⟩, fun name since hsince => ?_⟩
  · obtain ⟨exp, definitions, async, hparse⟩ := hplan action (List.mem_of_getElem? hi)
    obtain ⟨_, _, hparse⟩ := bind_ok_iff.mp hparse
    obtain ⟨_, _, hparse⟩ := bind_ok_iff.mp hparse
    rw [← Except.ok.inj hparse] at hdef
    exact (definitionTable_mem hdef).2
  · replace hsince : (if name ∈ _ then some (0 : ℚ) else none) = some since := hsince
    split at hsince
    · exact (Option.some.inj hsince).symm.le
    · cases hsince

/-- A timer that waits although its action is over can still satisfy a trigger of its name. -/
theorem not_ownTimer_of_leftover {c : TimedMachine} (h : TimersKept c) (hleft : ¬ NoLeftover c) :
    ∃ c', Relation.ReflTransGen TimedStep c c' ∧ ¬ OwnTimer c' := by
  rw [NoLeftover] at hleft
  push Not at hleft
  obtain ⟨timer, hwaits, hlt, hig, action, hcur, hmem, t, hdef⟩ := hleft
  refine ⟨{ c with now := max c.now (timer.started + timer.timeoutValue) },
    .single (.tick (le_max_left _ _)), fun hown => ?_⟩
  have hsat : SatisfiesTimeout c.sm (.timeout timer.name) timer.name t :=
    (satisfiesTimeout_iff hcur (h.names _ action (StateMachine.currentAction_ok.mp hcur))).mpr
      ⟨hig, rfl, hmem, hdef⟩
  obtain ⟨timer', horigin, haction, _⟩ := hown _ _ (.timer hwaits (le_max_right _ _)) _ t hsat
  rw [← Option.some.inj horigin] at haction
  exact absurd haction hlt.ne

theorem ownTimer_of_noLeftover {c : TimedMachine} (h : TimersKept c) (hnone : NoLeftover c) :
    OwnTimer c := by
  intro n origin htakes name t hsat
  obtain ⟨action, hcur, _⟩ := StateMachine.not_ignores hsat.1
  obtain ⟨hig, rfl, hmem, hdef⟩ :=
    (satisfiesTimeout_iff hcur (h.names _ action (StateMachine.currentAction_ok.mp hcur))).mp hsat
  cases htakes with
  | state hn => exact absurd rfl (hn name)
  | @timer timer hwaits hdue =>
    have haction : timer.action = c.sm.nextState := by
      have hle := h.own.earlier timer hwaits
      by_contra hne
      exact hnone timer hwaits (lt_of_le_of_ne hle hne) hig action hcur hmem t hdef
    obtain ⟨since, hsince, hle⟩ := h.own.enabled timer hwaits haction
    have hvalue := (h.own.defined timer hwaits haction action hcur).symm.trans hdef
    refine ⟨timer, rfl, haction, since, hsince, ?_⟩
    rw [← TriggerDefinition.timeout.inj (Option.some.inj hvalue)]
    exact (add_le_add_left hle _).trans hdue

/-- **Timeout triggers are satisfied by timers of their own action only**, and never too early,
exactly when no timer of an earlier action ever waits under the name of an enabled timeout
trigger. -/
theorem own_timer_iff {actions : Option (List Action)} (hplan : ParsedPlan actions) :
    Always TimedStep (.new actions) OwnTimer ↔ Always TimedStep (.new actions) NoLeftover :=
  Always.iff_of_reaches
    (fun c hrun => not_ownTimer_of_leftover (timersKept_always hplan c hrun))
    fun h c hrun => ownTimer_of_noLeftover (timersKept_always hplan c hrun) (h c hrun)

/-- Two actions, each with a timer for the second of its triggers. -/
theorem own_timer_iff_twoTimers :
    ∃ first second,
      parseAction "a;b" [createTrigger "a" "x" 0, .timeout ⟨"b", 10⟩] false = .ok first ∧
      parseAction "c;d" [createTrigger "c" "y" 0, .timeout ⟨"d", 5⟩] false = .ok second ∧
      (Always TimedStep (.new (some [first, second])) OwnTimer ↔
        Always TimedStep (.new (some [first, second])) NoLeftover) := by
  obtain ⟨first, hfirst⟩ : ∃ first, parseAction "a;b" [createTrigger "a" "x" 0, .timeout ⟨"b", 10⟩] false =
      .ok first := ⟨_, rfl⟩
  obtain ⟨second, hsecond⟩ : ∃ second, parseAction "c;d" [createTrigger "c" "y" 0, .timeout ⟨"d", 5⟩] false =
      .ok second := ⟨_, rfl⟩
  refine ⟨first, second, hfirst, hsecond, own_timer_iff fun action haction => ?_⟩
  rcases List.mem_cons.mp haction with rfl | haction
  · exact ⟨_, _, _, hfirst⟩
  · rw [List.mem_singleton.mp haction]
    exact ⟨_, _, _, hsecond⟩

/-- **A timer left over** from `a;(b|c)`, where `b` has ended the action, satisfies the `c` of the
next action early. -/
theorem leftover_timer :
    ∃ first second,
      parseAction "a;(b|c)" [createTrigger "a" "x" 0, createTrigger "b" "y" 0,
        .timeout ⟨"c", 10⟩] false = .ok first ∧
      parseAction "c" [.timeout ⟨"c", 10⟩] false = .ok second ∧
      ¬ Always TimedStep (.new (some [first, second])) OwnTimer := by
  obtain ⟨first, hfirst⟩ : ∃ first, parseAction "a;(b|c)" [createTrigger "a" "x" 0,
      createTrigger "b" "y" 0, .timeout ⟨"c", 10⟩] false = .ok first := ⟨_, rfl⟩
  obtain ⟨second, hsecond⟩ : ∃ second, parseAction "c" [.timeout ⟨"c", 10⟩] false = .ok second :=
    ⟨_, rfl⟩
  refine ⟨first, second, hfirst, hsecond, fun hown => ?_⟩
  obtain ⟨loop, loop', hvisit, hvisit', hkeys, htimeout, hmem, hmem', hsat, hnext, hidle, hcur⟩ :
      ∃ loop loop' : Loop,
        visit "a" ⟨.new (some [first, second]), createNotification "x"⟩ = .ok (loop, false) ∧
        visit "b" ⟨loop.sm, createNotification "y"⟩ = .ok (loop', true) ∧
        Loop.toSatisfy ⟨.new (some [first, second]), createNotification "x"⟩ ∩ loop.toSatisfy = ∅ ∧
        (10, "c") ∈ loop.sm.timeouts - 0 ∧
        "a" ∈ Loop.toSatisfy ⟨.new (some [first, second]), createNotification "x"⟩ ∧
        "b" ∈ Loop.toSatisfy ⟨loop.sm, createNotification "y"⟩ ∧
        "c" ∈ second.triggerGraph.toSatisfy ∧ loop.sm.nextState < loop'.sm.nextState ∧
        (loop.sm.asyncActionInExecution = false ∧ loop'.sm.asyncActionInExecution = false ∧
          ∃ action, loop.sm.currentAction = .ok action) ∧ loop'.sm.currentAction = .ok second ∧
        second.triggerDefinitions "c" = some (.timeout ⟨"c", 10⟩) := by
    rw [← Except.ok.inj hfirst, ← Except.ok.inj hsecond]
    exact ⟨_, _, rfl, rfl, by decide, by decide +kernel, by decide, by decide, by decide, by decide,
      ⟨rfl, rfl, _, rfl⟩, rfl, rfl⟩
  obtain ⟨hidle₀, hidle₁, action, hcur₀⟩ := hidle
  have hplan : ParsedPlan (some [first, second]) := by
    intro action haction
    rcases List.mem_cons.mp haction with rfl | haction
    · exact ⟨_, _, _, hfirst⟩
    · rw [List.mem_singleton.mp haction]
      exact ⟨_, _, _, hsecond⟩
  have hig : ¬ (StateMachine.new (some [first, second])).Ignores := by
    simp [StateMachine.Ignores, StateMachine.new]
  -- the creation of `x` satisfies `a` and starts a timer for `c`, the one of `y` ends the action
  have hcreate : ∀ key conditionName, createNotification key ≠ .timeout conditionName :=
    fun _ _ h => by cases h
  obtain ⟨c, hsm, hstep, hwaits⟩ : ∃ c, c.sm = loop.sm ∧
      TimedStep (.new (some [first, second])) c ∧
      ⟨loop.sm.nextState, "c", 10, 0⟩ ∈ c.timers.waiting :=
    ⟨_, rfl, timedStep_of_visit (hcreate "x") hig hmem hvisit (Or.inr hkeys),
      Multiset.mem_add.mpr (Or.inr (Multiset.mem_map.mpr ⟨_, htimeout, rfl⟩))⟩
  rw [← hsm] at hidle₀ hcur₀ hmem' hvisit' hnext hwaits
  have hrun := Relation.ReflTransGen.tail (.single hstep) (timedStep_of_visit (hcreate "y")
    (StateMachine.not_ignores_of hcur₀ hidle₀) hmem' hvisit' (Or.inl rfl))
  obtain ⟨c', hrest, hnot⟩ := not_ownTimer_of_leftover (timersKept_always hplan _ hrun) fun hnone =>
    hnone _ (Multiset.mem_add.mpr (Or.inl hwaits)) hnext
      (StateMachine.not_ignores_of hcur.1 hidle₁) second hcur.1 hsat _ hcur.2
  exact hnot (hown c' (hrun.trans hrest))

end Sieve.Server
