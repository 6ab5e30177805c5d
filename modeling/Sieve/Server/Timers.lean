import Sieve.Library.Runs
import Sieve.Server.Rounds
import Sieve.Server.StateMachineRun
import Mathlib.Data.Multiset.AddSub
import Mathlib.Data.Multiset.OrderedMonoid
import Mathlib.Algebra.Order.Sub.Basic
import Mathlib.Algebra.Order.Ring.Unbundled.Rat

/-!
# The state machine and its clock

Time is a clock that never goes back.  `time.Sleep` ends at some moment after its duration, and then
the notification waits in `timeoutNotificationCh` until the `select` takes it; both are one wait
here, of an arbitrary length from the duration on.

* `Timer`, `Timers`: the `waitForTimeout` goroutines, and since when triggers are enabled;
* `timedVisit`, `Handles`: a notification, with the time that the run of an action takes;
* `TimedStep`: the runs of the state machine with a clock;
* `Handles.processNotification`, `timed_reachable`: without the clock they are the runs of before.
-/

namespace Sieve.Server

open Sieve.Library

/-- A `waitForTimeout` goroutine, with the action that it was started for and the time. -/
structure Timer where
  action : ℕ
  name : String
  timeoutValue : ℤ
  started : ℚ
  deriving DecidableEq

/-- All goroutines so far, those whose notification has not been taken, and since when the triggers
of the current action are enabled. -/
structure Timers where
  started : Multiset Timer
  waiting : Multiset Timer
  enabledAt : String → Option ℚ

/-- The `toSatisfy` of the current action. -/
def StateMachine.toSatisfy (sm : StateMachine) : Finset String :=
  match sm.currentAction with
  | .ok action => action.triggerGraph.toSatisfy
  | .error _ => ∅

/-- The goroutines that were started between the two states. -/
def startedTimers (sm sm' : StateMachine) (time : ℚ) : Multiset Timer :=
  (sm'.timeouts - sm.timeouts).map fun timeout => ⟨sm'.nextState, timeout.2, timeout.1, time⟩

/-- Since when a trigger is enabled in the state `sm'`, which is reached from `sm` at `time`. -/
def enabledSince (sm sm' : StateMachine) (time : ℚ) (enabledAt : String → Option ℚ)
    (name : String) : Option ℚ :=
  match if sm'.nextState = sm.nextState then enabledAt name else none with
  | some since => some since
  | none => if name ∈ sm'.toSatisfy then some time else none

/-- Record what happened between the two states. -/
def Timers.record (timers : Timers) (sm sm' : StateMachine) (time : ℚ) : Timers :=
  { started := timers.started + startedTimers sm sm' time
    waiting := timers.waiting + startedTimers sm sm' time
    enabledAt := enabledSince sm sm' time timers.enabledAt }

structure TimedLoop where
  loop : Loop
  timers : Timers

/-- One round of the loop over `toSatisfy`, which starts at `now`; the run of an action ends at
`done`. -/
def timedVisit (now done : ℚ) (name : String) (tl : TimedLoop) :
    Except Fatal (TimedLoop × Bool) := do
  let (loop, ended) ← visit name tl.loop
  .ok (⟨loop, tl.timers.record tl.loop.sm loop.sm (if ended then done else now)⟩, ended)

structure TimedMachine where
  sm : StateMachine
  now : ℚ
  timers : Timers

/-- `NewStateMachine`: no timer is started for the first action. -/
def TimedMachine.new (actions : Option (List Action)) : TimedMachine :=
  { sm := .new actions
    now := 0
    timers := ⟨0, 0, fun name =>
      if name ∈ (StateMachine.new actions).toSatisfy then some 0 else none⟩ }

/-- `processNotification`, from `now` to `done`. -/
inductive Handles (c : TimedMachine) (n : TriggerNotification) : TimedMachine → Prop where
  | ignored (h : c.sm.Ignores) : Handles c n c
  | handled {tl : TimedLoop} {done : ℚ} (h : ¬ c.sm.Ignores) (hdone : c.now ≤ done)
      (hloop : RangesOver (fun tl : TimedLoop => tl.loop.toSatisfy)
        (fun name tl => .ofExcept (timedVisit c.now done name tl)) ⟨⟨c.sm, n⟩, c.timers⟩ (.ok tl)) :
      Handles c n ⟨tl.loop.sm, done, tl.timers⟩

/-- The notification of this timer is taken. -/
def TimedMachine.take (c : TimedMachine) (timer : Timer) : TimedMachine :=
  { c with timers := { c.timers with waiting := c.timers.waiting.erase timer } }

/-- The clock goes on, or the `select` in `run` takes a notification. -/
inductive TimedStep (c : TimedMachine) : TimedMachine → Prop where
  | tick {later : ℚ} (h : c.now ≤ later) : TimedStep c { c with now := later }
  | stateNotification {n : TriggerNotification} {c' : TimedMachine}
      (hn : ∀ conditionName, n ≠ .timeout conditionName) (h : Handles c n c') : TimedStep c c'
  | timeoutNotification {timer : Timer} {c' : TimedMachine} (hwaits : timer ∈ c.timers.waiting)
      (hdue : timer.started + timer.timeoutValue ≤ c.now)
      (h : Handles (c.take timer) (.timeout timer.name) c') : TimedStep c c'
  | asyncDone {sm : StateMachine} (hbusy : c.sm.asyncActionInExecution = true)
      (h : processAsyncDone c.sm = .ok sm) :
      TimedStep c ⟨sm, c.now, c.timers.record c.sm sm c.now⟩

/-! ### Without the clock -/

theorem timedVisit_ok {now done : ℚ} {name : String} {tl tl' : TimedLoop} {ended : Bool} :
    timedVisit now done name tl = .ok (tl', ended) ↔ visit name tl.loop = .ok (tl'.loop, ended) ∧
      tl'.timers = tl.timers.record tl.loop.sm tl'.loop.sm (if ended then done else now) := by
  rw [timedVisit, bind_ok_iff]
  constructor
  · rintro ⟨⟨loop, ended'⟩, hvisit, h⟩
    obtain ⟨rfl, rfl⟩ := Prod.mk.inj (Except.ok.inj h)
    exact ⟨hvisit, rfl⟩
  · rintro ⟨hvisit, htimers⟩
    refine ⟨_, hvisit, ?_⟩
    show Except.ok (TimedLoop.mk tl'.loop (tl.timers.record tl.loop.sm tl'.loop.sm _), ended) = _
    rw [← htimers]

/-- The loop of a notification that is handled is the loop of before. -/
theorem loopEnds_of_timed {now done : ℚ} {tl tl' : TimedLoop}
    (h : RangesOver (fun tl : TimedLoop => tl.loop.toSatisfy)
      (fun name tl => .ofExcept (timedVisit now done name tl)) tl (.ok tl')) :
    LoopEnds tl.loop (.ok tl'.loop) := by
  refine MapRange.map TimedLoop.loop ?_ ?_ ?_ h
  · intro name tl tl' hbody
    rw [Round.ofExcept_fell, timedVisit_ok] at hbody
    exact Round.ofExcept_fell.mpr hbody.1
  · intro name tl tl' hbody
    rw [Round.ofExcept_broke, timedVisit_ok] at hbody
    exact Round.ofExcept_broke.mpr hbody.1
  · intro name tl e hbody
    rw [Round.ofExcept_failed, timedVisit, bind_error_iff] at hbody
    rcases hbody with hbody | ⟨_, _, hbody⟩
    · exact Round.ofExcept_failed.mpr hbody
    · cases hbody

theorem Handles.processNotification {c c' : TimedMachine} {n : TriggerNotification}
    (h : Handles c n c') : Server.processNotification c.sm n (.ok c'.sm) := by
  cases h with
  | ignored h => exact .ignored h
  | handled h _ hloop => exact .handled h (loopEnds_of_timed hloop)

theorem TimedStep.sm {c c' : TimedMachine} (h : TimedStep c c') :
    c'.sm = c.sm ∨ Step c.sm (.ok c'.sm) := by
  cases h with
  | tick _ => exact Or.inl rfl
  | stateNotification _ h => exact Or.inr (.notification h.processNotification)
  | timeoutNotification _ _ h => exact Or.inr (.notification h.processNotification)
  | asyncDone hbusy h =>
    refine Or.inr ?_
    rw [← h]
    exact .asyncDone hbusy

/-- **Without the clock, the runs are those of the state machine.** -/
theorem timed_reachable (actions : Option (List Action)) :
    Always TimedStep (.new actions) fun c => Reachable (.new actions) c.sm := by
  refine Always.of_invariant .initial fun c c' h hstep => ?_
  rcases hstep.sm with hsame | hstep
  · rw [hsame]
    exact h
  · exact h.step hstep

/-! ### A single step -/

theorem StateMachine.not_ignores_of {sm : StateMachine} {action : Action}
    (hcur : sm.currentAction = .ok action) (hidle : sm.asyncActionInExecution = false) :
    ¬ sm.Ignores := by
  rw [currentAction_ok] at hcur
  rintro (hnone | hlen | hbusy)
  · rw [hnone] at hcur
    cases hcur
  · rw [List.getElem?_eq_none hlen] at hcur
    cases hcur
  · rw [hidle] at hbusy
    cases hbusy

/-- A notification whose handling ends with its first round, at once. -/
theorem timedStep_of_visit {c : TimedMachine} {n : TriggerNotification} {name : String}
    {loop : Loop} {ended : Bool} (hn : ∀ conditionName, n ≠ .timeout conditionName)
    (hig : ¬ c.sm.Ignores) (hname : name ∈ c.sm.toSatisfy)
    (hvisit : visit name ⟨c.sm, n⟩ = .ok (loop, ended))
    (hlast : ended = true ∨ c.sm.toSatisfy ∩ loop.toSatisfy = ∅) :
    TimedStep c ⟨loop.sm, c.now, c.timers.record c.sm loop.sm c.now⟩ := by
  have hround : timedVisit c.now c.now name ⟨⟨c.sm, n⟩, c.timers⟩ =
      .ok (⟨loop, c.timers.record c.sm loop.sm c.now⟩, ended) := by
    rw [timedVisit_ok]
    exact ⟨hvisit, by rw [ite_self]⟩
  have hloop : RangesOver (fun tl : TimedLoop => tl.loop.toSatisfy)
      (fun name tl => .ofExcept (timedVisit c.now c.now name tl)) ⟨⟨c.sm, n⟩, c.timers⟩
      (.ok ⟨loop, c.timers.record c.sm loop.sm c.now⟩) := by
    cases ended with
    | true => exact .stop hname (Finset.notMem_empty name) (Round.ofExcept_broke.mpr hround)
    | false =>
      refine .next hname (Finset.notMem_empty name) (Round.ofExcept_fell.mpr hround) (.finish ?_)
      rcases hlast with hlast | hlast
      · cases hlast
      · exact hlast.le.trans (Finset.empty_subset _)
  exact .stateNotification hn (.handled hig le_rfl hloop)

/-! ### What is recorded -/

section Record

variable {sm sm' : StateMachine} {timers : Timers} {time : ℚ} {name : String} {timer : Timer}

theorem StateMachine.toSatisfy_eq {action : Action} (h : sm.currentAction = .ok action) :
    sm.toSatisfy = action.triggerGraph.toSatisfy := by
  rw [toSatisfy, h]

theorem mem_startedTimers {new : Multiset (ℤ × String)} (h : sm'.timeouts = sm.timeouts + new) :
    timer ∈ startedTimers sm sm' time ↔ timer.action = sm'.nextState ∧
      (timer.timeoutValue, timer.name) ∈ new ∧ timer.started = time := by
  rw [startedTimers, h, add_tsub_cancel_left, Multiset.mem_map]
  constructor
  · rintro ⟨timeout, hmem, rfl⟩
    exact ⟨rfl, hmem, rfl⟩
  · rintro ⟨haction, hmem, hstarted⟩
    refine ⟨_, hmem, ?_⟩
    rw [← haction, ← hstarted]

theorem enabledSince_kept {since : ℚ} (hnext : sm'.nextState = sm.nextState)
    (h : timers.enabledAt name = some since) :
    (timers.record sm sm' time).enabledAt name = some since := by
  show enabledSince sm sm' time timers.enabledAt name = some since
  rw [enabledSince, if_pos hnext, h]

/-- Nothing is enabled since a later time. -/
def Timers.Past (timers : Timers) (now : ℚ) : Prop :=
  ∀ name since, timers.enabledAt name = some since → since ≤ now

theorem Timers.Past.record {now : ℚ} (h : timers.Past now) (htime : now ≤ time) :
    (timers.record sm sm' time).Past time := by
  intro name since hsince
  replace hsince : enabledSince sm sm' time timers.enabledAt name = some since := hsince
  rw [enabledSince] at hsince
  split at hsince
  · rename_i since' heq
    rw [← Option.some.inj hsince]
    split at heq
    · exact (h name _ heq).trans htime
    · cases heq
  · split at hsince
    · exact (Option.some.inj hsince).symm.le
    · cases hsince

/-- Every trigger in `toSatisfy` is enabled since some time. -/
theorem enabledAt_record (h : name ∈ sm'.toSatisfy) :
    ∃ since, (timers.record sm sm' time).enabledAt name = some since := by
  show ∃ since, enabledSince sm sm' time timers.enabledAt name = some since
  rw [enabledSince]
  split
  · exact ⟨_, rfl⟩
  · exact ⟨time, if_pos h⟩

end Record

end Sieve.Server
