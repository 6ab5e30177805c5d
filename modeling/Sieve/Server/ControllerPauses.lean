import Sieve.Library.Runs
import Sieve.Server.Pause

/-!
# The controller under pauses

The state machine runs the actions of its plan one after the other, while any number of controller
operations go through the handlers of their pause requests, before and after the operation:

* `ControllerState`: what they share, and where each of them stands;
* `ControllerStep`: their steps.  What one handler does under `pauseControllerSharedDataLock` is one
  step; the state machine is free to run its next action at any time, whatever the triggers are;
* `returns_step`: an operation returns only when it finds no pause or a closed channel.
-/

namespace Sieve.Server

open Sieve.Library

/-- An action of the plan, as far as the controller's pauses are concerned. -/
inductive PauseAction where
  | pauseController (pauseAt pauseScope : String) (avoidOngoingRead async : Bool)
  | resumeController (pauseAt pauseScope : String)
  | other

/-- Where an operation stands: before (`true`) or after (`false`) it takes place. -/
inductive Phase where
  | absent
  /-- The request for a pause has arrived. -/
  | arrived (before : Bool)
  /-- The read lock has been dealt with; the maps are to be looked at. -/
  | testing (before : Bool)
  /-- Waiting on the channel of this scope. -/
  | parked (before : Bool) (scope : String)
  /-- The request has been answered. -/
  | returned (before : Bool)
  deriving DecidableEq

/-- An operation, and how many actions had been executed when its current request arrived. -/
structure OngoingOperation where
  operation : Operation
  phase : Phase
  since : ℕ

structure ControllerState where
  remaining : List PauseAction
  /-- How many of the pause and resume actions have been executed. -/
  executed : ℕ
  /-- The state machine waits for `controllerOngoingReadLock`. -/
  waitsForLock : Bool
  pauses : Pauses
  /-- The operation that has taken `controllerOngoingReadLock`. -/
  ongoingRead : Option ℕ
  operations : ℕ → OngoingOperation
  panicked : Option ChannelPanic

namespace ControllerState

/-- Nothing has happened yet. -/
def start (plan : List PauseAction) : ControllerState where
  remaining := plan
  executed := 0
  waitsForLock := false
  pauses := fun _ => .absent
  ongoingRead := none
  operations := fun _ => ⟨.write "", .absent, 0⟩
  panicked := none

variable (s : ControllerState)

def setPhase (t : ℕ) (phase : Phase) : ControllerState :=
  { s with operations := Function.update s.operations t { s.operations t with phase := phase } }

/-- The action at the head of the plan has been executed and leaves this entry. -/
def execute (rest : List PauseAction) (key : String × String) (entry : PauseEntry) :
    ControllerState :=
  { s with
    remaining := rest
    executed := s.executed + 1
    pauses := Function.update s.pauses key entry }

/-- The pause point where an operation is. -/
def pauseAt (t : ℕ) (before : Bool) : String := (s.operations t).operation.pauseAt before

end ControllerState

/-- Who takes a step. -/
inductive ControllerLabel where
  /-- The state machine runs its next action. -/
  | act
  /-- The state machine takes and releases the read lock. -/
  | avoid
  | arrive (t : ℕ)
  | enter (t : ℕ)
  | test (t : ℕ)
  | wake (t : ℕ)

inductive ControllerStep : ControllerState → ControllerLabel → ControllerState → Prop where
  | pause {s : ControllerState} {pauseAt pauseScope : String} {avoidOngoingRead async : Bool}
      {rest : List PauseAction}
      (hnext : s.remaining = .pauseController pauseAt pauseScope avoidOngoingRead async :: rest)
      (hidle : s.waitsForLock = false) :
      ControllerStep s .act
        { s.execute rest (pauseAt, pauseScope) (s.pauses (pauseAt, pauseScope)).pause with
          waitsForLock := avoidOngoingRead && !async }
  | avoid {s : ControllerState} (hwaits : s.waitsForLock = true) (hfree : s.ongoingRead = none) :
      ControllerStep s .avoid { s with waitsForLock := false }
  | resume {s : ControllerState} {pauseAt pauseScope : String} {rest : List PauseAction}
      {entry : PauseEntry} (hnext : s.remaining = .resumeController pauseAt pauseScope :: rest)
      (hidle : s.waitsForLock = false)
      (hclose : (s.pauses (pauseAt, pauseScope)).close = .ok entry) :
      ControllerStep s .act (s.execute rest (pauseAt, pauseScope) entry.unset)
  | panic {s : ControllerState} {pauseAt pauseScope : String} {rest : List PauseAction}
      {e : ChannelPanic} (hnext : s.remaining = .resumeController pauseAt pauseScope :: rest)
      (hidle : s.waitsForLock = false)
      (hclose : (s.pauses (pauseAt, pauseScope)).close = .error e) :
      ControllerStep s .act { s with panicked := some e }
  | other {s : ControllerState} {rest : List PauseAction} (hnext : s.remaining = .other :: rest)
      (hidle : s.waitsForLock = false) : ControllerStep s .act { s with remaining := rest }
  | arrive {s : ControllerState} {t : ℕ} (operation : Operation)
      (hphase : (s.operations t).phase = .absent) :
      ControllerStep s (.arrive t)
        { s with
          operations := Function.update s.operations t ⟨operation, .arrived true, s.executed⟩ }
  | finish {s : ControllerState} {t : ℕ} (hphase : (s.operations t).phase = .returned true) :
      ControllerStep s (.arrive t)
        { s with
          operations := Function.update s.operations t
            ⟨(s.operations t).operation, .arrived false, s.executed⟩ }
  | lock {s : ControllerState} {t : ℕ} (hphase : (s.operations t).phase = .arrived true)
      (hread : (s.operations t).operation.isRead = true) (hfree : s.ongoingRead = none) :
      ControllerStep s (.enter t) { s.setPhase t (.testing true) with ongoingRead := some t }
  | unlock {s : ControllerState} {t : ℕ} (hphase : (s.operations t).phase = .arrived false)
      (hread : (s.operations t).operation.isRead = true) :
      ControllerStep s (.enter t) { s.setPhase t (.testing false) with ongoingRead := none }
  | enterWrite {s : ControllerState} {t : ℕ} {before : Bool}
      (hphase : (s.operations t).phase = .arrived before)
      (hwrite : (s.operations t).operation.isRead = false) :
      ControllerStep s (.enter t) (s.setPhase t (.testing before))
  | park {s : ControllerState} {t : ℕ} {before : Bool} {scopes : List String} {scope : String}
      (hphase : (s.operations t).phase = .testing before)
      (hscopes : ScopesWithin s.pauses (s.pauseAt t before) scopes)
      (hscope : scopeOf s.pauses scopes (s.operations t).operation before = some scope) :
      ControllerStep s (.test t) (s.setPhase t (.parked before scope))
  | pass {s : ControllerState} {t : ℕ} {before : Bool} {scopes : List String}
      (hphase : (s.operations t).phase = .testing before)
      (hscopes : ScopesWithin s.pauses (s.pauseAt t before) scopes)
      (hscope : scopeOf s.pauses scopes (s.operations t).operation before = none) :
      ControllerStep s (.test t) (s.setPhase t (.returned before))
  | wake {s : ControllerState} {t : ℕ} {before : Bool} {scope : String}
      (hphase : (s.operations t).phase = .parked before scope)
      (hclosed : (s.pauses (s.pauseAt t before, scope)).pausingCh = some .closed) :
      ControllerStep s (.wake t) (s.setPhase t (.returned before))

/-- Nothing happens after a panic. -/
def ControllerRuns (s : ControllerState) (label : ControllerLabel) (s' : ControllerState) : Prop :=
  s.panicked = none ∧ ControllerStep s label s'

/-- In this step the request of the operation is answered. -/
def Returns (s s' : ControllerState) (t : ℕ) (before : Bool) : Prop :=
  (s.operations t).phase ≠ .returned before ∧ (s'.operations t).phase = .returned before

/-! ### What the steps do -/

namespace ControllerState

variable (s : ControllerState)

@[simp] theorem setPhase_pauses (t : ℕ) (phase : Phase) : (s.setPhase t phase).pauses = s.pauses := rfl

@[simp] theorem setPhase_executed (t : ℕ) (phase : Phase) :
    (s.setPhase t phase).executed = s.executed := rfl

@[simp] theorem setPhase_self (t : ℕ) (phase : Phase) :
    (s.setPhase t phase).operations t = { s.operations t with phase := phase } := by
  simp [setPhase]

theorem setPhase_other {t u : ℕ} (phase : Phase) (hne : u ≠ t) :
    (s.setPhase t phase).operations u = s.operations u := by
  simp [setPhase, hne]

/-- The operation itself and its arrival stay. -/
theorem setPhase_operation (t u : ℕ) (phase : Phase) :
    ((s.setPhase t phase).operations u).operation = (s.operations u).operation := by
  by_cases hu : u = t
  · rw [hu, setPhase_self]
  · rw [setPhase_other s phase hu]

theorem setPhase_since (t u : ℕ) (phase : Phase) :
    ((s.setPhase t phase).operations u).since = (s.operations u).since := by
  by_cases hu : u = t
  · rw [hu, setPhase_self]
  · rw [setPhase_other s phase hu]

@[simp] theorem setPhase_pauseAt (t u : ℕ) (phase : Phase) (before : Bool) :
    (s.setPhase t phase).pauseAt u before = s.pauseAt u before := by
  rw [pauseAt, setPhase_operation, pauseAt]

end ControllerState

/-- **An operation returns** only when it finds no pause, or when its channel is closed. -/
theorem returns_step {s s' : ControllerState} {label : ControllerLabel} {t : ℕ} {before : Bool}
    (h : ControllerStep s label s') (hreturns : Returns s s' t before) :
    s'.pauses = s.pauses ∧ s'.executed = s.executed ∧
      (s'.operations t).operation = (s.operations t).operation ∧
      (s'.operations t).since = (s.operations t).since ∧
      ((∃ scopes, ScopesWithin s.pauses (s.pauseAt t before) scopes ∧
          scopeOf s.pauses scopes (s.operations t).operation before = none) ∨
        ∃ scope, (s.operations t).phase = .parked before scope ∧
          (s.pauses (s.pauseAt t before, scope)).pausingCh = some .closed) := by
  obtain ⟨hnot, hreturned⟩ := hreturns
  -- a step that only gives `u` another phase is the return of `u`
  have hmoved : ∀ {u : ℕ} {phase : Phase},
      ((s.setPhase u phase).operations t).phase = .returned before →
        u = t ∧ phase = .returned before := by
    intro u phase hphase
    by_cases hu : t = u
    · rw [hu, s.setPhase_self] at hphase
      exact ⟨hu.symm, hphase⟩
    · rw [s.setPhase_other phase hu] at hphase
      exact absurd hphase hnot
  cases h with
  | pause => exact absurd hreturned hnot
  | avoid => exact absurd hreturned hnot
  | resume => exact absurd hreturned hnot
  | panic => exact absurd hreturned hnot
  | other => exact absurd hreturned hnot
  | @arrive u operation _ =>
    by_cases hu : t = u
    · simp [hu] at hreturned
    · simp only [Function.update_of_ne hu] at hreturned
      exact absurd hreturned hnot
  | @finish u _ =>
    by_cases hu : t = u
    · simp [hu] at hreturned
    · simp only [Function.update_of_ne hu] at hreturned
      exact absurd hreturned hnot
  | lock => exact nomatch (hmoved hreturned).2
  | unlock => exact nomatch (hmoved hreturned).2
  | enterWrite => exact nomatch (hmoved hreturned).2
  | park => exact nomatch (hmoved hreturned).2
  | pass _ hscopes hscope =>
    obtain ⟨rfl, heq⟩ := hmoved hreturned
    obtain rfl := Phase.returned.inj heq
    exact ⟨rfl, rfl, s.setPhase_operation _ _ _, s.setPhase_since _ _ _, .inl ⟨_, hscopes, hscope⟩⟩
  | wake hphase hclosed =>
    obtain ⟨rfl, heq⟩ := hmoved hreturned
    obtain rfl := Phase.returned.inj heq
    exact ⟨rfl, rfl, s.setPhase_operation _ _ _, s.setPhase_since _ _ _, .inr ⟨_, hphase, hclosed⟩⟩

end Sieve.Server
