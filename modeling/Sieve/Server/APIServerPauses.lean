import Sieve.Library.Runs
import Sieve.Server.Pause

/-!
# API servers under pauses

Events of the API servers go through their handlers: they are announced to the state machine, which
serves them one by one, and then wait for the pause of their key or of "all".  The two are looked up one
after the other, and actions may run in between.  A resume action first sends on the channel, so that
one waiting handler takes the text, then closes the channel and clears the flag:

* `APIServerState`, `APIServerStep`: what the state machine and the handlers share, and their steps;
* `scopeOf`: the pause that a handler comes to if nothing changes;
* `returns_event`: what lets a handler return.
-/

namespace Sieve.Server

open Sieve.Library

/-- An action of the plan, as far as the pauses of API servers are concerned. -/
inductive APIServerAction where
  | pauseAPIServer (apiServerName pauseScope : String) (async : Bool)
  | resumeAPIServer (apiServerName pauseScope : String) (async : Bool)
  | other

/-- How far a resume action is: at the send, at the close, or at the flag. -/
inductive ResumePhase where
  | sending
  | closing
  | unsetting
  deriving DecidableEq

/-- The resume action that is running. -/
structure Resuming where
  apiServerName : String
  pauseScope : String
  async : Bool
  phase : ResumePhase
  deriving DecidableEq

namespace Resuming

/-- The server and the scope that are being resumed. -/
def key (r : Resuming) : String × String := (r.apiServerName, r.pauseScope)

end Resuming

/-- Where the handler of an event stands. -/
inductive EventPhase where
  | absent
  /-- Waiting for the state machine to process the notification. -/
  | notifying
  /-- Before the look-up of its key. -/
  | testing
  /-- Between the two look-ups. -/
  | testingAll
  | parked (scope : String)
  | returned
  deriving DecidableEq

/-- An event, and how many actions had begun when it arrived. -/
structure ServerEvent where
  apiServerHostname : String
  resourceKey : String
  phase : EventPhase
  since : ℕ

/-- The scope covers the event. -/
def ServerEvent.CoveredBy (event : ServerEvent) (scope : String) : Prop :=
  scope = event.resourceKey ∨ scope = "all"

/-- The scope that the handler looks up next. -/
def ServerEvent.looksUp (event : ServerEvent) : Option String :=
  match event.phase with
  | .testing => some event.resourceKey
  | .testingAll => some "all"
  | _ => none

structure APIServerState where
  remaining : List APIServerAction
  /-- How many of the pause and resume actions have begun. -/
  begun : ℕ
  resuming : Option Resuming
  pauses : Pauses
  events : ℕ → ServerEvent
  panicked : Option ChannelPanic

namespace APIServerState

/-- Nothing has happened yet. -/
def start (plan : List APIServerAction) : APIServerState where
  remaining := plan
  begun := 0
  resuming := none
  pauses := fun _ => .absent
  events := fun _ => ⟨"", "", .absent, 0⟩
  panicked := none

variable (s : APIServerState)

def setPhase (t : ℕ) (phase : EventPhase) : APIServerState :=
  { s with events := Function.update s.events t { s.events t with phase := phase } }

/-- The channel that the handler waits on, or would wait on. -/
def key (t : ℕ) (scope : String) : String × String := ((s.events t).apiServerHostname, scope)

/-- The scope that the handler will find paused if nothing changes. -/
def scopeOf (t : ℕ) : Option String :=
  match (s.events t).phase with
  | .testing => processPauseAPIServerRecv s.pauses (s.events t).apiServerHostname (s.events t).resourceKey
  | .testingAll => if (s.pauses (s.key t "all")).paused then some "all" else none
  | _ => none

/-- The state machine serves notifications: it is not inside a synchronous action. -/
def Serves : Prop := ∀ r, s.resuming = some r → r.async = true

end APIServerState

/-- Who takes a step. -/
inductive APIServerLabel where
  /-- The state machine begins its next action. -/
  | act
  /-- The resume action goes on. -/
  | resume
  | release (t : ℕ)
  | arrive (t : ℕ)
  | serve (t : ℕ)
  | test (t : ℕ)
  | wake (t : ℕ)

inductive APIServerStep : APIServerState → APIServerLabel → APIServerState → Prop where
  | pause {s : APIServerState} {apiServerName pauseScope : String} {async : Bool}
      {rest : List APIServerAction}
      (hnext : s.remaining = .pauseAPIServer apiServerName pauseScope async :: rest)
      (hidle : s.resuming = none) :
      APIServerStep s .act
        { s with
          remaining := rest
          begun := s.begun + 1
          pauses := Function.update s.pauses (apiServerName, pauseScope)
            (s.pauses (apiServerName, pauseScope)).pause }
  | resume {s : APIServerState} {apiServerName pauseScope : String} {async : Bool}
      {rest : List APIServerAction}
      (hnext : s.remaining = .resumeAPIServer apiServerName pauseScope async :: rest)
      (hidle : s.resuming = none) :
      APIServerStep s .act
        { s with
          remaining := rest
          begun := s.begun + 1
          resuming := some ⟨apiServerName, pauseScope, async, .sending⟩ }
  | other {s : APIServerState} {rest : List APIServerAction} (hnext : s.remaining = .other :: rest)
      (hidle : s.resuming = none) : APIServerStep s .act { s with remaining := rest }
  | sendPanic {s : APIServerState} {r : Resuming} (hresuming : s.resuming = some r)
      (hphase : r.phase = .sending) (hclosed : (s.pauses r.key).pausingCh = some .closed) :
      APIServerStep s .resume { s with panicked := some .sendOnClosed }
  | release {s : APIServerState} {r : Resuming} {t : ℕ} {scope : String}
      (hresuming : s.resuming = some r) (hphase : r.phase = .sending)
      (hparked : (s.events t).phase = .parked scope) (hkey : s.key t scope = r.key)
      (hopened : (s.pauses r.key).pausingCh = some .opened) :
      APIServerStep s (.release t)
        { s.setPhase t .returned with resuming := some { r with phase := .closing } }
  | close {s : APIServerState} {r : Resuming} {entry : PauseEntry}
      (hresuming : s.resuming = some r) (hphase : r.phase = .closing)
      (hclose : (s.pauses r.key).close = .ok entry) :
      APIServerStep s .resume
        { s with
          pauses := Function.update s.pauses r.key entry
          resuming := some { r with phase := .unsetting } }
  | closePanic {s : APIServerState} {r : Resuming} {e : ChannelPanic}
      (hresuming : s.resuming = some r) (hphase : r.phase = .closing)
      (hclose : (s.pauses r.key).close = .error e) :
      APIServerStep s .resume { s with panicked := some e }
  | unset {s : APIServerState} {r : Resuming} (hresuming : s.resuming = some r)
      (hphase : r.phase = .unsetting) :
      APIServerStep s .resume
        { s with
          pauses := Function.update s.pauses r.key (s.pauses r.key).unset
          resuming := none }
  /-- Only the supported types of events are announced to the state machine. -/
  | arrive {s : APIServerState} {t : ℕ} (apiServerHostname resourceKey : String) (supported : Bool)
      (hphase : (s.events t).phase = .absent) :
      APIServerStep s (.arrive t)
        { s with
          events := Function.update s.events t ⟨apiServerHostname, resourceKey,
            if supported then .notifying else .testing, s.begun⟩ }
  | serve {s : APIServerState} {t : ℕ} (hphase : (s.events t).phase = .notifying)
      (hserves : s.Serves) : APIServerStep s (.serve t) (s.setPhase t .testing)
  | park {s : APIServerState} {t : ℕ} {scope : String} (hlooks : (s.events t).looksUp = some scope)
      (hpaused : (s.pauses (s.key t scope)).paused = true) :
      APIServerStep s (.test t) (s.setPhase t (.parked scope))
  /-- The map has no entry for the API server. -/
  | unknown {s : APIServerState} {t : ℕ} (hphase : (s.events t).phase = .testing)
      (hunknown : ∀ scope, s.pauses (s.key t scope) = .absent) :
      APIServerStep s (.test t) (s.setPhase t .returned)
  /-- Also where the entry for the API server has just been made, and is empty. -/
  | passKey {s : APIServerState} {t : ℕ} (hphase : (s.events t).phase = .testing)
      (hfree : (s.pauses (s.key t (s.events t).resourceKey)).paused = false) :
      APIServerStep s (.test t) (s.setPhase t .testingAll)
  | pass {s : APIServerState} {t : ℕ} (hphase : (s.events t).phase = .testingAll)
      (hfree : (s.pauses (s.key t "all")).paused = false) :
      APIServerStep s (.test t) (s.setPhase t .returned)
  | wake {s : APIServerState} {t : ℕ} {scope : String} (hphase : (s.events t).phase = .parked scope)
      (hclosed : (s.pauses (s.key t scope)).pausingCh = some .closed) :
      APIServerStep s (.wake t) (s.setPhase t .returned)

/-- Nothing happens after a panic. -/
def APIServerRuns (s : APIServerState) (label : APIServerLabel) (s' : APIServerState) : Prop :=
  s.panicked = none ∧ APIServerStep s label s'

namespace APIServerState

variable (s : APIServerState)

@[simp] theorem setPhase_pauses (t : ℕ) (phase : EventPhase) :
    (s.setPhase t phase).pauses = s.pauses := rfl

@[simp] theorem setPhase_self (t : ℕ) (phase : EventPhase) :
    (s.setPhase t phase).events t = { s.events t with phase := phase } := by
  simp [setPhase]

theorem setPhase_other {t u : ℕ} (phase : EventPhase) (hne : u ≠ t) :
    (s.setPhase t phase).events u = s.events u := by
  simp [setPhase, hne]

end APIServerState

/-- In this step the handler of the event returns. -/
def EventReturns (s s' : APIServerState) (t : ℕ) : Prop :=
  (s.events t).phase ≠ .returned ∧ (s'.events t).phase = .returned

theorem looksUp_cases {event : ServerEvent} {scope : String} (h : event.looksUp = some scope) :
    event.phase = .testing ∧ scope = event.resourceKey ∨ event.phase = .testingAll ∧ scope = "all" := by
  rw [ServerEvent.looksUp] at h
  split at h
  · rename_i hphase
    exact .inl ⟨hphase, (Option.some.inj h).symm⟩
  · rename_i hphase
    exact .inr ⟨hphase, (Option.some.inj h).symm⟩
  · cases h

/-- The handler has nothing more to look up. -/
inductive FindsNoPause (s : APIServerState) (t : ℕ) : Prop where
  | unknown (hphase : (s.events t).phase = .testing)
    (hunknown : ∀ scope, s.pauses (s.key t scope) = .absent)
  | free (hphase : (s.events t).phase = .testingAll)
    (hfree : (s.pauses (s.key t "all")).paused = false)

/-- **A handler returns** when it finds no pause, when it takes the text of a resume action, or when
its channel is closed. -/
theorem returns_event {s s' : APIServerState} {label : APIServerLabel} {t : ℕ}
    (h : APIServerStep s label s') (hreturns : EventReturns s s' t) :
    (FindsNoPause s t ∧ s'.begun = s.begun ∨
      ∃ scope, (s.events t).phase = .parked scope ∧ s'.begun = s.begun ∧
        ((s.pauses (s.key t scope)).pausingCh = some .closed ∨
          ∃ r, s.resuming = some r ∧ s.key t scope = r.key)) ∧
      s'.pauses = s.pauses ∧ s'.events t = { s.events t with phase := .returned } := by
  obtain ⟨hnot, hreturned⟩ := hreturns
  have hmoved : ∀ {u : ℕ} {phase : EventPhase},
      ((s.setPhase u phase).events t).phase = .returned → u = t ∧ phase = .returned := by
    intro u phase hphase
    by_cases hu : t = u
    · rw [hu, s.setPhase_self] at hphase
      exact ⟨hu.symm, hphase⟩
    · rw [s.setPhase_other phase hu] at hphase
      exact absurd hphase hnot
  cases h with
  | pause => exact absurd hreturned hnot
  | resume => exact absurd hreturned hnot
  | other => exact absurd hreturned hnot
  | sendPanic => exact absurd hreturned hnot
  | close => exact absurd hreturned hnot
  | closePanic => exact absurd hreturned hnot
  | unset => exact absurd hreturned hnot
  | @arrive u host key supported _ =>
    by_cases hu : t = u
    · simp only [hu, Function.update_self] at hreturned
      cases supported <;> exact nomatch hreturned
    · simp only [Function.update_of_ne hu] at hreturned
      exact absurd hreturned hnot
  | serve => exact nomatch (hmoved hreturned).2
  | park => exact nomatch (hmoved hreturned).2
  | passKey => exact nomatch (hmoved hreturned).2
  | release hresuming hphase hparked hkey _ =>
    obtain ⟨rfl, _⟩ := hmoved hreturned
    exact ⟨.inr ⟨_, hparked, rfl, .inr ⟨_, hresuming, hkey⟩⟩, rfl, s.setPhase_self _ _⟩
  | unknown hphase hunknown =>
    obtain ⟨rfl, _⟩ := hmoved hreturned
    exact ⟨.inl ⟨.unknown hphase hunknown, rfl⟩, rfl, s.setPhase_self _ _⟩
  | pass hphase hfree =>
    obtain ⟨rfl, _⟩ := hmoved hreturned
    exact ⟨.inl ⟨.free hphase hfree, rfl⟩, rfl, s.setPhase_self _ _⟩
  | wake hphase hclosed =>
    obtain ⟨rfl, _⟩ := hmoved hreturned
    exact ⟨.inr ⟨_, hphase, rfl, .inl hclosed⟩, rfl, s.setPhase_self _ _⟩

end Sieve.Server
