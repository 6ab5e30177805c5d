import Sieve.Server.ControllerPauses

/-!
# Pauses and ongoing reads

A pause with `avoidOngoingRead` is published first and then waits until no read is ongoing:

* `Stuck`: the state machine waits for a read that waits for the state machine;
* `LeavesReads`: the condition under which it does not come to that;
* `never_stuck`: then no run gets stuck.
-/

namespace Sieve.Server

open Sieve.Library
open Relation (ReflTransGen)

/-- A read holds the lock and waits, before it takes place, on a channel that is not closed. -/
def HolderParked (s : ControllerState) : Prop :=
  ∃ t scope, s.ongoingRead = some t ∧ (s.operations t).phase = .parked true scope ∧
    (s.pauses (s.pauseAt t true, scope)).pausingCh ≠ some .closed

/-- The state machine waits for a lock whose holder waits for a channel that only the state machine
can close, with one of its later actions. -/
def Stuck (s : ControllerState) : Prop := s.waitsForLock = true ∧ HolderParked s

/-- When a pause with `avoidOngoingRead` is published, the holder of the lock is not parked; and while
the state machine waits for the lock, no read gets to a scope that is paused. -/
def LeavesReads (s : ControllerState) : ControllerLabel → Prop
  | .act => ∀ pauseAt scope rest,
      s.remaining = .pauseController pauseAt scope true false :: rest → ¬ HolderParked s
  | .test t => s.waitsForLock = true → (s.operations t).phase = .testing true →
      ∀ scope, (s.operations t).operation.CoveredBy scope →
        (s.pauses (s.pauseAt t true, scope)).paused = false
  | _ => True

/-- The state machine's own steps park no holder. -/
theorem HolderParked.of_act {s s' : ControllerState} (h : HolderParked s')
    (hoperations : s'.operations = s.operations) (hread : s'.ongoingRead = s.ongoingRead)
    (hclosed : ∀ key, (s.pauses key).pausingCh = some .closed →
      (s'.pauses key).pausingCh = some .closed) : HolderParked s := by
  obtain ⟨t, scope, hholder, hphase, hopen⟩ := h
  rw [hread] at hholder
  rw [hoperations] at hphase
  rw [ControllerState.pauseAt, hoperations] at hopen
  exact ⟨t, scope, hholder, hphase, fun hwas => hopen (hclosed _ hwas)⟩

/-- An operation that is not parked afterwards is no parked holder, and the others stay. -/
theorem HolderParked.of_update {s s' : ControllerState} {t : ℕ} {moved : OngoingOperation}
    (h : HolderParked s') (hoperations : s'.operations = Function.update s.operations t moved)
    (hpauses : s'.pauses = s.pauses)
    (hread : ∀ u, u ≠ t → s'.ongoingRead = some u → s.ongoingRead = some u)
    (hphase : ∀ scope, moved.phase ≠ .parked true scope) : HolderParked s := by
  obtain ⟨u, scope, hholder, hparked, hopen⟩ := h
  by_cases hu : u = t
  · rw [hoperations, hu, Function.update_self] at hparked
    exact absurd hparked (hphase scope)
  · rw [ControllerState.pauseAt, hoperations, hpauses, Function.update_of_ne hu] at hopen
    rw [hoperations, Function.update_of_ne hu] at hparked
    exact ⟨u, scope, hread u hu hholder, hparked, hopen⟩

theorem stuck_step {s s' : ControllerState} {label : ControllerLabel} (hs : ¬ Stuck s)
    (hguard : LeavesReads s label) (h : ControllerStep s label s') : ¬ Stuck s' := by
  intro hstuck
  obtain ⟨hwaits, hparked⟩ := hstuck
  cases h with
  | @pause pauseAt scope avoid async rest hnext hidle =>
    have hflags : avoid = true ∧ async = false := by simpa using hwaits
    rw [hflags.1, hflags.2] at hnext
    refine hguard _ _ _ hnext (hparked.of_act rfl rfl fun key hclosed => ?_)
    exact (PauseEntry.pausingCh_update_pause s.pauses (pauseAt, scope) key).mpr hclosed
  | avoid => exact nomatch hwaits
  | resume hnext hidle hclose =>
    rw [show s.waitsForLock = true from hwaits] at hidle
    cases hidle
  | panic => exact hs ⟨hwaits, hparked⟩
  | other => exact hs ⟨hwaits, hparked⟩
  | arrive => exact hs ⟨hwaits, hparked.of_update rfl rfl (fun _ _ h => h) fun _ h => by cases h⟩
  | finish => exact hs ⟨hwaits, hparked.of_update rfl rfl (fun _ _ h => h) fun _ h => by cases h⟩
  | lock =>
    refine hs ⟨hwaits, hparked.of_update rfl rfl (fun u hu h => ?_) fun _ h => by cases h⟩
    exact absurd (Option.some.inj h).symm hu
  | unlock =>
    exact hs ⟨hwaits, hparked.of_update rfl rfl (fun _ _ h => by cases h) fun _ h => by cases h⟩
  | enterWrite => exact hs ⟨hwaits, hparked.of_update rfl rfl (fun _ _ h => h) fun _ h => by cases h⟩
  | @park t before scopes scope hphase hscopes hscope =>
    obtain ⟨hcovered, hpaused⟩ := scopeOf_some hscope
    cases before with
    | false => exact hs ⟨hwaits, hparked.of_update rfl rfl (fun _ _ h => h) fun _ h => by cases h⟩
    | true =>
      have hnot := hguard hwaits hphase scope hcovered
      rw [ControllerState.pauseAt, hpaused] at hnot
      cases hnot
  | pass => exact hs ⟨hwaits, hparked.of_update rfl rfl (fun _ _ h => h) fun _ h => by cases h⟩
  | wake => exact hs ⟨hwaits, hparked.of_update rfl rfl (fun _ _ h => h) fun _ h => by cases h⟩

/-- **The state machine and a read never wait for each other**, for any plan and in any run in which
pauses leave the ongoing reads alone. -/
theorem never_stuck (plan : List PauseAction) :
    Always (Guarded ControllerRuns LeavesReads) (.start plan) fun s => ¬ Stuck s :=
  .of_guarded (fun hstuck => nomatch hstuck.1) fun _ _ _ hs hguard hstep =>
    stuck_step hs hguard hstep.2

/-- A plan that pauses the reads of one object, and avoids ongoing reads. -/
def pauseReads : List PauseAction :=
  [.pauseController beforeControllerRead "pod/default/a" true false,
    .resumeController beforeControllerRead "pod/default/a"]

/-- A read of the object that arrives right after the pause has been published. -/
theorem pauseReads_stuck :
    ∃ s, ReflTransGen (Unlabelled ControllerRuns) (.start pauseReads) s ∧ Stuck s := by
  have hpause : ReflTransGen (Unlabelled ControllerRuns) (.start pauseReads) _ :=
    .single ⟨.act, rfl, .pause rfl rfl⟩
  have harrive := hpause.tail ⟨.arrive 0, rfl, .arrive (.get "pod/default/a") rfl⟩
  have hlock := harrive.tail ⟨.enter 0, rfl, .lock rfl rfl rfl⟩
  have hscopes := (scopesWithin_absent beforeControllerRead).update beforeControllerRead
    "pod/default/a" (PauseEntry.pause .absent)
  have hpark := hlock.tail ⟨.test 0, rfl, .park rfl hscopes rfl⟩
  exact ⟨_, hpark, rfl, 0, "pod/default/a", rfl, rfl, by decide⟩

end Sieve.Server
