import Sieve.Server.APIServerPauses
import Sieve.Server.ControllerPauses

/-!
# Overlapping pauses

An operation waits on one channel, and does not look at the maps again when it wakes:

* `NoEarlyReturn`, `NoEarlyEvent`: no pause point is left while a scope that covers it is paused;
* `ScopesApart`, `ServerScopesApart`: the conditions under which this holds;
* `controller_no_early_return`, `server_no_early_return`: then it holds in every run, for plans that
  pause and resume each scope at most once;
* `overlappingReads_return_early`: a run in which it fails.
-/

namespace Sieve.Server

open Sieve.Library
open Relation (ReflTransGen)

/-! ### The controller -/

/-- How often the plan pauses the scope. -/
def pausesOf (key : String × String) : List PauseAction → ℕ
  | [] => 0
  | .pauseController pauseAt pauseScope _ _ :: plan =>
    (if (pauseAt, pauseScope) = key then 1 else 0) + pausesOf key plan
  | .resumeController _ _ :: plan => pausesOf key plan
  | .other :: plan => pausesOf key plan

/-- How often the plan resumes the scope. -/
def resumesOf (key : String × String) : List PauseAction → ℕ
  | [] => 0
  | .resumeController pauseAt pauseScope :: plan =>
    (if (pauseAt, pauseScope) = key then 1 else 0) + resumesOf key plan
  | .pauseController _ _ _ _ :: plan => resumesOf key plan
  | .other :: plan => resumesOf key plan

/-- Each scope is paused and resumed at most once. -/
def PausesOnce (plan : List PauseAction) : Prop :=
  ∀ key, pausesOf key plan ≤ 1 ∧ resumesOf key plan ≤ 1

/-- **No operation returns early**: none returns from its pause point while a scope that covers it is
paused there. -/
def NoEarlyReturn (s : ControllerState) : Prop :=
  ∀ label s' t before, ControllerRuns s label s' → Returns s s' t before →
    ∀ scope, (s.operations t).operation.CoveredBy scope →
      (s.pauses (s.pauseAt t before, scope)).paused = false

/-- When a scope is resumed, no operation that waits on it is covered by another paused scope; when a
scope is paused, every operation it covers that a resume has released has returned. -/
def ScopesApart (s : ControllerState) : ControllerLabel → Prop
  | .act =>
    (∀ pauseAt pauseScope rest, s.remaining = .resumeController pauseAt pauseScope :: rest →
      ∀ t before, (s.operations t).phase = .parked before pauseScope →
        s.pauseAt t before = pauseAt → ∀ scope, scope ≠ pauseScope →
          (s.operations t).operation.CoveredBy scope →
          (s.pauses (pauseAt, scope)).paused = false) ∧
    ∀ pauseAt pauseScope avoidOngoingRead async rest,
      s.remaining = .pauseController pauseAt pauseScope avoidOngoingRead async :: rest →
      ∀ t before scope, (s.operations t).phase = .parked before scope →
        s.pauseAt t before = pauseAt → (s.pauses (pauseAt, scope)).pausingCh = some .closed →
          ¬ (s.operations t).operation.CoveredBy pauseScope
  | _ => True

/-- A paused scope has an open channel, and what has been paused will not be paused again. -/
def PausedOnce (s : ControllerState) : Prop :=
  ∀ key, (pausesOf key s.remaining = 0 ∨
      s.pauses key = .absent ∧ pausesOf key s.remaining ≤ 1) ∧
    ((s.pauses key).paused = true → (s.pauses key).pausingCh = some .opened)

/-- An operation that a resume has released is covered by no paused scope. -/
def ReleasedFree (s : ControllerState) : Prop :=
  ∀ t before scope, (s.operations t).phase = .parked before scope →
    (s.pauses (s.pauseAt t before, scope)).pausingCh = some .closed →
    ∀ scope', (s.operations t).operation.CoveredBy scope' →
      (s.pauses (s.pauseAt t before, scope')).paused = false

theorem PausedOnce.step {s s' : ControllerState} {label : ControllerLabel} (hs : PausedOnce s)
    (h : ControllerStep s label s') : PausedOnce s' := by
  cases h with
  | @pause pauseAt pauseScope avoid async rest hnext hidle =>
    intro key
    obtain ⟨hcount, hopen⟩ := hs key
    show (pausesOf key rest = 0 ∨ Function.update s.pauses (pauseAt, pauseScope)
        (s.pauses (pauseAt, pauseScope)).pause key = .absent ∧ pausesOf key rest ≤ 1) ∧
      ((Function.update s.pauses (pauseAt, pauseScope)
        (s.pauses (pauseAt, pauseScope)).pause key).paused = true →
        (Function.update s.pauses (pauseAt, pauseScope)
          (s.pauses (pauseAt, pauseScope)).pause key).pausingCh = some .opened)
    rw [hnext, pausesOf] at hcount
    by_cases hkey : key = (pauseAt, pauseScope)
    · rw [if_pos hkey.symm] at hcount
      obtain hzero | ⟨habsent, hle⟩ := hcount
      · omega
      · rw [hkey, Function.update_self, ← hkey, habsent]
        exact ⟨.inl (by omega), fun _ => rfl⟩
    · rw [if_neg (Ne.symm hkey)] at hcount
      rw [Function.update_of_ne hkey]
      exact ⟨by simpa using hcount, hopen⟩
  | @resume pauseAt pauseScope rest entry hnext hidle hclose =>
    intro key
    obtain ⟨hcount, hopen⟩ := hs key
    show (pausesOf key rest = 0 ∨ Function.update s.pauses (pauseAt, pauseScope)
        entry.unset key = .absent ∧ pausesOf key rest ≤ 1) ∧
      ((Function.update s.pauses (pauseAt, pauseScope) entry.unset key).paused = true →
        (Function.update s.pauses (pauseAt, pauseScope) entry.unset key).pausingCh = some .opened)
    rw [hnext, pausesOf] at hcount
    by_cases hkey : key = (pauseAt, pauseScope)
    · obtain ⟨hopened, _⟩ := PauseEntry.close_ok hclose
      obtain hzero | ⟨habsent, _⟩ := hcount
      · rw [hkey, Function.update_self]
        exact ⟨.inl (hkey ▸ hzero), fun hpaused => nomatch hpaused⟩
      · rw [← hkey, habsent] at hopened
        cases hopened
    · rw [Function.update_of_ne hkey]
      exact ⟨hcount, hopen⟩
  | other hnext hidle =>
    intro key
    have hkey := hs key
    rw [hnext, pausesOf] at hkey
    exact hkey
  | _ => exact hs

/-- Only a handler that finds a paused scope parks, and the channel of that scope is open. -/
theorem parked_of_setPhase {s : ControllerState} {t u : ℕ} {phase : Phase} {before : Bool}
    {scope : String} (h : ((s.setPhase u phase).operations t).phase = .parked before scope) :
    (s.operations t).phase = .parked before scope ∨ t = u ∧ phase = .parked before scope := by
  by_cases htu : t = u
  · rw [htu, s.setPhase_self] at h
    exact .inr ⟨htu, h⟩
  · rw [s.setPhase_other phase htu] at h
    exact .inl h

/-- Another phase that is not parked releases nobody. -/
theorem ReleasedFree.setPhase {s : ControllerState} {u : ℕ} {phase : Phase} (hs : ReleasedFree s)
    (hphase : ∀ before scope, phase = .parked before scope →
      (s.pauses (s.pauseAt u before, scope)).pausingCh ≠ some .closed) :
    ReleasedFree (s.setPhase u phase) := by
  intro t before scope hparked hclosed scope' hcovered
  rw [s.setPhase_pauseAt] at hclosed ⊢
  rw [s.setPhase_operation] at hcovered
  obtain hwas | ⟨rfl, hnew⟩ := parked_of_setPhase hparked
  · exact hs t before scope hwas hclosed scope' hcovered
  · exact absurd hclosed (hphase before scope hnew)

/-- An operation that arrives is not parked. -/
theorem ReleasedFree.update {s s' : ControllerState} {u : ℕ} {moved : OngoingOperation}
    (hs : ReleasedFree s) (hoperations : s'.operations = Function.update s.operations u moved)
    (hpauses : s'.pauses = s.pauses) (hphase : ∀ before scope, moved.phase ≠ .parked before scope) :
    ReleasedFree s' := by
  intro t before scope hparked hclosed scope' hcovered
  rw [ControllerState.pauseAt] at hclosed ⊢
  rw [hoperations] at hparked hclosed hcovered ⊢
  by_cases htu : t = u
  · rw [htu, Function.update_self] at hparked
    exact absurd hparked (hphase before scope)
  · rw [Function.update_of_ne htu] at hparked hclosed hcovered ⊢
    rw [hpauses] at hclosed ⊢
    exact hs t before scope hparked hclosed scope' hcovered

theorem ReleasedFree.step {s s' : ControllerState} {label : ControllerLabel} (hs : ReleasedFree s)
    (honce : PausedOnce s) (hguard : ScopesApart s label) (h : ControllerStep s label s') :
    ReleasedFree s' := by
  cases h with
  | @pause pauseAt pauseScope avoid async rest hnext hidle =>
    intro t before scope hparked hclosed scope' hcovered
    have hnot := hguard.2 _ _ _ _ _ hnext t before scope hparked
    replace hparked : (s.operations t).phase = .parked before scope := hparked
    replace hcovered : (s.operations t).operation.CoveredBy scope' := hcovered
    have hwas := (PauseEntry.pausingCh_update_pause s.pauses _ _).mp hclosed
    show (Function.update s.pauses (pauseAt, pauseScope) (s.pauses (pauseAt, pauseScope)).pause
      (s.pauseAt t before, scope')).paused = false
    by_cases hkey : (s.pauseAt t before, scope') = (pauseAt, pauseScope)
    · obtain ⟨hpoint, rfl⟩ := Prod.mk.inj hkey
      exact absurd hcovered (hnot hpoint (hpoint ▸ hwas))
    · rw [Function.update_of_ne hkey]
      exact hs t before scope hparked hwas scope' hcovered
  | @resume pauseAt pauseScope rest entry hnext hidle hclose =>
    intro t before scope hparked hclosed scope' hcovered
    replace hparked : (s.operations t).phase = .parked before scope := hparked
    replace hcovered : (s.operations t).operation.CoveredBy scope' := hcovered
    replace hclosed : (Function.update s.pauses (pauseAt, pauseScope) entry.unset
      (s.pauseAt t before, scope)).pausingCh = some .closed := hclosed
    rw [Bool.eq_false_iff]
    intro hpaused
    obtain ⟨hkey', hwas⟩ : (s.pauseAt t before, scope') ≠ (pauseAt, pauseScope) ∧
        (s.pauses (s.pauseAt t before, scope')).paused = true :=
      (PauseEntry.paused_update_unset s.pauses _ _ entry).mp hpaused
    rw [← Bool.not_eq_false] at hwas
    by_cases hkey : (s.pauseAt t before, scope) = (pauseAt, pauseScope)
    · obtain ⟨hpoint, rfl⟩ := Prod.mk.inj hkey
      rw [hpoint] at hwas hkey'
      refine hwas (hguard.1 _ _ _ hnext t before hparked hpoint scope' (fun heq => ?_) hcovered)
      exact hkey' (by rw [heq])
    · rw [Function.update_of_ne hkey] at hclosed
      exact hwas (hs t before scope hparked hclosed scope' hcovered)
  | avoid => exact hs
  | panic => exact hs
  | other => exact hs
  | arrive => exact hs.update rfl rfl fun _ _ h => by cases h
  | finish => exact hs.update rfl rfl fun _ _ h => by cases h
  | lock => exact hs.update rfl rfl fun _ _ h => by cases h
  | unlock => exact hs.update rfl rfl fun _ _ h => by cases h
  | enterWrite => exact hs.update rfl rfl fun _ _ h => by cases h
  | @park t before scopes scope hphase hscopes hscope =>
    obtain ⟨_, hpaused⟩ := scopeOf_some hscope
    refine hs.setPhase fun before' scope' heq => ?_
    obtain ⟨rfl, rfl⟩ := Phase.parked.inj heq
    rw [ControllerState.pauseAt, (honce _).2 hpaused]
    exact fun h => by cases h
  | pass => exact hs.update rfl rfl fun _ _ h => by cases h
  | wake => exact hs.update rfl rfl fun _ _ h => by cases h

theorem ReleasedFree.noEarlyReturn {s : ControllerState} (hs : ReleasedFree s) :
    NoEarlyReturn s := by
  intro label s' t before hruns hreturns scope hcovered
  obtain ⟨_, _, _, _, ⟨scopes, hscopes, hscope⟩ | ⟨scope', hparked, hclosed⟩⟩ :=
    returns_step hruns.2 hreturns
  · exact scopeOf_none hscopes hscope hcovered
  · exact hs t before scope' hparked hclosed scope hcovered

/-- **No controller operation returns early** in a run in which overlapping scopes are kept apart. -/
theorem controller_no_early_return {plan : List PauseAction} (honce : PausesOnce plan) :
    Always (Guarded ControllerRuns ScopesApart) (.start plan) NoEarlyReturn := by
  refine .mono (.of_guarded (P := fun s => PausedOnce s ∧ ReleasedFree s) ⟨fun key => ?_, ?_⟩
    fun s label s' hs hguard hstep => ?_) fun s hs => hs.2.noEarlyReturn
  · exact ⟨.inr ⟨rfl, (honce key).1⟩, fun hpaused => nomatch hpaused⟩
  · exact fun t before scope hparked => nomatch hparked
  · exact ⟨hs.1.step hstep.2, hs.2.step hs.1 hguard hstep.2⟩

/-! ### The API servers -/

/-- How often the plan pauses the scope. -/
def serverPausesOf (key : String × String) : List APIServerAction → ℕ
  | [] => 0
  | .pauseAPIServer apiServerName pauseScope _ :: plan =>
    (if (apiServerName, pauseScope) = key then 1 else 0) + serverPausesOf key plan
  | .resumeAPIServer _ _ _ :: plan => serverPausesOf key plan
  | .other :: plan => serverPausesOf key plan

/-- How often the plan resumes the scope. -/
def serverResumesOf (key : String × String) : List APIServerAction → ℕ
  | [] => 0
  | .resumeAPIServer apiServerName pauseScope _ :: plan =>
    (if (apiServerName, pauseScope) = key then 1 else 0) + serverResumesOf key plan
  | .pauseAPIServer _ _ _ :: plan => serverResumesOf key plan
  | .other :: plan => serverResumesOf key plan

def ServerPausesOnce (plan : List APIServerAction) : Prop :=
  ∀ key, serverPausesOf key plan ≤ 1 ∧ serverResumesOf key plan ≤ 1

/-- A resume action for this scope is running. -/
def BeingResumed (s : APIServerState) (key : String × String) : Prop :=
  ∃ r, s.resuming = some r ∧ r.key = key

/-- The scope is paused, and its resume action has not begun. -/
def StillPaused (s : APIServerState) (key : String × String) : Prop :=
  (s.pauses key).paused = true ∧ ¬ BeingResumed s key

/-- **No event returns early.** -/
def NoEarlyEvent (s : APIServerState) : Prop :=
  ∀ label s' t, APIServerRuns s label s' → EventReturns s s' t →
    ∀ scope, (s.events t).CoveredBy scope → ¬ StillPaused s (s.key t scope)

/-- When the resume of a scope begins, no event that waits on it is covered by another paused scope,
nor is one that comes to wait on it before the resume is over; when a scope is paused, every event it
covers that a resume has released has returned, and no event is past the look-up of this key. -/
def ServerScopesApart (s : APIServerState) : APIServerLabel → Prop
  | .act =>
    (∀ apiServerName pauseScope async rest,
      s.remaining = .resumeAPIServer apiServerName pauseScope async :: rest →
      ∀ t, (s.events t).phase = .parked pauseScope → (s.events t).apiServerHostname = apiServerName →
        ∀ scope, scope ≠ pauseScope → (s.events t).CoveredBy scope →
          ¬ StillPaused s (s.key t scope)) ∧
    ∀ apiServerName pauseScope async rest,
      s.remaining = .pauseAPIServer apiServerName pauseScope async :: rest →
      ∀ t, (s.events t).apiServerHostname = apiServerName →
        (∀ scope, (s.events t).phase = .parked scope →
          (s.pauses (s.key t scope)).pausingCh = some .closed → ¬ (s.events t).CoveredBy pauseScope) ∧
        ((s.events t).phase = .testingAll → (s.events t).resourceKey ≠ pauseScope)
  | .test t => ∀ pauseScope, (s.events t).looksUp = some pauseScope →
      (s.pauses (s.key t pauseScope)).paused = true → BeingResumed s (s.key t pauseScope) →
      ∀ scope, (s.events t).CoveredBy scope → ¬ StillPaused s (s.key t scope)
  | _ => True

/-- A paused scope has an open channel, or its resume is under way; what has been paused will not be
paused again. -/
def ServerPausedOnce (s : APIServerState) : Prop :=
  ∀ key, (serverPausesOf key s.remaining = 0 ∨
      (s.pauses key).pausingCh = none ∧ serverPausesOf key s.remaining ≤ 1) ∧
    ((s.pauses key).paused = true →
      (s.pauses key).pausingCh = some .opened ∨ BeingResumed s key)

/-- An event that a resume has released, or is about to release, is covered by no scope that is still
paused. -/
def EventsFree (s : APIServerState) : Prop :=
  ∀ t scope, (s.events t).phase = .parked scope →
    ((s.pauses (s.key t scope)).pausingCh = some .closed ∨ BeingResumed s (s.key t scope)) →
    ∀ scope', (s.events t).CoveredBy scope' → ¬ StillPaused s (s.key t scope')

/-- The key of an event that is past its look-up is not paused. -/
def KeysPassed (s : APIServerState) : Prop :=
  ∀ t, (s.events t).phase = .testingAll → ¬ StillPaused s (s.key t (s.events t).resourceKey)

/-- Only the pauses, the plan and the running resume count. -/
theorem ServerPausedOnce.of_same {s s' : APIServerState} (hs : ServerPausedOnce s)
    (hremaining : s'.remaining = s.remaining) (hpauses : s'.pauses = s.pauses)
    (hresuming : ∀ key, BeingResumed s key → BeingResumed s' key) : ServerPausedOnce s' := by
  intro key
  rw [hremaining, hpauses]
  exact ⟨(hs key).1, fun hpaused => ((hs key).2 hpaused).imp id (hresuming key)⟩

theorem beingResumed_iff {s : APIServerState} {r : Resuming} {key : String × String}
    (hresuming : s.resuming = some r) : BeingResumed s key ↔ r.key = key := by
  rw [BeingResumed, hresuming]
  simp

/-- The running resume keeps its scope from phase to phase. -/
theorem beingResumed_phase {s s' : APIServerState} {r : Resuming} {phase : ResumePhase}
    (hresuming : s.resuming = some r) (hresuming' : s'.resuming = some { r with phase := phase })
    (key : String × String) : BeingResumed s' key ↔ BeingResumed s key := by
  rw [beingResumed_iff hresuming', beingResumed_iff hresuming]
  exact Iff.rfl

theorem not_beingResumed {s : APIServerState} (hidle : s.resuming = none) (key : String × String) :
    ¬ BeingResumed s key := by
  intro ⟨r, hr, _⟩
  rw [hidle] at hr
  cases hr

theorem ServerPausedOnce.step {s s' : APIServerState} {label : APIServerLabel}
    (hs : ServerPausedOnce s) (h : APIServerStep s label s') : ServerPausedOnce s' := by
  cases h with
  | @pause apiServerName pauseScope async rest hnext hidle =>
    intro key
    obtain ⟨hcount, hopen⟩ := hs key
    show (serverPausesOf key rest = 0 ∨ (Function.update s.pauses (apiServerName, pauseScope)
        (s.pauses (apiServerName, pauseScope)).pause key).pausingCh = none ∧
          serverPausesOf key rest ≤ 1) ∧
      ((Function.update s.pauses (apiServerName, pauseScope)
        (s.pauses (apiServerName, pauseScope)).pause key).paused = true →
        (Function.update s.pauses (apiServerName, pauseScope)
          (s.pauses (apiServerName, pauseScope)).pause key).pausingCh = some .opened ∨
            BeingResumed s key)
    rw [hnext, serverPausesOf] at hcount
    by_cases hkey : key = (apiServerName, pauseScope)
    · rw [if_pos hkey.symm] at hcount
      obtain hzero | ⟨hnone, hle⟩ := hcount
      · omega
      · rw [hkey, Function.update_self, ← hkey, PauseEntry.pause, hnone]
        exact ⟨.inl (by omega), fun _ => .inl rfl⟩
    · rw [if_neg (Ne.symm hkey)] at hcount
      rw [Function.update_of_ne hkey]
      exact ⟨by simpa using hcount, hopen⟩
  | resume hnext hidle =>
    intro key
    obtain ⟨hcount, hopen⟩ := hs key
    rw [hnext, serverPausesOf] at hcount
    refine ⟨hcount, fun hpaused => ?_⟩
    exact (hopen hpaused).imp id fun hresumed => absurd hresumed (not_beingResumed hidle key)
  | other hnext hidle =>
    intro key
    have hkey := hs key
    rw [hnext, serverPausesOf] at hkey
    exact hkey
  | sendPanic => exact hs
  | release hresuming =>
    exact hs.of_same rfl rfl fun key => (beingResumed_phase hresuming rfl key).mpr
  | @close r entry hresuming hphase hclose =>
    intro key
    obtain ⟨hcount, hopen⟩ := hs key
    obtain ⟨hopened, rfl⟩ := PauseEntry.close_ok hclose
    have hsame := fun s' h => @beingResumed_phase s s' r .unsetting hresuming h key
    by_cases hkey : key = r.key
    · refine ⟨hcount.imp id fun habsent => ?_, fun _ => .inr ⟨_, rfl, hkey.symm⟩⟩
      rw [← hkey, habsent.1] at hopened
      cases hopened
    · show (serverPausesOf key s.remaining = 0 ∨
          (Function.update s.pauses r.key _ key).pausingCh = none ∧
            serverPausesOf key s.remaining ≤ 1) ∧
        ((Function.update s.pauses r.key _ key).paused = true →
          (Function.update s.pauses r.key _ key).pausingCh = some .opened ∨ _)
      rw [Function.update_of_ne hkey]
      exact ⟨hcount, fun hpaused => (hopen hpaused).imp id (hsame _ rfl).mpr⟩
  | closePanic => exact hs
  | @unset r hresuming hphase =>
    intro key
    obtain ⟨hcount, hopen⟩ := hs key
    show (serverPausesOf key s.remaining = 0 ∨
        (Function.update s.pauses r.key (s.pauses r.key).unset key).pausingCh = none ∧
          serverPausesOf key s.remaining ≤ 1) ∧
      ((Function.update s.pauses r.key (s.pauses r.key).unset key).paused = true →
        (Function.update s.pauses r.key (s.pauses r.key).unset key).pausingCh = some .opened ∨ _)
    rw [PauseEntry.pausingCh_update_unset, PauseEntry.paused_update_unset]
    refine ⟨hcount, fun hstill => (hopen hstill.2).imp id fun hresumed => absurd ?_ hstill.1⟩
    exact ((beingResumed_iff hresuming).mp hresumed).symm
  | arrive => exact hs.of_same rfl rfl fun _ h => h
  | serve => exact hs.of_same rfl rfl fun _ h => h
  | park => exact hs.of_same rfl rfl fun _ h => h
  | unknown => exact hs.of_same rfl rfl fun _ h => h
  | passKey => exact hs.of_same rfl rfl fun _ h => h
  | pass => exact hs.of_same rfl rfl fun _ h => h
  | wake => exact hs.of_same rfl rfl fun _ h => h

/-- A scope that is paused after a step was so before, unless the step pauses it. -/
theorem StillPaused.before {s s' : APIServerState} {label : APIServerLabel} {key : String × String}
    (hstill : StillPaused s' key) (h : APIServerStep s label s') :
    StillPaused s key ∨ label = .act ∧ s.resuming = none ∧
      ∃ async rest, s.remaining = .pauseAPIServer key.1 key.2 async :: rest := by
  obtain ⟨hpaused, hnot⟩ := hstill
  cases h with
  | @pause apiServerName pauseScope async rest hnext hidle =>
    replace hpaused : (Function.update s.pauses (apiServerName, pauseScope)
      (s.pauses (apiServerName, pauseScope)).pause key).paused = true := hpaused
    by_cases hkey : key = (apiServerName, pauseScope)
    · rw [hkey]
      exact .inr ⟨rfl, hidle, async, rest, hnext⟩
    · rw [Function.update_of_ne hkey] at hpaused
      exact .inl ⟨hpaused, not_beingResumed hidle key⟩
  | resume _ hidle => exact .inl ⟨hpaused, not_beingResumed hidle key⟩
  | release hresuming =>
    exact .inl ⟨hpaused, fun hresumed => hnot ((beingResumed_phase hresuming rfl key).mpr hresumed)⟩
  | @close r entry hresuming _ _ =>
    have hsame := fun s' h => @beingResumed_phase s s' r .unsetting hresuming h key
    replace hpaused : (Function.update s.pauses r.key entry key).paused = true := hpaused
    by_cases hkey : key = r.key
    · exact absurd ⟨_, rfl, hkey.symm⟩ hnot
    · rw [Function.update_of_ne hkey] at hpaused
      exact .inl ⟨hpaused, fun hresumed => hnot ((hsame _ rfl).mpr hresumed)⟩
  | @unset r hresuming _ =>
    obtain ⟨hkey, hwas⟩ := (PauseEntry.paused_update_unset s.pauses r.key _ _).mp hpaused
    exact .inl ⟨hwas, fun hresumed => hkey ((beingResumed_iff hresuming).mp hresumed).symm⟩
  | _ => exact .inl ⟨hpaused, hnot⟩

/-- A resume has closed the channel of the scope, or is under way. -/
def Released (s : APIServerState) (key : String × String) : Prop :=
  (s.pauses key).pausingCh = some .closed ∨ BeingResumed s key

/-- What is released after a step was so before, unless its resume begins with the step. -/
theorem Released.before {s s' : APIServerState} {label : APIServerLabel} {key : String × String}
    (hreleased : Released s' key) (h : APIServerStep s label s') :
    Released s key ∨ label = .act ∧ BeingResumed s' key ∧
      ∃ async rest, s.remaining = .resumeAPIServer key.1 key.2 async :: rest := by
  cases h with
  | pause =>
    exact .inl (hreleased.imp (PauseEntry.pausingCh_update_pause s.pauses _ _).mp id)
  | resume hnext hidle =>
    obtain hclosed | hresumed := hreleased
    · exact .inl (.inl hclosed)
    · obtain ⟨r, hr, rfl⟩ := id hresumed
      obtain rfl := Option.some.inj hr
      exact .inr ⟨rfl, hresumed, _, _, hnext⟩
  | release hresuming => exact .inl (hreleased.imp id (beingResumed_phase hresuming rfl key).mp)
  | @close r entry hresuming _ _ =>
    have hsame := fun s' h => @beingResumed_phase s s' r .unsetting hresuming h key
    by_cases hkey : key = r.key
    · exact .inl (.inr ⟨r, hresuming, hkey.symm⟩)
    · refine .inl (hreleased.imp (fun hclosed => ?_) (hsame _ rfl).mp)
      replace hclosed : (Function.update s.pauses r.key entry key).pausingCh = some .closed := hclosed
      rw [Function.update_of_ne hkey] at hclosed
      exact hclosed
  | @unset r _ _ =>
    obtain hclosed | ⟨_, hr, _⟩ := hreleased
    · exact .inl (.inl (PauseEntry.pausingCh_update_unset s.pauses r.key _ ▸ hclosed))
    · cases hr
  | _ => exact .inl hreleased

/-- A handler that does not come to be parked releases nobody. -/
theorem EventsFree.update {s s' : APIServerState} {u : ℕ} {moved : ServerEvent} (hs : EventsFree s)
    (hevents : s'.events = Function.update s.events u moved) (hpauses : s'.pauses = s.pauses)
    (hresuming : ∀ key, BeingResumed s' key ↔ BeingResumed s key)
    (hphase : ∀ scope, moved.phase ≠ .parked scope) : EventsFree s' := by
  intro t scope hparked hreleased scope' hcovered
  rw [APIServerState.key, hevents] at hreleased ⊢
  rw [hevents] at hparked hcovered
  by_cases htu : t = u
  · rw [htu, Function.update_self] at hparked
    exact absurd hparked (hphase scope)
  · rw [Function.update_of_ne htu] at hparked hreleased hcovered ⊢
    rw [hpauses, hresuming] at hreleased
    rw [StillPaused, hpauses, hresuming]
    exact hs t scope hparked hreleased scope' hcovered

/-- Where no handler moves, the plan goes on or a resume does. -/
theorem EventsFree.of_events {s s' : APIServerState} {label : APIServerLabel} (hs : EventsFree s)
    (hguard : ServerScopesApart s label) (h : APIServerStep s label s')
    (hevents : s'.events = s.events) : EventsFree s' := by
  intro t scope hparked hreleased scope' hcovered hstill
  rw [APIServerState.key, hevents] at hreleased hstill
  rw [hevents] at hparked hcovered
  obtain hwas | ⟨rfl, hidle, async, rest, hnext⟩ := hstill.before h
  · obtain hreleased | ⟨rfl, hresumed, async, rest, hnext⟩ := Released.before hreleased h
    · exact hs t scope hparked hreleased scope' hcovered hwas
    · refine hguard.1 _ _ _ _ hnext t hparked rfl scope' (fun heq => ?_) hcovered hwas
      rw [heq] at hstill
      exact hstill.2 hresumed
  · obtain (hclosed | hresumed) | ⟨_, _, _, _, hnext'⟩ := Released.before hreleased h
    · exact (hguard.2 _ _ _ _ hnext t rfl).1 scope hparked hclosed hcovered
    · exact not_beingResumed hidle _ hresumed
    · rw [hnext] at hnext'
      cases hnext'

/-- A handler comes to wait on a scope that is not being resumed, or meets the condition. -/
theorem EventsFree.park {s : APIServerState} {u : ℕ} {scope : String} (hs : EventsFree s)
    (honce : ServerPausedOnce s) (hguard : ServerScopesApart s (.test u))
    (hlooks : (s.events u).looksUp = some scope) (hpaused : (s.pauses (s.key u scope)).paused = true) :
    EventsFree (s.setPhase u (.parked scope)) := by
  intro t scope' hparked hreleased scope'' hcovered
  by_cases htu : t = u
  · subst htu
    rw [s.setPhase_self] at hparked hcovered
    obtain rfl := EventPhase.parked.inj hparked
    rw [APIServerState.key, s.setPhase_self] at hreleased ⊢
    refine hguard scope hlooks hpaused ?_ scope'' hcovered
    obtain hclosed | hresumed := hreleased
    · obtain hopened | hresumed := (honce _).2 hpaused
      · rw [APIServerState.key, show (s.pauses ((s.events t).apiServerHostname, scope)).pausingCh = _
          from hclosed] at hopened
        cases hopened
      · exact hresumed
    · exact hresumed
  · rw [s.setPhase_other _ htu] at hparked hcovered
    rw [APIServerState.key, s.setPhase_other _ htu] at hreleased ⊢
    exact hs t scope' hparked hreleased scope'' hcovered

theorem EventsFree.step {s s' : APIServerState} {label : APIServerLabel} (hs : EventsFree s)
    (honce : ServerPausedOnce s) (hguard : ServerScopesApart s label)
    (h : APIServerStep s label s') : EventsFree s' := by
  cases h with
  | release hresuming =>
    exact hs.update rfl rfl (beingResumed_phase hresuming rfl) fun _ h => by cases h
  | arrive _ _ supported =>
    refine hs.update rfl rfl (fun _ => Iff.rfl) fun _ h => ?_
    cases supported <;> cases h
  | serve => exact hs.update rfl rfl (fun _ => Iff.rfl) fun _ h => by cases h
  | park hlooks hpaused => exact hs.park honce hguard hlooks hpaused
  | unknown => exact hs.update rfl rfl (fun _ => Iff.rfl) fun _ h => by cases h
  | passKey => exact hs.update rfl rfl (fun _ => Iff.rfl) fun _ h => by cases h
  | pass => exact hs.update rfl rfl (fun _ => Iff.rfl) fun _ h => by cases h
  | wake => exact hs.update rfl rfl (fun _ => Iff.rfl) fun _ h => by cases h
  | pause hnext hidle => exact hs.of_events hguard (.pause hnext hidle) rfl
  | resume hnext hidle => exact hs.of_events hguard (.resume hnext hidle) rfl
  | close hresuming hphase hclose => exact hs.of_events hguard (.close hresuming hphase hclose) rfl
  | unset hresuming hphase => exact hs.of_events hguard (.unset hresuming hphase) rfl
  | other => exact hs
  | sendPanic => exact hs
  | closePanic => exact hs

theorem KeysPassed.update {s s' : APIServerState} {u : ℕ} {moved : ServerEvent} (hs : KeysPassed s)
    (hevents : s'.events = Function.update s.events u moved) (hpauses : s'.pauses = s.pauses)
    (hresuming : ∀ key, BeingResumed s' key ↔ BeingResumed s key)
    (hphase : moved.phase = .testingAll →
      (s.pauses (moved.apiServerHostname, moved.resourceKey)).paused = false) : KeysPassed s' := by
  intro t hbetween hstill
  rw [APIServerState.key, hevents, StillPaused, hpauses, hresuming] at hstill
  rw [hevents] at hbetween
  by_cases htu : t = u
  · rw [htu, Function.update_self] at hbetween hstill
    rw [hphase hbetween] at hstill
    cases hstill.1
  · rw [Function.update_of_ne htu] at hbetween hstill
    exact hs t hbetween hstill

theorem KeysPassed.of_events {s s' : APIServerState} {label : APIServerLabel} (hs : KeysPassed s)
    (hguard : ServerScopesApart s label) (h : APIServerStep s label s')
    (hevents : s'.events = s.events) : KeysPassed s' := by
  intro t hbetween hstill
  rw [APIServerState.key, hevents] at hstill
  rw [hevents] at hbetween
  obtain hwas | ⟨rfl, _, async, rest, hnext⟩ := hstill.before h
  · exact hs t hbetween hwas
  · exact (hguard.2 _ _ _ _ hnext t rfl).2 hbetween rfl

theorem KeysPassed.step {s s' : APIServerState} {label : APIServerLabel} (hs : KeysPassed s)
    (hguard : ServerScopesApart s label) (h : APIServerStep s label s') : KeysPassed s' := by
  cases h with
  | release hresuming =>
    exact hs.update rfl rfl (beingResumed_phase hresuming rfl) fun h => by cases h
  | arrive _ _ supported =>
    refine hs.update rfl rfl (fun _ => Iff.rfl) fun h => ?_
    cases supported <;> cases h
  | serve => exact hs.update rfl rfl (fun _ => Iff.rfl) fun h => by cases h
  | park => exact hs.update rfl rfl (fun _ => Iff.rfl) fun h => by cases h
  | unknown => exact hs.update rfl rfl (fun _ => Iff.rfl) fun h => by cases h
  | passKey _ hfree => exact hs.update rfl rfl (fun _ => Iff.rfl) fun _ => hfree
  | pass => exact hs.update rfl rfl (fun _ => Iff.rfl) fun h => by cases h
  | wake => exact hs.update rfl rfl (fun _ => Iff.rfl) fun h => by cases h
  | pause hnext hidle => exact hs.of_events hguard (.pause hnext hidle) rfl
  | resume hnext hidle => exact hs.of_events hguard (.resume hnext hidle) rfl
  | close hresuming hphase hclose => exact hs.of_events hguard (.close hresuming hphase hclose) rfl
  | unset hresuming hphase => exact hs.of_events hguard (.unset hresuming hphase) rfl
  | other => exact hs
  | sendPanic => exact hs
  | closePanic => exact hs

theorem EventsFree.noEarlyEvent {s : APIServerState} (hs : EventsFree s) (hpassed : KeysPassed s) :
    NoEarlyEvent s := by
  intro label s' t hruns hreturns scope hcovered hstill
  obtain ⟨⟨hfinds, _⟩ | ⟨scope', hparked, _, hreleased⟩, _, _⟩ := returns_event hruns.2 hreturns
  · cases hfinds with
    | unknown _ hunknown =>
      rw [StillPaused, hunknown] at hstill
      cases hstill.1
    | free hphase hfree =>
      obtain rfl | rfl := hcovered
      · exact hpassed t hphase hstill
      · rw [StillPaused, hfree] at hstill
        cases hstill.1
  · exact hs t scope' hparked (hreleased.imp id fun ⟨r, hr, hkey⟩ => ⟨r, hr, hkey.symm⟩) scope
      hcovered hstill

/-- **No event returns early** in a run in which overlapping scopes are kept apart. -/
theorem server_no_early_return {plan : List APIServerAction} (honce : ServerPausesOnce plan) :
    Always (Guarded APIServerRuns ServerScopesApart) (.start plan) NoEarlyEvent := by
  refine .mono (.of_guarded (P := fun s => ServerPausedOnce s ∧ EventsFree s ∧ KeysPassed s)
    ⟨fun key => ?_, ?_, ?_⟩ fun s label s' hs hguard hstep => ?_)
    fun s hs => hs.2.1.noEarlyEvent hs.2.2
  · exact ⟨.inr ⟨rfl, (honce key).1⟩, fun hpaused => nomatch hpaused⟩
  · exact fun t scope hparked => nomatch hparked
  · exact fun t hbetween => nomatch hbetween
  · exact ⟨hs.1.step hstep.2, hs.2.1.step hs.1 hguard hstep.2, hs.2.2.step hguard hstep.2⟩

/-! ### Both -/

/-- **Nothing returns early** while overlapping scopes are kept apart. -/
theorem no_early_return {plan : List PauseAction} {serverPlan : List APIServerAction}
    (honce : PausesOnce plan) (hserver : ServerPausesOnce serverPlan) :
    Always (Guarded ControllerRuns ScopesApart) (.start plan) NoEarlyReturn ∧
      Always (Guarded APIServerRuns ServerScopesApart) (.start serverPlan) NoEarlyEvent :=
  ⟨controller_no_early_return honce, server_no_early_return hserver⟩

/-- A plan that pauses the reads of one object and then all reads, and resumes them in this order. -/
def overlappingReads : List PauseAction :=
  [.pauseController beforeControllerRead "pod/default/a" false false,
    .pauseController beforeControllerRead "all" false false,
    .resumeController beforeControllerRead "pod/default/a",
    .resumeController beforeControllerRead "all"]

/-- The same at an API server. -/
def overlappingEvents : List APIServerAction :=
  [.pauseAPIServer "api1" "pod/default/a" false, .pauseAPIServer "api1" "all" false,
    .resumeAPIServer "api1" "pod/default/a" false, .resumeAPIServer "api1" "all" false]

theorem overlappingReads_once : PausesOnce overlappingReads := by
  intro key
  by_cases hkey : (beforeControllerRead, "pod/default/a") = key
  · subst hkey
    decide
  · simp only [overlappingReads, pausesOf, resumesOf, if_neg hkey]
    constructor <;> split <;> omega

theorem overlappingEvents_once : ServerPausesOnce overlappingEvents := by
  intro key
  by_cases hkey : ("api1", "pod/default/a") = key
  · subst hkey
    decide
  · simp only [overlappingEvents, serverPausesOf, serverResumesOf, if_neg hkey]
    constructor <;> split <;> omega

theorem no_early_return_overlapping :
    Always (Guarded ControllerRuns ScopesApart) (.start overlappingReads) NoEarlyReturn ∧
      Always (Guarded APIServerRuns ServerScopesApart) (.start overlappingEvents) NoEarlyEvent :=
  no_early_return overlappingReads_once overlappingEvents_once

/-- A read that waits for the pause of its key goes on when that is resumed, although all reads have
been paused in the meantime. -/
theorem overlappingReads_return_early :
    PausesOnce overlappingReads ∧
      ∃ s, ReflTransGen (Unlabelled ControllerRuns) (.start overlappingReads) s ∧
        ¬ NoEarlyReturn s := by
  have hpause : ReflTransGen (Unlabelled ControllerRuns) (.start overlappingReads) _ :=
    .single ⟨.act, rfl, .pause rfl rfl⟩
  have harrive := hpause.tail ⟨.arrive 0, rfl, .arrive (.get "pod/default/a") rfl⟩
  have hlock := harrive.tail ⟨.enter 0, rfl, .lock rfl rfl rfl⟩
  have hscopes := (scopesWithin_absent beforeControllerRead).update beforeControllerRead
    "pod/default/a" (PauseEntry.pause .absent)
  have hpark := hlock.tail ⟨.test 0, rfl, .park rfl hscopes rfl⟩
  have hall := hpark.tail ⟨.act, rfl, .pause rfl rfl⟩
  have hresume := hall.tail ⟨.act, rfl, .resume rfl rfl rfl⟩
  refine ⟨overlappingReads_once, _, hresume, fun hnone => ?_⟩
  have hwake := hnone (.wake 0) _ 0 true ⟨rfl, .wake rfl (by decide)⟩ ⟨by decide, rfl⟩ "all" (.inl rfl)
  revert hwake
  decide

end Sieve.Server
