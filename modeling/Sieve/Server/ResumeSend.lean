import Sieve.Server.APIServerPauses

/-!
# The send of a resume action

A synchronous resume action sends on an unbuffered channel while the state machine serves nobody:

* `StuckInSend`: no handler waits on the channel, and those that could come to it wait for the state
  machine;
* `FindsReceiver`: the condition under which it does not come to that;
* `never_stuckInSend`: then no run gets stuck.
-/

namespace Sieve.Server

open Sieve.Library
open Relation (ReflTransGen)

/-- The handler waits on the channel. -/
def ParkedOn (s : APIServerState) (t : ℕ) (channel : String × String) : Prop :=
  ∃ scope, (s.events t).phase = .parked scope ∧ s.key t scope = channel

/-- The handler is about to wait on the channel. -/
def ComesTo (s : APIServerState) (t : ℕ) (channel : String × String) : Prop :=
  ∃ scope, s.scopeOf t = some scope ∧ s.key t scope = channel

/-- The handler has yet to return, and may still come to the channel. -/
def CouldReach (s : APIServerState) (t : ℕ) (channel : String × String) : Prop :=
  (s.events t).phase = .notifying ∧
      (∃ scope, (s.events t).CoveredBy scope ∧ s.key t scope = channel) ∨
    ComesTo s t channel

/-- The state machine is parked in the send of a resume action, no handler is parked on the channel,
and every handler that could reach it waits for the state machine. -/
def StuckInSend (s : APIServerState) : Prop :=
  ∃ r, s.resuming = some r ∧ r.async = false ∧ r.phase = .sending ∧
    (s.pauses r.key).pausingCh ≠ some .closed ∧ (∀ t, ¬ ParkedOn s t r.key) ∧
    ∀ t, CouldReach s t r.key → (s.events t).phase = .notifying

/-- Whenever a synchronous resume action begins, a handler waits on its channel or is about to. -/
def FindsReceiver (s : APIServerState) : APIServerLabel → Prop
  | .act => ∀ apiServerName pauseScope rest,
      s.remaining = .resumeAPIServer apiServerName pauseScope false :: rest →
        ∃ t, ParkedOn s t (apiServerName, pauseScope) ∨ ComesTo s t (apiServerName, pauseScope)
  | _ => True

/-- While a synchronous resume action sends, a handler waits on its channel or is about to. -/
def HasReceiver (s : APIServerState) : Prop :=
  ∀ r, s.resuming = some r → r.async = false → r.phase = .sending →
    (s.pauses r.key).pausingCh = some .closed ∨ ∃ t, ParkedOn s t r.key ∨ ComesTo s t r.key

theorem ComesTo.phase {s : APIServerState} {t : ℕ} {channel : String × String} (h : ComesTo s t channel) :
    (s.events t).phase = .testing ∨ (s.events t).phase = .testingAll := by
  obtain ⟨_, hscope, _⟩ := h
  rw [APIServerState.scopeOf] at hscope
  split at hscope
  · exact .inl (by assumption)
  · exact .inr (by assumption)
  · cases hscope

theorem HasReceiver.not_stuck {s : APIServerState} (h : HasReceiver s) : ¬ StuckInSend s := by
  intro ⟨r, hresuming, hasync, hphase, hopen, hnobody, hwaiting⟩
  obtain hclosed | ⟨t, hparked | hcomes⟩ := h r hresuming hasync hphase
  · exact hopen hclosed
  · exact hnobody t hparked
  · have hnotifying := hwaiting t (.inr hcomes)
    obtain htesting | htesting := hcomes.phase <;>
    · rw [htesting] at hnotifying
      cases hnotifying

/-- A handler that looks up a paused scope is about to wait on its channel. -/
theorem scopeOf_looksUp {s : APIServerState} {t : ℕ} {scope : String}
    (hlooks : (s.events t).looksUp = some scope)
    (hpaused : (s.pauses (s.key t scope)).paused = true) : s.scopeOf t = some scope := by
  rw [APIServerState.scopeOf]
  obtain ⟨hphase, rfl⟩ | ⟨hphase, rfl⟩ := looksUp_cases hlooks
  · rw [hphase, processPauseAPIServerRecv]
    exact if_pos hpaused
  · rw [hphase]
    exact if_pos hpaused

/-- A handler that does not move stays where it is. -/
theorem receiver_of_other {s s' : APIServerState} {t u : ℕ} {channel : String × String} (hne : t ≠ u)
    {moved : ServerEvent} (hevents : s'.events = Function.update s.events u moved)
    (hpauses : s'.pauses = s.pauses) (h : ParkedOn s t channel ∨ ComesTo s t channel) :
    ParkedOn s' t channel ∨ ComesTo s' t channel := by
  have hsame : s'.events t = s.events t := by
    rw [hevents, Function.update_of_ne hne]
  rw [ParkedOn, ComesTo, APIServerState.scopeOf, hsame, hpauses]
  simp only [APIServerState.key, hsame]
  exact h

/-- A handler that does not wait can only be about to. -/
theorem comesTo_of_not_parked {s : APIServerState} {t : ℕ} {channel : String × String}
    (h : ParkedOn s t channel ∨ ComesTo s t channel) (hphase : ∀ scope, (s.events t).phase ≠ .parked scope) :
    ComesTo s t channel := by
  obtain ⟨scope, hparked, _⟩ | hcomes := h
  · exact absurd hparked (hphase scope)
  · exact hcomes

/-- A handler that parks waits on the channel that it has been about to wait on. -/
theorem ComesTo.park {s : APIServerState} {t : ℕ} {channel : String × String} {scope : String}
    (h : ComesTo s t channel) (hlooks : (s.events t).looksUp = some scope)
    (hpaused : (s.pauses (s.key t scope)).paused = true) :
    ParkedOn (s.setPhase t (.parked scope)) t channel := by
  obtain ⟨scope', hscope', hkey⟩ := h
  rw [scopeOf_looksUp hlooks hpaused] at hscope'
  obtain rfl := Option.some.inj hscope'
  refine ⟨scope, ?_, ?_⟩
  · rw [s.setPhase_self]
  · rw [APIServerState.key, s.setPhase_self]
    exact hkey

/-- A handler whose key is free is on its way to "all". -/
theorem ComesTo.passKey {s : APIServerState} {t : ℕ} {channel : String × String}
    (h : ComesTo s t channel) (htesting : (s.events t).phase = .testing)
    (hfree : (s.pauses (s.key t (s.events t).resourceKey)).paused = false) :
    ComesTo (s.setPhase t .testingAll) t channel := by
  obtain ⟨scope, hscope, hkey⟩ := h
  refine ⟨scope, ?_, ?_⟩
  · simp only [APIServerState.scopeOf, htesting, processPauseAPIServerRecv] at hscope
    simp only [APIServerState.scopeOf, APIServerState.key, s.setPhase_self, s.setPhase_pauses]
    rw [APIServerState.key] at hfree
    rw [hfree] at hscope
    exact hscope
  · rw [APIServerState.key, s.setPhase_self]
    exact hkey

/-- A handler that finds no pause is not about to wait. -/
theorem FindsNoPause.not_comesTo {s : APIServerState} {t : ℕ} {channel : String × String}
    (h : FindsNoPause s t) : ¬ ComesTo s t channel := by
  intro ⟨scope, hscope, _⟩
  cases h with
  | unknown hphase hunknown =>
    simp only [APIServerState.scopeOf, hphase] at hscope
    have hpaused := (processPauseAPIServerRecv_some hscope).2
    have habsent := hunknown scope
    rw [APIServerState.key] at habsent
    rw [habsent] at hpaused
    cases hpaused
  | free hphase hfree =>
    simp only [APIServerState.scopeOf, hphase, hfree] at hscope
    cases hscope

/-- A handler that is neither before nor between its look-ups is not about to wait. -/
theorem not_comesTo {s : APIServerState} {t : ℕ} {channel : String × String}
    (h : (s.events t).looksUp = none) : ¬ ComesTo s t channel := by
  intro hcomes
  rw [ServerEvent.looksUp] at h
  obtain hphase | hphase := hcomes.phase <;>
  · rw [hphase] at h
    cases h

/-- When one handler moves, the receiver is another, or this one still. -/
theorem receiver_of_move {s s' : APIServerState} {u : ℕ} {channel : String × String}
    {moved : ServerEvent} (hevents : s'.events = Function.update s.events u moved)
    (hpauses : s'.pauses = s.pauses)
    (hself : ParkedOn s u channel ∨ ComesTo s u channel →
      (s.pauses channel).pausingCh = some .closed ∨ ParkedOn s' u channel ∨ ComesTo s' u channel)
    (h : (s.pauses channel).pausingCh = some .closed ∨ ∃ t, ParkedOn s t channel ∨ ComesTo s t channel) :
    (s'.pauses channel).pausingCh = some .closed ∨
      ∃ t, ParkedOn s' t channel ∨ ComesTo s' t channel := by
  rw [hpauses]
  obtain hclosed | ⟨t, ht⟩ := h
  · exact .inl hclosed
  · by_cases htu : t = u
    · rw [htu] at ht
      exact (hself ht).imp id fun hreceives => ⟨u, hreceives⟩
    · exact .inr ⟨t, receiver_of_other htu hevents hpauses ht⟩

theorem hasReceiver_step {s s' : APIServerState} {label : APIServerLabel} (hs : HasReceiver s)
    (hguard : FindsReceiver s label) (h : APIServerStep s label s') : HasReceiver s' := by
  intro r hresuming hasync hphase
  cases h with
  | pause hnext hidle =>
    rw [show s.resuming = some r from hresuming] at hidle
    cases hidle
  | resume hnext hidle =>
    obtain rfl := Option.some.inj hresuming
    obtain rfl : _ = false := hasync
    exact .inr (hguard _ _ _ hnext)
  | other hnext hidle =>
    rw [show s.resuming = some r from hresuming] at hidle
    cases hidle
  | sendPanic => exact hs r hresuming hasync hphase
  | release =>
    obtain rfl := Option.some.inj hresuming
    cases hphase
  | close =>
    obtain rfl := Option.some.inj hresuming
    cases hphase
  | closePanic => exact hs r hresuming hasync hphase
  | unset => cases hresuming
  | arrive _ _ _ habsent =>
    refine receiver_of_move rfl rfl (fun ht => ?_) (hs r hresuming hasync hphase)
    refine absurd (comesTo_of_not_parked ht ?_) (not_comesTo ?_)
    · simp [habsent]
    · rw [ServerEvent.looksUp, habsent]
  | serve _ hserves =>
    have htrue := hserves r hresuming
    rw [hasync] at htrue
    cases htrue
  | park hlooks hpaused =>
    refine receiver_of_move rfl rfl (fun ht => ?_) (hs r hresuming hasync hphase)
    refine .inr (.inl ((comesTo_of_not_parked ht fun scope' hparked => ?_).park hlooks hpaused))
    rw [ServerEvent.looksUp, hparked] at hlooks
    cases hlooks
  | passKey htesting hfree =>
    refine receiver_of_move rfl rfl (fun ht => ?_) (hs r hresuming hasync hphase)
    exact .inr (.inr ((comesTo_of_not_parked ht (by simp [htesting])).passKey htesting hfree))
  | unknown htesting hunknown =>
    refine receiver_of_move rfl rfl (fun ht => ?_) (hs r hresuming hasync hphase)
    exact absurd (comesTo_of_not_parked ht (by simp [htesting]))
      (FindsNoPause.unknown htesting hunknown).not_comesTo
  | pass htesting hfree =>
    refine receiver_of_move rfl rfl (fun ht => ?_) (hs r hresuming hasync hphase)
    exact absurd (comesTo_of_not_parked ht (by simp [htesting]))
      (FindsNoPause.free htesting hfree).not_comesTo
  | wake hparked hclosed =>
    refine receiver_of_move rfl rfl (fun ht => .inl ?_) (hs r hresuming hasync hphase)
    obtain ⟨scope', hparked', hkey⟩ | hcomes := ht
    · rw [hparked] at hparked'
      obtain rfl := EventPhase.parked.inj hparked'
      rw [← hkey]
      exact hclosed
    · refine absurd hcomes (not_comesTo ?_)
      rw [ServerEvent.looksUp, hparked]

/-- **A resume action never waits for a receiver that waits for it**, for any plan and in any run in
which every resume action finds a receiver when it begins. -/
theorem never_stuckInSend (plan : List APIServerAction) :
    Always (Guarded APIServerRuns FindsReceiver) (.start plan) fun s => ¬ StuckInSend s := by
  refine .mono (.of_guarded (P := HasReceiver) (fun _ h => nomatch h)
    fun s label s' hs hguard hstep => hasReceiver_step hs hguard hstep.2) fun s h => h.not_stuck

/-- A plan that pauses one API server and resumes it. -/
def pauseServer : List APIServerAction :=
  [.pauseAPIServer "kind-control-plane3" "pod/default/a" false,
    .resumeAPIServer "kind-control-plane3" "pod/default/a" false]

/-- The resume action begins, by a timeout, before the handler of the only event has been served. -/
theorem pauseServer_stuckInSend :
    ∃ s, ReflTransGen (Unlabelled APIServerRuns) (.start pauseServer) s ∧ StuckInSend s ∧
      (s.events 0).phase = .notifying ∧ s.key 0 "pod/default/a" =
        ("kind-control-plane3", "pod/default/a") := by
  have hpause : ReflTransGen (Unlabelled APIServerRuns) (.start pauseServer) _ :=
    .single ⟨.act, rfl, .pause rfl rfl⟩
  have harrive := hpause.tail ⟨.arrive 0, rfl, .arrive "kind-control-plane3" "pod/default/a" true rfl⟩
  have hresume := harrive.tail ⟨.act, rfl, .resume rfl rfl⟩
  refine ⟨_, hresume, ⟨_, rfl, rfl, rfl, by decide, fun t hparked => ?_, fun t hreach => ?_⟩, rfl,
    rfl⟩
  · obtain ⟨scope, hphase, _⟩ := hparked
    by_cases ht : t = 0
    · rw [ht] at hphase
      cases hphase
    · simp [Function.update_of_ne ht, APIServerState.start] at hphase
  · by_cases ht : t = 0
    · rw [ht]
      rfl
    · obtain ⟨hphase, _⟩ | hcomes := hreach
      · exact hphase
      · obtain hphase | hphase := hcomes.phase <;>
        simp [Function.update_of_ne ht, APIServerState.start] at hphase

end Sieve.Server
