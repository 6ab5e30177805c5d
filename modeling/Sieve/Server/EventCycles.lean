import Sieve.Server.APIServerPauses
import Sieve.Server.PauseCycles

/-!
# Pausing a scope again and again: the API servers

A resume action of an API server sends before it closes, and otherwise the maps are handled the same
way:

* `EventsBlockUntilResume`: nothing has panicked, and an event that arrives in a cycle waits for its
  resume;
* `ServerStage`, `InServerCycle`: where a run stands in the first cycle;
* `server_cycles_iff`: a plan works in all runs if and only if it has one cycle;
* `cycles_iff`: both kinds of pauses.
-/

namespace Sieve.Server

open Sieve.Library
open Relation (ReflTransGen)

/-- The pauses and resumes of the plan are all of one scope and alternate. -/
def ServerAlternates (key : String × String) : Bool → List APIServerAction → Prop
  | _, [] => True
  | next, .pauseAPIServer apiServerName pauseScope _ :: plan =>
    next = true ∧ (apiServerName, pauseScope) = key ∧ ServerAlternates key false plan
  | next, .resumeAPIServer apiServerName pauseScope _ :: plan =>
    next = false ∧ (apiServerName, pauseScope) = key ∧ ServerAlternates key true plan
  | next, .other :: plan => ServerAlternates key next plan

/-- How many pauses and resumes the plan has. -/
def serverPausesAndResumes : List APIServerAction → ℕ
  | [] => 0
  | .pauseAPIServer _ _ _ :: plan => serverPausesAndResumes plan + 1
  | .resumeAPIServer _ _ _ :: plan => serverPausesAndResumes plan + 1
  | .other :: plan => serverPausesAndResumes plan

/-- The event arrived after a pause of the scope that covers it, and before the next resume began. -/
def EventArrivedPaused (key : String × String) (s : APIServerState) (t : ℕ) : Prop :=
  (s.events t).apiServerHostname = key.1 ∧ (s.events t).CoveredBy key.2 ∧ (s.events t).since % 2 = 1

/-- **Pauses block until the resume**: no action has panicked, an event that arrived in a cycle returns
only when the resume of that cycle has begun, and is free to go on when it is over. -/
def EventsBlockUntilResume (key : String × String) (s : APIServerState) : Prop :=
  s.panicked = none ∧
    (∀ label s' t, APIServerRuns s label s' → EventReturns s s' t → EventArrivedPaused key s t →
      (s.events t).since < s.begun) ∧
    ∀ t scope, (s.events t).phase = .parked scope → EventArrivedPaused key s t →
      (s.events t).since < s.begun → s.resuming = none → ∃ s', APIServerStep s (.wake t) s'

/-- What the maps hold of the scope in the first cycle: so many of its actions have begun, and this is
the resume action that is running. -/
inductive ServerStage (key : String × String) : ℕ → Option Resuming → PauseEntry → Prop where
  | fresh : ServerStage key 0 none .absent
  | paused : ServerStage key 1 none ⟨some true, some .opened⟩
  | resuming {r : Resuming} (hkey : r.key = key) (hphase : r.phase ≠ .unsetting) :
      ServerStage key 2 (some r) ⟨some true, some .opened⟩
  | closed {r : Resuming} (hkey : r.key = key) (hphase : r.phase = .unsetting) :
      ServerStage key 2 (some r) ⟨some true, some .closed⟩
  | resumed : ServerStage key 2 none ⟨some false, some .closed⟩

structure InServerCycle (key : String × String) (total : ℕ) (s : APIServerState) : Prop where
  alternates : ServerAlternates key (s.begun % 2 == 0) s.remaining
  counted : s.begun + serverPausesAndResumes s.remaining = total
  pauses : ∃ entry, ServerStage key s.begun s.resuming entry ∧
    s.pauses = Function.update (fun _ => .absent) key entry
  panicked : s.panicked = none

namespace InServerCycle

variable {key : String × String} {total : ℕ} {s s' : APIServerState}

theorem paused (h : InServerCycle key total s) {key' : String × String}
    (hpaused : (s.pauses key').paused = true) : key' = key := by
  obtain ⟨entry, _, hmaps⟩ := h.pauses
  by_contra hne
  rw [hmaps, Function.update_of_ne hne] at hpaused
  cases hpaused

/-- The scope that is being resumed is the one of the plan, and its channel is open until the resume
action has closed it. -/
theorem resuming_stage (h : InServerCycle key total s) {r : Resuming}
    (hresuming : s.resuming = some r) :
    r.key = key ∧ s.begun = 2 ∧ s.pauses = Function.update (fun _ => .absent) key
      ⟨some true, some (if r.phase = .unsetting then .closed else .opened)⟩ := by
  obtain ⟨entry, hstage, hmaps⟩ := h.pauses
  rw [hresuming] at hstage
  generalize s.begun = begun at hstage
  cases hstage with
  | resuming hkey hphase =>
    rw [if_neg hphase]
    exact ⟨hkey, rfl, hmaps⟩
  | closed hkey hphase =>
    rw [if_pos hphase]
    exact ⟨hkey, rfl, hmaps⟩

theorem of_same (h : InServerCycle key total s) (hremaining : s'.remaining = s.remaining)
    (hbegun : s'.begun = s.begun) (hresuming : s'.resuming = s.resuming)
    (hpauses : s'.pauses = s.pauses) (hpanicked : s'.panicked = s.panicked) :
    InServerCycle key total s' := by
  obtain ⟨halternates, hcounted, hmaps, hnone⟩ := h
  refine ⟨?_, ?_, ?_, ?_⟩
  · rwa [hbegun, hremaining]
  · rwa [hbegun, hremaining]
  · rwa [hbegun, hresuming, hpauses]
  · rwa [hpanicked]

/-- A step of the running resume action. -/
theorem resumes (h : InServerCycle key total s) (entry : PauseEntry) {resuming : Option Resuming}
    (hremaining : s'.remaining = s.remaining) (hbegun : s'.begun = s.begun)
    (hpanicked : s'.panicked = s.panicked) (hresuming : s'.resuming = resuming)
    (hstage : ServerStage key s.begun resuming entry)
    (hpauses : s'.pauses = Function.update (fun _ => .absent) key entry) :
    InServerCycle key total s' := by
  obtain ⟨halternates, hcounted, _, hnone⟩ := h
  refine ⟨?_, ?_, ⟨entry, ?_, hpauses⟩, ?_⟩
  · rwa [hbegun, hremaining]
  · rwa [hbegun, hremaining]
  · rwa [hbegun, hresuming]
  · rwa [hpanicked]

theorem pause (h : InServerCycle key total s) (hle : total ≤ 2) {apiServerName pauseScope : String}
    {async : Bool} {rest : List APIServerAction}
    (hnext : s.remaining = .pauseAPIServer apiServerName pauseScope async :: rest)
    (hidle : s.resuming = none) :
    InServerCycle key total
      { s with
        remaining := rest
        begun := s.begun + 1
        pauses := Function.update s.pauses (apiServerName, pauseScope)
          (s.pauses (apiServerName, pauseScope)).pause } := by
  obtain ⟨halternates, hcounted, ⟨entry, hstage, hmaps⟩, hnone⟩ := h
  rw [hnext, ServerAlternates] at halternates
  rw [hnext, serverPausesAndResumes] at hcounted
  obtain ⟨heven, rfl, hrest⟩ := halternates
  rw [beq_iff_eq] at heven
  have hbegun : s.begun = 0 := by omega
  rw [hbegun, hidle] at hstage
  cases hstage
  refine ⟨?_, ?_, ⟨⟨some true, some .opened⟩, ?_, ?_⟩, hnone⟩
  · show ServerAlternates _ ((s.begun + 1) % 2 == 0) rest
    rw [hbegun]
    exact hrest
  · show s.begun + 1 + serverPausesAndResumes rest = total
    omega
  · show ServerStage _ (s.begun + 1) s.resuming _
    rw [hbegun, hidle]
    exact .paused
  · show Function.update s.pauses _ (s.pauses _).pause = _
    rw [hmaps, Function.update_self, Function.update_idem]
    rfl

theorem resume (h : InServerCycle key total s) (hle : total ≤ 2) {apiServerName pauseScope : String}
    {async : Bool} {rest : List APIServerAction}
    (hnext : s.remaining = .resumeAPIServer apiServerName pauseScope async :: rest)
    (hidle : s.resuming = none) :
    InServerCycle key total
      { s with
        remaining := rest
        begun := s.begun + 1
        resuming := some ⟨apiServerName, pauseScope, async, .sending⟩ } := by
  obtain ⟨halternates, hcounted, ⟨entry, hstage, hmaps⟩, hnone⟩ := h
  rw [hnext, ServerAlternates] at halternates
  rw [hnext, serverPausesAndResumes] at hcounted
  obtain ⟨hodd, rfl, hrest⟩ := halternates
  rw [beq_eq_false_iff_ne] at hodd
  have hbegun : s.begun = 1 := by omega
  rw [hbegun, hidle] at hstage
  cases hstage
  refine ⟨?_, ?_, ⟨_, ?_, hmaps⟩, hnone⟩
  · show ServerAlternates _ ((s.begun + 1) % 2 == 0) rest
    rw [hbegun]
    exact hrest
  · show s.begun + 1 + serverPausesAndResumes rest = total
    omega
  · show ServerStage _ (s.begun + 1) (some _) _
    rw [hbegun]
    exact .resuming rfl nofun

theorem step (h : InServerCycle key total s) (hle : total ≤ 2) {label : APIServerLabel}
    (hstep : APIServerStep s label s') : InServerCycle key total s' := by
  cases hstep with
  | pause hnext hidle => exact h.pause hle hnext hidle
  | resume hnext hidle => exact h.resume hle hnext hidle
  | other hnext _ =>
    obtain ⟨halternates, hcounted, hmaps, hnone⟩ := h
    rw [hnext, ServerAlternates] at halternates
    rw [hnext, serverPausesAndResumes] at hcounted
    exact ⟨halternates, hcounted, hmaps, hnone⟩
  | sendPanic hresuming hphase hclosed =>
    obtain ⟨hkey, _, hmaps⟩ := h.resuming_stage hresuming
    rw [hkey, hmaps, Function.update_self, hphase] at hclosed
    simp at hclosed
  | release hresuming hphase =>
    obtain ⟨hkey, hbegun, hmaps⟩ := h.resuming_stage hresuming
    rw [hphase, if_neg (by decide)] at hmaps
    refine h.resumes _ rfl rfl rfl rfl ?_ hmaps
    rw [hbegun]
    exact .resuming hkey nofun
  | close hresuming hphase hclose =>
    obtain ⟨_, rfl⟩ := PauseEntry.close_ok hclose
    obtain ⟨hkey, hbegun, hmaps⟩ := h.resuming_stage hresuming
    refine h.resumes ⟨some true, some .closed⟩ rfl rfl rfl rfl ?_ ?_
    · rw [hbegun]
      exact .closed hkey rfl
    · show Function.update s.pauses _ _ = _
      rw [hkey, hmaps, Function.update_idem, Function.update_self]
  | closePanic hresuming hphase hclose =>
    obtain ⟨hkey, _, hmaps⟩ := h.resuming_stage hresuming
    rw [hkey, hmaps, Function.update_self, hphase] at hclose
    simp [PauseEntry.close] at hclose
  | unset hresuming hphase =>
    obtain ⟨hkey, hbegun, hmaps⟩ := h.resuming_stage hresuming
    rw [hphase, if_pos rfl] at hmaps
    refine h.resumes ⟨some false, some .closed⟩ rfl rfl rfl rfl ?_ ?_
    · rw [hbegun]
      exact .resumed
    · show Function.update s.pauses _ _ = _
      rw [hkey, hmaps, Function.update_idem, Function.update_self]
      rfl
  | arrive => exact h.of_same rfl rfl rfl rfl rfl
  | serve => exact h.of_same rfl rfl rfl rfl rfl
  | park => exact h.of_same rfl rfl rfl rfl rfl
  | unknown => exact h.of_same rfl rfl rfl rfl rfl
  | passKey => exact h.of_same rfl rfl rfl rfl rfl
  | pass => exact h.of_same rfl rfl rfl rfl rfl
  | wake => exact h.of_same rfl rfl rfl rfl rfl

theorem start {plan : List APIServerAction} (h : ServerAlternates key true plan) :
    InServerCycle key (serverPausesAndResumes plan) (.start plan) where
  alternates := h
  counted := by simp [APIServerState.start]
  pauses := ⟨.absent, .fresh, by simp [APIServerState.start]⟩
  panicked := rfl

end InServerCycle

/-- While the scope is paused and its resume has not begun, its channel is open and its flag set. -/
theorem InServerCycle.open_of_odd {key : String × String} {total : ℕ} {s : APIServerState}
    (h : InServerCycle key total s) (hodd : s.begun % 2 = 1) :
    s.resuming = none ∧ (s.pauses key).paused = true ∧ (s.pauses key).pausingCh = some .opened := by
  obtain ⟨entry, hstage, hmaps⟩ := h.pauses
  rw [hmaps, Function.update_self]
  generalize s.begun = begun at hstage hodd
  generalize s.resuming = resuming at hstage
  cases hstage with
  | paused => exact ⟨rfl, rfl, rfl⟩
  | fresh | resuming | closed | resumed => simp at hodd

/-- No event arrived later than now, and those that wait do so for the one scope; one that has arrived
in this cycle is past the look-up of its key only if that is not the scope. -/
def EventsWaitForKey (key : String × String) (s : APIServerState) : Prop :=
  ∀ t, (s.events t).since ≤ s.begun ∧
    (∀ scope, (s.events t).phase = .parked scope → s.key t scope = key) ∧
    ((s.events t).phase = .testingAll → (s.events t).since = s.begun → s.begun % 2 = 1 →
      s.key t (s.events t).resourceKey ≠ key)

namespace EventsWaitForKey

variable {key : String × String} {s s' : APIServerState}

theorem update {u : ℕ} {moved : ServerEvent} (h : EventsWaitForKey key s)
    (hevents : s'.events = Function.update s.events u moved) (hbegun : s'.begun = s.begun)
    (hsince : moved.since ≤ s.begun)
    (hphase : ∀ scope, moved.phase = .parked scope → (moved.apiServerHostname, scope) = key)
    (hbetween : moved.phase = .testingAll → moved.since = s.begun → s.begun % 2 = 1 →
      (moved.apiServerHostname, moved.resourceKey) ≠ key) :
    EventsWaitForKey key s' := by
  intro t
  simp only [APIServerState.key, hevents, hbegun]
  by_cases htu : t = u
  · rw [htu, Function.update_self]
    exact ⟨hsince, hphase, hbetween⟩
  · rw [Function.update_of_ne htu]
    exact h t

/-- The next action begins. -/
theorem later (h : EventsWaitForKey key s) (hevents : s'.events = s.events)
    (hbegun : s'.begun = s.begun + 1) : EventsWaitForKey key s' := by
  intro t
  have hsince := (h t).1
  simp only [APIServerState.key, hevents]
  exact ⟨by omega, (h t).2.1, fun _ hnow _ => by omega⟩

theorem same (h : EventsWaitForKey key s) (hevents : s'.events = s.events)
    (hbegun : s'.begun = s.begun) : EventsWaitForKey key s' := by
  intro t
  simp only [APIServerState.key, hevents, hbegun]
  exact h t

theorem step {total : ℕ} {label : APIServerLabel} (h : EventsWaitForKey key s)
    (hcycle : InServerCycle key total s) (hstep : APIServerStep s label s') :
    EventsWaitForKey key s' := by
  cases hstep with
  | pause => exact h.later rfl rfl
  | resume => exact h.later rfl rfl
  | other => exact h.same rfl rfl
  | sendPanic => exact h.same rfl rfl
  | release => exact h.update rfl rfl (h _).1 (fun _ hphase => nomatch hphase) fun hphase => nomatch hphase
  | close => exact h.same rfl rfl
  | closePanic => exact h.same rfl rfl
  | unset => exact h.same rfl rfl
  | arrive _ _ supported =>
    refine h.update rfl rfl le_rfl (fun _ hphase => ?_) fun hphase => ?_ <;>
    cases supported <;> cases hphase
  | serve => exact h.update rfl rfl (h _).1 (fun _ hphase => nomatch hphase) fun hphase => nomatch hphase
  | park _ hpaused =>
    refine h.update rfl rfl (h _).1 (fun scope hphase => ?_) fun hphase => nomatch hphase
    obtain rfl := EventPhase.parked.inj hphase
    exact hcycle.paused hpaused
  | unknown => exact h.update rfl rfl (h _).1 (fun _ hphase => nomatch hphase) fun hphase => nomatch hphase
  | @passKey t _ hfree =>
    refine h.update rfl rfl (h _).1 (fun _ hphase => nomatch hphase) fun _ _ hodd hkey => ?_
    have hpaused := (hcycle.open_of_odd hodd).2.1
    rw [← hkey] at hpaused
    exact absurd (hpaused.symm.trans hfree) (by decide)
  | pass => exact h.update rfl rfl (h _).1 (fun _ hphase => nomatch hphase) fun hphase => nomatch hphase
  | wake => exact h.update rfl rfl (h _).1 (fun _ hphase => nomatch hphase) fun hphase => nomatch hphase

end EventsWaitForKey

/-- **One cycle works.** -/
theorem InServerCycle.blocksUntilResume {key : String × String} {total : ℕ} {s : APIServerState}
    (h : InServerCycle key total s) (hwaits : EventsWaitForKey key s) (hle : total ≤ 2) :
    EventsBlockUntilResume key s := by
  have htotal := h.counted
  refine ⟨h.panicked, fun label s' t hruns hreturns harrived => ?_,
    fun t scope hparked harrived hlater hidle => ?_⟩
  · obtain ⟨hhost, hcovered, hodd⟩ := harrived
    by_contra hnot
    have hsince := (hwaits t).1
    obtain ⟨hidle, hpaused, hopened⟩ := h.open_of_odd (by omega)
    have hkey : s.key t key.2 = key := Prod.ext hhost rfl
    obtain ⟨⟨hfinds, _⟩ | ⟨scope, hparked, _, hclosed | ⟨r, hresuming, _⟩⟩, _, _⟩ :=
      returns_event hruns.2 hreturns
    · cases hfinds with
      | unknown _ hunknown =>
        rw [← hkey, hunknown] at hpaused
        cases hpaused
      | free hphase hfree =>
        obtain hown | hall := hcovered
        · rw [hown] at hkey
          exact (hwaits t).2.2 hphase (by omega) (by omega) hkey
        · rw [← hkey, hall, hfree] at hpaused
          cases hpaused
    · rw [(hwaits t).2.1 scope hparked, hopened] at hclosed
      cases hclosed
    · rw [hidle] at hresuming
      cases hresuming
  · have hodd := harrived.2.2
    have hbegun : s.begun = 2 := by omega
    refine ⟨_, .wake hparked ?_⟩
    obtain ⟨entry, hstage, hmaps⟩ := h.pauses
    rw [hbegun, hidle] at hstage
    rw [(hwaits t).2.1 scope hparked, hmaps, Function.update_self]
    cases hstage
    rfl

/-! ### The second pause -/

/-- A state between two actions in which only this scope has an entry. -/
def onKey (key : String × String) (plan : List APIServerAction) (begun : ℕ) (entry : PauseEntry)
    (events : ℕ → ServerEvent) : APIServerState where
  remaining := plan
  begun := begun
  resuming := none
  pauses := Function.update (fun _ => .absent) key entry
  events := events
  panicked := none

variable {key : String × String} {plan : List APIServerAction} (begun : ℕ)
  (events : ℕ → ServerEvent) (entry : PauseEntry)

/-- The state machine comes to the next pause or resume of the plan. -/
theorem comes_to {next : Bool} (h : ServerAlternates key next plan)
    (hcount : 1 ≤ serverPausesAndResumes plan) :
    ∃ action rest, ReflTransGen (Unlabelled APIServerRuns) (onKey key plan begun entry events)
        (onKey key (action :: rest) begun entry events) ∧ ServerAlternates key next (action :: rest) ∧
      serverPausesAndResumes (action :: rest) = serverPausesAndResumes plan ∧ action ≠ .other := by
  induction plan with
  | nil => exact absurd hcount (by decide)
  | cons action rest ih =>
    cases action with
    | pauseAPIServer => exact ⟨_, rest, .refl, h, rfl, nofun⟩
    | resumeAPIServer => exact ⟨_, rest, .refl, h, rfl, nofun⟩
    | other =>
      obtain ⟨action', rest', hrun, halternates, hsame, hne⟩ := ih h hcount
      exact ⟨action', rest', .head ⟨.act, rfl, .other rfl rfl⟩ hrun, halternates, hsame, hne⟩

/-- It executes the pause that is next. -/
theorem executes_pause (h : ServerAlternates key true plan)
    (hcount : 1 ≤ serverPausesAndResumes plan) :
    ∃ rest, ReflTransGen (Unlabelled APIServerRuns) (onKey key plan begun entry events)
        (onKey key rest (begun + 1) entry.pause events) ∧ ServerAlternates key false rest ∧
      serverPausesAndResumes rest + 1 = serverPausesAndResumes plan := by
  obtain ⟨action, rest, hrun, halternates, hsame, hne⟩ := comes_to begun events entry h hcount
  cases action with
  | pauseAPIServer apiServerName pauseScope async =>
    obtain ⟨_, rfl, hrest⟩ := halternates
    refine ⟨rest, hrun.tail ⟨.act, rfl, ?_⟩, hrest, hsame⟩
    convert APIServerStep.pause (rfl : (onKey _ (_ :: rest) begun entry events).remaining = _) rfl
      using 1
    simp [onKey]
  | resumeAPIServer => exact absurd halternates.1 (by decide)
  | other => exact absurd rfl hne

/-- It executes the resume that is next, and a waiting event takes what it sends. -/
theorem executes_resume (h : ServerAlternates key false plan)
    (hcount : 1 ≤ serverPausesAndResumes plan) (hopened : entry.pausingCh = some .opened) {t : ℕ}
    (hhost : (events t).apiServerHostname = key.1) (hparked : (events t).phase = .parked key.2) :
    ∃ rest events', ReflTransGen (Unlabelled APIServerRuns) (onKey key plan begun entry events)
        (onKey key rest (begun + 1) ⟨some false, some .closed⟩ events') ∧
      ServerAlternates key true rest ∧
      serverPausesAndResumes rest + 1 = serverPausesAndResumes plan ∧
      ∀ u, u ≠ t → events' u = events u := by
  obtain ⟨action, rest, hrun, halternates, hsame, hne⟩ := comes_to begun events entry h hcount
  cases action with
  | pauseAPIServer => exact absurd halternates.1 (by decide)
  | resumeAPIServer apiServerName pauseScope async =>
    obtain ⟨_, rfl, hrest⟩ := halternates
    have hbegins := hrun.tail ⟨.act, rfl, .resume rfl rfl⟩
    have hsends := hbegins.tail ⟨.release t, rfl, .release rfl rfl hparked
      (Prod.ext hhost rfl) (by simp [onKey, Resuming.key, hopened])⟩
    have hcloses := hsends.tail ⟨.resume, rfl, .close rfl rfl
      (by simp [onKey, Resuming.key, PauseEntry.close, hopened]; rfl)⟩
    have hunsets := hcloses.tail ⟨.resume, rfl, .unset rfl rfl⟩
    refine ⟨rest, Function.update events t { events t with phase := .returned }, ?_, hrest, hsame,
      fun u hu => Function.update_of_ne hu _ _⟩
    convert hunsets using 1
    simp [onKey, Resuming.key, PauseEntry.unset, APIServerState.setPhase]
  | other => exact absurd rfl hne

/-- An event of the scope arrives while it is paused, and comes to wait. -/
theorem comes_to_wait (plan : List APIServerAction) (hpaused : entry.paused = true) {t : ℕ}
    (habsent : (events t).phase = .absent) :
    ReflTransGen (Unlabelled APIServerRuns) (onKey key plan begun entry events)
      (onKey key plan begun entry
        (Function.update events t ⟨key.1, key.2, .parked key.2, begun⟩)) := by
  have harrives : ReflTransGen (Unlabelled APIServerRuns) (onKey key plan begun entry events) _ :=
    .single ⟨.arrive t, rfl, .arrive key.1 key.2 false habsent⟩
  have hparks := harrives.tail ⟨.test t, rfl, @APIServerStep.park _ t key.2 (by simp [ServerEvent.looksUp])
    ?_⟩
  · convert hparks using 1
    simp [onKey, APIServerState.setPhase]
  · simp [onKey, APIServerState.key, hpaused]

/-- **The second pause holds nobody**: an event that arrives after it waits on the channel that the
first resume has closed. -/
theorem event_returns_at_once (plan : List APIServerAction) (habsent : (events 1).phase = .absent) :
    ∃ s', ReflTransGen (Unlabelled APIServerRuns)
        (onKey key plan 3 ⟨some true, some .closed⟩ events) s' ∧ ¬ EventsBlockUntilResume key s' := by
  refine ⟨_, comes_to_wait 3 events _ plan rfl habsent, fun hblocks => ?_⟩
  have hlater := hblocks.2.1 (.wake 1) _ 1 ⟨rfl, @APIServerStep.wake _ 1 key.2 ?_ ?_⟩ ?_ ?_
  · simp [onKey] at hlater
  · simp [onKey]
  · simp [onKey, APIServerState.key]
  · simp [EventReturns, onKey]
  · simp [EventArrivedPaused, onKey, ServerEvent.CoveredBy]

/-- **Pauses of an API server work** in all runs if and only if the plan has at most one cycle. -/
theorem server_cycles_iff (h : ServerAlternates key true plan) :
    Always (Unlabelled APIServerRuns) (.start plan) (EventsBlockUntilResume key) ↔
      serverPausesAndResumes plan ≤ 2 := by
  constructor
  · intro halways
    by_contra hnot
    obtain ⟨rest₁, hpause, h₁, hcount₁⟩ :=
      executes_pause 0 (APIServerState.start plan).events .absent h (by omega)
    have hwait := @comes_to_wait key 1 (APIServerState.start plan).events (.pause .absent) rest₁ rfl
      0 rfl
    obtain ⟨rest₂, events, hresume, h₂, hcount₂, hothers⟩ :=
      @executes_resume key rest₁ 1 (Function.update (APIServerState.start plan).events 0
        ⟨key.1, key.2, .parked key.2, 1⟩) (.pause .absent) h₁ (by omega) rfl 0 rfl rfl
    obtain ⟨rest₃, hagain, _, _⟩ := executes_pause 2 events ⟨some false, some .closed⟩ h₂ (by omega)
    obtain ⟨s', hfree, hfails⟩ := event_returns_at_once events rest₃ (by
      rw [hothers 1 (by decide)]
      rfl)
    refine hfails (halways s' ?_)
    have hstart : APIServerState.start plan = onKey key plan 0 .absent
        (APIServerState.start plan).events := by
      simp [APIServerState.start, onKey]
    rw [hstart]
    exact (((hpause.trans hwait).trans hresume).trans hagain).trans hfree
  · intro hle
    refine .mono (.of_labelled (P := fun s => InServerCycle key (serverPausesAndResumes plan) s ∧
      EventsWaitForKey key s) ⟨.start h, fun t => ⟨le_rfl, nofun, nofun⟩⟩ fun s label s' hs hstep => ?_)
      fun s hs => hs.1.blocksUntilResume hs.2 hle
    exact ⟨hs.1.step hle hstep.2, hs.2.step hs.1 hstep.2⟩

/-! ### Both -/

/-- **When pauses of one scope work**, for controllers and for API servers. -/
theorem cycles_iff {serverKey : String × String} {serverPlan : List APIServerAction}
    {plan : List PauseAction} (h : Alternates key true plan)
    (hserver : ServerAlternates serverKey true serverPlan) :
    (Always (Unlabelled ControllerRuns) (.start plan) (BlocksUntilResume key) ↔
      pausesAndResumes plan ≤ 2 ∨ pausesAndResumes plan = 3 ∧ ¬ IsPausePoint key.1) ∧
    (Always (Unlabelled APIServerRuns) (.start serverPlan) (EventsBlockUntilResume serverKey) ↔
      serverPausesAndResumes serverPlan ≤ 2) :=
  ⟨controller_cycles_iff h, server_cycles_iff hserver⟩

/-- A plan that pauses the reads of one object, resumes them, and does so once more. -/
def pausedTwice : List PauseAction :=
  [.pauseController beforeControllerRead "pod/default/a" false false,
    .resumeController beforeControllerRead "pod/default/a",
    .pauseController beforeControllerRead "pod/default/a" false false,
    .resumeController beforeControllerRead "pod/default/a"]

/-- The same at an API server. -/
def serverPausedTwice : List APIServerAction :=
  [.pauseAPIServer "api1" "pod/default/a" false, .resumeAPIServer "api1" "pod/default/a" false,
    .pauseAPIServer "api1" "pod/default/a" false, .resumeAPIServer "api1" "pod/default/a" false]

theorem cycles_iff_pausedTwice :
    (Always (Unlabelled ControllerRuns) (.start pausedTwice)
        (BlocksUntilResume (beforeControllerRead, "pod/default/a")) ↔
      pausesAndResumes pausedTwice ≤ 2 ∨
        pausesAndResumes pausedTwice = 3 ∧ ¬ IsPausePoint beforeControllerRead) ∧
    (Always (Unlabelled APIServerRuns) (.start serverPausedTwice)
        (EventsBlockUntilResume ("api1", "pod/default/a")) ↔
      serverPausesAndResumes serverPausedTwice ≤ 2) :=
  cycles_iff ⟨rfl, rfl, rfl, rfl, rfl, rfl, rfl, rfl, trivial⟩
    ⟨rfl, rfl, rfl, rfl, rfl, rfl, rfl, rfl, trivial⟩

/-- The second resume closes a closed channel. -/
theorem pausedTwice_panics :
    Alternates (beforeControllerRead, "pod/default/a") true pausedTwice ∧
      ∃ s, ReflTransGen (Unlabelled ControllerRuns) (.start pausedTwice) s ∧
        s.panicked = some .closeOfClosed ∧
        ¬ BlocksUntilResume (beforeControllerRead, "pod/default/a") s := by
  have hpause : ReflTransGen (Unlabelled ControllerRuns) (.start pausedTwice) _ :=
    .single ⟨.act, rfl, .pause rfl rfl⟩
  have hresume := hpause.tail ⟨.act, rfl, .resume rfl rfl rfl⟩
  have hagain := hresume.tail ⟨.act, rfl, .pause rfl rfl⟩
  have hpanic := hagain.tail ⟨.act, rfl, .panic rfl rfl rfl⟩
  exact ⟨⟨rfl, rfl, rfl, rfl, rfl, rfl, rfl, rfl, trivial⟩, _, hpanic, rfl,
    fun hblocks => nomatch hblocks.1⟩

end Sieve.Server
