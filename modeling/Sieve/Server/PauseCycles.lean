import Sieve.Server.ControllerPauses

/-!
# Pausing a scope again and again: the controller

The channel of a scope is made at its first pause and closed at its first resume, and nothing replaces
it.  So a second pause sets the flag and holds nobody, and a second resume closes a closed channel:

* `Alternates`: the pauses and resumes of a plan are all of one scope, in turn;
* `BlocksUntilResume`: nothing has panicked, and who arrives in a cycle waits for its resume;
* `InCycle`: where a run stands as long as the plan has at most three of these actions;
* `controller_cycles_iff`: the plans all of whose runs are as they should be.
-/

namespace Sieve.Server

open Sieve.Library
open Relation (ReflTransGen)

/-- The pauses and resumes of the plan are all of one scope and alternate; `next` says whether a pause
is next. -/
def Alternates (key : String × String) : Bool → List PauseAction → Prop
  | _, [] => True
  | next, .pauseController pauseAt pauseScope _ _ :: plan =>
    next = true ∧ (pauseAt, pauseScope) = key ∧ Alternates key false plan
  | next, .resumeController pauseAt pauseScope :: plan =>
    next = false ∧ (pauseAt, pauseScope) = key ∧ Alternates key true plan
  | next, .other :: plan => Alternates key next plan

/-- How many pauses and resumes the plan has. -/
def pausesAndResumes : List PauseAction → ℕ
  | [] => 0
  | .pauseController _ _ _ _ :: plan => pausesAndResumes plan + 1
  | .resumeController _ _ :: plan => pausesAndResumes plan + 1
  | .other :: plan => pausesAndResumes plan

/-- A point where some operation asks for a pause. -/
def IsPausePoint (pauseAt : String) : Prop :=
  ∃ (operation : Operation) (before : Bool), operation.pauseAt before = pauseAt

/-- The operation arrived at its pause point after a pause of the scope that covers it, and before the
next resume. -/
def ArrivedPaused (key : String × String) (s : ControllerState) (t : ℕ) (before : Bool) : Prop :=
  s.pauseAt t before = key.1 ∧ (s.operations t).operation.CoveredBy key.2 ∧
    (s.operations t).since % 2 = 1

/-- **Pauses block until the resume**: no action has panicked, what arrived in a cycle returns only
when the resume of that cycle has been executed, and is then free to go on. -/
def BlocksUntilResume (key : String × String) (s : ControllerState) : Prop :=
  s.panicked = none ∧
    (∀ label s' t before, ControllerRuns s label s' → Returns s s' t before →
      ArrivedPaused key s t before → (s.operations t).since < s.executed) ∧
    ∀ t before scope, (s.operations t).phase = .parked before scope → ArrivedPaused key s t before →
      (s.operations t).since < s.executed → ∃ s', ControllerStep s (.wake t) s'

/-- What the maps hold of the scope when so many of its pauses and resumes have been executed. -/
def entryAfter : ℕ → PauseEntry
  | 0 => .absent
  | 1 => ⟨some true, some .opened⟩
  | 2 => ⟨some false, some .closed⟩
  | _ => ⟨some true, some .closed⟩

structure InCycle (key : String × String) (total : ℕ) (s : ControllerState) : Prop where
  alternates : Alternates key (s.executed % 2 == 0) s.remaining
  counted : s.executed + pausesAndResumes s.remaining = total
  pauses : s.pauses = Function.update (fun _ => .absent) key (entryAfter s.executed)
  panicked : s.panicked = none

theorem entryAfter_pause {executed : ℕ} (heven : executed % 2 = 0) (hle : executed ≤ 2) :
    (entryAfter executed).pause = entryAfter (executed + 1) := by
  obtain rfl | rfl : executed = 0 ∨ executed = 2 := by omega
  · rfl
  · rfl

/-- The first resume finds the channel open. -/
theorem entryAfter_close {executed : ℕ} (hodd : executed % 2 = 1) (hle : executed ≤ 2) :
    (entryAfter executed).close = .ok ⟨some true, some .closed⟩ ∧
      entryAfter (executed + 1) = ⟨some false, some .closed⟩ := by
  obtain rfl : executed = 1 := by omega
  exact ⟨rfl, rfl⟩

theorem entryAfter_paused {executed : ℕ} (hle : executed ≤ 3) :
    (entryAfter executed).paused = (executed % 2 == 1) := by
  obtain rfl | rfl | rfl | rfl : executed = 0 ∨ executed = 1 ∨ executed = 2 ∨ executed = 3 := by omega
  all_goals rfl

theorem entryAfter_closed {executed : ℕ} :
    (entryAfter executed).pausingCh = some .closed ↔ 2 ≤ executed := by
  match executed with
  | 0 => simp [entryAfter, PauseEntry.absent]
  | 1 => simp [entryAfter]
  | 2 => simp [entryAfter]
  | n + 3 => simp [entryAfter]

namespace InCycle

variable {key : String × String} {total : ℕ} {s s' : ControllerState}

/-- Only the scope of the plan is ever paused. -/
theorem paused (h : InCycle key total s) {key' : String × String}
    (hpaused : (s.pauses key').paused = true) : key' = key := by
  by_contra hne
  rw [h.pauses, Function.update_of_ne hne] at hpaused
  cases hpaused

/-- A step of the handlers leaves the plan and the maps alone. -/
theorem of_same (h : InCycle key total s) (hremaining : s'.remaining = s.remaining)
    (hexecuted : s'.executed = s.executed) (hpauses : s'.pauses = s.pauses)
    (hpanicked : s'.panicked = s.panicked) : InCycle key total s' := by
  obtain ⟨halternates, hcounted, hmaps, hnone⟩ := h
  refine ⟨?_, ?_, ?_, ?_⟩
  · rwa [hexecuted, hremaining]
  · rwa [hexecuted, hremaining]
  · rwa [hexecuted, hpauses]
  · rwa [hpanicked]

theorem pause (h : InCycle key total s) (hle : s.executed ≤ 2) {pauseAt pauseScope : String}
    {avoidOngoingRead async waits : Bool} {rest : List PauseAction}
    (hnext : s.remaining = .pauseController pauseAt pauseScope avoidOngoingRead async :: rest) :
    InCycle key total
      { s.execute rest (pauseAt, pauseScope) (s.pauses (pauseAt, pauseScope)).pause with
        waitsForLock := waits } := by
  obtain ⟨halternates, hcounted, hmaps, hnone⟩ := h
  rw [hnext, Alternates] at halternates
  rw [hnext, pausesAndResumes] at hcounted
  obtain ⟨heven, rfl, hrest⟩ := halternates
  rw [beq_iff_eq] at heven
  refine ⟨?_, ?_, ?_, hnone⟩
  · show Alternates _ ((s.executed + 1) % 2 == 0) rest
    rw [show ((s.executed + 1) % 2 == 0) = false by simp; omega]
    exact hrest
  · show s.executed + 1 + pausesAndResumes rest = total
    omega
  · show Function.update s.pauses _ (s.pauses _).pause = Function.update _ _ (entryAfter (s.executed + 1))
    rw [hmaps, Function.update_self, Function.update_idem, entryAfter_pause heven hle]

theorem resume (h : InCycle key total s) (hle : s.executed ≤ 2) {pauseAt pauseScope : String}
    {rest : List PauseAction} (hnext : s.remaining = .resumeController pauseAt pauseScope :: rest) :
    ∃ entry, (s.pauses (pauseAt, pauseScope)).close = .ok entry ∧
      InCycle key total (s.execute rest (pauseAt, pauseScope) entry.unset) := by
  obtain ⟨halternates, hcounted, hmaps, hnone⟩ := h
  rw [hnext, Alternates] at halternates
  rw [hnext, pausesAndResumes] at hcounted
  obtain ⟨hodd, rfl, hrest⟩ := halternates
  rw [beq_eq_false_iff_ne] at hodd
  obtain ⟨hclose, hentry⟩ := @entryAfter_close s.executed (by omega) hle
  refine ⟨_, by rw [hmaps, Function.update_self]; exact hclose, ?_, ?_, ?_, hnone⟩
  · show Alternates _ ((s.executed + 1) % 2 == 0) rest
    rw [show ((s.executed + 1) % 2 == 0) = true by simp; omega]
    exact hrest
  · show s.executed + 1 + pausesAndResumes rest = total
    omega
  · show Function.update s.pauses _ _ = Function.update _ _ (entryAfter (s.executed + 1))
    rw [hmaps, Function.update_idem, hentry]
    rfl

theorem step (h : InCycle key total s) (hle : total ≤ 3) {label : ControllerLabel}
    (hstep : ControllerStep s label s') : InCycle key total s' := by
  have hcounted := h.counted
  cases hstep with
  | pause hnext _ =>
    rw [hnext, pausesAndResumes] at hcounted
    exact h.pause (by omega) hnext
  | avoid => exact h.of_same rfl rfl rfl rfl
  | resume hnext _ hclose =>
    rw [hnext, pausesAndResumes] at hcounted
    obtain ⟨entry, hentry, hresumed⟩ := h.resume (by omega) hnext
    rw [hclose] at hentry
    obtain rfl := Except.ok.inj hentry
    exact hresumed
  | panic hnext _ hclose =>
    rw [hnext, pausesAndResumes] at hcounted
    obtain ⟨entry, hentry, _⟩ := h.resume (by omega) hnext
    rw [hclose] at hentry
    cases hentry
  | other hnext _ =>
    obtain ⟨halternates, _, hmaps, hnone⟩ := h
    rw [hnext, Alternates] at halternates
    rw [hnext, pausesAndResumes] at hcounted
    exact ⟨halternates, hcounted, hmaps, hnone⟩
  | arrive => exact h.of_same rfl rfl rfl rfl
  | finish => exact h.of_same rfl rfl rfl rfl
  | lock => exact h.of_same rfl rfl rfl rfl
  | unlock => exact h.of_same rfl rfl rfl rfl
  | enterWrite => exact h.of_same rfl rfl rfl rfl
  | park => exact h.of_same rfl rfl rfl rfl
  | pass => exact h.of_same rfl rfl rfl rfl
  | wake => exact h.of_same rfl rfl rfl rfl

theorem start {plan : List PauseAction} (h : Alternates key true plan) :
    InCycle key (pausesAndResumes plan) (.start plan) where
  alternates := h
  counted := by simp [ControllerState.start]
  pauses := by simp [ControllerState.start, entryAfter]
  panicked := rfl

end InCycle

/-- Nobody arrived later than now, and who waits does so for the one scope. -/
def WaitsForKey (key : String × String) (s : ControllerState) : Prop :=
  ∀ t, (s.operations t).since ≤ s.executed ∧
    ∀ before scope, (s.operations t).phase = .parked before scope → (s.pauseAt t before, scope) = key

theorem WaitsForKey.update {key : String × String} {s s' : ControllerState} {u : ℕ}
    {moved : OngoingOperation} (h : WaitsForKey key s)
    (hoperations : s'.operations = Function.update s.operations u moved)
    (hexecuted : s'.executed = s.executed) (hsince : moved.since ≤ s.executed)
    (hphase : ∀ before scope, moved.phase = .parked before scope →
      (moved.operation.pauseAt before, scope) = key) : WaitsForKey key s' := by
  intro t
  simp only [ControllerState.pauseAt, hoperations, hexecuted]
  by_cases htu : t = u
  · rw [htu, Function.update_self]
    exact ⟨hsince, hphase⟩
  · rw [Function.update_of_ne htu]
    exact h t

/-- The state machine's actions only make the arrivals older. -/
theorem WaitsForKey.later {key : String × String} {s s' : ControllerState} (h : WaitsForKey key s)
    (hoperations : s'.operations = s.operations) (hexecuted : s.executed ≤ s'.executed) :
    WaitsForKey key s' := by
  intro t
  simp only [ControllerState.pauseAt, hoperations]
  exact ⟨(h t).1.trans hexecuted, (h t).2⟩

theorem WaitsForKey.step {key : String × String} {total : ℕ} {s s' : ControllerState}
    {label : ControllerLabel} (h : WaitsForKey key s) (hcycle : InCycle key total s)
    (hstep : ControllerStep s label s') : WaitsForKey key s' := by
  cases hstep with
  | pause => exact h.later rfl (Nat.le_succ _)
  | avoid => exact h.later rfl le_rfl
  | resume => exact h.later rfl (Nat.le_succ _)
  | panic => exact h.later rfl le_rfl
  | other => exact h.later rfl le_rfl
  | arrive => exact h.update rfl rfl le_rfl fun _ _ hphase => nomatch hphase
  | finish => exact h.update rfl rfl le_rfl fun _ _ hphase => nomatch hphase
  | lock => exact h.update rfl rfl (h _).1 fun _ _ hphase => nomatch hphase
  | unlock => exact h.update rfl rfl (h _).1 fun _ _ hphase => nomatch hphase
  | enterWrite => exact h.update rfl rfl (h _).1 fun _ _ hphase => nomatch hphase
  | park _ _ hscope =>
    refine h.update rfl rfl (h _).1 fun before scope hphase => ?_
    obtain ⟨rfl, rfl⟩ := Phase.parked.inj hphase
    exact hcycle.paused (scopeOf_some hscope).2
  | pass => exact h.update rfl rfl (h _).1 fun _ _ hphase => nomatch hphase
  | wake => exact h.update rfl rfl (h _).1 fun _ _ hphase => nomatch hphase

/-- **One cycle works**: nobody arrived in a cycle that a closed channel was left for. -/
theorem InCycle.blocksUntilResume {key : String × String} {total : ℕ} {s : ControllerState}
    (h : InCycle key total s) (hwaits : WaitsForKey key s)
    (hcond : total ≤ 2 ∨ total = 3 ∧ ¬ IsPausePoint key.1) : BlocksUntilResume key s := by
  have htotal := h.counted
  -- whoever arrived in a cycle did so in the first
  have hfirst : ∀ t before, ArrivedPaused key s t before → s.executed ≤ 2 := by
    intro t before ⟨hpoint, _, _⟩
    obtain hle | ⟨_, hno⟩ := hcond
    · omega
    · exact absurd ⟨_, _, hpoint⟩ hno
  refine ⟨h.panicked, fun label s' t before hruns hreturns harrived => ?_,
    fun t before scope hparked harrived hresumed => ?_⟩
  · have hle := hfirst t before harrived
    have hsince := (hwaits t).1
    obtain ⟨hpoint, hcovered, hodd⟩ := harrived
    obtain ⟨_, _, _, _, ⟨scopes, hscopes, hscope⟩ | ⟨scope, hparked, hclosed⟩⟩ :=
      returns_step hruns.2 hreturns
    · have hfree := scopeOf_none hscopes hscope hcovered
      rw [show ((s.operations t).operation.pauseAt before, key.2) = key from Prod.ext hpoint rfl,
        h.pauses, Function.update_self, entryAfter_paused (by omega), beq_eq_false_iff_ne] at hfree
      omega
    · rw [(hwaits t).2 before scope hparked, h.pauses, Function.update_self,
        entryAfter_closed] at hclosed
      omega
  · have hodd := harrived.2.2
    refine ⟨_, .wake hparked ?_⟩
    rw [(hwaits t).2 before scope hparked, h.pauses, Function.update_self, entryAfter_closed]
    omega

/-! ### The third action and the fourth -/

/-- Between two actions, with no operation under way. -/
structure Quiet (key : String × String) (total : ℕ) (s : ControllerState) : Prop extends
    InCycle key total s where
  idle : s.waitsForLock = false
  free : s.ongoingRead = none
  nobody : (s.operations 0).phase = .absent

/-- Alone, the state machine executes its next action. -/
theorem Quiet.next {key : String × String} {total : ℕ} {s : ControllerState} (h : Quiet key total s)
    (hle : s.executed ≤ 2) (hlt : s.executed < total) :
    ∃ s', ReflTransGen (Unlabelled ControllerRuns) s s' ∧ Quiet key total s' ∧
      s'.executed = s.executed + 1 := by
  induction hremaining : s.remaining generalizing s with
  | nil =>
    have hcounted := h.counted
    rw [hremaining, pausesAndResumes] at hcounted
    omega
  | cons action rest ih =>
    cases action with
    | pauseController pauseAt pauseScope avoidOngoingRead async =>
      have hact : Unlabelled ControllerRuns s _ := ⟨.act, h.panicked, .pause hremaining h.idle⟩
      have hpaused : ∀ waits, InCycle key total { s.execute rest (pauseAt, pauseScope) _ with
          waitsForLock := waits } := fun _ => h.pause hle hremaining
      cases hwaits : avoidOngoingRead && !async with
      | true =>
        rw [hwaits] at hact
        refine ⟨_, (ReflTransGen.single hact).tail ⟨.avoid, h.panicked, .avoid rfl h.free⟩, ?_, rfl⟩
        exact ⟨hpaused false, rfl, h.free, h.nobody⟩
      | false =>
        rw [hwaits] at hact
        exact ⟨_, .single hact, ⟨hpaused false, rfl, h.free, h.nobody⟩, rfl⟩
    | resumeController pauseAt pauseScope =>
      obtain ⟨entry, hclose, hresumed⟩ := h.resume hle hremaining
      refine ⟨_, .single ⟨.act, h.panicked, .resume hremaining h.idle hclose⟩, ?_, rfl⟩
      exact ⟨hresumed, h.idle, h.free, h.nobody⟩
    | other =>
      have hact : Unlabelled ControllerRuns s { s with remaining := rest } :=
        ⟨.act, h.panicked, .other hremaining h.idle⟩
      have hskipped : Quiet key total { s with remaining := rest } := by
        have halternates := h.alternates
        have hcounted := h.counted
        rw [hremaining] at halternates hcounted
        exact ⟨⟨halternates, hcounted, h.pauses, h.panicked⟩, h.idle, h.free, h.nobody⟩
      obtain ⟨s', hrun, hs'⟩ := ih hskipped hle hlt rfl
      exact ⟨s', .head hact hrun, hs'⟩

/-- Three actions of the plan can be executed one after the other. -/
theorem Quiet.reach {key : String × String} {plan : List PauseAction} (h : Alternates key true plan)
    {n : ℕ} (hle : n ≤ 3) (hplan : n ≤ pausesAndResumes plan) :
    ∃ s, ReflTransGen (Unlabelled ControllerRuns) (.start plan) s ∧
      Quiet key (pausesAndResumes plan) s ∧ s.executed = n := by
  induction n with
  | zero => exact ⟨_, .refl, ⟨.start h, rfl, rfl, rfl⟩, rfl⟩
  | succ n ih =>
    obtain ⟨s, hrun, hs, rfl⟩ := ih (by omega) (by omega)
    obtain ⟨s', hnext, hs', hexecuted⟩ := hs.next (by omega) (by omega)
    exact ⟨s', hrun.trans hnext, hs', hexecuted⟩

/-- **The second resume panics.** -/
theorem Quiet.panics {key : String × String} {total : ℕ} {s : ControllerState} (h : Quiet key total s)
    (hthree : s.executed = 3) (hlt : 3 < total) :
    ∃ s', ReflTransGen (Unlabelled ControllerRuns) s s' ∧ s'.panicked ≠ none := by
  induction hremaining : s.remaining generalizing s with
  | nil =>
    have hcounted := h.counted
    rw [hremaining, pausesAndResumes] at hcounted
    omega
  | cons action rest ih =>
    have halternates := h.alternates
    rw [hremaining, hthree] at halternates
    cases action with
    | pauseController => exact absurd halternates.1 (by decide)
    | resumeController pauseAt pauseScope =>
      obtain ⟨_, rfl, _⟩ := halternates
      have hclose : (s.pauses (pauseAt, pauseScope)).close = .error .closeOfClosed := by
        rw [h.pauses, Function.update_self, hthree]
        rfl
      exact ⟨_, .single ⟨.act, h.panicked, .panic hremaining h.idle hclose⟩, nofun⟩
    | other =>
      have hact : Unlabelled ControllerRuns s { s with remaining := rest } :=
        ⟨.act, h.panicked, .other hremaining h.idle⟩
      have hcounted := h.counted
      rw [hremaining] at hcounted
      have hskipped : Quiet key total { s with remaining := rest } := by
        refine ⟨⟨?_, hcounted, h.pauses, h.panicked⟩, h.idle, h.free, h.nobody⟩
        show Alternates key (s.executed % 2 == 0) rest
        rw [hthree]
        exact halternates
      obtain ⟨s', hrun, hpanicked⟩ := ih hskipped hthree rfl
      exact ⟨s', .head hact hrun, hpanicked⟩

/-- Every scope covers some operation at every pause point. -/
theorem exists_covered {pauseAt : String} (hpoint : IsPausePoint pauseAt) (scope : String) :
    ∃ (operation : Operation) (before : Bool), operation.pauseAt before = pauseAt ∧
      operation.CoveredBy scope := by
  obtain ⟨operation, before, rfl⟩ := hpoint
  cases operation with
  | get => exact ⟨.get scope, before, by cases before <;> rfl, .inr rfl⟩
  | list => exact ⟨.get scope, before, by cases before <;> rfl, .inr rfl⟩
  | write => exact ⟨.write scope, before, by cases before <;> rfl, .inr rfl⟩

namespace InCycle

variable {key : String × String} {total : ℕ} {s : ControllerState}

theorem scopesWithin (h : InCycle key total s) (pauseAt : String) :
    ScopesWithin s.pauses pauseAt [key.2] := by
  intro scope hscope
  by_cases hkey : (pauseAt, scope) = key
  · rw [← hkey]
    exact List.mem_singleton_self _
  · rw [h.pauses, Function.update_of_ne hkey] at hscope
    exact absurd rfl hscope

/-- **The second pause holds nobody**: the handler waits on the channel that the first resume has
closed. -/
theorem returns_at_once (h : InCycle key total s) (hthree : s.executed = 3) {t : ℕ} {before : Bool}
    {operation : Operation} (hpoint : operation.pauseAt before = key.1)
    (hcovered : operation.CoveredBy key.2)
    (hstands : s.operations t = ⟨operation, .testing before, 3⟩) :
    ∃ s', ReflTransGen (Unlabelled ControllerRuns) s s' ∧ ¬ BlocksUntilResume key s' := by
  have hkey : (operation.pauseAt before, key.2) = key := Prod.ext hpoint rfl
  have hpark : ControllerStep s (.test t) (s.setPhase t (.parked before key.2)) := by
    refine .park (by rw [hstands]) (h.scopesWithin _) ?_
    cases hscope : scopeOf s.pauses [key.2] (s.operations t).operation before with
    | some scope =>
      rw [← h.paused (scopeOf_some hscope).2]
    | none =>
      rw [hstands] at hscope
      have hfree := scopeOf_none (h.scopesWithin _) hscope hcovered
      rw [hkey, h.pauses, Function.update_self, hthree] at hfree
      cases hfree
  have hoperation : (s.setPhase t (.parked before key.2)).operations t =
      ⟨operation, .parked before key.2, 3⟩ := by
    rw [s.setPhase_self, hstands]
  have hwake : ControllerStep (s.setPhase t (.parked before key.2)) (.wake t)
      ((s.setPhase t (.parked before key.2)).setPhase t (.returned before)) := by
    refine .wake (by rw [hoperation]) ?_
    rw [ControllerState.pauseAt, hoperation, hkey, s.setPhase_pauses, h.pauses,
      Function.update_self, hthree]
    rfl
  refine ⟨_, .single ⟨_, h.panicked, hpark⟩, fun hblocks => ?_⟩
  have hlater := hblocks.2.1 _ _ t before ⟨h.panicked, hwake⟩ ?_ ?_
  · rw [hoperation, s.setPhase_executed, hthree] at hlater
    exact absurd hlater (lt_irrefl 3)
  · rw [Returns, hoperation, ControllerState.setPhase_self]
    exact ⟨fun h => (by cases h), rfl⟩
  · simp only [ArrivedPaused, ControllerState.pauseAt, hoperation]
    exact ⟨hpoint, hcovered, trivial⟩

/-- An operation asks for a pause before it takes place. -/
theorem arrives (h : InCycle key total s) {t : ℕ} (operation : Operation)
    (habsent : (s.operations t).phase = .absent) :
    ∃ s', Unlabelled ControllerRuns s s' ∧ InCycle key total s' ∧ s'.executed = s.executed ∧
      s'.ongoingRead = s.ongoingRead ∧ s'.operations t = ⟨operation, .arrived true, s.executed⟩ := by
  refine ⟨_, ⟨_, h.panicked, .arrive operation habsent⟩, h.of_same rfl rfl rfl rfl, rfl, rfl, ?_⟩
  exact Function.update_self ..

/-- And after it. -/
theorem finishes (h : InCycle key total s) {t since : ℕ} {operation : Operation}
    (hstands : s.operations t = ⟨operation, .returned true, since⟩) :
    ∃ s', Unlabelled ControllerRuns s s' ∧ InCycle key total s' ∧ s'.executed = s.executed ∧
      s'.operations t = ⟨operation, .arrived false, s.executed⟩ := by
  refine ⟨_, ⟨_, h.panicked, .finish (by rw [hstands])⟩, h.of_same rfl rfl rfl rfl, rfl, ?_⟩
  show Function.update _ _ _ _ = _
  rw [Function.update_self, hstands]

/-- A request that has arrived comes to look at the maps. -/
theorem enters (h : InCycle key total s) {t since : ℕ} {before : Bool} {operation : Operation}
    (hstands : s.operations t = ⟨operation, .arrived before, since⟩)
    (hfree : before = true → s.ongoingRead = none) :
    ∃ s', Unlabelled ControllerRuns s s' ∧ InCycle key total s' ∧ s'.executed = s.executed ∧
      s'.operations t = ⟨operation, .testing before, since⟩ := by
  have hphase : (s.operations t).phase = .arrived before := by rw [hstands]
  have htesting : (s.setPhase t (.testing before)).operations t =
      ⟨operation, .testing before, since⟩ := by
    rw [s.setPhase_self, hstands]
  cases hread : (s.operations t).operation.isRead with
  | false =>
    exact ⟨_, ⟨_, h.panicked, .enterWrite hphase hread⟩, h.of_same rfl rfl rfl rfl, rfl, htesting⟩
  | true =>
    cases before with
    | true =>
      refine ⟨_, ⟨_, h.panicked, .lock hphase hread (hfree rfl)⟩, ?_, rfl, htesting⟩
      exact h.of_same rfl rfl rfl rfl
    | false =>
      exact ⟨_, ⟨_, h.panicked, .unlock hphase hread⟩, h.of_same rfl rfl rfl rfl, rfl, htesting⟩

end InCycle

theorem pauseAt_ne (operation : Operation) : operation.pauseAt true ≠ operation.pauseAt false := by
  cases operation <;> simp [Operation.pauseAt, beforeControllerRead, afterControllerRead,
    beforeControllerWrite, afterControllerWrite]

/-- At the other point of the operation nothing is paused. -/
theorem InCycle.passes {key : String × String} {total : ℕ} {s : ControllerState}
    (h : InCycle key total s) {t since : ℕ} {operation : Operation}
    (hat : operation.pauseAt false = key.1)
    (hstands : s.operations t = ⟨operation, .testing true, since⟩) :
    ∃ s', Unlabelled ControllerRuns s s' ∧ InCycle key total s' ∧ s'.executed = s.executed ∧
      s'.operations t = ⟨operation, .returned true, since⟩ := by
  refine ⟨s.setPhase t (.returned true), ⟨_, h.panicked, .pass ?_ (h.scopesWithin _) ?_⟩,
    h.of_same rfl rfl rfl rfl, rfl, ?_⟩
  · rw [hstands]
  · cases hscope : scopeOf s.pauses [key.2] (s.operations t).operation true with
    | none => rfl
    | some scope =>
      have hkey := h.paused (scopeOf_some hscope).2
      rw [hstands] at hkey
      exact absurd ((congrArg Prod.fst hkey).trans hat.symm) (pauseAt_ne operation)
  · rw [s.setPhase_self, hstands]

theorem Quiet.holds_nobody {key : String × String} {total : ℕ} {s : ControllerState}
    (h : Quiet key total s) (hthree : s.executed = 3) (hpoint : IsPausePoint key.1) :
    ∃ s', ReflTransGen (Unlabelled ControllerRuns) s s' ∧ ¬ BlocksUntilResume key s' := by
  obtain ⟨operation, before, hat, hcovered⟩ := exists_covered hpoint key.2
  obtain ⟨s₁, harrive, h₁, hexecuted₁, hfree, hstands₁⟩ := h.arrives operation h.nobody
  obtain ⟨s₂, henter, h₂, hexecuted₂, hstands₂⟩ := h₁.enters hstands₁ fun _ => hfree.trans h.free
  have hrun := ReflTransGen.head harrive (.single henter)
  have hthree₂ : s₂.executed = 3 := by rw [hexecuted₂, hexecuted₁, hthree]
  cases before with
  | true =>
    rw [hthree] at hstands₂
    obtain ⟨s', hrest, hfails⟩ := h₂.returns_at_once hthree₂ hat hcovered hstands₂
    exact ⟨s', hrun.trans hrest, hfails⟩
  | false =>
    obtain ⟨s₃, hpass, h₃, hexecuted₃, hstands₃⟩ := h₂.passes hat hstands₂
    obtain ⟨s₄, hfinish, h₄, hexecuted₄, hstands₄⟩ := h₃.finishes hstands₃
    obtain ⟨s₅, hagain, h₅, hexecuted₅, hstands₅⟩ := h₄.enters hstands₄ nofun
    have hthree₃ := hexecuted₃.trans hthree₂
    rw [hthree₃] at hstands₅ hexecuted₄
    obtain ⟨s', hrest, hfails⟩ :=
      h₅.returns_at_once (hexecuted₅.trans hexecuted₄) hat hcovered hstands₅
    exact ⟨s', ((hrun.tail hpass).tail hfinish).tail hagain |>.trans hrest, hfails⟩

/-- **Pauses of one scope work** in all runs if and only if the plan has at most one cycle of them, or
a second pause at a point where nothing ever stops. -/
theorem controller_cycles_iff {key : String × String} {plan : List PauseAction}
    (h : Alternates key true plan) :
    Always (Unlabelled ControllerRuns) (.start plan) (BlocksUntilResume key) ↔
      pausesAndResumes plan ≤ 2 ∨ pausesAndResumes plan = 3 ∧ ¬ IsPausePoint key.1 := by
  constructor
  · intro halways
    by_contra hnot
    obtain ⟨s, hrun, hs, hthree⟩ := Quiet.reach h le_rfl (show 3 ≤ pausesAndResumes plan by omega)
    have hfails : ∃ s', ReflTransGen (Unlabelled ControllerRuns) s s' ∧
        ¬ BlocksUntilResume key s' := by
      by_cases hpoint : IsPausePoint key.1
      · exact hs.holds_nobody hthree hpoint
      · have hfour : pausesAndResumes plan ≠ 3 := fun heq => hnot (.inr ⟨heq, hpoint⟩)
        obtain ⟨s', hrest, hpanicked⟩ := hs.panics hthree (by omega)
        exact ⟨s', hrest, fun hblocks => hpanicked hblocks.1⟩
    obtain ⟨s', hrest, hfails⟩ := hfails
    exact hfails (halways s' (hrun.trans hrest))
  · intro hcond
    refine .mono (.of_labelled (P := fun s => InCycle key (pausesAndResumes plan) s ∧
      WaitsForKey key s) ⟨.start h, fun t => ⟨le_rfl, nofun⟩⟩ fun s label s' hs hstep => ?_)
      fun s hs => hs.1.blocksUntilResume hs.2 hcond
    exact ⟨hs.1.step (by omega) hstep.2, hs.2.step hs.1 hstep.2⟩

end Sieve.Server
