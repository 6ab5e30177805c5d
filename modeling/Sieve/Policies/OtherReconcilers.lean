import Sieve.Policies.StaleState
import Mathlib.Data.List.TakeWhile

/-!
# Other reconcilers and the timing

The chain holds the events of all reconcilers, so `decide_stale_state_timing` also counts the rounds
of reconcilers that have nothing to do with the deletion.  For two chains with the same events of the
reconciler that deletes:

* `SameTiming`: the same timing is decided;
* `SameEnds`: the events after the deletion, up to the creation, end as many rounds;
* `sameTiming_iff`: the one holds exactly when the other does.
-/

namespace Sieve.Policies

open Sieve.Event Sieve.Analyzer

def reconcilerOf : ReconcilerEvent → String
  | .write write => write.reconcileFun
  | .nonK8sWrite call => call.reconcileFun
  | .read read => read.reconcileFun
  | .reconcileBegin mark => mark.reconcileFun
  | .reconcileEnd mark => mark.reconcileFun

/-- The resource keys that an event works on. -/
def keysOf : ReconcilerEvent → Finset String
  | .write write => {write.key}
  | .read read => read.keySet
  | _ => ∅

/-- The reconciler's own events. -/
def own (reconcileFun : String) (events : List ReconcilerEvent) : List ReconcilerEvent :=
  events.filter fun event => reconcilerOf event == reconcileFun

/-- The other reconcilers work on other keys. -/
def OthersElsewhere (reconcileFun key : String) (events : List ReconcilerEvent) : Prop :=
  ∀ event ∈ events, reconcilerOf event ≠ reconcileFun → key ∉ keysOf event

/-- The decision is the same in two chains. -/
def SameTiming (source : ControllerHear) (events : List ReconcilerEvent) (sinkVertex : ℕ)
    (events' : List ReconcilerEvent) (sinkVertex' : ℕ) : Prop :=
  ∃ fuel fuel' result,
    decideStaleStateTiming (addSortedReconcilerEvents events) source sinkVertex fuel = some result ∧
    decideStaleStateTiming (addSortedReconcilerEvents events') source sinkVertex' fuel' = some result

/-! ### The condition -/

/-- The difference of the event heard leads into the walk. -/
def LeadsToWalk (source : ControllerHear) : Prop :=
  ∃ slimPrevObjMap slimCurObjMap, source.slimPrevObjMap = some slimPrevObjMap ∧
    source.slimCurObjMap = some slimCurObjMap ∧ sameKey slimPrevObjMap slimCurObjMap = true

def Creates (key : String) (later : List ReconcilerEvent) : Prop :=
  ∃ event ∈ later, isCreateOf key event = true

/-- The rounds, of any reconciler, that end before the key is created. -/
def endsBefore (key : String) (later : List ReconcilerEvent) : ℕ :=
  (later.takeWhile fun event => !isCreateOf key event).countP isReconcileEnd

/-- As many rounds end before the creation, or two at least; without a creation, the chain is at its
end or two rounds end in both chains or in none. -/
def SameEnds (key : String) (later later' : List ReconcilerEvent) : Prop :=
  (Creates key later → min 2 (endsBefore key later) = min 2 (endsBefore key later')) ∧
    (¬ Creates key later →
      ((later = [] ∨ 2 ≤ endsBefore key later) ↔ (later' = [] ∨ 2 ≤ endsBefore key later')))

/-! ### The walk and the condition -/

variable {key reconcileFun : String}

theorem endsBefore_of_find {later : List ReconcilerEvent} {i : ℕ}
    (h : later.findIdx? (isCreateOf key) = some i) :
    endsBefore key later = (later.take i).countP isReconcileEnd := by
  induction later generalizing i with
  | nil => cases h
  | cons event later ih =>
    rw [List.findIdx?_cons] at h
    rw [endsBefore]
    cases hcreate : isCreateOf key event with
    | true =>
      simp only [hcreate, if_true, Option.some.injEq] at h
      simp [hcreate, ← h]
    | false =>
      simp only [hcreate, Bool.false_eq_true, if_false] at h
      obtain ⟨j, hj, rfl⟩ := Option.map_eq_some_iff.mp h
      have hends := ih hj
      rw [endsBefore] at hends
      simp [hcreate, List.countP_cons, hends]

theorem endsBefore_of_not_creates {later : List ReconcilerEvent} (h : ¬ Creates key later) :
    endsBefore key later = later.countP isReconcileEnd := by
  rw [endsBefore, List.takeWhile_eq_self_iff.mpr]
  intro event hmem
  rw [Bool.not_eq_true']
  exact Bool.eq_false_iff.mpr fun hcreate => h ⟨event, hmem, hcreate⟩

theorem creates_iff {later : List ReconcilerEvent} :
    Creates key later ↔ ∃ i, later.findIdx? (isCreateOf key) = some i := by
  rw [← Option.isSome_iff_exists, List.findIdx?_isSome, List.any_eq_true]
  exact Iff.rfl

theorem timingAfter_eq_iff (m n : ℕ) : timingAfter m = timingAfter n ↔ min 2 m = min 2 n := by
  match m, n with
  | 0, 0 => simp
  | 0, 1 => simp [timingAfter]
  | 0, n + 2 => simp [timingAfter]
  | 1, 0 => simp [timingAfter]
  | 1, 1 => simp
  | 1, n + 2 => simp [timingAfter]
  | m + 2, 0 => simp [timingAfter]
  | m + 2, 1 => simp [timingAfter]
  | m + 2, n + 2 => simp [timingAfter]

/-- What happens at the end of the chain. -/
def atChainEnd (later : List ReconcilerEvent) : Except AnalysisError Timing :=
  if later = [] then .ok .after else .error .assertion

theorem walk_of_creates (atEnd : Except AnalysisError Timing) {later : List ReconcilerEvent}
    (h : Creates key later) : walk key atEnd 0 later = .ok (timingAfter (endsBefore key later)) := by
  obtain ⟨i, hi⟩ := creates_iff.mp h
  rw [walk_eq atEnd later (Nat.zero_le 1), hi, endsBefore_of_find hi]
  simp only [Nat.zero_add]

theorem walk_of_not_creates {later : List ReconcilerEvent} (h : ¬ Creates key later) :
    walk key (atChainEnd later) 0 later =
      if later = [] ∨ 2 ≤ endsBefore key later then .ok .after else .error .assertion := by
  have hfind : later.findIdx? (isCreateOf key) = none := by
    rw [Option.eq_none_iff_forall_ne_some]
    exact fun i hi => h (creates_iff.mpr ⟨i, hi⟩)
  rw [walk_eq _ later (Nat.zero_le 1), hfind, endsBefore_of_not_creates h, Nat.zero_add, atChainEnd]
  by_cases hnil : later = []
  · simp [hnil]
  · simp [hnil]

theorem walk_eq_walk_iff {later later' : List ReconcilerEvent}
    (hcreates : Creates key later ↔ Creates key later') :
    walk key (atChainEnd later) 0 later = walk key (atChainEnd later') 0 later' ↔
      SameEnds key later later' := by
  by_cases h : Creates key later
  · rw [walk_of_creates _ h, walk_of_creates _ (hcreates.mp h), Except.ok.injEq, timingAfter_eq_iff]
    exact ⟨fun hends => ⟨fun _ => hends, fun hnot => absurd h hnot⟩, fun hsame => hsame.1 h⟩
  · have hsame : SameEnds key later later' ↔ ((later = [] ∨ 2 ≤ endsBefore key later) ↔
        (later' = [] ∨ 2 ≤ endsBefore key later')) :=
      ⟨fun hsame => hsame.2 h, fun hends => ⟨fun hc => absurd hc h, fun _ => hends⟩⟩
    rw [walk_of_not_creates h, walk_of_not_creates (hcreates.not.mp h), hsame]
    by_cases hleft : later = [] ∨ 2 ≤ endsBefore key later
    · by_cases hright : later' = [] ∨ 2 ≤ endsBefore key later'
      · simp [hleft, hright]
      · simp [hleft, hright]
    · by_cases hright : later' = [] ∨ 2 ≤ endsBefore key later'
      · simp [hleft, hright]
      · simp [hleft, hright]

/-! ### The decision -/

/-- What is decided when the walk is gone. -/
theorem decides_walk_iff {events : List ReconcilerEvent} {source : ControllerHear}
    {sinkVertex : ℕ} {sink : ControllerWrite} (hsink : events[sinkVertex]? = some (.write sink))
    (hdelete : sink.etype = .delete) (hleads : LeadsToWalk source)
    (result : Except AnalysisError Timing) :
    (∃ fuel, decideStaleStateTiming (addSortedReconcilerEvents events) source sinkVertex fuel =
      some result) ↔
    walk sink.key (atChainEnd (events.drop (sinkVertex + 1))) 0 (events.drop (sinkVertex + 1)) =
      result := by
  obtain ⟨slimPrevObjMap, slimCurObjMap, hprev, hcur, hkeys⟩ := hleads
  have hlt : sinkVertex < events.length := (List.getElem?_eq_some_iff.mp hsink).1
  have hend : (if sinkVertex + 1 < events.length then .error .assertion else .ok .after) =
      atChainEnd (events.drop (sinkVertex + 1)) := by
    have hnil := @List.drop_eq_nil_iff _ events (sinkVertex + 1)
    rw [atChainEnd]
    by_cases hmore : sinkVertex + 1 < events.length
    · rw [if_pos hmore, if_neg fun h => by have := hnil.mp h; omega]
    · rw [if_neg hmore, if_pos (hnil.mpr (by omega))]
  have hwalk := fun fuel hfuel => @decideLoop_eq_walk sink.key events sinkVertex fuel 0 sinkVertex
    hlt hfuel
  rw [hend] at hwalk
  simp only [decideStaleStateTiming_eq hsink hdelete hprev hcur hkeys]
  constructor
  · intro h
    obtain ⟨fuel, hresult⟩ := h
    have hmono := decideLoop_mono events.length hresult
    rw [hwalk _ (by omega)] at hmono
    exact Option.some.inj hmono
  · intro h
    exact ⟨events.length, by rw [hwalk _ (by omega), h]⟩

/-- Without the walk the decision is the same in every chain. -/
theorem sameTiming_of_not_leads {events events' : List ReconcilerEvent} {source : ControllerHear}
    {sinkVertex sinkVertex' : ℕ} {sink : ControllerWrite}
    (hsink : events[sinkVertex]? = some (.write sink))
    (hsink' : events'[sinkVertex']? = some (.write sink)) (hdelete : sink.etype = .delete)
    (h : ¬ LeadsToWalk source) : SameTiming source events sinkVertex events' sinkVertex' := by
  simp only [SameTiming, decideStaleStateTiming, addSortedReconcilerEvents_vertices, hsink, hsink']
  rw [hdelete]
  cases hprev : source.slimPrevObjMap with
  | none => exact ⟨0, 0, _, rfl, rfl⟩
  | some slimPrevObjMap =>
    cases hcur : source.slimCurObjMap with
    | none => exact ⟨0, 0, _, rfl, rfl⟩
    | some slimCurObjMap =>
      have hkeys : sameKey slimPrevObjMap slimCurObjMap = false :=
        Bool.eq_false_iff.mpr fun hkeys => h ⟨_, _, hprev, hcur, hkeys⟩
      simp only [hkeys]
      exact ⟨0, 0, _, rfl, rfl⟩

/-- Creations of the key are the reconciler's own events. -/
theorem creates_own_iff {later : List ReconcilerEvent} (h : OthersElsewhere reconcileFun key later) :
    Creates key later ↔ Creates key (own reconcileFun later) := by
  constructor
  · intro hcreates
    obtain ⟨event, hmem, hcreate⟩ := hcreates
    refine ⟨event, List.mem_filter.mpr ⟨hmem, ?_⟩, hcreate⟩
    rw [beq_iff_eq]
    by_contra hne
    have hnot := h event hmem hne
    cases event with
    | write write =>
      rw [isCreateOf, Bool.and_eq_true, beq_iff_eq, beq_iff_eq] at hcreate
      rw [keysOf, Finset.mem_singleton] at hnot
      exact hnot hcreate.2.symm
    | _ => cases hcreate
  · intro hcreates
    obtain ⟨event, hmem, hcreate⟩ := hcreates
    exact ⟨event, List.mem_of_mem_filter hmem, hcreate⟩

/-- **Two chains with the same events of the reconciler** give the same timing exactly when the
events after the deletion end as many rounds before the creation. -/
theorem sameTiming_iff {events events' : List ReconcilerEvent} {source : ControllerHear}
    {sinkVertex sinkVertex' : ℕ} {sink : ControllerWrite}
    (hsink : events[sinkVertex]? = some (.write sink))
    (hsink' : events'[sinkVertex']? = some (.write sink)) (hdelete : sink.etype = .delete)
    (hothers : OthersElsewhere sink.reconcileFun sink.key (events.drop (sinkVertex + 1)))
    (hothers' : OthersElsewhere sink.reconcileFun sink.key (events'.drop (sinkVertex' + 1)))
    (hown : own sink.reconcileFun (events.drop (sinkVertex + 1)) =
      own sink.reconcileFun (events'.drop (sinkVertex' + 1))) :
    SameTiming source events sinkVertex events' sinkVertex' ↔ (LeadsToWalk source →
      SameEnds sink.key (events.drop (sinkVertex + 1)) (events'.drop (sinkVertex' + 1))) := by
  by_cases hleads : LeadsToWalk source
  · have hcreates := (creates_own_iff hothers).trans (hown ▸ (creates_own_iff hothers').symm)
    rw [← walk_eq_walk_iff hcreates, SameTiming]
    have hdecides := decides_walk_iff hsink hdelete hleads
    have hdecides' := decides_walk_iff hsink' hdelete hleads
    constructor
    · intro h _
      obtain ⟨fuel, fuel', result, hfuel, hfuel'⟩ := h
      exact ((hdecides result).mp ⟨fuel, hfuel⟩).trans ((hdecides' result).mp ⟨fuel', hfuel'⟩).symm
    · intro h
      obtain ⟨fuel, hfuel⟩ := (hdecides _).mpr rfl
      obtain ⟨fuel', hfuel'⟩ := (hdecides' _).mpr (h hleads).symm
      exact ⟨fuel, fuel', _, hfuel, hfuel'⟩
  · exact iff_of_true (sameTiming_of_not_leads hsink hsink' hdelete hleads)
      fun h => absurd h hleads

/-- The deletion, two rounds of another reconciler, and the creation. -/
def interleaved : List ReconcilerEvent :=
  [.write (podWrite .delete), .reconcileEnd ⟨"Other", 0, 1⟩, .reconcileEnd ⟨"Other", 1, 2⟩,
    .write (podWrite .create)]

/-- Rounds before the deletion make no difference. -/
theorem sameTiming_roundBefore :
    SameTiming phaseUpdate [.write (podWrite .delete), .write (podWrite .create)] 0
        [.reconcileEnd ⟨"Other", 0, 0⟩, .write (podWrite .delete), .write (podWrite .create)] 1 ↔
      (LeadsToWalk phaseUpdate → SameEnds "pod/default/b" [.write (podWrite .create)]
        [.write (podWrite .create)]) :=
  @sameTiming_iff [.write (podWrite .delete), .write (podWrite .create)]
    [.reconcileEnd ⟨"Other", 0, 0⟩, .write (podWrite .delete), .write (podWrite .create)] phaseUpdate
    0 1 (podWrite .delete) rfl rfl rfl (by simp [OthersElsewhere, reconcilerOf, podWrite])
    (by simp [OthersElsewhere, reconcilerOf, podWrite]) rfl

/-- Two rounds of another reconciler turn "before" into "after". -/
theorem otherRounds_change_timing :
    own "Reconcile" interleaved = own "Reconcile" [.write (podWrite .delete),
        .write (podWrite .create)] ∧
      OthersElsewhere "Reconcile" "pod/default/b" interleaved ∧
      ¬ SameTiming phaseUpdate [.write (podWrite .delete), .write (podWrite .create)] 0
        interleaved 0 := by
  refine ⟨rfl, by simp [OthersElsewhere, interleaved, reconcilerOf, podWrite, keysOf], fun h => ?_⟩
  obtain ⟨fuel, fuel', result, hfuel, hfuel'⟩ := h
  have hleads : LeadsToWalk phaseUpdate := ⟨_, _, rfl, rfl, by decide⟩
  have hwalk := (@decides_walk_iff [.write (podWrite .delete), .write (podWrite .create)] phaseUpdate
    0 (podWrite .delete) rfl rfl hleads result).mp ⟨fuel, hfuel⟩
  have hwalk' := (@decides_walk_iff interleaved phaseUpdate 0 (podWrite .delete) rfl rfl hleads
    result).mp ⟨fuel', hfuel'⟩
  rw [← hwalk'] at hwalk
  cases hwalk

end Sieve.Policies
