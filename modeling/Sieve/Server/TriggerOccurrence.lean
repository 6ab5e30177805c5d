import Sieve.Replay.TriggerAnswers
import Sieve.Server.OrderFree

/-!
# The occurrence of a trigger

A trigger with the occurrence `n` should answer yes to the `n`-th notification that matches it, and to
no other.

* `TriggerDefinition.matches`: which notifications match a trigger;
* `answers_modification`: a trigger for modifications counts, although it canonicalizes its own
  difference;
* `occurrence_iff`: when the answers are right.
-/

namespace Sieve.Server

open Sieve.Event Sieve.Library

/-! ### Matching -/

/-- The update notifications with a modified object. -/
def AnyFieldModificationTrigger.finds (t : AnyFieldModificationTrigger) : TriggerNotification → Bool
  | .objectUpdate n => t.covers n &&
    (match isAnyFieldModified n.curState t.prevStateDiff (n.masksToUse t.convertStateToAPIForm) with
      | .ok result => result.1
      | .error _ => false)
  | _ => false

/-- The notification matches the trigger as it is in the test plan. -/
def TriggerDefinition.matches (definition : TriggerDefinition) (n : TriggerNotification) : Bool :=
  match definition with
  | .objectUpdate t => if t.anyUpdate then definition.covers n else t.finds n
  | .anyFieldModification t => t.finds n
  | _ => definition.covers n

/-- A trigger of these types, as `parseTriggerDefinition` makes it of a condition with this
occurrence. -/
def TriggerDefinition.HasOccurrence (n : ℕ) : TriggerDefinition → Prop
  | .timeout _ => False
  | .annotatedAPICall t => t.desiredOccurrence = n ∧ t.actualOccurrence = 0
  | .objectCreate t => t.desiredOccurrence = n ∧ t.actualOccurrence = 0
  | .objectDelete t => t.desiredOccurrence = n ∧ t.actualOccurrence = 0
  | .objectUpdate t => t.desiredOccurrence = n ∧ t.actualOccurrence = 0
  | .anyFieldModification t => t.desiredOccurrence = n ∧ t.actualOccurrence = 0

/-- The coordinator sends an update with both states and with the masks of its resource. -/
def Sent (masks masksAPIForm : String → Masks) (n : TriggerNotification) : Prop :=
  ∀ u, n = .objectUpdate u → u.prevState.isSome ∧ u.curState.isSome ∧
    u.masks = masks u.resourceKey ∧ u.masksAPIForm = masksAPIForm u.resourceKey

variable {masks masksAPIForm : String → Masks}

theorem Sent.hasStates {n : TriggerNotification} (h : Sent masks masksAPIForm n) : n.HasStates := by
  cases n with
  | objectUpdate u =>
    obtain ⟨hprev, hcur, _⟩ := h u rfl
    exact ⟨hprev, hcur⟩
  | _ => trivial

/-- What the coordinator sends. -/
theorem sent_objectUpdateNotification (tc : TestCoordinator)
    (resourceKey observedWhen observedBy : String) (prevState curState : Fields) :
    Sent tc.masks tc.masksAPIForm
      (tc.objectUpdateNotification resourceKey observedWhen observedBy prevState curState) := by
  intro u hu
  rw [← TriggerNotification.objectUpdate.inj hu]
  exact ⟨rfl, rfl, rfl, rfl⟩

/-! ### Modifications -/

/-- The masks of the trigger's resource. -/
def AnyFieldModificationTrigger.masksOf (t : AnyFieldModificationTrigger)
    (masks masksAPIForm : String → Masks) : Masks :=
  if t.convertStateToAPIForm then masksAPIForm t.resourceKey else masks t.resourceKey

theorem masksToUse_of_covers {t : AnyFieldModificationTrigger} {u : ObjectUpdateNotification}
    (hsent : Sent masks masksAPIForm (.objectUpdate u)) (hcovers : t.covers u = true) :
    u.masksToUse t.convertStateToAPIForm = t.masksOf masks masksAPIForm := by
  obtain ⟨_, _, hmasks, hmasksAPIForm⟩ := hsent u rfl
  rw [AnyFieldModificationTrigger.covers, Bool.and_eq_true, Bool.and_eq_true, beq_iff_eq] at hcovers
  rw [ObjectUpdateNotification.masksToUse, AnyFieldModificationTrigger.masksOf, hmasks, hmasksAPIForm,
    hcovers.1.1]

/-- The trigger after some tests: its own difference has the same canonical form. -/
def AnyFieldModificationTrigger.After (t : AnyFieldModificationTrigger) (m : Masks) (c : ℤ)
    (T : TriggerDefinition) : Prop :=
  ∃ prevStateDiff, T = .anyFieldModification
      { t with prevStateDiff := prevStateDiff, actualOccurrence := c } ∧
    SameCanonical m t.prevStateDiff prevStateDiff

/-- One test of a trigger for modifications. -/
theorem satisfy_modification {t : AnyFieldModificationTrigger} {m : Masks} {prevStateDiff : GoMap}
    (hdiff : t.prevStateDiff ≠ none) (hsame : SameCanonical m t.prevStateDiff prevStateDiff)
    {u : ObjectUpdateNotification} (hcur : u.curState.isSome)
    (hmasks : t.covers u = true → u.masksToUse t.convertStateToAPIForm = m) (c : ℤ) :
    ∃ T' n', (TriggerDefinition.anyFieldModification
        { t with prevStateDiff := prevStateDiff, actualOccurrence := c }).satisfy (.objectUpdate u) =
          .ok ⟨t.finds (.objectUpdate u) && c + 1 == t.desiredOccurrence, T', n'⟩ ∧
      t.After m (if t.finds (.objectUpdate u) then c + 1 else c) T' := by
  have hcovers : ({ t with prevStateDiff := prevStateDiff, actualOccurrence := c } :
      AnyFieldModificationTrigger).covers u = t.covers u := rfl
  rw [TriggerDefinition.satisfy, AnyFieldModificationTrigger.satisfy, hcovers,
    AnyFieldModificationTrigger.finds]
  cases hcov : t.covers u with
  | false => exact ⟨_, _, rfl, prevStateDiff, rfl, hsame⟩
  | true =>
    obtain ⟨side, hside⟩ := Option.ne_none_iff_exists'.mp hdiff
    obtain ⟨side', hcanside⟩ := canonicalizeEvent_some side m
    obtain ⟨cur, hcurState⟩ := Option.isSome_iff_exists.mp hcur
    obtain ⟨cur', hcancur⟩ := canonicalizeEvent_some cur m
    rw [SameCanonical] at hsame
    rw [← hside] at hcanside
    have hafter := sameCanonical_of_ok hcanside
    -- the trigger's own difference is as good as the one in the plan
    have hmodified : ∀ diff, canonicalizeEvent diff m = .ok (some side') →
        isAnyFieldModified (some cur) diff m =
          .ok (!partOfEventAsMap (some side') (some cur'), some cur', some side') := by
      intro diff hcan
      rw [isAnyFieldModified, hcan, hcancur]
      rfl
    rw [if_pos rfl, hmasks hcov, hcurState, hmodified _ (hsame.trans hcanside), hmodified _ hcanside]
    cases partOfEventAsMap (some side') (some cur') with
    | true => exact ⟨_, _, rfl, some side', rfl, hafter⟩
    | false =>
      refine ⟨.anyFieldModification { t with
        prevStateDiff := some side', actualOccurrence := c + 1 }, .objectUpdate { u with
          curState := some cur' }, ?_, some side', rfl, hafter⟩
      rfl

/-- **A trigger for modifications counts**, although it canonicalizes its own difference. -/
theorem answers_modification {t : AnyFieldModificationTrigger} (hdiff : t.prevStateDiff ≠ none)
    {ns : List TriggerNotification} (hsent : ∀ n ∈ ns, Sent masks masksAPIForm n) :
    (TriggerDefinition.anyFieldModification t).answers ns =
      .ok (countAnswers t.finds t.desiredOccurrence t.actualOccurrence ns) := by
  refine answers_counted (I := t.After (t.masksOf masks masksAPIForm)) ?_ ⟨t.prevStateDiff, rfl, rfl⟩
  intro c T hT n hn
  obtain ⟨prevStateDiff, rfl, hsame⟩ := hT
  cases n with
  | objectUpdate u =>
    have hu := hsent _ hn
    exact satisfy_modification hdiff hsame (hu u rfl).2.1 (masksToUse_of_covers hu) c
  | _ => exact ⟨_, _, rfl, prevStateDiff, rfl, hsame⟩

/-- An error ends the process. -/
theorem answers_error {definition : TriggerDefinition} {ns : List TriggerNotification}
    {n : TriggerNotification} (hn : n ∈ ns) {er : Fatal}
    (hsame : ∀ m ∈ ns, definition.satisfy m = .error er ∨
      ∃ m', definition.satisfy m = .ok ⟨false, definition, m'⟩)
    (herror : definition.satisfy n = .error er) : definition.answers ns = .error er := by
  induction ns with
  | nil => cases hn
  | cons m ns ih =>
    rw [TriggerDefinition.answers]
    rcases hsame m List.mem_cons_self with hfails | ⟨m', hno⟩
    · rw [hfails]
      rfl
    · rw [hno]
      rcases List.mem_cons.mp hn with rfl | hn
      · rw [herror] at hno
        cases hno
      · show (definition.answers ns >>= _) = _
        rw [ih hn fun m hm => hsame m (List.mem_cons_of_mem _ hm)]
        rfl

/-! ### The law -/

/-- The update notifications that the trigger looks at. -/
def AnyFieldModificationTrigger.looksAt (t : AnyFieldModificationTrigger) :
    TriggerNotification → Bool
  | .objectUpdate n => t.covers n
  | _ => false

/-- What a trigger without differences can be asked for: an update trigger without differences may see
one update, and that when it is to answer the first; a trigger for modifications without a difference
may see no update. -/
def TriggerDefinition.CanCount (n : ℕ) (ns : List TriggerNotification) : TriggerDefinition → Prop
  | .objectUpdate t => t.anyUpdate = true →
      ns.countP (TriggerDefinition.objectUpdate t).covers = 0 ∨
        n = 1 ∧ ns.countP (TriggerDefinition.objectUpdate t).covers = 1
  | .anyFieldModification t => t.prevStateDiff = none → ns.countP t.looksAt = 0
  | _ => True

/-- Without a difference, a trigger for modifications ends the process at the first update it looks
at. -/
theorem satisfy_nilDiff {t : AnyFieldModificationTrigger} (hdiff : t.prevStateDiff = none)
    (n : TriggerNotification) : (TriggerDefinition.anyFieldModification t).satisfy n =
      if t.looksAt n then .error .nilMapAssignment
      else .ok ⟨false, .anyFieldModification t, n⟩ := by
  cases n with
  | objectUpdate u =>
    rw [TriggerDefinition.satisfy, AnyFieldModificationTrigger.satisfy,
      AnyFieldModificationTrigger.looksAt, hdiff]
    cases t.covers u <;> rfl
  | _ => rfl

theorem finds_nilDiff {t : AnyFieldModificationTrigger} (hdiff : t.prevStateDiff = none)
    (n : TriggerNotification) : t.finds n = false := by
  cases n with
  | objectUpdate u =>
    rw [AnyFieldModificationTrigger.finds, hdiff]
    exact Bool.and_false _
  | _ => rfl

theorem answers_nilDiff_iff {t : AnyFieldModificationTrigger} (hdiff : t.prevStateDiff = none)
    {n : ℕ} (hn : 1 ≤ n) (ns : List TriggerNotification) :
    (∃ answers, (TriggerDefinition.anyFieldModification t).answers ns = .ok answers ∧
      AnswersNth t.finds n ns answers) ↔ ns.countP t.looksAt = 0 := by
  rw [List.countP_eq_zero]
  constructor
  · intro ⟨answers, hanswers, _⟩ m hm hlooks
    have herror : (TriggerDefinition.anyFieldModification t).answers ns = .error .nilMapAssignment := by
      refine answers_error hm (fun m' _ => ?_) (by rw [satisfy_nilDiff hdiff, if_pos hlooks])
      rw [satisfy_nilDiff hdiff]
      cases t.looksAt m' with
      | true => exact .inl rfl
      | false => exact .inr ⟨m', rfl⟩
    rw [herror] at hanswers
    cases hanswers
  · intro hnone
    refine ⟨_, ?_, answersNth_countAnswers t.finds hn ns⟩
    refine answers_counted (I := fun c T => c = 0 ∧ T = .anyFieldModification t) ?_ ⟨rfl, rfl⟩
    intro c T hT m hm
    obtain ⟨rfl, rfl⟩ := hT
    refine ⟨.anyFieldModification t, m, ?_, ?_⟩
    · rw [satisfy_nilDiff hdiff, if_neg (hnone m hm), finds_nilDiff hdiff]
      rfl
    · rw [finds_nilDiff hdiff]
      exact ⟨rfl, rfl⟩

/-- **The occurrence of a trigger**: over every sequence of notifications the trigger answers yes to the
`n`-th one that matches and to no other, except for triggers without differences. -/
theorem occurrence_iff (masks masksAPIForm : String → Masks) {definition : TriggerDefinition} {n : ℕ}
    (hn : 1 ≤ n) (hdefinition : definition.HasOccurrence n) {ns : List TriggerNotification}
    (hsent : ∀ m ∈ ns, Sent masks masksAPIForm m) :
    (∃ answers, definition.answers ns = .ok answers ∧ AnswersNth definition.matches n ns answers) ↔
      definition.CanCount n ns := by
  have hcounts : ∀ {p : TriggerNotification → Bool} {desired actual : ℤ},
      desired = n ∧ actual = 0 → definition.answers ns = .ok (countAnswers p desired actual ns) →
      ∃ answers, definition.answers ns = .ok answers ∧ AnswersNth p n ns answers := by
    intro p desired actual hcount hanswers
    rw [hcount.1, hcount.2] at hanswers
    exact ⟨_, hanswers, answersNth_countAnswers p hn ns⟩
  cases definition with
  | timeout t => exact hdefinition.elim
  | annotatedAPICall t => exact iff_of_true (hcounts hdefinition (answers_call t ns)) trivial
  | objectCreate t => exact iff_of_true (hcounts hdefinition (answers_create t ns)) trivial
  | objectDelete t => exact iff_of_true (hcounts hdefinition (answers_delete t ns)) trivial
  | objectUpdate t =>
    cases hany : t.anyUpdate with
    | true =>
      have hmatches : (TriggerDefinition.objectUpdate t).matches =
          (TriggerDefinition.objectUpdate t).covers := by
        funext m
        rw [TriggerDefinition.matches, if_pos hany]
      rw [hmatches, answers_anyUpdate hany, TriggerDefinition.CanCount, hany,
        ← answersNth_map_iff _ hn]
      simp
    | false =>
      have hmatches : (TriggerDefinition.objectUpdate t).matches = t.finds := by
        funext m
        rw [TriggerDefinition.matches, hany]
        rfl
      rw [hmatches]
      refine iff_of_true (hcounts hdefinition (answers_update hany fun m hm => (hsent m hm).hasStates)) ?_
      rw [TriggerDefinition.CanCount, hany]
      exact nofun
  | anyFieldModification t =>
    by_cases hdiff : t.prevStateDiff = none
    · rw [TriggerDefinition.CanCount, forall_prop_of_true hdiff]
      exact answers_nilDiff_iff hdiff hn ns
    · exact iff_of_true (hcounts hdefinition (answers_modification hdiff hsent))
        fun hnone => absurd hnone hdiff

/-! ### Triggers without differences -/

/-- A trigger for updates of a pod, without differences. -/
def anyPodUpdate (occurrence : ℤ) : TriggerDefinition :=
  .objectUpdate ⟨"trigger1", "pod/default/web", none, none, false, occurrence, 0, "afterControllerRecv",
    "informer"⟩

/-- A trigger for updates after which the pod is ready. -/
def readyPodUpdate (occurrence : ℤ) : TriggerDefinition :=
  .objectUpdate ⟨"trigger1", "pod/default/web", some [("phase", .str "old")], some [("phase", .str "ready")], false,
    occurrence, 0, "afterControllerRecv", "informer"⟩

/-- An update of the pod. -/
def podUpdate (phase : String) : TriggerNotification :=
  TestCoordinator.unmasked.objectUpdateNotification "pod/default/web" "afterControllerRecv" "informer"
    [("phase", .str "old")] [("phase", .str phase)]

theorem sent_podUpdate (phase : String) :
    Sent (fun _ => ⟨∅, ∅⟩) (fun _ => ⟨∅, ∅⟩) (podUpdate phase) :=
  sent_objectUpdateNotification _ _ _ _ _ _

/-- The second time the pod becomes ready, with another update in between and a third time after it. -/
theorem occurrence_iff_second : ∃ answers,
    (readyPodUpdate 2).answers [podUpdate "ready", podUpdate "new", podUpdate "ready", podUpdate "ready"] =
      .ok answers ∧ AnswersNth (readyPodUpdate 2).matches 2
        [podUpdate "ready", podUpdate "new", podUpdate "ready", podUpdate "ready"] answers := by
  have hdefinition : (readyPodUpdate 2).HasOccurrence 2 := ⟨rfl, rfl⟩
  refine (occurrence_iff (fun _ => ⟨∅, ∅⟩) (fun _ => ⟨∅, ∅⟩) (by decide) hdefinition ?_).mpr nofun
  exact List.forall_mem_cons.mpr ⟨sent_podUpdate _, List.forall_mem_cons.mpr ⟨sent_podUpdate _,
    List.forall_mem_cons.mpr ⟨sent_podUpdate _, List.forall_mem_singleton.mpr (sent_podUpdate _)⟩⟩⟩

/-- **The second update is asked for, the first is taken**, and every other after it; and a trigger for
modifications of nothing ends the process. -/
theorem second_update_not_awaited :
    (anyPodUpdate 2).answers [podUpdate "a"] = .ok [true] ∧
    (anyPodUpdate 2).answers [podUpdate "a", podUpdate "b"] = .ok [true, true] ∧
    ¬ AnswersNth (anyPodUpdate 2).matches 2 [podUpdate "a"] [true] ∧
    ¬ AnswersNth (anyPodUpdate 2).matches 2 [podUpdate "a", podUpdate "b"] [true, true] ∧
    (TriggerDefinition.anyFieldModification ⟨"trigger1", "pod/default/web", none, false, 1, 0,
      "afterControllerRecv", "informer"⟩).answers [podUpdate "a"] = .error .nilMapAssignment := by
  refine ⟨rfl, rfl, fun h => ?_, fun h => ?_, rfl⟩
  · exact h.missed (by decide) List.mem_cons_self
  · obtain ⟨i, _, honly⟩ := h.reached (by decide)
    have hfirst := (honly 0).mp rfl
    have hsecond := (honly 1).mp rfl
    omega

end Sieve.Server
