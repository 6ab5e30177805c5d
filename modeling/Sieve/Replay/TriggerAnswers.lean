import Sieve.Library.FoldExcept
import Sieve.Library.OccurrenceCount
import Sieve.Server.TestCoordinator

/-!
# What a trigger answers to a sequence of notifications

* `answers`: the tests of one trigger against one notification after the other;
* `answers_counted`: a trigger that counts the notifications with a property;
* `answers_create`, `answers_delete`, `answers_call`, `answers_anyUpdate`, `answers_update`: what
  each type of trigger counts.
-/

namespace Sieve.Server

open Sieve.Event Sieve.Library

def TriggerDefinition.answers : TriggerDefinition → List TriggerNotification →
    Except Fatal (List Bool)
  | _, [] => .ok []
  | definition, n :: ns => do
    let test ← definition.satisfy n
    let answers ← test.trigger.answers ns
    .ok (test.answer :: answers)

theorem answers_cons {definition : TriggerDefinition} {n : TriggerNotification}
    {ns : List TriggerNotification} {test : Test} {answers : List Bool}
    (htest : definition.satisfy n = .ok test) (hrest : test.trigger.answers ns = .ok answers) :
    definition.answers (n :: ns) = .ok (test.answer :: answers) := by
  rw [TriggerDefinition.answers, htest]
  show (test.trigger.answers ns >>= fun answers => _) = _
  rw [hrest]
  rfl

/-- **A trigger that counts** the notifications with the property `p`; `I c` says that a trigger has
counted `c` of them. -/
theorem answers_counted {I : ℤ → TriggerDefinition → Prop} {p : TriggerNotification → Bool} {d : ℤ}
    {ns : List TriggerNotification} (h : ∀ c T, I c T → ∀ n ∈ ns, ∃ T' n',
      T.satisfy n = .ok ⟨p n && c + 1 == d, T', n'⟩ ∧ I (if p n then c + 1 else c) T') {c : ℤ}
    {T : TriggerDefinition} (hT : I c T) : T.answers ns = .ok (countAnswers p d c ns) := by
  induction ns generalizing c T with
  | nil => rfl
  | cons n ns ih =>
    obtain ⟨T', n', htest, hT'⟩ := h c T hT n List.mem_cons_self
    have hrest := ih (fun c T hT m hm => h c T hT m (List.mem_cons_of_mem n hm)) hT'
    rw [countAnswers]
    cases hp : p n with
    | false =>
      rw [hp] at htest hrest
      exact answers_cons htest hrest
    | true =>
      rw [hp] at htest hrest
      exact answers_cons htest hrest

/-- A trigger of which only the count changes: `T c` is the trigger with the count `c`. -/
theorem answers_counting {T : ℤ → TriggerDefinition} {p : TriggerNotification → Bool} {d : ℤ}
    {ns : List TriggerNotification} (h : ∀ c, ∀ n ∈ ns, ∃ n',
      (T c).satisfy n = .ok ⟨p n && c + 1 == d, T (if p n then c + 1 else c), n'⟩) (c : ℤ) :
    (T c).answers ns = .ok (countAnswers p d c ns) := by
  refine answers_counted (I := fun c T' => T' = T c) (fun c T' hT' n hn => ?_) rfl
  obtain ⟨n', htest⟩ := h c n hn
  rw [hT']
  exact ⟨_, n', htest, rfl⟩

/-! ### The types of triggers -/

/-- The notifications a trigger looks at. -/
def TriggerDefinition.covers : TriggerDefinition → TriggerNotification → Bool
  | .annotatedAPICall t, .annotatedAPICall n => t.covers n
  | .objectCreate t, .objectCreate n => t.covers n
  | .objectDelete t, .objectDelete n => t.covers n
  | .objectUpdate t, .objectUpdate n => t.covers n
  | _, _ => false

/-- The update notifications an update trigger counts. -/
def ObjectUpdateTrigger.finds (t : ObjectUpdateTrigger) : TriggerNotification → Bool
  | .objectUpdate n => t.covers n &&
    (match isDesiredUpdate n.prevState n.curState t.prevStateDiff t.curStateDiff
        (n.masksToUse t.convertStateToAPIForm)
        (!(n.observedWhen == beforeAPIServerRecv || n.observedWhen == afterAPIServerRecv)) with
      | .ok result => result.1
      | .error _ => false)
  | _ => false

/-- The states of an update notification are there. -/
def TriggerNotification.HasStates : TriggerNotification → Prop
  | .objectUpdate n => n.prevState.isSome ∧ n.curState.isSome
  | _ => True

theorem answers_create (t : ObjectCreateTrigger) (ns : List TriggerNotification) :
    (TriggerDefinition.objectCreate t).answers ns = .ok (countAnswers
      (TriggerDefinition.objectCreate t).covers t.desiredOccurrence t.actualOccurrence ns) := by
  refine answers_counting (T := fun c => .objectCreate { t with actualOccurrence := c }) ?_
    t.actualOccurrence
  intro c n _
  refine ⟨n, ?_⟩
  cases n with
  | objectCreate n =>
    have hcovers : ({ t with actualOccurrence := c } : ObjectCreateTrigger).covers n =
      t.covers n := rfl
    rw [TriggerDefinition.satisfy, ObjectCreateTrigger.satisfy, hcovers, TriggerDefinition.covers]
    cases t.covers n <;> rfl
  | _ => rfl

theorem answers_delete (t : ObjectDeleteTrigger) (ns : List TriggerNotification) :
    (TriggerDefinition.objectDelete t).answers ns = .ok (countAnswers
      (TriggerDefinition.objectDelete t).covers t.desiredOccurrence t.actualOccurrence ns) := by
  refine answers_counting (T := fun c => .objectDelete { t with actualOccurrence := c }) ?_
    t.actualOccurrence
  intro c n _
  refine ⟨n, ?_⟩
  cases n with
  | objectDelete n =>
    have hcovers : ({ t with actualOccurrence := c } : ObjectDeleteTrigger).covers n =
      t.covers n := rfl
    rw [TriggerDefinition.satisfy, ObjectDeleteTrigger.satisfy, hcovers, TriggerDefinition.covers]
    cases t.covers n <;> rfl
  | _ => rfl

theorem answers_call (t : AnnotatedAPICallTrigger) (ns : List TriggerNotification) :
    (TriggerDefinition.annotatedAPICall t).answers ns = .ok (countAnswers
      (TriggerDefinition.annotatedAPICall t).covers t.desiredOccurrence t.actualOccurrence ns) := by
  refine answers_counting (T := fun c => .annotatedAPICall { t with actualOccurrence := c }) ?_
    t.actualOccurrence
  intro c n _
  refine ⟨n, ?_⟩
  cases n with
  | annotatedAPICall n =>
    have hcovers : ({ t with actualOccurrence := c } : AnnotatedAPICallTrigger).covers n =
      t.covers n := rfl
    rw [TriggerDefinition.satisfy, AnnotatedAPICallTrigger.satisfy, hcovers, TriggerDefinition.covers]
    cases t.covers n <;> rfl
  | _ => rfl

/-- Without a difference to look for, an update trigger says yes to every update it looks at. -/
theorem answers_anyUpdate {t : ObjectUpdateTrigger} (hany : t.anyUpdate = true)
    (ns : List TriggerNotification) : (TriggerDefinition.objectUpdate t).answers ns =
      .ok (ns.map (TriggerDefinition.objectUpdate t).covers) := by
  induction ns with
  | nil => rfl
  | cons n ns ih =>
    have htest : (TriggerDefinition.objectUpdate t).satisfy n =
        .ok ⟨(TriggerDefinition.objectUpdate t).covers n, .objectUpdate t, n⟩ := by
      cases n with
      | objectUpdate n =>
        rw [TriggerDefinition.satisfy, ObjectUpdateTrigger.satisfy, hany, TriggerDefinition.covers]
        cases t.covers n <;> rfl
      | _ => rfl
    exact answers_cons htest ih

/-- One test of an update trigger that looks for a difference. -/
theorem satisfy_update {t : ObjectUpdateTrigger} (hany : t.anyUpdate = false)
    {n : ObjectUpdateNotification} (hn : (TriggerNotification.objectUpdate n).HasStates) :
    ∃ n', (TriggerDefinition.objectUpdate t).satisfy (.objectUpdate n) =
      .ok ⟨t.finds (.objectUpdate n) && t.actualOccurrence + 1 == t.desiredOccurrence,
        .objectUpdate { t with
          actualOccurrence := (if t.finds (.objectUpdate n) then t.actualOccurrence + 1
            else t.actualOccurrence) },
        n'⟩ := by
  obtain ⟨prevState, hprev⟩ := Option.isSome_iff_exists.mp hn.1
  obtain ⟨curState, hcur⟩ := Option.isSome_iff_exists.mp hn.2
  obtain ⟨desired, p, q, hdesired⟩ := isDesiredUpdate_some prevState curState t.prevStateDiff
    t.curStateDiff (n.masksToUse t.convertStateToAPIForm)
    (!(n.observedWhen == beforeAPIServerRecv || n.observedWhen == afterAPIServerRecv))
  rw [TriggerDefinition.satisfy, ObjectUpdateTrigger.satisfy, ObjectUpdateTrigger.finds, hany,
    hprev, hcur]
  cases t.covers n with
  | false => exact ⟨_, rfl⟩
  | true =>
    simp only [Bool.false_eq_true, if_true, if_false, Bool.true_and, hdesired]
    cases desired <;> exact ⟨_, rfl⟩

theorem answers_update {t : ObjectUpdateTrigger} (hany : t.anyUpdate = false)
    {ns : List TriggerNotification} (hstates : ∀ n ∈ ns, n.HasStates) :
    (TriggerDefinition.objectUpdate t).answers ns =
      .ok (countAnswers t.finds t.desiredOccurrence t.actualOccurrence ns) := by
  refine answers_counting (T := fun c => .objectUpdate { t with actualOccurrence := c }) ?_
    t.actualOccurrence
  intro c n hn
  cases n with
  | objectUpdate n =>
    have hany' : ({ t with actualOccurrence := c } : ObjectUpdateTrigger).anyUpdate = false := hany
    exact satisfy_update hany' (hstates _ hn)
  | _ => exact ⟨_, rfl⟩

end Sieve.Server
