import Sieve.Event.OwnDifference
import Sieve.Server.OrderFree

/-!
# Two triggers and one notification

A test of an update trigger canonicalizes the states of the notification in place, so that the next
trigger finds them masked with the masks of the first one.

* `TriggerDefinition.prevMasks`, `TriggerDefinition.curMasks`: the masks a test puts on the states;
* `ObjectUpdateTrigger.LooksFor`: the updates whose change an update trigger describes;
* `TriggerDefinition.Finds`: the states masked with given masks are what the trigger describes;
* `Undisturbed`: the masks of one trigger let the other find what its own masks do;
* `undisturbed_iff`: exactly then a test before does not matter.
-/

namespace Sieve.Server

open Sieve.Event Sieve.Library

namespace TriggerDefinition

/-- The masks that a test puts on the previous state, if it looks at it. -/
def prevMasks (n : ObjectUpdateNotification) : TriggerDefinition → Option Masks
  | .objectUpdate t =>
    if t.covers n && !t.anyUpdate then some (n.masksToUse t.convertStateToAPIForm) else none
  | _ => none

/-- The masks that a test puts on the current state, if it looks at it. -/
def curMasks (n : ObjectUpdateNotification) : TriggerDefinition → Option Masks
  | .objectUpdate t =>
    if t.covers n && !t.anyUpdate then some (n.masksToUse t.convertStateToAPIForm) else none
  | .anyFieldModification t =>
    if t.covers n then some (n.masksToUse t.convertStateToAPIForm) else none
  | _ => none

end TriggerDefinition

/-- The update between these states makes the change that the trigger describes.  At the API server the
trigger describes a part of it only: neither of its sides has anything that the change does not show. -/
def ObjectUpdateTrigger.LooksFor (t : ObjectUpdateTrigger) (observedWhen : String)
    (prevState curState : Fields) : Prop :=
  if observedWhen = beforeAPIServerRecv ∨ observedWhen = afterAPIServerRecv then
    ∃ prev cur, Json.Distinct (.obj prev) ∧ Json.Distinct (.obj cur) ∧
      SameChange go go go (.obj prevState) (.obj curState) (.obj prev) (.obj cur) ∧
      (OwnDifference go (.obj prev) (.obj cur) ∨ prev = [] ∧ cur = []) ∧
      ¬ Gains go go (.obj prev) (.obj (t.prevStateDiff.getD [])) ∧
      ¬ Gains go go (.obj cur) (.obj (t.curStateDiff.getD []))
  else
    ∃ prev cur, t.prevStateDiff = some prev ∧ t.curStateDiff = some cur ∧
      OwnDifference go (.obj prev) (.obj cur) ∧
      SameChange go go go (.obj prevState) (.obj curState) (.obj prev) (.obj cur)

/-- The states of the notification, with these masks on them, are what the trigger describes: a change,
or a state that the trigger's own difference gains something over. -/
def TriggerDefinition.Finds (n : ObjectUpdateNotification) (prevMasks curMasks : Masks) :
    TriggerDefinition → Prop
  | .objectUpdate t => ∃ prev cur, n.prevState = some prev ∧ n.curState = some cur ∧
      t.LooksFor n.observedWhen (canonicalState prevMasks prev) (canonicalState curMasks cur)
  | .anyFieldModification t => ∃ diff cur, t.prevStateDiff = some diff ∧ n.curState = some cur ∧
      Gains go go (.obj (canonicalState curMasks cur))
        (.obj (canonicalState (n.masksToUse t.convertStateToAPIForm) diff))
  | _ => False

/-- With the masks of `u` on the states that `u` looks at, `t` finds in them what it finds with its own
masks. -/
def Undisturbed (t u : TriggerDefinition) (n : ObjectUpdateNotification) : Prop :=
  ∀ masks, t.curMasks n = some masks →
    (t.Finds n ((u.prevMasks n).getD masks) ((u.curMasks n).getD masks) ↔ t.Finds n masks masks)

/-- A map has each of its keys once, on every level. -/
def GoMap.Distinct (event : GoMap) : Prop := ∀ fields, event = some fields → Json.Distinct (.obj fields)

/-- The differences of a trigger are proper maps. -/
def TriggerDefinition.Distinct : TriggerDefinition → Prop
  | .objectUpdate t => GoMap.Distinct t.prevStateDiff ∧ GoMap.Distinct t.curStateDiff
  | .anyFieldModification t => GoMap.Distinct t.prevStateDiff
  | _ => True

/-! ### What a test compares -/

/-- The difference of two canonical states is the one the trigger looks for. -/
def ObjectUpdateTrigger.shownBy (t : ObjectUpdateTrigger) (observedWhen : String)
    (prevState curState : GoMap) : Bool :=
  if !(observedWhen == beforeAPIServerRecv || observedWhen == afterAPIServerRecv) then
    equivalentEvent (diffEventAsMap prevState curState).1 t.prevStateDiff &&
      equivalentEvent (diffEventAsMap prevState curState).2 t.curStateDiff
  else
    partOfEventAsMap t.prevStateDiff (diffEventAsMap prevState curState).1 &&
      partOfEventAsMap t.curStateDiff (diffEventAsMap prevState curState).2

/-- What the comparison of a test says about the states when they are masked with these masks; a nil map
cannot be masked. -/
def TriggerDefinition.sees (n : ObjectUpdateNotification) (prevMasks curMasks : Masks) :
    TriggerDefinition → Option Bool
  | .objectUpdate t =>
    match canonicalizeEvent n.prevState prevMasks, canonicalizeEvent n.curState curMasks with
    | .ok prevState, .ok curState => some (t.shownBy n.observedWhen prevState curState)
    | _, _ => none
  | .anyFieldModification t =>
    match canonicalizeEvent t.prevStateDiff (n.masksToUse t.convertStateToAPIForm),
      canonicalizeEvent n.curState curMasks with
    | .ok prevStateDiff, .ok curState => some (!partOfEventAsMap prevStateDiff curState)
    | _, _ => none
  | _ => none

theorem equivalentEvent_some (a : Fields) (b : GoMap) : equivalentEvent (some a) b = true ↔
    ∃ fields, b = some fields ∧ Json.Equal go.scalarEqual (.obj a) (.obj fields) := by
  cases b with
  | none => exact iff_of_false nofun nofun
  | some b =>
    constructor
    · exact fun h => ⟨b, rfl, h⟩
    · rintro ⟨_, ⟨⟩, h⟩
      exact h

theorem equivalentEvent_none {b : GoMap} : equivalentEvent none b = true ↔ b = none := by
  cases b with
  | none => exact iff_of_true rfl rfl
  | some b => exact iff_of_false nofun nofun

/-- **A trigger with a difference** finds the updates that make this change. -/
theorem exact_iff {prevState curState : Fields} {t : ObjectUpdateTrigger}
    (hprev : Json.Distinct (.obj prevState)) (hcur : Json.Distinct (.obj curState))
    (hdiff : GoMap.Distinct t.prevStateDiff) (hdiff' : GoMap.Distinct t.curStateDiff)
    (hany : t.anyUpdate = false) :
    (equivalentEvent (diffEventAsMap (some prevState) (some curState)).1 t.prevStateDiff &&
        equivalentEvent (diffEventAsMap (some prevState) (some curState)).2 t.curStateDiff) = true ↔
      ∃ prev cur, t.prevStateDiff = some prev ∧ t.curStateDiff = some cur ∧
        OwnDifference go (.obj prev) (.obj cur) ∧
        SameChange go go go (.obj prevState) (.obj curState) (.obj prev) (.obj cur) := by
  have hsame : ∀ {prev cur}, t.prevStateDiff = some prev → t.curStateDiff = some cur →
      (SameDifference go (diffValue go (.obj prevState) (.obj curState)) (some (.obj prev, .obj cur)) ↔
        OwnDifference go (.obj prev) (.obj cur) ∧
          SameChange go go go (.obj prevState) (.obj curState) (.obj prev) (.obj cur)) :=
    fun hp hc => sameDifference_iff go_lawful hprev hcur (hdiff _ hp) (hdiff' _ hc)
  rw [diffValue_obj] at hsame
  rw [diffEventAsMap, Option.getD_some, Option.getD_some, Bool.and_eq_true]
  cases hactual : Event.diffEventAsMap go prevState curState with
  | none =>
    rw [hactual] at hsame
    constructor
    · intro ⟨h, h'⟩
      rw [ObjectUpdateTrigger.anyUpdate, equivalentEvent_none.mp h, equivalentEvent_none.mp h'] at hany
      cases hany
    · intro ⟨prev, cur, hp, hc, h⟩
      cases (hsame hp hc).mpr h
  | some actual =>
    rw [hactual] at hsame
    rw [equivalentEvent_some, equivalentEvent_some]
    constructor
    · intro ⟨⟨prev, hp, h⟩, cur, hc, h'⟩
      exact ⟨prev, cur, hp, hc, (hsame hp hc).mp (.some ⟨h, h'⟩)⟩
    · intro ⟨prev, cur, hp, hc, h⟩
      cases (hsame hp hc).mpr h with
      | some h => exact ⟨⟨prev, hp, h.1⟩, cur, hc, h.2⟩

theorem getD_distinct {event : GoMap} (h : GoMap.Distinct event) : Json.Distinct (.obj (event.getD [])) := by
  cases event with
  | none => exact .obj .nil nofun
  | some fields => exact h fields rfl

theorem none_distinct : GoMap.Distinct none := fun _ h => nomatch h

theorem some_distinct {fields : Fields} (h : Json.Distinct (.obj fields)) :
    GoMap.Distinct (some fields) := by
  rintro _ ⟨⟩
  exact h

theorem partOf_iff {a b : GoMap} (ha : GoMap.Distinct a) (hb : GoMap.Distinct b) :
    partOfEventAsMap a b = true ↔ ¬ Gains go go (.obj (b.getD [])) (.obj (a.getD [])) := by
  rw [partOfEventAsMap, ← partOfValue_obj, partOfValue_iff go_lawful (getD_distinct ha) (getD_distinct hb)]

/-- **At the API server** a trigger finds the updates whose change has what it describes. -/
theorem part_iff {prevState curState : Fields} {t : ObjectUpdateTrigger}
    (hprev : Json.Distinct (.obj prevState)) (hcur : Json.Distinct (.obj curState))
    (hdiff : GoMap.Distinct t.prevStateDiff) (hdiff' : GoMap.Distinct t.curStateDiff) :
    (partOfEventAsMap t.prevStateDiff (diffEventAsMap (some prevState) (some curState)).1 &&
        partOfEventAsMap t.curStateDiff (diffEventAsMap (some prevState) (some curState)).2) = true ↔
      ∃ prev cur, Json.Distinct (.obj prev) ∧ Json.Distinct (.obj cur) ∧
        SameChange go go go (.obj prevState) (.obj curState) (.obj prev) (.obj cur) ∧
        (OwnDifference go (.obj prev) (.obj cur) ∨ prev = [] ∧ cur = []) ∧
        ¬ Gains go go (.obj prev) (.obj (t.prevStateDiff.getD [])) ∧
        ¬ Gains go go (.obj cur) (.obj (t.curStateDiff.getD [])) := by
  have hempty : Json.Distinct (.obj []) := .obj .nil nofun
  have hdiffs := diffValue_obj (d := go) prevState curState
  rw [diffEventAsMap, Option.getD_some, Option.getD_some, Bool.and_eq_true]
  cases hactual : Event.diffEventAsMap go prevState curState with
  | none =>
    rw [hactual] at hdiffs
    simp only [partOf_iff hdiff none_distinct, partOf_iff hdiff' none_distinct]
    constructor
    · intro ⟨h, h'⟩
      exact ⟨[], [], hempty, hempty, .unchanged ((apart go_lawful hprev hcur).1.mp hdiffs) rfl,
        .inr ⟨rfl, rfl⟩, h, h'⟩
    · intro ⟨prev, cur, hp, hc, hchange, hown, h, h'⟩
      rcases hown with hown | ⟨rfl, rfl⟩
      · have hsame := (sameDifference_iff go_lawful hprev hcur hp hc).mpr ⟨hown, hchange⟩
        rw [hdiffs] at hsame
        cases hsame
      · exact ⟨h, h'⟩
  | some actual =>
    rw [hactual] at hdiffs
    obtain ⟨hx, hy⟩ := diffValue_distinct hprev hcur hdiffs
    simp only [partOf_iff hdiff (some_distinct hx), partOf_iff hdiff' (some_distinct hy)]
    constructor
    · intro ⟨h, h'⟩
      exact ⟨_, _, hx, hy, sameChange_diff go_lawful hprev hcur hdiffs,
        .inl (ownDifference_of_diff go_lawful hprev hcur hdiffs), h, h'⟩
    · intro ⟨prev, cur, hp, hc, hchange, hown, h, h'⟩
      rcases hown with hown | ⟨rfl, rfl⟩
      · have hsame := (sameDifference_iff go_lawful hprev hcur hp hc).mpr ⟨hown, hchange⟩
        rw [hdiffs] at hsame
        cases hsame with
        | some hsame =>
          rw [← gains_congr go_lawful (getD_distinct hdiff) hx hp hsame.1] at h
          rw [← gains_congr go_lawful (getD_distinct hdiff') hy hc hsame.2] at h'
          exact ⟨h, h'⟩
      · have hsame := (sameChange_iff go_lawful go_lawful go_lawful hprev hcur hempty hempty).mp hchange
        rw [hdiffs] at hsame
        cases hsame

theorem shownBy_iff {t : ObjectUpdateTrigger} (observedWhen : String) {prevState curState : Fields}
    (hprev : Json.Distinct (.obj prevState)) (hcur : Json.Distinct (.obj curState))
    (ht : (TriggerDefinition.objectUpdate t).Distinct) (hany : t.anyUpdate = false) :
    t.shownBy observedWhen (some prevState) (some curState) = true ↔
      t.LooksFor observedWhen prevState curState := by
  rw [ObjectUpdateTrigger.shownBy, ObjectUpdateTrigger.LooksFor]
  by_cases hserver : observedWhen = beforeAPIServerRecv ∨ observedWhen = afterAPIServerRecv
  · rw [if_pos hserver, if_neg (by simpa [or_iff_not_imp_left] using hserver)]
    exact part_iff hprev hcur ht.1 ht.2
  · rw [if_neg hserver, if_pos (by simpa using hserver)]
    exact exact_iff hprev hcur ht.1 ht.2 hany

/-- The masks do not matter for whether there is anything to compare. -/
theorem sees_isSome (t : TriggerDefinition) (n : ObjectUpdateNotification)
    (prevMasks curMasks prevMasks' curMasks' : Masks) :
    (t.sees n prevMasks curMasks).isSome = (t.sees n prevMasks' curMasks').isSome := by
  cases t with
  | objectUpdate t =>
    rw [TriggerDefinition.sees, TriggerDefinition.sees]
    cases n.prevState with
    | none => rfl
    | some prev =>
      cases n.curState with
      | none =>
        rw [canonicalizeEvent_eq, canonicalizeEvent_eq]
        rfl
      | some cur =>
        simp only [canonicalizeEvent_eq]
        rfl
  | anyFieldModification t =>
    rw [TriggerDefinition.sees, TriggerDefinition.sees]
    cases t.prevStateDiff with
    | none => rfl
    | some diff =>
      rw [canonicalizeEvent_eq]
      cases n.curState with
      | none => rfl
      | some cur =>
        simp only [canonicalizeEvent_eq]
        rfl
  | _ => rfl

/-- **A test compares** what the trigger describes with the masked states. -/
theorem sees_iff {t : TriggerDefinition} {n : ObjectUpdateNotification} (ht : t.Distinct)
    (hprev : GoMap.Distinct n.prevState) (hcur : GoMap.Distinct n.curState) {masks : Masks}
    (hmasks : t.curMasks n = some masks) (prevMasks curMasks : Masks) :
    t.sees n prevMasks curMasks = some true ↔ t.Finds n prevMasks curMasks := by
  cases t with
  | objectUpdate t =>
    have hany : t.anyUpdate = false := by
      rw [TriggerDefinition.curMasks] at hmasks
      split at hmasks
      · rename_i hlooks
        simp only [Bool.and_eq_true, Bool.not_eq_true'] at hlooks
        exact hlooks.2
      · cases hmasks
    rw [TriggerDefinition.sees, TriggerDefinition.Finds]
    cases hp : n.prevState with
    | none => exact iff_of_false nofun nofun
    | some prev =>
      cases hc : n.curState with
      | none =>
        rw [canonicalizeEvent_eq]
        exact iff_of_false nofun nofun
      | some cur =>
        have hshown := shownBy_iff n.observedWhen (canonicalState_distinct prevMasks (hprev prev hp))
          (canonicalState_distinct curMasks (hcur cur hc)) ht hany
        simp only [canonicalizeEvent_eq, Option.some.injEq, hshown]
        constructor
        · exact fun h => ⟨prev, cur, rfl, rfl, h⟩
        · rintro ⟨_, _, rfl, rfl, h⟩
          exact h
  | anyFieldModification t =>
    rw [TriggerDefinition.sees, TriggerDefinition.Finds]
    cases hd : t.prevStateDiff with
    | none => exact iff_of_false nofun nofun
    | some diff =>
      rw [canonicalizeEvent_eq]
      cases hc : n.curState with
      | none => exact iff_of_false nofun nofun
      | some cur =>
        have hpart := partOf_iff
          (some_distinct (canonicalState_distinct (n.masksToUse t.convertStateToAPIForm) (ht diff hd)))
          (some_distinct (canonicalState_distinct curMasks (hcur cur hc)))
        rw [← not_iff_not, not_not] at hpart
        simp only [canonicalizeEvent_eq, Option.some.injEq, Bool.not_eq_true', ← Bool.not_eq_true, hpart,
          Option.getD_some]
        constructor
        · exact fun h => ⟨diff, cur, rfl, rfl, h⟩
        · rintro ⟨_, _, rfl, rfl, h⟩
          exact h
  | _ => cases hmasks

/-- What the masks let a trigger find decides what its comparison says. -/
theorem sees_eq_iff {t : TriggerDefinition} {n : ObjectUpdateNotification} (ht : t.Distinct)
    (hprev : GoMap.Distinct n.prevState) (hcur : GoMap.Distinct n.curState) {masks : Masks}
    (hmasks : t.curMasks n = some masks) (prevMasks curMasks prevMasks' curMasks' : Masks) :
    t.sees n prevMasks curMasks = t.sees n prevMasks' curMasks' ↔
      (t.Finds n prevMasks curMasks ↔ t.Finds n prevMasks' curMasks') := by
  rw [← sees_iff ht hprev hcur hmasks, ← sees_iff ht hprev hcur hmasks]
  have hsome := sees_isSome t n prevMasks curMasks prevMasks' curMasks'
  cases hsees : t.sees n prevMasks curMasks with
  | none =>
    rw [hsees] at hsome
    cases hsees' : t.sees n prevMasks' curMasks' with
    | none => simp
    | some seen' =>
      rw [hsees'] at hsome
      cases hsome
  | some seen =>
    rw [hsees] at hsome
    cases hsees' : t.sees n prevMasks' curMasks' with
    | none =>
      rw [hsees'] at hsome
      cases hsome
    | some seen' => cases seen <;> cases seen' <;> simp

/-! ### The states after a test -/

/-- What a test with these masks makes of a state. -/
def AfterTest (masks : Option Masks) (event event' : GoMap) : Prop :=
  match masks with
  | some masks => canonicalizeEvent event masks = .ok event'
  | none => event' = event

/-- The first masks stay. -/
theorem AfterTest.canonicalizeEvent_eq {masks : Option Masks} {event event' : GoMap}
    (h : AfterTest masks event event') (m : Masks) :
    canonicalizeEvent event' m = canonicalizeEvent event (masks.getD m) := by
  cases masks with
  | none =>
    rw [show event' = event from h]
    rfl
  | some masks =>
    replace h : canonicalizeEvent event masks = .ok event' := h
    rw [canonicalizeEvent_twice h, Option.getD_some, h]

theorem satisfy_states {n : ObjectUpdateNotification} {u : TriggerDefinition} {test : Test}
    (h : u.satisfy (.objectUpdate n) = .ok test) : ∃ prevState curState,
      test.notification = .objectUpdate (n.withStates prevState curState) ∧
        AfterTest (u.prevMasks n) n.prevState prevState ∧
          AfterTest (u.curMasks n) n.curState curState := by
  have hsame : ∀ answer trigger, (.ok ⟨answer, trigger, .objectUpdate n⟩ : Except Fatal Test) =
      .ok test → test.notification = .objectUpdate (n.withStates n.prevState n.curState) := by
    intro answer trigger htest
    rw [← Except.ok.inj htest]
    rfl
  cases u with
  | objectUpdate t =>
    rw [TriggerDefinition.satisfy, ObjectUpdateTrigger.satisfy] at h
    rw [TriggerDefinition.prevMasks, TriggerDefinition.curMasks]
    cases hcovers : t.covers n with
    | false =>
      rw [hcovers] at h
      exact ⟨n.prevState, n.curState, hsame _ _ h, rfl, rfl⟩
    | true =>
      rw [hcovers] at h
      cases hany : t.anyUpdate with
      | true =>
        rw [hany] at h
        exact ⟨n.prevState, n.curState, hsame _ _ h, rfl, rfl⟩
      | false =>
        rw [hany] at h
        obtain ⟨⟨answer, t', n'⟩, htest, hn⟩ := bind_ok_iff.mp h
        obtain ⟨⟨desired, p, c⟩, hd, hrest⟩ := bind_ok_iff.mp htest
        rw [← Except.ok.inj hn]
        obtain ⟨hp, hc⟩ := isDesiredUpdate_states hd
        refine ⟨p, c, ?_, hp, hc⟩
        cases desired <;> (cases hrest; rfl)
  | anyFieldModification t =>
    have hprev : (TriggerDefinition.anyFieldModification t).prevMasks n = none := rfl
    rw [TriggerDefinition.satisfy, AnyFieldModificationTrigger.satisfy] at h
    rw [hprev, TriggerDefinition.curMasks]
    cases hcovers : t.covers n with
    | false =>
      rw [hcovers] at h
      exact ⟨n.prevState, n.curState, hsame _ _ h, rfl, rfl⟩
    | true =>
      rw [hcovers] at h
      obtain ⟨⟨answer, t', n'⟩, htest, hn⟩ := bind_ok_iff.mp h
      obtain ⟨⟨modified, c, diff⟩, hd, hrest⟩ := bind_ok_iff.mp htest
      rw [← Except.ok.inj hn]
      refine ⟨n.prevState, c, ?_, rfl, isAnyFieldModified_states hd⟩
      cases modified <;> (cases hrest; rfl)
  | _ => exact ⟨n.prevState, n.curState, hsame _ _ h, rfl, rfl⟩

/-- A state masked before, by another trigger or not, looks as it does with the first masks. -/
theorem sees_after {n : ObjectUpdateNotification} {prevMasks curMasks : Option Masks}
    {prevState curState : GoMap} (hprev : AfterTest prevMasks n.prevState prevState)
    (hcur : AfterTest curMasks n.curState curState) (t : TriggerDefinition) (m : Masks) :
    t.sees (n.withStates prevState curState) m m =
      t.sees n (prevMasks.getD m) (curMasks.getD m) := by
  have hp : canonicalizeEvent (n.withStates prevState curState).prevState m =
      canonicalizeEvent n.prevState (prevMasks.getD m) := hprev.canonicalizeEvent_eq m
  have hc : canonicalizeEvent (n.withStates prevState curState).curState m =
      canonicalizeEvent n.curState (curMasks.getD m) := hcur.canonicalizeEvent_eq m
  cases t with
  | objectUpdate t =>
    rw [TriggerDefinition.sees, TriggerDefinition.sees, hp, hc]
    rfl
  | anyFieldModification t =>
    rw [TriggerDefinition.sees, TriggerDefinition.sees, hc]
    rfl
  | _ => rfl

/-! ### The verdict -/

/-- The trigger after a test in which it has seen this; a nil map ends the process. -/
def counted {α : Type} (seen : Option Bool) (desired actual : ℤ) (after : ℤ → α) : Option (Bool × α) :=
  seen.map fun matched =>
    if matched then (actual + 1 == desired, after (actual + 1)) else (false, after actual)

/-- What a trigger has seen can be told from its count. -/
theorem counted_inj {α : Type} {seen seen' : Option Bool} {desired actual : ℤ} {after : ℤ → α}
    (hafter : after (actual + 1) ≠ after actual)
    (h : counted seen desired actual after = counted seen' desired actual after) : seen = seen' := by
  cases seen with
  | none => cases seen' <;> simp_all [counted]
  | some matched =>
    cases seen' with
    | none => simp [counted] at h
    | some matched' => cases matched <;> cases matched' <;> simp_all [counted]

theorem verdict_update {t : ObjectUpdateTrigger} {n : ObjectUpdateNotification} {masks : Masks}
    (hmasks : (TriggerDefinition.objectUpdate t).curMasks n = some masks) :
    verdict ((TriggerDefinition.objectUpdate t).satisfy (.objectUpdate n)) =
      counted ((TriggerDefinition.objectUpdate t).sees n masks masks) t.desiredOccurrence
        t.actualOccurrence fun c => .objectUpdate { t with actualOccurrence := c } := by
  rw [TriggerDefinition.curMasks] at hmasks
  split at hmasks
  · rename_i hlooks
    simp only [Bool.and_eq_true, Bool.not_eq_true'] at hlooks
    rw [TriggerDefinition.satisfy, ObjectUpdateTrigger.satisfy, hlooks.1, hlooks.2,
      Option.some.inj hmasks]
    show verdict ((isDesiredUpdate _ _ _ _ _ _ >>= _) >>= _) = _
    rw [isDesiredUpdate, diffEvent, TriggerDefinition.sees]
    cases canonicalizeEvent n.prevState masks with
    | error er => rfl
    | ok prevState =>
      cases canonicalizeEvent n.curState masks with
      | error er => rfl
      | ok curState =>
        show verdict ((if ObjectUpdateTrigger.shownBy t n.observedWhen prevState curState then _
          else _) >>= _) = counted (some (t.shownBy n.observedWhen prevState curState)) _ _ _
        cases t.shownBy n.observedWhen prevState curState <;> rfl
  · cases hmasks

theorem verdict_modification {t : AnyFieldModificationTrigger} {n : ObjectUpdateNotification}
    {masks : Masks} (hmasks : (TriggerDefinition.anyFieldModification t).curMasks n = some masks) :
    verdict ((TriggerDefinition.anyFieldModification t).satisfy (.objectUpdate n)) =
      counted ((TriggerDefinition.anyFieldModification t).sees n masks masks) t.desiredOccurrence
        t.actualOccurrence fun c => .anyFieldModification
          { t with
            prevStateDiff := (canonicalizeEvent t.prevStateDiff masks).toOption.join
            actualOccurrence := c } := by
  rw [TriggerDefinition.curMasks] at hmasks
  split at hmasks
  · rename_i hcovers
    rw [TriggerDefinition.satisfy, AnyFieldModificationTrigger.satisfy, hcovers,
      TriggerDefinition.sees, Option.some.inj hmasks]
    show verdict ((isAnyFieldModified _ _ _ >>= _) >>= _) = _
    rw [isAnyFieldModified]
    cases canonicalizeEvent t.prevStateDiff masks with
    | error er => rfl
    | ok prevStateDiff =>
      cases canonicalizeEvent n.curState masks with
      | error er => rfl
      | ok curState =>
        show verdict ((if !partOfEventAsMap prevStateDiff curState then _ else _) >>= _) =
          counted (some (!partOfEventAsMap prevStateDiff curState)) _ _ _
        cases partOfEventAsMap prevStateDiff curState <;> cases prevStateDiff <;> rfl
  · cases hmasks

/-- **The verdict** of a trigger that looks at the states depends on what it sees in them, and tells
it. -/
theorem verdict_eq_iff {t : TriggerDefinition} {n : ObjectUpdateNotification} {masks : Masks}
    (hmasks : t.curMasks n = some masks) (prevState curState : GoMap) :
    verdict (t.satisfy (.objectUpdate (n.withStates prevState curState))) =
        verdict (t.satisfy (.objectUpdate n)) ↔
      t.sees (n.withStates prevState curState) masks masks = t.sees n masks masks := by
  have hmasks' : t.curMasks (n.withStates prevState curState) = some masks := by
    rw [← hmasks]
    cases t <;> rfl
  have hne : ∀ actual : ℤ, actual + 1 ≠ actual := fun actual => by omega
  cases t with
  | objectUpdate t =>
    rw [verdict_update hmasks, verdict_update hmasks']
    refine ⟨counted_inj fun hsame => hne t.actualOccurrence ?_, fun h => by rw [h]⟩
    injection hsame with hsame
    injection hsame
  | anyFieldModification t =>
    rw [verdict_modification hmasks, verdict_modification hmasks']
    refine ⟨counted_inj fun hsame => hne t.actualOccurrence ?_, fun h => by rw [h]⟩
    injection hsame with hsame
    injection hsame
  | _ => cases hmasks

/-- A trigger that does not look at the states does not depend on them. -/
theorem verdict_unseen {t : TriggerDefinition} {n : ObjectUpdateNotification}
    (hmasks : t.curMasks n = none) (prevState curState : GoMap) :
    verdict (t.satisfy (.objectUpdate (n.withStates prevState curState))) =
      verdict (t.satisfy (.objectUpdate n)) := by
  cases t with
  | objectUpdate t =>
    have hcovers : t.covers (n.withStates prevState curState) = t.covers n := rfl
    rw [TriggerDefinition.curMasks] at hmasks
    rw [TriggerDefinition.satisfy, TriggerDefinition.satisfy, ObjectUpdateTrigger.satisfy,
      ObjectUpdateTrigger.satisfy, hcovers]
    cases hcov : t.covers n with
    | false => rfl
    | true =>
      cases hany : t.anyUpdate with
      | true => rfl
      | false =>
        rw [hcov, hany] at hmasks
        cases hmasks
  | anyFieldModification t =>
    have hcovers : t.covers (n.withStates prevState curState) = t.covers n := rfl
    rw [TriggerDefinition.curMasks] at hmasks
    rw [TriggerDefinition.satisfy, TriggerDefinition.satisfy, AnyFieldModificationTrigger.satisfy,
      AnyFieldModificationTrigger.satisfy, hcovers]
    cases hcov : t.covers n with
    | false => rfl
    | true =>
      rw [hcov] at hmasks
      cases hmasks
  | _ => rfl

/-- Where both triggers look, their masks do the same to the states. -/
def MasksAgree (t u : TriggerDefinition) (n : ObjectUpdateNotification) : Prop :=
  (∀ masks masks', t.prevMasks n = some masks → u.prevMasks n = some masks' →
      canonicalizeEvent n.prevState masks' = canonicalizeEvent n.prevState masks) ∧
    ∀ masks masks', t.curMasks n = some masks → u.curMasks n = some masks' →
      canonicalizeEvent n.curState masks' = canonicalizeEvent n.curState masks

/-- Masks that do the same show the same. -/
theorem undisturbed_of_masksAgree {t u : TriggerDefinition} {n : ObjectUpdateNotification}
    (h : MasksAgree t u n) : Undisturbed t u n := by
  intro masks hmasks
  have hcur : ∀ cur, n.curState = some cur →
      canonicalState ((u.curMasks n).getD masks) cur = canonicalState masks cur := by
    intro cur hc
    cases hu : u.curMasks n with
    | none => rfl
    | some masks' =>
      have hsame := h.2 masks masks' hmasks hu
      rw [hc, canonicalizeEvent_eq, canonicalizeEvent_eq] at hsame
      exact Option.some.inj (Except.ok.inj hsame)
  cases t with
  | objectUpdate t =>
    have hprev : ∀ prev, n.prevState = some prev →
        canonicalState ((u.prevMasks n).getD masks) prev = canonicalState masks prev := by
      intro prev hp
      cases hu : u.prevMasks n with
      | none => rfl
      | some masks' =>
        have hsame := h.1 masks masks' hmasks hu
        rw [hp, canonicalizeEvent_eq, canonicalizeEvent_eq] at hsame
        exact Option.some.inj (Except.ok.inj hsame)
    refine exists_congr fun prev => exists_congr fun cur => ?_
    refine and_congr_right fun hp => and_congr_right fun hc => ?_
    rw [hprev prev hp, hcur cur hc]
  | anyFieldModification t =>
    refine exists_congr fun diff => exists_congr fun cur => ?_
    refine and_congr_right fun _ => and_congr_right fun hc => ?_
    rw [hcur cur hc]
  | _ => cases hmasks

/-- **A test before does not matter** exactly when the trigger finds with the masks of that test what it
finds with its own, in particular when the masks do the same to the states. -/
theorem undisturbed_iff (t u : TriggerDefinition) (n : ObjectUpdateNotification) {test : Test}
    (ht : t.Distinct) (hprevState : GoMap.Distinct n.prevState) (hcurState : GoMap.Distinct n.curState)
    (hu : u.satisfy (.objectUpdate n) = .ok test) :
    (verdict (t.satisfy test.notification) = verdict (t.satisfy (.objectUpdate n)) ↔
      Undisturbed t u n) ∧ (MasksAgree t u n → Undisturbed t u n) := by
  refine ⟨?_, undisturbed_of_masksAgree⟩
  obtain ⟨prevState, curState, hn, hprev, hcur⟩ := satisfy_states hu
  rw [hn, Undisturbed]
  cases hmasks : t.curMasks n with
  | none => exact iff_of_true (verdict_unseen hmasks prevState curState) nofun
  | some masks =>
    rw [verdict_eq_iff hmasks, sees_after hprev hcur, sees_eq_iff ht hprevState hcurState hmasks]
    simp

/-- The phase of a pod changes; only in the API form it is masked. -/
def phaseUpdate : ObjectUpdateNotification :=
  ⟨"pod/default/web", "beforeControllerWrite", "reconcile", some [("phase", .str "a")],
    some [("phase", .str "b")], ⟨∅, ∅⟩, ⟨{"phase"}, ∅⟩⟩

/-- The trigger for this update. -/
def phaseTrigger (name : String) (convertStateToAPIForm : Bool) : TriggerDefinition :=
  .objectUpdate ⟨name, "pod/default/web", some [("phase", .str "a")], some [("phase", .str "b")],
    convertStateToAPIForm, 1, 0, "beforeControllerWrite", "reconcile"⟩

/-- Two triggers with the same setting do not disturb each other. -/
theorem undisturbed_iff_sameMasks : ∃ test,
    (phaseTrigger "trigger1" false).satisfy (.objectUpdate phaseUpdate) = .ok test ∧
      verdict ((phaseTrigger "trigger2" false).satisfy test.notification) =
        verdict ((phaseTrigger "trigger2" false).satisfy (.objectUpdate phaseUpdate)) := by
  refine ⟨_, rfl, ?_⟩
  have hphase : ∀ phase, GoMap.Distinct (some [("phase", .str phase)]) := fun phase =>
    some_distinct (.obj (List.nodup_singleton _) (List.forall_mem_singleton.mpr (.scalar trivial)))
  have hboth := undisturbed_iff (phaseTrigger "trigger2" false) (phaseTrigger "trigger1" false)
    phaseUpdate ⟨hphase "a", hphase "b"⟩ (hphase "a") (hphase "b") rfl
  refine hboth.1.mpr (hboth.2 ⟨fun masks masks' hmasks hmasks' => ?_,
    fun masks masks' hmasks hmasks' => ?_⟩)
  · rw [← Option.some.inj hmasks, ← Option.some.inj hmasks']
  · rw [← Option.some.inj hmasks, ← Option.some.inj hmasks']

/-- **A trigger in the API form hides the update** from one that is not. -/
theorem apiForm_hides_update : ∃ test,
    (phaseTrigger "trigger1" true).satisfy (.objectUpdate phaseUpdate) = .ok test ∧
      (verdict ((phaseTrigger "trigger2" false).satisfy (.objectUpdate phaseUpdate))).map Prod.fst =
        some true ∧
      (verdict ((phaseTrigger "trigger2" false).satisfy test.notification)).map Prod.fst =
        some false :=
  ⟨_, rfl, rfl, rfl⟩

end Sieve.Server
