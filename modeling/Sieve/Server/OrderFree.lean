import Sieve.Server.StateMachineRun

/-!
# Notifications for which the order of the tests does not matter

`processNotification` ranges over `toSatisfy`, which the rounds change, in any order.

* `Action.OrderFree action n`: the condition on the current action and the notification;
* `Action.retested`: the action in the middle of the loop;
* `orderFree_of_single`: notifications that one enabled trigger reacts to;
* `steady_of_masks`: update triggers that use the same masks do not disturb each other.
-/

namespace Sieve.Server

open Sieve.Event Sieve.Library Sieve.Trigger

/-! ### The condition -/

/-- The answer and the trigger afterwards. -/
def verdict : Except Fatal Test → Option (Bool × TriggerDefinition)
  | .ok test => some (test.answer, test.trigger)
  | .error _ => none

namespace Action

/-- The trigger answers yes. -/
def Matches (action : Action) (n : TriggerNotification) (k : String) : Prop :=
  ∃ definition trigger, action.triggerDefinitions k = some definition ∧
    verdict (definition.satisfy n) = some (true, trigger)

/-- The test of the trigger ends the process. -/
def Fails (action : Action) (n : TriggerNotification) (k : String) : Prop :=
  ∃ definition, action.triggerDefinitions k = some definition ∧
    verdict (definition.satisfy n) = none

/-- The trigger does something else than answering no and staying as it is. -/
def Reacts (action : Action) (n : TriggerNotification) (k : String) : Prop :=
  ∃ definition, action.triggerDefinitions k = some definition ∧
    verdict (definition.satisfy n) ≠ some (false, definition)

/-- Fire some of the enabled triggers that answer yes. -/
structure Fires (action : Action) (n : TriggerNotification) (xs : List String)
    (tg : TriggerGraph) : Prop where
  nodup : xs.Nodup
  enabled : ∀ x ∈ xs, x ∈ action.triggerGraph.toSatisfy
  matched : ∀ x ∈ xs, action.Matches n x
  run : fireAll action.triggerGraph xs = .ok tg

/-- The trigger is enabled before the notification, or by such firings. -/
def Offered (action : Action) (n : TriggerNotification) (k : String) : Prop :=
  ∃ xs tg, action.Fires n xs tg ∧ tg.fullyTriggered = .ok false ∧ k ∈ tg.toSatisfy

/-- The notification after the tests of these triggers: update triggers canonicalize its states. -/
def testAll (action : Action) (n : TriggerNotification) (ks : List String) :
    Except Fatal TriggerNotification :=
  ks.foldlM (fun n k =>
    match action.triggerDefinitions k with
    | some definition => do
      let test ← definition.satisfy n
      .ok test.notification
    | none => .ok n) n

/-- The condition for the order not to matter. -/
structure OrderFree (action : Action) (n : TriggerNotification) : Prop where
  /-- What a trigger answers does not depend on the tests before. -/
  steady : ∀ ks n', (∀ k ∈ ks, action.Offered n k) → action.testAll n ks = .ok n' →
    ∀ k definition, action.Offered n k → k ∉ ks → action.triggerDefinitions k = some definition →
      verdict (definition.satisfy n') = verdict (definition.satisfy n)
  /-- The action is complete only when all enabled triggers that react have fired. -/
  spent : ∀ xs tg, action.Fires n xs tg → tg.fullyTriggered = .ok true →
    ∀ k ∈ action.triggerGraph.toSatisfy, action.Reacts n k → k ∈ xs
  /-- No trigger that these firings enable reacts. -/
  fresh : ∀ k, action.Offered n k → action.Reacts n k → k ∈ action.triggerGraph.toSatisfy

/-- The trigger after its test. -/
def tested (action : Action) (n : TriggerNotification) (k : String) : Option TriggerDefinition :=
  (action.triggerDefinitions k).map fun definition =>
    match verdict (definition.satisfy n) with
    | some v => v.2
    | none => definition

/-- The action after the tests of the triggers in `K` and the firings that led to `tg`. -/
def retested (action : Action) (n : TriggerNotification) (K : Finset String) (tg : TriggerGraph) :
    Action where
  triggerGraph := tg
  triggerDefinitions := fun k =>
    if k ∈ K then action.tested n k else action.triggerDefinitions k
  async := action.async

end Action

section Rules

variable {action : Action} {n : TriggerNotification} {k : String} {tg : TriggerGraph}
  {definition : TriggerDefinition} {test : Test}

theorem Action.Matches.reacts (h : action.Matches n k) : action.Reacts n k := by
  obtain ⟨definition, trigger, hdef, hv⟩ := h
  refine ⟨definition, hdef, ?_⟩
  rw [hv]
  exact fun h => Bool.noConfusion (Prod.ext_iff.mp (Option.some.inj h)).1

theorem Action.Fails.reacts (h : action.Fails n k) : action.Reacts n k := by
  obtain ⟨definition, hdef, hv⟩ := h
  refine ⟨definition, hdef, ?_⟩
  rw [hv]
  exact nofun

theorem Action.Fails.not_matches (h : action.Fails n k) : ¬ action.Matches n k := by
  obtain ⟨definition, hdef, hv⟩ := h
  rintro ⟨definition', trigger, hdef', hv'⟩
  rw [hdef] at hdef'
  rw [← Option.some.inj hdef', hv] at hv'
  cases hv'

theorem Action.tested_of_not_reacts (h : ¬ action.Reacts n k) :
    action.tested n k = action.triggerDefinitions k := by
  rw [tested]
  cases hdef : action.triggerDefinitions k with
  | none => rfl
  | some definition =>
    have hv : verdict (definition.satisfy n) = some (false, definition) :=
      not_not.mp fun hne => h ⟨definition, hdef, hne⟩
    rw [Option.map_some, hv]

theorem Action.tested_eq (hdef : action.triggerDefinitions k = some definition)
    (hv : verdict (definition.satisfy n) = some (test.answer, test.trigger)) :
    action.tested n k = some test.trigger := by
  rw [tested, hdef, Option.map_some, hv]

theorem Action.retested_ne_none {K : Finset String}
    (h : (action.retested n K tg).triggerDefinitions k ≠ none) :
    action.triggerDefinitions k ≠ none := by
  intro hnone
  apply h
  show (if k ∈ K then action.tested n k else action.triggerDefinitions k) = none
  rw [tested, hnone]
  exact ite_self _

/-- One more test. -/
theorem Action.define_retested {K : Finset String}
    (hdef : action.triggerDefinitions k = some definition)
    (hv : verdict (definition.satisfy n) = some (test.answer, test.trigger)) :
    (action.retested n K tg).define k test.trigger = action.retested n (insert k K) tg := by
  have hdefs : Function.update (action.retested n K tg).triggerDefinitions k (some test.trigger) =
      (action.retested n (insert k K) tg).triggerDefinitions := by
    funext m
    show _ = if m ∈ insert k K then action.tested n m else action.triggerDefinitions m
    by_cases hm : m = k
    · rw [hm, Function.update_self, if_pos (Finset.mem_insert_self k K), tested_eq hdef hv]
    · rw [Function.update_of_ne hm]
      show (if m ∈ K then _ else _) = _
      simp only [Finset.mem_insert, hm, false_or]
  rw [define, hdefs]
  rfl

/-- One more firing. -/
theorem Action.fire_retested {K : Finset String}
    (hdef : action.triggerDefinitions k = some definition)
    (hv : verdict (definition.satisfy n) = some (test.answer, test.trigger))
    (tg' : TriggerGraph) :
    (action.retested n K tg).fire k test.trigger tg' = action.retested n (insert k K) tg' := by
  rw [fire, define_retested hdef hv]
  rfl

/-- Tests that nothing reacts to leave the definitions as they are. -/
theorem Action.retested_congr {K K' : Finset String}
    (h : ∀ k, action.Reacts n k → (k ∈ K ↔ k ∈ K')) :
    action.retested n K tg = action.retested n K' tg := by
  have hdefs : (action.retested n K tg).triggerDefinitions =
      (action.retested n K' tg).triggerDefinitions := by
    funext k
    show (if k ∈ K then _ else _) = if k ∈ K' then action.tested n k else _
    by_cases hk : action.Reacts n k
    · rw [if_congr (h k hk) rfl rfl]
    · rw [tested_of_not_reacts hk, ite_self, ite_self]
  exact congrArg (fun definitions => Action.mk tg definitions action.async) hdefs

theorem Action.Fires.nil : action.Fires n [] action.triggerGraph :=
  ⟨List.nodup_nil, fun _ hx => absurd hx List.not_mem_nil,
    fun _ hx => absurd hx List.not_mem_nil, rfl⟩

theorem Action.Fires.snoc {xs : List String} {tg' : TriggerGraph} (h : action.Fires n xs tg)
    (hk : k ∈ action.triggerGraph.toSatisfy) (hmatch : action.Matches n k) (hnew : k ∉ xs)
    (htrigger : tg.trigger k = .ok tg') : action.Fires n (xs ++ [k]) tg' where
  nodup := List.nodup_append.mpr ⟨h.nodup, List.nodup_singleton k, fun _ hx _ hy heq =>
    hnew (List.mem_singleton.mp hy ▸ heq ▸ hx)⟩
  enabled := fun x hx => (List.mem_append.mp hx).elim (h.enabled x) fun hx =>
    List.mem_singleton.mp hx ▸ hk
  matched := fun x hx => (List.mem_append.mp hx).elim (h.matched x) fun hx =>
    List.mem_singleton.mp hx ▸ hmatch
  run := foldlM_snoc_ok_iff.mpr ⟨tg, h.run, htrigger⟩

end Rules

/-! ### When it holds -/

section Holds

variable {action : Action} {n n' : TriggerNotification}

/-- Only update triggers change the notification they are tested against. -/
theorem satisfy_same (hn : ¬ ∃ m, n = .objectUpdate m) {definition : TriggerDefinition} {test : Test}
    (h : definition.satisfy n = .ok test) : test.notification = n := by
  cases n with
  | objectUpdate m => exact absurd ⟨m, rfl⟩ hn
  | _ => cases definition <;> exact (congrArg Test.notification (Except.ok.inj h)).symm

/-- Tests that leave the notification as it is. -/
theorem Action.testAll_same (hsame : ∀ k definition test, action.triggerDefinitions k = some definition →
    definition.satisfy n = .ok test → test.notification = n) {ks : List String}
    (h : action.testAll n ks = .ok n') : n' = n := by
  refine foldlM_invariant (fun _ m => m = n) rfl (fun _ k m m' hm hstep => ?_) h
  rw [hm] at hstep
  cases hdef : action.triggerDefinitions k with
  | none =>
    rw [hdef] at hstep
    exact (Except.ok.inj hstep).symm
  | some definition =>
    rw [hdef] at hstep
    obtain ⟨test, htest, hm'⟩ := bind_ok_iff.mp hstep
    rw [← Except.ok.inj hm']
    exact hsame k definition test hdef htest

/-- **A notification that only one enabled trigger reacts to** is order-free. -/
theorem Action.orderFree_of_single (hpending : action.triggerGraph.fullyTriggered = .ok false)
    (hsame : ∀ k definition test, action.triggerDefinitions k = some definition →
      definition.satisfy n = .ok test → test.notification = n) {x : String}
    (hx : x ∈ action.triggerGraph.toSatisfy) (hsingle : ∀ k, action.Reacts n k → k = x) :
    action.OrderFree n where
  steady := by
    intro ks n' _ htests k definition _ _ _
    rw [Action.testAll_same hsame htests]
  spent := by
    intro xs tg hfires hfull k _ hreacts
    rw [hsingle k hreacts]
    cases xs with
    | nil =>
      have htg : action.triggerGraph = tg := Except.ok.inj hfires.run
      rw [← htg, hpending] at hfull
      cases hfull
    | cons y ys =>
      have hy := hsingle y (hfires.matched y List.mem_cons_self).reacts
      rw [hy]
      exact List.mem_cons_self
  fresh := fun k _ hreacts => hsingle k hreacts ▸ hx

end Holds

/-! ### Update triggers with the same masks -/

/-- Two states have the same canonical form. -/
def SameCanonical (masks : Masks) (event event' : GoMap) : Prop :=
  canonicalizeEvent event' masks = canonicalizeEvent event masks

section Masks

variable {masks : Masks} {prev prev' cur cur' : GoMap}

theorem sameCanonical_of_ok (hok : canonicalizeEvent prev masks = .ok prev') :
    SameCanonical masks prev prev' :=
  (canonicalizeEvent_twice hok masks).trans hok.symm

theorem isDesiredUpdate_masks (hprev : SameCanonical masks prev prev')
    (hcur : SameCanonical masks cur cur') (prevStateDiff curStateDiff : GoMap) (exactMatch : Bool) :
    isDesiredUpdate prev' cur' prevStateDiff curStateDiff masks exactMatch =
      isDesiredUpdate prev cur prevStateDiff curStateDiff masks exactMatch := by
  rw [SameCanonical] at hprev hcur
  rw [isDesiredUpdate, isDesiredUpdate, diffEvent, diffEvent, hprev, hcur]

theorem isDesiredUpdate_states {prevStateDiff curStateDiff : GoMap} {exactMatch desired : Bool}
    (h : isDesiredUpdate prev cur prevStateDiff curStateDiff masks exactMatch =
      .ok (desired, prev', cur')) :
    canonicalizeEvent prev masks = .ok prev' ∧ canonicalizeEvent cur masks = .ok cur' := by
  obtain ⟨⟨_, p, c⟩, hdiff, h⟩ := bind_ok_iff.mp h
  obtain ⟨p', hp, hdiff⟩ := bind_ok_iff.mp hdiff
  obtain ⟨c', hc, hdiff⟩ := bind_ok_iff.mp hdiff
  cases hdiff
  cases h
  exact ⟨hp, hc⟩

theorem isAnyFieldModified_states {prevStateDiff prevStateDiff' : GoMap} {modified : Bool}
    (h : isAnyFieldModified cur prevStateDiff masks = .ok (modified, cur', prevStateDiff')) :
    canonicalizeEvent cur masks = .ok cur' := by
  obtain ⟨_, _, h⟩ := bind_ok_iff.mp h
  obtain ⟨c', hc, h⟩ := bind_ok_iff.mp h
  cases h
  exact hc

/-- The update with other states. -/
def ObjectUpdateNotification.withStates (u : ObjectUpdateNotification) (prevState curState : GoMap) :
    ObjectUpdateNotification := { u with prevState := prevState, curState := curState }

/-- The notification is the update with states of the same canonical forms. -/
def SameUpdate (masks : Masks) (u : ObjectUpdateNotification) (n : TriggerNotification) : Prop :=
  ∃ prevState curState, n = .objectUpdate (u.withStates prevState curState) ∧
    SameCanonical masks u.prevState prevState ∧ SameCanonical masks u.curState curState

/-- **A test with these masks** answers the same for states with the same canonical forms, and
leaves such states. -/
theorem satisfy_masks {u : ObjectUpdateNotification} {definition : TriggerDefinition}
    (hupdate : ∀ t, definition = .objectUpdate t → u.masksToUse t.convertStateToAPIForm = masks)
    (hmodification : ∀ t, definition = .anyFieldModification t →
      u.masksToUse t.convertStateToAPIForm = masks)
    {n : TriggerNotification} (h : SameUpdate masks u n) :
    verdict (definition.satisfy n) = verdict (definition.satisfy (.objectUpdate u)) ∧
      ∀ test, definition.satisfy n = .ok test → SameUpdate masks u test.notification := by
  obtain ⟨prevState, curState, rfl, hprev, hcur⟩ := h
  have hsame : ∀ answer trigger test, (.ok ⟨answer, trigger, .objectUpdate
      (u.withStates prevState curState)⟩ : Except Fatal Test) = .ok test →
      SameUpdate masks u test.notification := by
    intro answer trigger test htest
    rw [← Except.ok.inj htest]
    exact ⟨prevState, curState, rfl, hprev, hcur⟩
  cases definition with
  | objectUpdate t =>
    have hcovers : t.covers (u.withStates prevState curState) = t.covers u := rfl
    have hmasks : u.masksToUse t.convertStateToAPIForm = masks := hupdate t rfl
    have hmasks' : (u.withStates prevState curState).masksToUse t.convertStateToAPIForm = masks :=
      hmasks
    rw [TriggerDefinition.satisfy, TriggerDefinition.satisfy, ObjectUpdateTrigger.satisfy,
      ObjectUpdateTrigger.satisfy, hcovers, hmasks, hmasks']
    cases t.covers u with
    | false => exact ⟨rfl, hsame _ _⟩
    | true =>
      cases t.anyUpdate with
      | true => exact ⟨rfl, hsame _ _⟩
      | false =>
        have hdesired := isDesiredUpdate_masks hprev hcur t.prevStateDiff t.curStateDiff
        constructor
        · show verdict ((isDesiredUpdate prevState curState _ _ _ _ >>= _) >>= _) = _
          rw [hdesired]
          rfl
        · intro test htest
          obtain ⟨⟨answer, t', n'⟩, htest, hn⟩ := bind_ok_iff.mp htest
          obtain ⟨⟨desired, p, c⟩, hd, hrest⟩ := bind_ok_iff.mp htest
          rw [← Except.ok.inj hn]
          have hd' := (hdesired _).symm.trans hd
          obtain ⟨hp, hc⟩ := isDesiredUpdate_states hd'
          refine ⟨p, c, ?_, sameCanonical_of_ok hp, sameCanonical_of_ok hc⟩
          cases desired <;> (cases hrest; rfl)
  | anyFieldModification t =>
    have hcovers : t.covers (u.withStates prevState curState) = t.covers u := rfl
    have hmasks : u.masksToUse t.convertStateToAPIForm = masks := hmodification t rfl
    have hmasks' : (u.withStates prevState curState).masksToUse t.convertStateToAPIForm = masks :=
      hmasks
    rw [TriggerDefinition.satisfy, TriggerDefinition.satisfy, AnyFieldModificationTrigger.satisfy,
      AnyFieldModificationTrigger.satisfy, hcovers, hmasks, hmasks']
    cases t.covers u with
    | false => exact ⟨rfl, hsame _ _⟩
    | true =>
      have hmodified : isAnyFieldModified curState t.prevStateDiff masks =
          isAnyFieldModified u.curState t.prevStateDiff masks := by
        rw [SameCanonical] at hcur
        rw [isAnyFieldModified, isAnyFieldModified, hcur]
      constructor
      · show verdict ((isAnyFieldModified curState _ _ >>= _) >>= _) =
          verdict ((isAnyFieldModified u.curState _ _ >>= _) >>= _)
        rw [hmodified]
        cases isAnyFieldModified u.curState t.prevStateDiff masks with
        | error er => rfl
        | ok result =>
          obtain ⟨modified, c, diff⟩ := result
          cases modified <;> rfl
      · intro test htest
        obtain ⟨⟨answer, t', n'⟩, htest, hn⟩ := bind_ok_iff.mp htest
        obtain ⟨⟨modified, c, diff⟩, hd, hrest⟩ := bind_ok_iff.mp htest
        rw [← Except.ok.inj hn]
        have hc := isAnyFieldModified_states (hmodified.symm.trans hd)
        refine ⟨prevState, c, ?_, hprev, sameCanonical_of_ok hc⟩
        cases modified <;> (cases hrest; rfl)
  | _ => exact ⟨rfl, hsame _ _⟩

/-- **Update triggers that use the same masks** do not disturb each other. -/
theorem steady_of_masks {action : Action} {u : ObjectUpdateNotification}
    (hupdate : ∀ k t, action.triggerDefinitions k = some (.objectUpdate t) →
      u.masksToUse t.convertStateToAPIForm = masks)
    (hmodification : ∀ k t, action.triggerDefinitions k = some (.anyFieldModification t) →
      u.masksToUse t.convertStateToAPIForm = masks)
    {ks : List String} {n : TriggerNotification}
    (h : action.testAll (.objectUpdate u) ks = .ok n) {k : String} {definition : TriggerDefinition}
    (hdef : action.triggerDefinitions k = some definition) :
    verdict (definition.satisfy n) = verdict (definition.satisfy (.objectUpdate u)) := by
  have htest : ∀ k definition, action.triggerDefinitions k = some definition →
      ∀ n, SameUpdate masks u n → verdict (definition.satisfy n) =
        verdict (definition.satisfy (.objectUpdate u)) ∧
        ∀ test, definition.satisfy n = .ok test → SameUpdate masks u test.notification := by
    intro k definition hdef n hn
    exact satisfy_masks (fun t ht => hupdate k t (ht ▸ hdef))
      (fun t ht => hmodification k t (ht ▸ hdef)) hn
  have hn : SameUpdate masks u n := by
    refine foldlM_invariant (fun _ n => SameUpdate masks u n) ⟨u.prevState, u.curState, rfl, rfl, rfl⟩
      (fun _ k n n' hn hstep => ?_) h
    cases hdef : action.triggerDefinitions k with
    | none =>
      rw [hdef] at hstep
      exact Except.ok.inj hstep ▸ hn
    | some definition =>
      rw [hdef] at hstep
      obtain ⟨test, hok, hn'⟩ := bind_ok_iff.mp hstep
      exact Except.ok.inj hn' ▸ (htest k definition hdef n hn).2 test hok
  exact (htest k definition hdef n hn).1

end Masks

end Sieve.Server
