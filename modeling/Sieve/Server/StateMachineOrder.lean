import Sieve.Server.OrderFree

/-!
# One notification, any order

* `Progress`: the loop's state in the middle of any order, for an order-free notification;
* `Settled`: the result, which the order does not enter into;
* `processNotification_deterministic`: in every reachable state of a well-formed plan;
* `processNotification_order_matters`: one notification can satisfy both `a` and `b` of `a;b`.
-/

namespace Sieve.Server

open Sieve.Library Sieve.Trigger

/-! ### The middle of the loop -/

/-- The triggers `ks` have been tested, in this order, and `xs` of them have fired. -/
structure Progress (action : Action) (n : TriggerNotification) (sm : StateMachine)
    (orig visited : Finset String) (loop : Loop) (ks xs : List String) (tg : TriggerGraph) :
    Prop where
  state : ∃ timeouts, loop.sm =
    { sm.setAction (action.retested n ks.toFinset tg) with timeouts := timeouts }
  fires : action.Fires n xs tg
  pending : tg.fullyTriggered = .ok false
  notification : action.testAll n ks = .ok loop.notification
  offered : ∀ k ∈ ks, action.Offered n k
  sound : ∀ k ∈ ks, ¬ action.Fails n k
  matched : ∀ k ∈ ks, action.Matches n k → k ∈ xs
  fired : ∀ x ∈ xs, x ∈ ks
  stays : ∀ k ∈ ks, action.triggerDefinitions k ≠ none ∧ (k ∈ xs ∨ k ∈ tg.toSatisfy)
  visited_of_tested : ∀ k ∈ ks, k ∈ tg.toSatisfy → k ∈ visited
  tested_of_visited : ∀ k ∈ visited, action.triggerDefinitions k ≠ none → k ∈ ks
  orig : ∀ k ∈ action.triggerGraph.toSatisfy, action.triggerDefinitions k ≠ none →
    k ∈ xs ∨ k ∈ orig

section Loop

variable {e : TriggerExpr String} {i : ℕ} {S : Finset String} {action : Action}
  {n : TriggerNotification} {sm : StateMachine} {orig visited : Finset String} {loop loop' : Loop}
  {ks xs : List String} {tg : TriggerGraph} {k : String}

theorem Follows.reflects_fires (h : Follows e S action) (hfires : action.Fires n xs tg) :
    Reflects e (S ∪ xs.toFinset) tg :=
  (reflects_run h.wellNamed h.reflects hfires.run).2.1

/-- In the middle of the loop the action waits. -/
theorem Progress.awaits (h : Progress action n sm orig visited loop ks xs tg)
    (hawaits : Awaits e i S action sm) :
    Awaits e i (S ∪ xs.toFinset) (action.retested n ks.toFinset tg) loop.sm := by
  obtain ⟨timeouts, hsm⟩ := h.state
  have hreflects := hawaits.follows.reflects_fires h.fires
  have hfull := hreflects.fullyTriggered hawaits.follows.wellNamed
  rw [h.pending] at hfull
  rw [hsm]
  exact ⟨StateMachine.setAction_current hawaits.current _, hawaits.index, hawaits.idle,
    ⟨hawaits.follows.wellNamed, hreflects,
      fun m hm => hawaits.follows.names m (Action.retested_ne_none hm)⟩,
    of_decide_eq_false (Except.ok.inj hfull).symm⟩

theorem Progress.start (hawaits : Awaits e i S action sm) :
    Progress action n sm action.triggerGraph.toSatisfy ∅ ⟨sm, n⟩ [] [] action.triggerGraph where
  state := by
    refine ⟨sm.timeouts, ?_⟩
    have hnothing : action.retested n [].toFinset action.triggerGraph = action := by
      rw [Action.retested]
      simp only [List.toFinset_nil, Finset.notMem_empty, if_false]
    rw [hnothing, StateMachine.setAction_self hawaits.current]
  fires := .nil
  pending := by
    rw [hawaits.follows.fullyTriggered, decide_eq_false hawaits.incomplete]
  notification := rfl
  offered := fun _ hk => absurd hk List.not_mem_nil
  sound := fun _ hk => absurd hk List.not_mem_nil
  matched := fun _ hk => absurd hk List.not_mem_nil
  fired := fun _ hx => absurd hx List.not_mem_nil
  stays := fun _ hk => absurd hk List.not_mem_nil
  visited_of_tested := fun _ hk => absurd hk List.not_mem_nil
  tested_of_visited := fun k hk => absurd hk (Finset.notMem_empty k)
  orig := fun _ hk _ => Or.inr hk

/-- Trigger names that were present are present or have fired. -/
theorem Action.Fires.stays {ys : List String} {tg' : TriggerGraph} (hfires : action.Fires n xs tg)
    (hfires' : action.Fires n ys tg') (h : Follows e S action) (hsub : ∀ x ∈ xs, x ∈ ys)
    (hk : k ∈ tg.toSatisfy) (hdef : action.triggerDefinitions k ≠ none) :
    k ∈ ys ∨ k ∈ tg'.toSatisfy := by
  have hST : S ∪ xs.toFinset ⊆ S ∪ ys.toFinset :=
    Finset.union_subset_union_right fun x hx =>
      List.mem_toFinset.mpr (hsub x (List.mem_toFinset.mp hx))
  rcases (h.reflects_fires hfires).stays (h.reflects_fires hfires') h.wellNamed hST hk
    (h.names k hdef) with hk | ⟨hT, hS⟩
  · exact Or.inr hk
  · rw [Finset.mem_union, not_or] at hS
    exact Or.inl (List.mem_toFinset.mp ((Finset.mem_union.mp hT).resolve_left hS.1))

/-- Fired triggers are gone. -/
theorem Action.Fires.gone (hfires : action.Fires n xs tg) (h : Follows e S action) (hk : k ∈ xs)
    (hdef : action.triggerDefinitions k ≠ none) : k ∉ tg.toSatisfy := by
  intro hto
  have hfresh := ((h.reflects_fires hfires).enabled h.wellNamed hto (h.names k hdef)).2
  exact hfresh (Finset.mem_union_right S (List.mem_toFinset.mpr hk))

/-- A round for a new key tests it for the first time. -/
theorem Progress.new (h : Progress action n sm orig visited loop ks xs tg)
    (hk : k ∈ tg.toSatisfy) (hnew : k ∉ visited) : k ∉ ks :=
  fun hmem => hnew (h.visited_of_tested k hmem hk)

theorem Progress.offered_new (h : Progress action n sm orig visited loop ks xs tg)
    (hk : k ∈ tg.toSatisfy) : action.Offered n k := ⟨xs, tg, h.fires, h.pending, hk⟩

/-- The first test of a trigger goes as if it were the only one. -/
theorem Progress.definition (h : Progress action n sm orig visited loop ks xs tg)
    (hfree : action.OrderFree n) (hk : k ∈ tg.toSatisfy) (hnew : k ∉ visited)
    {definition : TriggerDefinition}
    (hdef : (action.retested n ks.toFinset tg).triggerDefinitions k = some definition) :
    action.triggerDefinitions k = some definition ∧
      verdict (definition.satisfy loop.notification) = verdict (definition.satisfy n) := by
  have hks := h.new hk hnew
  have hdef' : action.triggerDefinitions k = some definition := by
    rw [← hdef]
    exact (if_neg fun hmem => hks (List.mem_toFinset.mp hmem)).symm
  exact ⟨hdef', hfree.steady ks _ h.offered h.notification k definition (h.offered_new hk) hks hdef'⟩

theorem testAll_snoc {n' : TriggerNotification} {definition : TriggerDefinition} {test : Test}
    (h : action.testAll n ks = .ok n') (hdef : action.triggerDefinitions k = some definition)
    (htest : definition.satisfy n' = .ok test) :
    action.testAll n (ks ++ [k]) = .ok test.notification := by
  refine foldlM_snoc_ok_iff.mpr ⟨n', h, ?_⟩
  rw [hdef]
  show (definition.satisfy n' >>= fun test => Except.ok test.notification) = _
  rw [htest]
  rfl

/-- A round for a key without a definition. -/
theorem Progress.undefined (h : Progress action n sm orig visited loop ks xs tg)
    (hawaits : Awaits e i S action sm)
    (hdef : (action.retested n ks.toFinset tg).triggerDefinitions k = none) :
    Progress action n sm (orig ∩ tg.toSatisfy) (insert k visited ∩ tg.toSatisfy) loop ks xs tg := by
  have hks : k ∉ ks → action.triggerDefinitions k = none := fun hk => by
    rw [← hdef]
    exact (if_neg fun hmem => hk (List.mem_toFinset.mp hmem)).symm
  refine { h with visited_of_tested := ?_, tested_of_visited := ?_, orig := ?_ }
  · intro m hm hto
    exact Finset.mem_inter.mpr ⟨Finset.mem_insert_of_mem (h.visited_of_tested m hm hto), hto⟩
  · intro m hm hmdef
    rcases Finset.mem_insert.mp (Finset.mem_inter.mp hm).1 with rfl | hm
    · by_contra hnot
      exact hmdef (hks hnot)
    · exact h.tested_of_visited m hm hmdef
  · intro m hm hmdef
    rcases h.orig m hm hmdef with hxs | horig
    · exact Or.inl hxs
    · exact (Action.Fires.nil.stays h.fires hawaits.follows (fun x hx => nomatch hx) hm hmdef).imp_right
        fun hto => Finset.mem_inter.mpr ⟨horig, hto⟩

/-- **A round that tests a trigger**, whether or not it fires. -/
theorem Progress.test (h : Progress action n sm orig visited loop ks xs tg)
    (hfollows : Follows e S action) (hk : k ∈ tg.toSatisfy) {definition : TriggerDefinition}
    {test : Test} (hdef : action.triggerDefinitions k = some definition)
    (hv : verdict (definition.satisfy n) = some (test.answer, test.trigger))
    (htest : definition.satisfy loop.notification = .ok test) {xs' : List String}
    {tg' : TriggerGraph} (hfires : action.Fires n xs' tg')
    (hpending : tg'.fullyTriggered = .ok false) (hsub : ∀ x ∈ xs, x ∈ xs')
    (hsup : ∀ x ∈ xs', x ∈ xs ∨ x = k) (hmatched : action.Matches n k → k ∈ xs')
    (hstate : ∃ timeouts, loop'.sm = { sm.setAction
      (action.retested n (insert k ks.toFinset) tg') with timeouts := timeouts })
    (hnotification : loop'.notification = test.notification) :
    Progress action n sm (orig ∩ tg'.toSatisfy) (insert k visited ∩ tg'.toSatisfy) loop'
      (ks ++ [k]) xs' tg' := by
  have hsome : action.triggerDefinitions k ≠ none := by
    rw [hdef]
    exact nofun
  have hsnoc : ∀ {P : String → Prop}, (∀ m ∈ ks, P m) → P k → ∀ m ∈ ks ++ [k], P m := by
    intro P hks hP m hm
    rcases List.mem_append.mp hm with hm | hm
    · exact hks m hm
    · exact List.mem_singleton.mp hm ▸ hP
  constructor
  · rw [List.toFinset_append, List.toFinset_cons, List.toFinset_nil, Finset.union_insert,
      Finset.union_empty]
    exact hstate
  · exact hfires
  · exact hpending
  · rw [hnotification]
    exact testAll_snoc h.notification hdef htest
  · exact hsnoc h.offered (h.offered_new hk)
  · refine hsnoc h.sound ?_
    rintro ⟨definition', hdef', hv'⟩
    rw [hdef] at hdef'
    rw [← Option.some.inj hdef', hv] at hv'
    cases hv'
  · exact hsnoc (fun m hm hmatch => hsub m (h.matched m hm hmatch)) hmatched
  · intro x hx
    rcases hsup x hx with hx | rfl
    · exact List.mem_append_left _ (h.fired x hx)
    · exact List.mem_append_right _ (List.mem_singleton_self _)
  · refine hsnoc (fun m hm => ?_) ⟨hsome, h.fires.stays hfires hfollows hsub hk hsome⟩
    obtain ⟨hmdef, hxs | hto⟩ := h.stays m hm
    · exact ⟨hmdef, Or.inl (hsub m hxs)⟩
    · exact ⟨hmdef, h.fires.stays hfires hfollows hsub hto hmdef⟩
  · refine hsnoc (fun m hm hto => ?_) fun hto =>
      Finset.mem_inter.mpr ⟨Finset.mem_insert_self k visited, hto⟩
    obtain ⟨hmdef, hxs | hold⟩ := h.stays m hm
    · exact absurd hto (hfires.gone hfollows (hsub m hxs) hmdef)
    · exact Finset.mem_inter.mpr
        ⟨Finset.mem_insert_of_mem (h.visited_of_tested m hm hold), hto⟩
  · intro m hm hmdef
    rcases Finset.mem_insert.mp (Finset.mem_inter.mp hm).1 with rfl | hm
    · exact List.mem_append_right _ (List.mem_singleton_self _)
    · exact List.mem_append_left _ (h.tested_of_visited m hm hmdef)
  · intro m hm hmdef
    rcases h.orig m hm hmdef with hxs | horig
    · exact Or.inl (hsub m hxs)
    · exact (Action.Fires.nil.stays hfires hfollows (fun x hx => nomatch hx) hm hmdef).imp_right
        fun hto => Finset.mem_inter.mpr ⟨horig, hto⟩

/-- A trigger that fires in the middle of the loop was enabled before the notification. -/
theorem Progress.fires_snoc (h : Progress action n sm orig visited loop ks xs tg)
    (hfree : action.OrderFree n) (hk : k ∈ tg.toSatisfy) (hnew : k ∉ visited) {tg' : TriggerGraph}
    (hmatch : action.Matches n k) (htrigger : tg.trigger k = .ok tg') :
    action.Fires n (xs ++ [k]) tg' :=
  h.fires.snoc (hfree.fresh k (h.offered_new hk) hmatch.reacts) hmatch
    (fun hxs => h.new hk hnew (h.fired k hxs)) htrigger

theorem Progress.setAction (h : Progress action n sm orig visited loop ks xs tg)
    (action' : Action) : ∃ timeouts,
      loop.sm.setAction action' = { sm.setAction action' with timeouts := timeouts } := by
  obtain ⟨timeouts, hsm⟩ := h.state
  refine ⟨timeouts, ?_⟩
  rw [hsm, ← StateMachine.setAction_setAction sm (action.retested n ks.toFinset tg) action']
  rfl

/-- **A round that reaches its end.** -/
theorem Progress.next (h : Progress action n sm orig visited loop ks xs tg)
    (hawaits : Awaits e i S action sm) (hfree : action.OrderFree n) (hk : k ∈ tg.toSatisfy)
    (hnew : k ∉ visited) (hvisit : Visited e (S ∪ xs.toFinset)
      (action.retested n ks.toFinset tg) k loop (.ok (loop', false))) :
    ∃ ks' xs' tg', Progress action n sm (orig ∩ tg'.toSatisfy) (insert k visited ∩ tg'.toSatisfy)
      loop' ks' xs' tg' := by
  cases hvisit with
  | undefined hdef => exact ⟨ks, xs, tg, h.undefined hawaits hdef⟩
  | @unsatisfied definition test hdef htest hanswer =>
    obtain ⟨hdef', hsteady⟩ := h.definition hfree hk hnew hdef
    have hv : verdict (definition.satisfy n) = some (test.answer, test.trigger) := by
      rw [← hsteady, htest]
      rfl
    refine ⟨ks ++ [k], xs, tg, h.test hawaits.follows hk hdef' hv htest h.fires h.pending
      (fun x hx => hx) (fun x hx => Or.inl hx) ?_ ?_ rfl⟩
    · rintro ⟨definition', trigger, hdef'', hv'⟩
      rw [hdef'] at hdef''
      rw [← Option.some.inj hdef'', hv, hanswer] at hv'
      cases hv'
    · obtain ⟨timeouts, hset⟩ := h.setAction
        (action.retested n (insert k ks.toFinset) tg)
      refine ⟨timeouts, ?_⟩
      rw [← hset, ← Action.define_retested hdef' hv]
  | @pending definition test tg' timeouts hdef htest hanswer htrigger hreflects hincomplete =>
    obtain ⟨hdef', hsteady⟩ := h.definition hfree hk hnew hdef
    have hv : verdict (definition.satisfy n) = some (test.answer, test.trigger) := by
      rw [← hsteady, htest]
      rfl
    have hmatch : action.Matches n k := ⟨definition, test.trigger, hdef', by rw [hv, hanswer]⟩
    have hfull := hreflects.fullyTriggered hawaits.follows.wellNamed
    rw [decide_eq_false hincomplete] at hfull
    refine ⟨ks ++ [k], xs ++ [k], tg', h.test hawaits.follows hk hdef' hv htest
      (h.fires_snoc hfree hk hnew hmatch htrigger) hfull (fun x hx => List.mem_append_left _ hx)
      (fun x hx => ?_) (fun _ => List.mem_append_right _ (List.mem_singleton_self k)) ?_ rfl⟩
    · exact (List.mem_append.mp hx).imp_right List.mem_singleton.mp
    · obtain ⟨_, hset⟩ := h.setAction (action.retested n (insert k ks.toFinset) tg')
      refine ⟨timeouts, ?_⟩
      show StateMachine.mk (loop.sm.setAction _).states _ _ _ _ = _
      rw [Action.fire_retested hdef' hv, hset]

/-! ### The result -/

/-- The result of the loop: all enabled triggers that answer yes have fired and all enabled ones
have been tested, or the process has ended. -/
def Settled (e : TriggerExpr String) (S : Finset String) (action : Action)
    (n : TriggerNotification) (sm : StateMachine) : Except Fatal Loop → Prop
  | .ok loop => ∃ xs tg timeouts, action.Fires n xs tg ∧
      (∀ k ∈ action.triggerGraph.toSatisfy, action.Matches n k → k ∈ xs) ∧
      (∀ k ∈ action.triggerGraph.toSatisfy, ¬ action.Fails n k) ∧
      (tg.fullyTriggered = .ok false ∧ loop.sm =
        { sm.setAction (action.retested n action.triggerGraph.toSatisfy tg) with
          timeouts := timeouts } ∨
      tg.fullyTriggered = .ok true ∧ loop.sm =
        { (sm.setAction (action.retested n action.triggerGraph.toSatisfy tg)).afterRun action with
          timeouts := timeouts })
  | .error _ => (∃ k ∈ action.triggerGraph.toSatisfy, action.Fails n k) ∨
      ∃ xs : List String, (∀ x ∈ xs, x ∈ action.triggerGraph.toSatisfy ∧ action.Matches n x) ∧
        e.Clash (S ∪ xs.toFinset)

/-- The loop ends because all keys have been produced. -/
theorem Progress.finish (h : Progress action n sm orig visited loop ks xs tg)
    (hfree : action.OrderFree n) (hall : orig ⊆ visited) : Settled e S action n sm (.ok loop) := by
  have htested : ∀ k ∈ action.triggerGraph.toSatisfy, action.triggerDefinitions k ≠ none → k ∈ ks := by
    intro k hk hdef
    rcases h.orig k hk hdef with hxs | horig
    · exact h.fired k hxs
    · exact h.tested_of_visited k (hall horig) hdef
  have hdefined : ∀ {P : TriggerDefinition → Prop} {k : String},
      (∃ definition, action.triggerDefinitions k = some definition ∧ P definition) →
      action.triggerDefinitions k ≠ none := by
    rintro P k ⟨definition, hdef, _⟩
    rw [hdef]
    exact nofun
  have hdefs : action.retested n ks.toFinset tg =
      action.retested n action.triggerGraph.toSatisfy tg := by
    apply Action.retested_congr
    intro k hreacts
    rw [List.mem_toFinset]
    exact ⟨fun hks => hfree.fresh k (h.offered k hks) hreacts,
      fun hk => htested k hk (hdefined hreacts)⟩
  obtain ⟨timeouts, hsm⟩ := h.state
  rw [hdefs] at hsm
  refine ⟨xs, tg, timeouts, h.fires, fun k hk hmatch => ?_, fun k hk hfails => ?_,
    Or.inl ⟨h.pending, hsm⟩⟩
  · exact h.matched k (htested k hk (hdefined hmatch.reacts)) hmatch
  · exact h.sound k (htested k hk (hdefined hfails)) hfails

/-- The loop ends at the `break`. -/
theorem Progress.stop (h : Progress action n sm orig visited loop ks xs tg)
    (hawaits : Awaits e i S action sm) (hfree : action.OrderFree n) (hk : k ∈ tg.toSatisfy)
    (hnew : k ∉ visited) (hvisit : Visited e (S ∪ xs.toFinset)
      (action.retested n ks.toFinset tg) k loop (.ok (loop', true))) :
    Settled e S action n sm (.ok loop') := by
  cases hvisit with
  | @complete definition test tg' timeouts hdef htest hanswer htrigger hreflects hcomplete =>
    obtain ⟨hdef', hsteady⟩ := h.definition hfree hk hnew hdef
    have hv : verdict (definition.satisfy n) = some (test.answer, test.trigger) := by
      rw [← hsteady, htest]
      rfl
    have hmatch : action.Matches n k := ⟨definition, test.trigger, hdef', by rw [hv, hanswer]⟩
    have hfires := h.fires_snoc hfree hk hnew hmatch htrigger
    have hfull := hreflects.fullyTriggered hawaits.follows.wellNamed
    rw [decide_eq_true hcomplete] at hfull
    have hspent := hfree.spent _ _ hfires hfull
    have hdefs : action.retested n (insert k ks.toFinset) tg' =
        action.retested n action.triggerGraph.toSatisfy tg' := by
      apply Action.retested_congr
      intro m hreacts
      rw [Finset.mem_insert, List.mem_toFinset]
      constructor
      · rintro (rfl | hm)
        · exact hfree.fresh _ (h.offered_new hk) hreacts
        · exact hfree.fresh m (h.offered m hm) hreacts
      · intro hm
        rcases List.mem_append.mp (hspent m hm hreacts) with hm | hm
        · exact Or.inr (h.fired m hm)
        · exact Or.inl (List.mem_singleton.mp hm)
    obtain ⟨_, hset⟩ := h.setAction (action.retested n action.triggerGraph.toSatisfy tg')
    refine ⟨xs ++ [k], tg', timeouts, hfires, fun m hm hmatch => hspent m hm hmatch.reacts,
      fun m hm hfails => hfails.not_matches (hfires.matched m (hspent m hm hfails.reacts)),
      Or.inr ⟨hfull, ?_⟩⟩
    show StateMachine.mk ((loop.sm.setAction _).afterRun _).states _ _ _ _ = _
    rw [Action.fire_retested hdef' hv, hdefs, hset]
    rfl

/-- The process ends. -/
theorem Progress.fail (h : Progress action n sm orig visited loop ks xs tg)
    (hfree : action.OrderFree n) (hk : k ∈ tg.toSatisfy) (hnew : k ∉ visited) {er : Fatal}
    (hvisit : Visited e (S ∪ xs.toFinset) (action.retested n ks.toFinset tg) k loop (.error er)) :
    Settled e S action n sm (.error er) := by
  cases hvisit with
  | @testFails definition _ hdef htest =>
    obtain ⟨hdef', hsteady⟩ := h.definition hfree hk hnew hdef
    rw [htest] at hsteady
    have hfails : action.Fails n k := ⟨definition, hdef', hsteady.symm⟩
    exact Or.inl ⟨k, hfree.fresh k (h.offered_new hk) hfails.reacts, hfails⟩
  | @clash definition test m hdef htest hanswer hclash =>
    obtain ⟨hdef', hsteady⟩ := h.definition hfree hk hnew hdef
    have hmatch : action.Matches n k := by
      refine ⟨definition, test.trigger, hdef', ?_⟩
      rw [← hsteady, htest, ← hanswer]
      rfl
    refine Or.inr ⟨xs ++ [k], fun x hx => ?_, ?_⟩
    · rcases List.mem_append.mp hx with hx | hx
      · exact ⟨h.fires.enabled x hx, h.fires.matched x hx⟩
      · rw [List.mem_singleton.mp hx]
        exact ⟨hfree.fresh k (h.offered_new hk) hmatch.reacts, hmatch⟩
    · rw [List.toFinset_append, List.toFinset_cons, List.toFinset_nil, Finset.union_insert,
        Finset.union_empty, Finset.union_insert]
      exact hclash

end Loop

theorem processNotification_settled {e : TriggerExpr String} {i : ℕ} {S : Finset String}
    {action : Action} {n : TriggerNotification} {sm : StateMachine} {r : Except Fatal Loop}
    (hawaits : Awaits e i S action sm) (hfree : action.OrderFree n)
    (hloop : LoopEnds ⟨sm, n⟩ r) : Settled e S action n sm r := by
  have hstart := Progress.start (n := n) hawaits
  have hkeys : Loop.toSatisfy ⟨sm, n⟩ = action.triggerGraph.toSatisfy :=
    Loop.toSatisfy_eq hawaits.current
  rw [LoopEnds, RangesOver, hkeys] at hloop
  refine MapRange.rule
    (fun orig visited loop => ∃ ks xs tg, Progress action n sm orig visited loop ks xs tg)
    (Settled e S action n sm) ?_ ?_ ?_ ?_ hloop ⟨[], [], _, hstart⟩
  · rintro orig visited loop ⟨ks, xs, tg, h⟩ hall
    exact h.finish hfree hall
  · rintro orig visited loop k loop' ⟨ks, xs, tg, h⟩ hk hnew hbody
    have hawaits' := h.awaits hawaits
    rw [Loop.toSatisfy_eq hawaits'.current] at hk
    have hvisit := hawaits'.visited hk
    rw [Round.ofExcept_fell.mp hbody] at hvisit
    obtain ⟨ks', xs', tg', h'⟩ := h.next hawaits hfree hk hnew hvisit
    refine ⟨ks', xs', tg', ?_⟩
    rw [Loop.toSatisfy_eq (h'.awaits hawaits).current]
    exact h'
  · rintro orig visited loop k loop' ⟨ks, xs, tg, h⟩ hk hnew hbody
    have hawaits' := h.awaits hawaits
    rw [Loop.toSatisfy_eq hawaits'.current] at hk
    have hvisit := hawaits'.visited hk
    rw [Round.ofExcept_broke.mp hbody] at hvisit
    exact h.stop hawaits hfree hk hnew hvisit
  · rintro orig visited loop k er ⟨ks, xs, tg, h⟩ hk hnew hbody
    have hawaits' := h.awaits hawaits
    rw [Loop.toSatisfy_eq hawaits'.current] at hk
    have hvisit := hawaits'.visited hk
    rw [Round.ofExcept_failed.mp hbody] at hvisit
    exact h.fail hfree hk hnew hvisit

/-- What counts of a result.  The sleeping timeouts do not, and all ends of the process are one. -/
def outcome : Except Fatal StateMachine → Option StateMachine
  | .ok sm => some { sm with timeouts := 0 }
  | .error _ => none

section Unique

variable {e : TriggerExpr String} {S : Finset String} {action : Action} {n : TriggerNotification}
  {sm : StateMachine} {loop : Loop}

/-- One order does not end the process where another does. -/
theorem Settled.not_error (hfollows : Follows e S action) (h : Settled e S action n sm (.ok loop))
    {er : Fatal} : ¬ Settled e S action n sm (.error er) := by
  obtain ⟨xs, tg, _, hfires, hmatched, hsound, _⟩ := h
  rintro (⟨k, hk, hfails⟩ | ⟨ys, hys, hclash⟩)
  · exact hsound k hk hfails
  · have hsub : S ∪ ys.toFinset ⊆ S ∪ xs.toFinset := by
      apply Finset.union_subset_union_right
      intro y hy
      obtain ⟨hto, hmatch⟩ := hys y (List.mem_toFinset.mp hy)
      exact List.mem_toFinset.mpr (hmatched y hto hmatch)
    exact (hfollows.reflects_fires hfires).clear (TriggerExpr.clash_mono hsub hclash)

theorem Settled.unique (hfollows : Follows e S action) {r r' : Except Fatal Loop}
    (h : Settled e S action n sm r) (h' : Settled e S action n sm r') :
    outcome (r.map Loop.sm) = outcome (r'.map Loop.sm) := by
  cases r with
  | error er =>
    cases r' with
    | error er' => rfl
    | ok loop' => exact absurd h (h'.not_error hfollows)
  | ok loop =>
    cases r' with
    | error er' => exact absurd h' (h.not_error hfollows)
    | ok loop' =>
      obtain ⟨xs, tg, timeouts, hfires, hmatched, _, hsm⟩ := h
      obtain ⟨xs', tg', timeouts', hfires', hmatched', _, hsm'⟩ := h'
      have hsame : xs.toFinset = xs'.toFinset := by
        apply Finset.ext
        intro k
        rw [List.mem_toFinset, List.mem_toFinset]
        exact ⟨fun hk => hmatched' k (hfires.enabled k hk) (hfires.matched k hk),
          fun hk => hmatched k (hfires'.enabled k hk) (hfires'.matched k hk)⟩
      obtain ⟨_, hreflects, hsources, hsink, htable⟩ :=
        reflects_run hfollows.wellNamed hfollows.reflects hfires.run
      obtain ⟨_, hreflects', hsources', hsink', htable'⟩ :=
        reflects_run hfollows.wellNamed hfollows.reflects hfires'.run
      rw [← hsame] at hreflects'
      have htg : tg' = tg := hreflects.unique hreflects' (hsources'.trans hsources.symm)
        (hsink'.trans hsink.symm) (htable'.trans htable.symm)
      rw [htg] at hsm'
      rcases hsm with ⟨hfull, hsm⟩ | ⟨hfull, hsm⟩
      · rcases hsm' with ⟨_, hsm'⟩ | ⟨hfull', _⟩
        · show outcome (.ok loop.sm) = outcome (.ok loop'.sm)
          rw [hsm, hsm']
          rfl
        · rw [hfull] at hfull'
          cases hfull'
      · rcases hsm' with ⟨hfull', _⟩ | ⟨_, hsm'⟩
        · rw [hfull] at hfull'
          cases hfull'
        · show outcome (.ok loop.sm) = outcome (.ok loop'.sm)
          rw [hsm, hsm']
          rfl

end Unique

/-! ### Reachable states -/

/-- Only triggers enabled before are tested with an effect, and only they become satisfied. -/
structure OnlyEnabled (action action' : Action) : Prop where
  definitions : ∀ k ∉ action.triggerGraph.toSatisfy,
    action'.triggerDefinitions k = action.triggerDefinitions k
  satisfied : ∀ k, OperatorFree k → k ∈ action'.triggerGraph.satisfied →
    k ∈ action.triggerGraph.satisfied ∨ k ∈ action.triggerGraph.toSatisfy

theorem Action.Fires.onlyEnabled {e : TriggerExpr String} {S : Finset String} {action : Action}
    {n : TriggerNotification} {xs : List String} {tg : TriggerGraph} (h : Follows e S action)
    (hfires : action.Fires n xs tg) :
    OnlyEnabled action (action.retested n action.triggerGraph.toSatisfy tg) where
  definitions := fun k hk => if_neg hk
  satisfied := by
    intro k hk hsat
    have hreflects := h.reflects_fires hfires
    have hmem : k ∈ e.nodeNames := not_not.mp fun hn => (hreflects.elsewhere k hn).2 hsat
    have hlit := TriggerExpr.mem_literals_of_operatorFree hmem hk
    replace hsat : k ∈ tg.satisfied := hsat
    rw [hreflects.shows.satisfied k hmem, TriggerExpr.satisfied_literal h.wellNamed hlit] at hsat
    rw [h.reflects.shows.satisfied k hmem, TriggerExpr.satisfied_literal h.wellNamed hlit]
    exact (Finset.mem_union.mp hsat).imp_right fun hx => hfires.enabled k (List.mem_toFinset.mp hx)

theorem processNotification_onlyEnabled {e : TriggerExpr String} {i : ℕ} {S : Finset String}
    {action action' : Action} {n : TriggerNotification} {sm : StateMachine} {loop : Loop}
    (hawaits : Awaits e i S action sm) (h : Settled e S action n sm (.ok loop))
    (hthere : (loop.sm.states.getD [])[sm.nextState]? = some action') :
    OnlyEnabled action action' := by
  obtain ⟨xs, tg, timeouts, hfires, _, _, hsm⟩ := h
  have hstates : loop.sm.states =
      (sm.setAction (action.retested n action.triggerGraph.toSatisfy tg)).states := by
    rcases hsm with ⟨_, hsm⟩ | ⟨_, hsm⟩
    · rw [hsm]
    · rw [hsm]
      rfl
  have hcur := StateMachine.currentAction_ok.mp (StateMachine.setAction_current hawaits.current
    (action.retested n action.triggerGraph.toSatisfy tg))
  rw [hstates] at hthere
  rw [Option.some.inj (hthere.symm.trans hcur)]
  exact hfires.onlyEnabled hawaits.follows

/-- **The order of the loop does not matter** in a reachable state whose current action and
notification are order-free: there is one outcome, and only triggers that were enabled before the
notification are in it. -/
theorem processNotification_deterministic {actions : Option (List Action)}
    (hplan : WellFormedPlan actions) {sm : StateMachine} (hreach : Reachable (.new actions) sm)
    {n : TriggerNotification} (hfree : ∀ action, ¬ sm.Ignores →
      sm.currentAction = .ok action → action.OrderFree n) :
    (∃ r, processNotification sm n r) ∧
    (∀ r r', processNotification sm n r → processNotification sm n r' → outcome r = outcome r') ∧
    ∀ sm' action action', processNotification sm n (.ok sm') → sm.currentAction = .ok action →
      (sm'.states.getD [])[sm.nextState]? = some action' → OnlyEnabled action action' := by
  by_cases hig : sm.Ignores
  · have hsame : ∀ r, processNotification sm n r → r = .ok sm := by
      intro r hr
      cases hr with
      | ignored _ => rfl
      | handled hnot _ => exact absurd hig hnot
    refine ⟨⟨_, .ignored hig⟩, fun r r' hr hr' => ?_, fun sm' action action' hr hcur hthere => ?_⟩
    · rw [hsame r hr, hsame r' hr']
    · rw [Except.ok.inj (hsame _ hr)] at hthere
      have haction := hthere.symm.trans (StateMachine.currentAction_ok.mp hcur)
      rw [Option.some.inj haction]
      exact ⟨fun _ _ => rfl, fun _ _ => Or.inl⟩
  · obtain ⟨e, S, action, hawaits⟩ := (healthy_of_reachable hplan hreach).awaits hig
    have hsettled : ∀ r, LoopEnds ⟨sm, n⟩ r → Settled e S action n sm r := fun r =>
      processNotification_settled hawaits (hfree action hig hawaits.current)
    have hhandled : ∀ r, processNotification sm n r →
        ∃ rl, LoopEnds ⟨sm, n⟩ rl ∧ r = rl.map Loop.sm := by
      intro r hr
      cases hr with
      | ignored h => exact absurd h hig
      | handled _ hloop => exact ⟨_, hloop, rfl⟩
    refine ⟨?_, fun r r' hr hr' => ?_, fun sm' action₁ action' hr hcur hthere => ?_⟩
    · obtain ⟨r, hr⟩ : ∃ r, LoopEnds ⟨sm, n⟩ r := mapRange_total Finset.Subset.rfl
      exact ⟨_, .handled hig hr⟩
    · obtain ⟨rl, hloop, rfl⟩ := hhandled r hr
      obtain ⟨rl', hloop', rfl⟩ := hhandled r' hr'
      exact (hsettled rl hloop).unique hawaits.follows (hsettled rl' hloop')
    · obtain ⟨rl, hloop, hrl⟩ := hhandled _ hr
      have haction : action₁ = action := Except.ok.inj (hcur.symm.trans hawaits.current)
      rw [haction]
      cases rl with
      | error er => cases hrl
      | ok loop =>
        rw [Except.ok.inj hrl] at hthere
        exact processNotification_onlyEnabled hawaits (hsettled _ hloop) hthere

/-! ### The plan `a;b` -/

/-- The plan `a;b` for the creations of two objects. -/
def seqDefinitions (resourceKeyA resourceKeyB : String) : List TriggerDefinition :=
  [createTrigger "a" resourceKeyA 0, createTrigger "b" resourceKeyB 0]

theorem denotes_seq : Denotes 1 "a;b" (.node .seq (.literal "a") (.literal "b")) := by
  have ha : Denotes 4 "a" (.literal "a") := .name (by decide) (by decide)
  have hb : Denotes 4 "b" (.literal "b") := .name (by decide) (by decide)
  exact .binary .seq (ha.of_le (by decide)) (hb.of_le (by decide))

theorem seqDefinitions_free (resourceKeyA resourceKeyB : String) :
    ∀ d ∈ seqDefinitions resourceKeyA resourceKeyB, OperatorFree (TriggerDefinition.getTriggerName d) := by
  intro d hd
  rcases List.mem_cons.mp hd with rfl | hd
  · show OperatorFree "a"
    decide
  · rw [List.mem_singleton.mp hd]
    show OperatorFree "b"
    decide

theorem seqPlan_wellFormed {resourceKeyA resourceKeyB : String} {action : Action}
    (h : parseAction "a;b" (seqDefinitions resourceKeyA resourceKeyB) false = .ok action) :
    WellFormedPlan (some [action]) := by
  intro action' hmem
  rw [List.mem_singleton.mp hmem]
  exact ⟨_, _, _, _, denotes_seq.generates, by decide, seqDefinitions_free _ _, h⟩

theorem seqPlan_awaits {resourceKeyA resourceKeyB : String} {action : Action}
    (h : parseAction "a;b" (seqDefinitions resourceKeyA resourceKeyB) false = .ok action) :
    Awaits (.node .seq (.literal "a") (.literal "b")) 0 ∅ action (.new (some [action])) :=
  ⟨rfl, rfl, rfl, parseAction_follows denotes_seq (by decide) (seqDefinitions_free _ _) h,
    by simp [TriggerExpr.Complete]⟩

theorem seqPlan_pending {resourceKeyA resourceKeyB : String} {action : Action}
    (h : parseAction "a;b" (seqDefinitions resourceKeyA resourceKeyB) false = .ok action)
    {k : String} : k ∈ action.triggerGraph.toSatisfy ↔ k = "a" := by
  have hreflects := (seqPlan_awaits h).follows.reflects
  have hwn := (seqPlan_awaits h).follows.wellNamed
  have henabled : (TriggerExpr.node .seq (.literal "a") (.literal "b")).enabled ∅ = {"a"} := by
    decide
  constructor
  · intro hk
    have hmem := not_not.mp fun hn => (hreflects.elsewhere k hn).1 hk
    have hen := ((hreflects.pending_iff hwn k).mp ⟨hk, hmem⟩).1
    rw [henabled] at hen
    exact Finset.mem_singleton.mp hen
  · rintro rfl
    refine ((hreflects.pending_iff hwn "a").mpr ⟨?_, Finset.notMem_empty "a"⟩).1
    rw [henabled]
    exact Finset.mem_singleton_self "a"

/-- In `a;b` for two different objects, the creation of the first is order-free. -/
theorem seqPlan_orderFree {action : Action}
    (h : parseAction "a;b" (seqDefinitions "x" "y") false = .ok action) :
    action.OrderFree (createNotification "x") := by
  obtain ⟨tg, hreflects, hparse⟩ :=
    parseAction_ok denotes_seq (by decide) (seqDefinitions "x" "y") false
  have haction := Except.ok.inj (h.symm.trans hparse)
  have hdefs : ∀ k definition, action.triggerDefinitions k = some definition →
      k = "a" ∨ definition = createTrigger "b" "y" 0 := by
    intro k definition hdef
    rw [haction] at hdef
    obtain ⟨hmem, hname⟩ := definitionTable_mem hdef
    rcases List.mem_cons.mp hmem with rfl | hmem
    · exact Or.inl hname.symm
    · exact Or.inr (List.mem_singleton.mp hmem)
  refine Action.orderFree_of_single (x := "a") ?_ ?_ ((seqPlan_pending h).mpr rfl) ?_
  · have hawaits := seqPlan_awaits h
    rw [hawaits.follows.fullyTriggered, decide_eq_false hawaits.incomplete]
  · intro k definition test _ htest
    exact satisfy_same (by rintro ⟨n, hn⟩; cases hn) htest
  · rintro k ⟨definition, hdef, hne⟩
    refine (hdefs k definition hdef).resolve_right fun hb => hne ?_
    rw [hb, createTrigger_other "b" (by decide)]
    rfl

theorem processNotification_deterministic_seq :
    ∃ action, parseAction "a;b" (seqDefinitions "x" "y") false = .ok action ∧
      (∃ r, processNotification (.new (some [action])) (createNotification "x") r) ∧
      (∀ r r', processNotification (.new (some [action])) (createNotification "x") r →
        processNotification (.new (some [action])) (createNotification "x") r' →
        outcome r = outcome r') ∧
      ∀ sm' action₁ action',
        processNotification (.new (some [action])) (createNotification "x") (.ok sm') →
        (StateMachine.new (some [action])).currentAction = .ok action₁ →
        (sm'.states.getD [])[(StateMachine.new (some [action])).nextState]? = some action' →
        OnlyEnabled action₁ action' := by
  obtain ⟨tg, hreflects, hparse⟩ :=
    parseAction_ok denotes_seq (by decide) (seqDefinitions "x" "y") false
  refine ⟨_, hparse, processNotification_deterministic (seqPlan_wellFormed hparse) .initial
    fun action _ hcur => ?_⟩
  rw [← Except.ok.inj hcur]
  exact seqPlan_orderFree hparse

/-- **The order matters** in `a;b` for one object: its creation satisfies `a`, and also `b` if the
loop produces the entry that `a` has created. -/
theorem processNotification_order_matters :
    ∃ action r r', parseAction "a;b" (seqDefinitions "x" "x") false = .ok action ∧
      WellFormedPlan (some [action]) ∧
      processNotification (.new (some [action])) (createNotification "x") r ∧
      processNotification (.new (some [action])) (createNotification "x") r' ∧
      outcome r ≠ outcome r' := by
  obtain ⟨tg, hreflects, hparse⟩ :=
    parseAction_ok denotes_seq (by decide) (seqDefinitions "x" "x") false
  have hawaits := seqPlan_awaits hparse
  have hwn := hawaits.follows.wellNamed
  generalize haction : (⟨tg, definitionTable (seqDefinitions "x" "x"), false⟩ : Action) = action
    at hparse hawaits
  have hdefa : action.triggerDefinitions "a" = some (createTrigger "a" "x" 0) := by
    rw [← haction]
    rfl
  have hdefb : action.triggerDefinitions "b" = some (createTrigger "b" "x" 0) := by
    rw [← haction]
    rfl
  have hkeys : Loop.toSatisfy ⟨.new (some [action]), createNotification "x"⟩ =
      action.triggerGraph.toSatisfy := rfl
  -- the round for `a` enables `b`
  obtain ⟨tg₁, htrigger₁, hreflects₁, _⟩ :=
    (hawaits.follows.reflects.trigger hwn (x := "a") (by decide) (by decide)).2
      (by simp [TriggerExpr.Clash])
  have hfull₁ : tg₁.fullyTriggered = .ok false := by
    rw [hreflects₁.fullyTriggered hwn]
    rfl
  have hcur : (Loop.mk (.new (some [action])) (createNotification "x")).sm.currentAction =
      .ok action := hawaits.current
  obtain ⟨timeouts₁, hvisit₁⟩ :=
    visit_pending hcur hdefa (createTrigger_self "a" "x") rfl htrigger₁ hfull₁
  generalize haction₁ : action.fire "a" (createTrigger "a" "x" 1) tg₁ = action₁ at hvisit₁
  have hcur₁ := StateMachine.setAction_current hawaits.current action₁
  generalize hsm₁ : ({ (StateMachine.new (some [action])).setAction action₁ with
    timeouts := timeouts₁ } : StateMachine) = sm₁ at hvisit₁
  replace hcur₁ : sm₁.currentAction = .ok action₁ := by
    rw [← hsm₁]
    exact hcur₁
  have hb : "b" ∈ tg₁.toSatisfy :=
    ((hreflects₁.pending_iff hwn "b").mpr (by decide)).1
  -- the round for `b` completes the action
  obtain ⟨tg₂, htrigger₂, hreflects₂, _⟩ :=
    (hreflects₁.trigger hwn (x := "b") (by decide) (by decide)).2 (by simp [TriggerExpr.Clash])
  have hfull₂ : tg₂.fullyTriggered = .ok true := by
    rw [hreflects₂.fullyTriggered hwn]
    rfl
  have hgraph₁ : action₁.triggerGraph = tg₁ := by
    rw [← haction₁]
    rfl
  have hdefb₁ : action₁.triggerDefinitions "b" = some (createTrigger "b" "x" 0) := by
    rw [← hdefb, ← haction₁]
    have hne : "b" ≠ "a" := by decide
    exact Function.update_of_ne hne (some (createTrigger "a" "x" 1)) action.triggerDefinitions
  rw [← hgraph₁] at htrigger₂ hb
  have hcur₂ : (Loop.mk sm₁ (createNotification "x")).sm.currentAction = .ok action₁ := hcur₁
  obtain ⟨timeouts₂, hvisit₂⟩ :=
    visit_complete hcur₂ hdefb₁ (createTrigger_self "b" "x") rfl htrigger₂ hfull₂
  have hig : ¬ (StateMachine.new (some [action])).Ignores := hawaits.not_ignores
  have ha : "a" ∈ Loop.toSatisfy ⟨.new (some [action]), createNotification "x"⟩ := by
    rw [hkeys]
    exact (seqPlan_pending hparse).mpr rfl
  rw [← Loop.toSatisfy_eq hcur₂] at hb
  refine ⟨action, _, _, hparse, seqPlan_wellFormed hparse,
    .handled hig (.next ha (Finset.notMem_empty "a") (Round.ofExcept_fell.mpr hvisit₁) (.finish ?_)),
    .handled hig (.next ha (Finset.notMem_empty "a") (Round.ofExcept_fell.mpr hvisit₁)
      (.stop hb ?_ (Round.ofExcept_broke.mpr hvisit₂))), ?_⟩
  · intro k hk
    obtain ⟨hk, hk₁⟩ := Finset.mem_inter.mp hk
    rw [hkeys, seqPlan_pending hparse] at hk
    rw [hk] at hk₁ ⊢
    exact Finset.mem_inter.mpr ⟨Finset.mem_insert_self "a" ∅, hk₁⟩
  · intro hmem
    exact absurd (Finset.mem_inter.mp hmem).1 (by decide)
  · intro hsame
    have hnext := congrArg (Option.map StateMachine.nextState) hsame
    rw [← hsm₁, ← haction₁, ← haction] at hnext
    cases hnext

end Sieve.Server
