import Sieve.Server.TriggerGraphRun

/-!
# The trigger graph over whole runs

* `Reflects e S tg`: `tg` is the graph of `e` once exactly the literals of `S` have fired;
* `Reflects.trigger`: what firing a literal does; `Reflects.of_trigger_ok`: only pending literals
  can be fired;
* `reflects_run`: every run of firings that succeeds;
* `trigger_run_refines`: the refinement as a whole.
-/

namespace Sieve.Server

open Sieve.Trigger Sieve.Library TriggerGraph

/-- The graph of `e` once the literals of `S` have fired. -/
structure Reflects (e : TriggerExpr String) (S : Finset String) (tg : TriggerGraph) : Prop where
  located : Located tg.table e 0 [] []
  size : tg.table.heap.length = e.graphSize
  sink : tg.sink = e.graphSink 0
  shows : Shows S e tg
  elsewhere : ∀ n ∉ e.nodeNames, n ∉ tg.toSatisfy ∧ n ∉ tg.satisfied
  fired : ∀ a ∈ S, a ∈ e.literals
  legal : e.Legal S
  clear : ¬ e.Clash S

/-! ### The initial graph -/

theorem foldlM_sourceNames {table : NodeTable} {e : TriggerExpr String} {off : ℕ}
    {P K : List NodePtr} (hloc : Located table e off P K) (toSatisfy : Finset String) :
    ∃ toSatisfy', (e.graphSources off).foldlM (fun toSatisfy source => do
        let node ← table.heap.deref source
        .ok (insert node.nodeName toSatisfy)) toSatisfy = (.ok toSatisfy' : Except Fatal _) ∧
      ∀ n, n ∈ toSatisfy' ↔ n ∈ toSatisfy ∨ n ∈ e.sourceNames := by
  induction e generalizing off P K toSatisfy with
  | literal m =>
    refine ⟨insert m toSatisfy, ?_, fun n => ?_⟩
    · rw [TriggerExpr.graphSources, foldlM_singleton, deref_of_getElem hloc.1]
      rfl
    · rw [Finset.mem_insert, TriggerExpr.sourceNames, List.mem_singleton, or_comm]
  | node op l r ihl ihr =>
    rcases eq_or_ne op .seq with rfl | hop
    · exact ihl hloc.1 toSatisfy
    · rw [located_join hop] at hloc
      obtain ⟨toSatisfy₁, hrun₁, hmem₁⟩ := ihl hloc.1 toSatisfy
      obtain ⟨toSatisfy₂, hrun₂, hmem₂⟩ := ihr hloc.2.1 toSatisfy₁
      refine ⟨toSatisfy₂, ?_, fun n => ?_⟩
      · rw [TriggerExpr.graphSources_join hop]
        exact foldlM_append_ok hrun₁ hrun₂
      · rw [hmem₂, hmem₁, TriggerExpr.sourceNames_join hop, List.mem_append, or_assoc]

theorem reflects_initial {e : TriggerExpr String} (hwn : e.WellNamed) :
    ∃ tg, binaryTreeToTriggerGraph e.toTree = .ok tg ∧ Reflects e ∅ tg := by
  obtain ⟨table, hrun, hadds⟩ := binaryTreeToTriggerNode_located hwn ⟨[], fun _ => none⟩
  obtain ⟨toSatisfy, hfold, hmem⟩ := foldlM_sourceNames hadds.located ∅
  have huntouched : ∀ a ∈ e.literals, a ∉ (∅ : Finset String) := fun a _ => Finset.notMem_empty a
  have hsources : ∀ n, n ∈ toSatisfy ↔ n ∈ e.sourceNames := fun n =>
    (hmem n).trans (or_iff_right (Finset.notMem_empty n))
  refine ⟨⟨e.graphSources 0, e.graphSink 0, table, toSatisfy, ∅⟩, ?_, ?_⟩
  · exact bind_ok_iff.mpr ⟨_, hrun, bind_ok_iff.mpr ⟨toSatisfy, hfold, rfl⟩⟩
  · constructor
    · exact hadds.located
    · exact hadds.length.trans (Nat.zero_add _)
    · rfl
    · refine ⟨fun n _ => ?_, fun n _ => ?_⟩
      · exact (hsources n).trans (TriggerExpr.pending_of_untouched huntouched n).symm
      · exact ⟨fun h => absurd h (Finset.notMem_empty n),
          fun h => absurd h (TriggerExpr.not_satisfied_of_untouched huntouched n)⟩
    · intro n hn
      refine ⟨fun h => hn ?_, Finset.notMem_empty n⟩
      exact TriggerExpr.literals_subset e n (TriggerExpr.sourceNames_subset e n ((hsources n).mp h))
    · exact fun a ha => absurd ha (Finset.notMem_empty a)
    · exact TriggerExpr.legal_of_untouched huntouched
    · exact TriggerExpr.not_clash_of_untouched huntouched

/-! ### One firing -/

section Firing

variable {e : TriggerExpr String} {S : Finset String} {tg : TriggerGraph}

theorem Reflects.pending_iff (h : Reflects e S tg) (hwn : e.WellNamed) (n : String) :
    n ∈ tg.toSatisfy ∧ n ∈ e.literals ↔ n ∈ e.enabled S ∧ n ∉ S := by
  rw [← TriggerExpr.pending_literal hwn]
  apply and_congr_left
  intro hn
  exact h.shows.toSatisfy n (TriggerExpr.literals_subset e n hn)

theorem Reflects.fullyTriggered (h : Reflects e S tg) (hwn : e.WellNamed) :
    tg.fullyTriggered = .ok (decide (e.Complete S)) := by
  obtain ⟨node, hnode, hname⟩ := h.located.sink
  rw [TriggerGraph.fullyTriggered, h.sink, deref_of_getElem hnode]
  show Except.ok (decide (node.nodeName ∈ tg.satisfied)) = _
  apply congrArg Except.ok
  rw [decide_eq_decide, hname, h.shows.satisfied _ e.sinkName_mem]
  exact TriggerExpr.satisfied_sinkName hwn

/-- **Firing a pending literal.** -/
theorem Reflects.trigger (h : Reflects e S tg) (hwn : e.WellNamed) {x : String}
    (hx : x ∈ e.enabled S) (hxS : x ∉ S) :
    (e.Clash (insert x S) → ∃ n, tg.trigger x = .error (.inSatisfied n)) ∧
    (¬ e.Clash (insert x S) → ∃ tg', tg.trigger x = .ok tg' ∧ Reflects e (insert x S) tg' ∧
      tg'.sources = tg.sources ∧ tg'.sink = tg.sink ∧ tg'.table = tg.table) := by
  obtain ⟨f, hf⟩ : ∃ f, tg.table.heap.length = f + cascadeDepth x e := by
    have hlt := cascadeDepth_lt x e
    refine ⟨tg.table.heap.length - cascadeDepth x e, ?_⟩
    rw [h.size]
    omega
  have hout := triggerWithin_outcome hwn h.located h.legal h.clear h.shows hx hxS f
  rw [TriggerGraph.trigger, hf]
  refine ⟨hout.clash, fun hclash => ?_⟩
  obtain ⟨tg', hshows, hsame, hrun⟩ := hout.clear hclash
  refine ⟨tg', ?_, ?_, hsame.sources, hsame.sink, hsame.table⟩
  · rw [hrun, List.foldlM_nil]
    exact ite_self _
  · constructor
    · rw [hsame.table]
      exact h.located
    · rw [hsame.table]
      exact h.size
    · rw [hsame.sink]
      exact h.sink
    · exact hshows
    · intro n hn
      rw [hsame.toSatisfy n hn, hsame.satisfied n hn]
      exact h.elsewhere n hn
    · intro a ha
      rcases Finset.mem_insert.mp ha with rfl | ha
      · exact TriggerExpr.enabled_subset_literals S e _ hx
      · exact h.fired a ha
    · exact TriggerExpr.legal_insert hwn.distinct h.legal hx
    · exact hclash

/-- A node that is no literal of `e` has another type. -/
theorem Located.lookup_joint {table : NodeTable} {e : TriggerExpr String} {off : ℕ}
    {P K : List NodePtr} (h : Located table e off P K) {n : String} (hn : n ∈ e.nodeNames)
    (hlit : n ∉ e.literals) :
    ∃ p node, table.allNodes n = some p ∧ table.heap[p]? = some node ∧
      node.nodeType ≠ .literal := by
  induction e generalizing off P K with
  | literal m => exact absurd hn hlit
  | node op l r ihl ihr =>
    rw [TriggerExpr.literals, List.mem_append, not_or] at hlit
    rcases eq_or_ne op .seq with rfl | hop
    · rcases List.mem_append.mp hn with hn | hn
      · exact ihl h.1 hn hlit.1
      · exact ihr h.2 hn hlit.2
    · rw [located_join hop] at h
      rw [TriggerExpr.nodeNames_join hop, List.mem_append, List.mem_append,
        List.mem_singleton] at hn
      obtain ⟨hl, hr, hnode, hname⟩ := h
      rcases hn with (hn | hn) | rfl
      · exact ihl hl hn hlit.1
      · exact ihr hr hn hlit.2
      · refine ⟨_, _, hname, hnode, ?_⟩
        cases op <;> exact fun h => by cases h

/-- **Only pending literals can be fired.** -/
theorem Reflects.of_trigger_ok (h : Reflects e S tg) (hwn : e.WellNamed) {x : String}
    {tg' : TriggerGraph} (hrun : tg.trigger x = .ok tg') : x ∈ e.enabled S ∧ x ∉ S := by
  rw [TriggerGraph.trigger, triggerWithin, checkPending] at hrun
  by_cases hto : x ∈ tg.toSatisfy
  · rw [if_neg (not_not.mpr hto)] at hrun
    by_cases hlit : x ∈ e.literals
    · exact (h.pending_iff hwn x).mp ⟨hto, hlit⟩
    · have hmem : x ∈ e.nodeNames := not_not.mp fun hn => (h.elsewhere x hn).1 hto
      obtain ⟨p, node, hname, hnode, htype⟩ := h.located.lookup_joint hmem hlit
      have hlookup : tg.lookup x = .ok node := by
        rw [lookup, hname]
        exact deref_of_getElem hnode
      split at hrun
      · cases hrun
      · rw [hlookup] at hrun
        have hne : (node.nodeType != .literal) = true := bne_iff_ne.mpr htype
        obtain ⟨_, hnode', hrun⟩ := bind_ok_iff.mp hrun
        rw [← Except.ok.inj hnode', if_pos hne] at hrun
        cases hrun
  · rw [if_pos hto] at hrun
    cases hrun

end Firing

/-! ### Runs -/

/-- Fire the literals one after the other. -/
def fireAll (tg : TriggerGraph) (xs : List String) : Except Fatal TriggerGraph :=
  xs.foldlM (fun tg x => tg.trigger x) tg

/-- **Every run that succeeds** fires a schedule of `e` and ends in the state of its literals. -/
theorem reflects_run {e : TriggerExpr String} (hwn : e.WellNamed) {tg tg' : TriggerGraph}
    {S : Finset String} (h : Reflects e S tg) {xs : List String}
    (hrun : fireAll tg xs = .ok tg') :
    e.Schedule S xs ∧ Reflects e (S ∪ xs.toFinset) tg' ∧
      tg'.sources = tg.sources ∧ tg'.sink = tg.sink ∧ tg'.table = tg.table := by
  induction xs generalizing tg S with
  | nil =>
    rw [← Except.ok.inj hrun]
    exact ⟨trivial, by simpa using h, rfl, rfl, rfl⟩
  | cons x xs ih =>
    rw [fireAll, List.foldlM_cons, bind_ok_iff] at hrun
    obtain ⟨tg₁, hx, hrest⟩ := hrun
    obtain ⟨henabled, hfresh⟩ := h.of_trigger_ok hwn hx
    have hclear : ¬ e.Clash (insert x S) := by
      intro hclash
      obtain ⟨n, hn⟩ := (h.trigger hwn henabled hfresh).1 hclash
      rw [hn] at hx
      cases hx
    obtain ⟨tg₂, hx₂, hreflects, hsources, hsink, htable⟩ :=
      (h.trigger hwn henabled hfresh).2 hclear
    rw [Except.ok.inj (hx.symm.trans hx₂)] at hrest
    obtain ⟨hschedule, hreflects', hsources', hsink', htable'⟩ := ih hreflects hrest
    refine ⟨⟨henabled, hfresh, hschedule⟩, ?_, hsources'.trans hsources, hsink'.trans hsink,
      htable'.trans htable⟩
    rw [List.toFinset_cons, Finset.union_insert, ← Finset.insert_union]
    exact hreflects'

/-- Which literals have fired is all there is to say about the graph. -/
theorem Reflects.unique {e : TriggerExpr String} {S : Finset String} {tg tg' : TriggerGraph}
    (h : Reflects e S tg) (h' : Reflects e S tg') (hsources : tg'.sources = tg.sources)
    (hsink : tg'.sink = tg.sink) (htable : tg'.table = tg.table) : tg' = tg := by
  have hto : tg'.toSatisfy = tg.toSatisfy := by
    apply Finset.ext
    intro n
    by_cases hn : n ∈ e.nodeNames
    · rw [h.shows.toSatisfy n hn, h'.shows.toSatisfy n hn]
    · exact iff_of_false (h'.elsewhere n hn).1 (h.elsewhere n hn).1
  have hsat : tg'.satisfied = tg.satisfied := by
    apply Finset.ext
    intro n
    by_cases hn : n ∈ e.nodeNames
    · rw [h.shows.satisfied n hn, h'.shows.satisfied n hn]
    · exact iff_of_false (h'.elsewhere n hn).2 (h.elsewhere n hn).2
  cases tg
  cases tg'
  simp only at hsources hsink htable hto hsat
  rw [hsources, hsink, htable, hto, hsat]

/-- A present trigger name is an enabled literal. -/
theorem Reflects.enabled {e : TriggerExpr String} {S : Finset String} {tg : TriggerGraph}
    (h : Reflects e S tg) (hwn : e.WellNamed) {name : String} (hname : name ∈ tg.toSatisfy)
    (hfree : OperatorFree name) : name ∈ e.enabled S ∧ name ∉ S := by
  apply (h.pending_iff hwn name).mp
  refine ⟨hname, ?_⟩
  have hmem : name ∈ e.nodeNames := not_not.mp fun hn => (h.elsewhere name hn).1 hname
  exact TriggerExpr.mem_literals_of_operatorFree hmem hfree

/-- **A present trigger name stays** until it fires. -/
theorem Reflects.stays {e : TriggerExpr String} {S T : Finset String} {tg tg' : TriggerGraph}
    (h : Reflects e S tg) (h' : Reflects e T tg') (hwn : e.WellNamed) (hST : S ⊆ T) {name : String}
    (hname : name ∈ tg.toSatisfy) (hfree : OperatorFree name) :
    name ∈ tg'.toSatisfy ∨ name ∈ T ∧ name ∉ S := by
  obtain ⟨hen, hfresh⟩ := h.enabled hwn hname hfree
  by_cases hT : name ∈ T
  · exact Or.inr ⟨hT, hfresh⟩
  · exact Or.inl ((h'.pending_iff hwn name).mpr ⟨TriggerExpr.enabled_mono hST e hen, hT⟩).1

/-- **The graph refines the meaning of the expression**: after every run of firings that hits no
check, the literals in `toSatisfy` are those enabled and not yet fired, and `fullyTriggered` tells
whether the expression is complete. -/
theorem trigger_run_refines (e : TriggerExpr String) (hwn : e.WellNamed) :
    ∃ tg₀, binaryTreeToTriggerGraph e.toTree = .ok tg₀ ∧
      ∀ xs tg, fireAll tg₀ xs = .ok tg →
        (∀ n, n ∈ tg.toSatisfy ∧ n ∈ e.literals ↔ n ∈ e.enabled xs.toFinset ∧ n ∉ xs) ∧
        tg.fullyTriggered = .ok (decide (e.Complete xs.toFinset)) := by
  obtain ⟨tg₀, hbuild, hinit⟩ := reflects_initial hwn
  refine ⟨tg₀, hbuild, fun xs tg hrun => ?_⟩
  obtain ⟨_, hreflects, _⟩ := reflects_run hwn hinit hrun
  rw [Finset.empty_union] at hreflects
  refine ⟨fun n => ?_, hreflects.fullyTriggered hwn⟩
  rw [hreflects.pending_iff hwn, List.mem_toFinset]

theorem trigger_run_refines_mixed :
    let e : TriggerExpr String := .node .seq (.node .and (.literal "a") (.literal "b"))
      (.node .or (.literal "c") (.literal "d"))
    ∃ tg₀, binaryTreeToTriggerGraph e.toTree = .ok tg₀ ∧
      ∀ xs tg, fireAll tg₀ xs = .ok tg →
        (∀ n, n ∈ tg.toSatisfy ∧ n ∈ e.literals ↔ n ∈ e.enabled xs.toFinset ∧ n ∉ xs) ∧
        tg.fullyTriggered = .ok (decide (e.Complete xs.toFinset)) :=
  trigger_run_refines _ ⟨by decide, by decide⟩

end Sieve.Server
