import Sieve.Library.FoldExcept
import Sieve.Server.TriggerGraphShape
import Sieve.Trigger.Schedule

/-!
# The trigger graph simulates the meaning of the expression

Once the literals of `S` have fired, the graph's two sets are determined by `S`:

* `Pending S n e`, `Satisfied S n e`: which node names lie in `toSatisfy` and in `satisfied`;
* `Shows S e tg`: the graph is in that state, as far as the nodes of `e` are concerned;
* `triggerWithin_outcome`: firing an enabled literal `x` leads to the state for `insert x S` and
  goes on with the successors of the sink if that completes `e`; if the firing makes both sides of
  a `|` complete, it ends at the check "in satisfied" instead.
-/

namespace Sieve.Trigger.TriggerExpr

/-- The node is in `toSatisfy`. -/
def Pending (S : Finset String) (n : String) : TriggerExpr String → Prop
  | .literal m => n = m ∧ m ∉ S
  | .node .seq l r => Pending S n l ∨ (l.Complete S ∧ Pending S n r)
  | .node op l r => Pending S n l ∨ Pending S n r ∨
      (n = (TriggerExpr.node op l r).composedName ∧ (l.Complete S ∨ r.Complete S) ∧
        ¬ (TriggerExpr.node op l r).Complete S)

/-- The node is in `satisfied`. -/
def Satisfied (S : Finset String) (n : String) : TriggerExpr String → Prop
  | .literal m => n = m ∧ m ∈ S
  | .node .seq l r => Satisfied S n l ∨ Satisfied S n r
  | .node op l r => Satisfied S n l ∨ Satisfied S n r ∨
      (n = (TriggerExpr.node op l r).composedName ∧ (TriggerExpr.node op l r).Complete S)

section Join

variable {op : Connective} (h : op ≠ .seq) (S : Finset String) (n : String)
  (l r : TriggerExpr String)
include h

theorem pending_join : (TriggerExpr.node op l r).Pending S n ↔ l.Pending S n ∨ r.Pending S n ∨
    (n = (TriggerExpr.node op l r).composedName ∧ (l.Complete S ∨ r.Complete S) ∧
      ¬ (TriggerExpr.node op l r).Complete S) := by
  cases op <;> first | rfl | exact absurd rfl h

theorem satisfied_join : (TriggerExpr.node op l r).Satisfied S n ↔ l.Satisfied S n ∨
    r.Satisfied S n ∨
    (n = (TriggerExpr.node op l r).composedName ∧ (TriggerExpr.node op l r).Complete S) := by
  cases op <;> first | rfl | exact absurd rfl h

end Join

theorem pending_mem {S : Finset String} {n : String} {e : TriggerExpr String}
    (h : e.Pending S n) : n ∈ e.nodeNames := by
  induction e with
  | literal m => exact List.mem_singleton.mpr h.1
  | node op l r ihl ihr =>
    rcases eq_or_ne op .seq with rfl | hop
    · exact List.mem_append.mpr (h.imp ihl fun h => ihr h.2)
    · rw [pending_join hop] at h
      rw [nodeNames_join hop, List.mem_append, List.mem_append, List.mem_singleton, or_assoc]
      exact h.imp ihl (Or.imp ihr fun h => h.1)

theorem satisfied_mem {S : Finset String} {n : String} {e : TriggerExpr String}
    (h : e.Satisfied S n) : n ∈ e.nodeNames := by
  induction e with
  | literal m => exact List.mem_singleton.mpr h.1
  | node op l r ihl ihr =>
    rcases eq_or_ne op .seq with rfl | hop
    · exact List.mem_append.mpr (h.imp ihl ihr)
    · rw [satisfied_join hop] at h
      rw [nodeNames_join hop, List.mem_append, List.mem_append, List.mem_singleton, or_assoc]
      exact h.imp ihl (Or.imp ihr fun h => h.1)

theorem pending_congr {S T : Finset String} {e : TriggerExpr String} (h : Agree S T e)
    (n : String) : e.Pending S n ↔ e.Pending T n := by
  induction e with
  | literal m =>
    have hm := h m (List.mem_singleton_self m)
    simp only [Pending, hm]
  | node op l r ihl ihr =>
    rcases eq_or_ne op .seq with rfl | hop
    · simp only [Pending, ihl h.left, ihr h.right, complete_congr h.left]
    · rw [pending_join hop, pending_join hop, ihl h.left, ihr h.right, complete_congr h,
        complete_congr h.left, complete_congr h.right]

theorem satisfied_congr {S T : Finset String} {e : TriggerExpr String} (h : Agree S T e)
    (n : String) : e.Satisfied S n ↔ e.Satisfied T n := by
  induction e with
  | literal m =>
    have hm := h m (List.mem_singleton_self m)
    simp only [Satisfied, hm]
  | node op l r ihl ihr =>
    rcases eq_or_ne op .seq with rfl | hop
    · simp only [Satisfied, ihl h.left, ihr h.right]
    · rw [satisfied_join hop, satisfied_join hop, ihl h.left, ihr h.right, complete_congr h]

/-- An expression none of whose literals has fired waits for its first literals. -/
theorem pending_of_untouched {S : Finset String} {e : TriggerExpr String}
    (h : ∀ a ∈ e.literals, a ∉ S) (n : String) : e.Pending S n ↔ n ∈ e.sourceNames := by
  induction e with
  | literal m =>
    have hm := h m (List.mem_singleton_self m)
    simp only [Pending, sourceNames, List.mem_singleton, hm, not_false_eq_true, and_true]
  | node op l r ihl ihr =>
    have hl : ∀ a ∈ l.literals, a ∉ S := fun a ha => h a (List.mem_append_left _ ha)
    have hr : ∀ a ∈ r.literals, a ∉ S := fun a ha => h a (List.mem_append_right _ ha)
    have hcl := not_complete_of_untouched hl
    have hcr := not_complete_of_untouched hr
    rcases eq_or_ne op .seq with rfl | hop
    · simp only [Pending, sourceNames, ihl hl, hcl, false_and, or_false]
    · rw [pending_join hop, sourceNames_join hop, ihl hl, ihr hr, List.mem_append]
      simp only [hcl, hcr, or_self, false_and, and_false, or_false]

theorem not_satisfied_of_untouched {S : Finset String} {e : TriggerExpr String}
    (h : ∀ a ∈ e.literals, a ∉ S) (n : String) : ¬ e.Satisfied S n := by
  induction e with
  | literal m => exact fun hs => h m (List.mem_singleton_self m) hs.2
  | node op l r ihl ihr =>
    have hl := ihl fun a ha => h a (List.mem_append_left _ ha)
    have hr := ihr fun a ha => h a (List.mem_append_right _ ha)
    rcases eq_or_ne op .seq with rfl | hop
    · exact fun hs => hs.elim hl hr
    · rw [satisfied_join hop]
      exact fun hs => hs.elim hl fun hs => hs.elim hr fun hs => not_complete_of_untouched h hs.2

/-- The sink tells whether the expression is complete. -/
theorem satisfied_sinkName {S : Finset String} {e : TriggerExpr String} (hwn : e.WellNamed) :
    e.Satisfied S e.sinkName ↔ e.Complete S := by
  induction e with
  | literal m => exact ⟨fun h => h.2, fun h => ⟨rfl, h⟩⟩
  | node op l r ihl ihr =>
    rcases eq_or_ne op .seq with rfl | hop
    · show l.Satisfied S r.sinkName ∨ r.Satisfied S r.sinkName ↔ r.Complete S
      rw [ihr hwn.right, or_iff_right]
      exact fun h => hwn.nodeNames_disjoint (satisfied_mem h) (sinkName_mem r)
    · have hl : ¬ l.Satisfied S (TriggerExpr.node op l r).composedName :=
        fun h => hwn.composedName_notMem.1 (satisfied_mem h)
      have hr : ¬ r.Satisfied S (TriggerExpr.node op l r).composedName :=
        fun h => hwn.composedName_notMem.2 (satisfied_mem h)
      rw [satisfied_join hop, sinkName_join hop]
      simp only [hl, hr, false_or, true_and]

/-- The satisfied literals are the fired ones. -/
theorem satisfied_literal {S : Finset String} {e : TriggerExpr String} (hwn : e.WellNamed)
    {n : String} (hn : n ∈ e.literals) : e.Satisfied S n ↔ n ∈ S := by
  induction e with
  | literal m =>
    rw [List.mem_singleton.mp hn]
    exact and_iff_right rfl
  | node op l r ihl ihr =>
    have hl : n ∈ r.literals → ¬ l.Satisfied S n := fun hn h =>
      hwn.nodeNames_disjoint (satisfied_mem h) (literals_subset r n hn)
    have hr : n ∈ l.literals → ¬ r.Satisfied S n := fun hn h =>
      hwn.nodeNames_disjoint (literals_subset l n hn) (satisfied_mem h)
    have hor : l.Satisfied S n ∨ r.Satisfied S n ↔ n ∈ S := by
      rcases List.mem_append.mp hn with hn | hn
      · rw [or_iff_left (hr hn), ihl hwn.left hn]
      · rw [or_iff_right (hl hn), ihr hwn.right hn]
    rcases eq_or_ne op .seq with rfl | hop
    · exact hor
    · have hne : n ≠ (TriggerExpr.node op l r).composedName := by
        intro h
        rw [h] at hn
        rcases List.mem_append.mp hn with hn | hn
        · exact hwn.composedName_notMem.1 (literals_subset l _ hn)
        · exact hwn.composedName_notMem.2 (literals_subset r _ hn)
      rw [satisfied_join hop, ← or_assoc, hor]
      exact or_iff_left fun h => hne h.1

/-- **The pending literals** are the enabled ones that have not fired. -/
theorem pending_literal {S : Finset String} {e : TriggerExpr String} (hwn : e.WellNamed)
    (n : String) : e.Pending S n ∧ n ∈ e.literals ↔ n ∈ e.enabled S ∧ n ∉ S := by
  induction e with
  | literal m =>
    simp only [Pending, literals, enabled, List.mem_singleton, Finset.mem_singleton]
    constructor
    · rintro ⟨⟨rfl, hn⟩, _⟩
      exact ⟨rfl, hn⟩
    · rintro ⟨rfl, hn⟩
      exact ⟨⟨rfl, hn⟩, rfl⟩
  | node op l r ihl ihr =>
    have ihl := ihl hwn.left
    have ihr := ihr hwn.right
    have hl : l.Pending S n → n ∉ r.literals := fun h hn =>
      hwn.nodeNames_disjoint (pending_mem h) (literals_subset r n hn)
    have hr : r.Pending S n → n ∉ l.literals := fun h hn =>
      hwn.nodeNames_disjoint (literals_subset l n hn) (pending_mem h)
    have hlit : n ∈ (TriggerExpr.node op l r).literals ↔ n ∈ l.literals ∨ n ∈ r.literals :=
      List.mem_append
    have hpl : l.Pending S n ∧ (n ∈ l.literals ∨ n ∈ r.literals) ↔
        n ∈ l.enabled S ∧ n ∉ S := by
      rw [← ihl]
      exact and_congr_right fun h => or_iff_left (hl h)
    have hpr : r.Pending S n ∧ (n ∈ l.literals ∨ n ∈ r.literals) ↔
        n ∈ r.enabled S ∧ n ∉ S := by
      rw [← ihr]
      exact and_congr_right fun h => or_iff_right (hr h)
    rcases eq_or_ne op .seq with rfl | hop
    · rw [hlit, Pending, enabled, Finset.mem_union, or_and_right, or_and_right, hpl, and_assoc, hpr]
      refine or_congr_right ?_
      by_cases hc : l.Complete S
      · rw [if_pos hc]
        exact and_iff_right hc
      · rw [if_neg hc]
        exact ⟨fun h => absurd h.1 hc, fun h => absurd h.1 (Finset.notMem_empty n)⟩
    · have hne : n = (TriggerExpr.node op l r).composedName →
          ¬ (n ∈ l.literals ∨ n ∈ r.literals) := by
        intro h
        rw [h, not_or]
        exact ⟨fun hn => hwn.composedName_notMem.1 (literals_subset l _ hn),
          fun hn => hwn.composedName_notMem.2 (literals_subset r _ hn)⟩
      have henabled : n ∈ (TriggerExpr.node op l r).enabled S ↔
          n ∈ l.enabled S ∨ n ∈ r.enabled S := by
        cases op <;> first | exact Finset.mem_union | exact absurd rfl hop
      rw [hlit, pending_join hop, henabled, ← or_assoc, or_and_right,
        @or_and_right (l.Pending S n), hpl, hpr, ← or_and_right]
      apply or_iff_left
      intro h
      exact hne h.1.1 h.2

end Sieve.Trigger.TriggerExpr

namespace Sieve.Server

open Sieve.Trigger Sieve.Library

/-- The graph is in the state the fired literals `S` lead to, for the nodes of `e`. -/
structure Shows (S : Finset String) (e : TriggerExpr String) (tg : TriggerGraph) : Prop where
  toSatisfy : ∀ n ∈ e.nodeNames, (n ∈ tg.toSatisfy ↔ e.Pending S n)
  satisfied : ∀ n ∈ e.nodeNames, (n ∈ tg.satisfied ↔ e.Satisfied S n)

/-- Only the membership of the given names in the two sets may differ. -/
structure SameElsewhere (names : List String) (tg tg' : TriggerGraph) : Prop where
  sources : tg'.sources = tg.sources
  sink : tg'.sink = tg.sink
  table : tg'.table = tg.table
  toSatisfy : ∀ n ∉ names, (n ∈ tg'.toSatisfy ↔ n ∈ tg.toSatisfy)
  satisfied : ∀ n ∉ names, (n ∈ tg'.satisfied ↔ n ∈ tg.satisfied)

theorem SameElsewhere.mono {names names' : List String} {tg tg' : TriggerGraph}
    (h : SameElsewhere names tg tg') (hsub : ∀ n ∈ names, n ∈ names') :
    SameElsewhere names' tg tg' where
  sources := h.sources
  sink := h.sink
  table := h.table
  toSatisfy := fun n hn => h.toSatisfy n fun hmem => hn (hsub n hmem)
  satisfied := fun n hn => h.satisfied n fun hmem => hn (hsub n hmem)

theorem SameElsewhere.trans {names : List String} {tg tg' tg'' : TriggerGraph}
    (h : SameElsewhere names tg tg') (h' : SameElsewhere names tg' tg'') :
    SameElsewhere names tg tg'' where
  sources := h'.sources.trans h.sources
  sink := h'.sink.trans h.sink
  table := h'.table.trans h.table
  toSatisfy := fun n hn => (h'.toSatisfy n hn).trans (h.toSatisfy n hn)
  satisfied := fun n hn => (h'.satisfied n hn).trans (h.satisfied n hn)

/-- What happens elsewhere does not concern an expression. -/
theorem Shows.of_same {S : Finset String} {e : TriggerExpr String} {tg tg' : TriggerGraph}
    {names : List String} (h : Shows S e tg) (hsame : SameElsewhere names tg tg')
    (hdisj : ∀ n ∈ e.nodeNames, n ∉ names) : Shows S e tg' where
  toSatisfy := fun n hn => (hsame.toSatisfy n (hdisj n hn)).trans (h.toSatisfy n hn)
  satisfied := fun n hn => (hsame.satisfied n (hdisj n hn)).trans (h.satisfied n hn)

theorem Shows.congr {S T : Finset String} {e : TriggerExpr String} {tg : TriggerGraph}
    (h : Shows S e tg) (hST : TriggerExpr.Agree S T e) : Shows T e tg where
  toSatisfy := fun n hn => (h.toSatisfy n hn).trans (TriggerExpr.pending_congr hST n)
  satisfied := fun n hn => (h.satisfied n hn).trans (TriggerExpr.satisfied_congr hST n)

/-! ### The loop over the successors -/

open TriggerGraph

theorem deref_of_getElem {heap : Heap} {p : NodePtr} {node : TriggerNode}
    (h : heap[p]? = some node) : heap.deref p = .ok node := by
  rw [Heap.deref, h]

theorem checkPending_ok {tg : TriggerGraph} {n : String} (h : n ∈ tg.toSatisfy)
    (h' : n ∉ tg.satisfied) : checkPending n tg = tg.lookup n := by
  rw [checkPending, if_neg (not_not.mpr h), if_neg h']

theorem checkPending_satisfied {tg : TriggerGraph} {n : String} (h : n ∈ tg.toSatisfy)
    (h' : n ∈ tg.satisfied) : checkPending n tg = .error (.inSatisfied n) := by
  rw [checkPending, if_neg (not_not.mpr h), if_pos h']

/-- Pointers to the first literals: all of them are put into `toSatisfy`. -/
theorem foldlM_sources {e : TriggerExpr String} {off : ℕ} {P K : List NodePtr}
    (rec : String → TriggerGraph → Except Fatal TriggerGraph) (tg : TriggerGraph)
    (hloc : Located tg.table e off P K) :
    ∃ tg', (e.graphSources off).foldlM (triggerSuccessor rec) tg = .ok tg' ∧
      tg'.sources = tg.sources ∧ tg'.sink = tg.sink ∧ tg'.table = tg.table ∧
      tg'.satisfied = tg.satisfied ∧
      ∀ n, n ∈ tg'.toSatisfy ↔ n ∈ tg.toSatisfy ∨ n ∈ e.sourceNames := by
  induction e generalizing off P K tg with
  | literal m =>
    refine ⟨tg.markToSatisfy m, ?_, rfl, rfl, rfl, rfl, fun n => ?_⟩
    · show (triggerSuccessor rec tg off >>= fun s => _) = _
      rw [triggerSuccessor, deref_of_getElem hloc.1]
      rfl
    · rw [markToSatisfy, Finset.mem_insert, TriggerExpr.sourceNames, List.mem_singleton, or_comm]
  | node op l r ihl ihr =>
    rcases eq_or_ne op .seq with rfl | hop
    · exact ihl tg hloc.1
    · rw [located_join hop] at hloc
      obtain ⟨tg₁, hrun₁, hso₁, hsi₁, htable₁, hsat₁, hmem₁⟩ := ihl tg hloc.1
      obtain ⟨tg₂, hrun₂, hso₂, hsi₂, htable₂, hsat₂, hmem₂⟩ := ihr tg₁ (htable₁ ▸ hloc.2.1)
      refine ⟨tg₂, ?_, hso₂.trans hso₁, hsi₂.trans hsi₁, htable₂.trans htable₁,
        hsat₂.trans hsat₁, fun n => ?_⟩
      · rw [TriggerExpr.graphSources_join hop, List.foldlM_append, hrun₁]
        exact hrun₂
      · rw [hmem₂, hmem₁, TriggerExpr.sourceNames_join hop, List.mem_append, or_assoc]

/-- The sink lies where `graphSink` says. -/
theorem Located.sink {table : NodeTable} {e : TriggerExpr String} {off : ℕ}
    {P K : List NodePtr} (h : Located table e off P K) :
    ∃ node, table.heap[e.graphSink off]? = some node ∧ node.nodeName = e.sinkName := by
  induction e generalizing off P K with
  | literal n => exact ⟨_, h.1, rfl⟩
  | node op l r ihl ihr =>
    rcases eq_or_ne op .seq with rfl | hop
    · exact ihr h.2
    · rw [located_join hop] at h
      rw [TriggerExpr.graphSink_join hop, TriggerExpr.sinkName_join hop]
      exact ⟨_, h.2.2.1, rfl⟩

/-- The loop over the predecessors finds out whether both sinks are satisfied. -/
theorem andIsTriggered_pair (tg : TriggerGraph) {p q : NodePtr} {node node' : TriggerNode}
    (hp : tg.table.heap[p]? = some node) (hq : tg.table.heap[q]? = some node') :
    tg.andIsTriggered [p, q] =
      .ok (decide (node.nodeName ∈ tg.satisfied ∧ node'.nodeName ∈ tg.satisfied)) := by
  have hstep : ∀ b p node, tg.table.heap[p]? = some node →
      (tg.table.heap.deref p >>= fun node => Except.ok
        (if node.nodeName ∉ tg.satisfied then false else b)) =
      .ok (if node.nodeName ∉ tg.satisfied then false else b) := by
    intro b p node hnode
    rw [deref_of_getElem hnode]
    rfl
  refine (foldlM_cons_ok (hstep true p node hp)
    (foldlM_cons_ok (hstep _ q node' hq) rfl)).trans ?_
  by_cases h : node.nodeName ∈ tg.satisfied <;> by_cases h' : node'.nodeName ∈ tg.satisfied <;>
    simp [h, h']

/-- The cascade reaches the node that joins the two sides of `&` or `|`. -/
theorem triggerSuccessor_join {op : Connective} (hop : op ≠ .seq) {l r : TriggerExpr String}
    {off : ℕ} {P K : List NodePtr} {tg : TriggerGraph} {S : Finset String}
    (hwn : (TriggerExpr.node op l r).WellNamed)
    (hloc : Located tg.table (.node op l r) off P K) (hl : Shows S l tg) (hr : Shows S r tg)
    (hside : l.Complete S ∨ r.Complete S) (f : ℕ) :
    triggerSuccessor (triggerOrAnd (f + 1)) tg (off + l.graphSize + r.graphSize) =
      if (TriggerExpr.node op l r).Complete S then
        if (TriggerExpr.node op l r).composedName ∈ tg.satisfied then
          .error (.inSatisfied (TriggerExpr.node op l r).composedName)
        else K.foldlM (triggerSuccessor (triggerOrAnd f))
          (markSatisfied (TriggerExpr.node op l r).composedName
            (markToSatisfy (TriggerExpr.node op l r).composedName tg))
      else .ok (markToSatisfy (TriggerExpr.node op l r).composedName tg) := by
  rw [located_join hop] at hloc
  obtain ⟨hlocl, hlocr, hnode, hname⟩ := hloc
  obtain ⟨nodel, hnodel, hnamel⟩ := hlocl.sink
  obtain ⟨noder, hnoder, hnamer⟩ := hlocr.sink
  have hlookup : lookup (tg.markToSatisfy (TriggerExpr.node op l r).composedName)
      (TriggerExpr.node op l r).composedName = .ok ⟨op.joinType,
        (TriggerExpr.node op l r).composedName,
        [l.graphSink off, r.graphSink (off + l.graphSize)], K⟩ := by
    simp only [lookup, TriggerGraph.markToSatisfy, hname]
    exact deref_of_getElem hnode
  have htype : (op.joinType != .or && op.joinType != .and) = false := by
    cases op <;> rfl
  have hrun : triggerOrAnd (f + 1) (TriggerExpr.node op l r).composedName
      (tg.markToSatisfy (TriggerExpr.node op l r).composedName) =
      if (TriggerExpr.node op l r).composedName ∈ tg.satisfied then
        .error (.inSatisfied (TriggerExpr.node op l r).composedName)
      else K.foldlM (triggerSuccessor (triggerOrAnd f))
        (markSatisfied (TriggerExpr.node op l r).composedName
          (markToSatisfy (TriggerExpr.node op l r).composedName tg)) := by
    have hmem : (TriggerExpr.node op l r).composedName ∈
        (tg.markToSatisfy (TriggerExpr.node op l r).composedName).toSatisfy :=
      Finset.mem_insert_self _ _
    rw [triggerOrAnd]
    by_cases hsat : (TriggerExpr.node op l r).composedName ∈ tg.satisfied
    · rw [if_pos hsat, checkPending_satisfied hmem hsat]
      rfl
    · rw [if_neg hsat, checkPending_ok hmem hsat, hlookup]
      show (if (op.joinType != .or && op.joinType != .and) = true then _ else _) = _
      rw [htype]
      rfl
  have hcomplete : andIsTriggered (tg.markToSatisfy (TriggerExpr.node op l r).composedName)
      [l.graphSink off, r.graphSink (off + l.graphSize)] =
      .ok (decide (l.Complete S ∧ r.Complete S)) := by
    rw [andIsTriggered_pair (tg.markToSatisfy _) hnodel hnoder, hnamel, hnamer]
    apply congrArg Except.ok
    rw [decide_eq_decide]
    exact and_congr ((hl.satisfied _ l.sinkName_mem).trans
        (TriggerExpr.satisfied_sinkName hwn.left))
      ((hr.satisfied _ r.sinkName_mem).trans (TriggerExpr.satisfied_sinkName hwn.right))
  rw [triggerSuccessor, deref_of_getElem hnode]
  cases op with
  | seq => exact absurd rfl hop
  | or =>
    rw [if_pos (show (TriggerExpr.node .or l r).Complete S from hside)]
    exact hrun
  | and =>
    show (andIsTriggered (tg.markToSatisfy _) _ >>= fun b => _) = _
    rw [hcomplete]
    by_cases hc : l.Complete S ∧ r.Complete S
    · rw [if_pos (show (TriggerExpr.node .and l r).Complete S from hc), ← hrun, decide_eq_true hc]
      rfl
    · rw [if_neg (show ¬ (TriggerExpr.node .and l r).Complete S from hc), decide_eq_false hc]
      rfl

/-! ### Splitting the state along the connective -/

theorem Shows.left {op : Connective} {S : Finset String} {l r : TriggerExpr String}
    {tg : TriggerGraph} (hwn : (TriggerExpr.node op l r).WellNamed)
    (h : Shows S (.node op l r) tg) : Shows S l tg := by
  have hr : ∀ n ∈ l.nodeNames, ¬ r.Pending S n ∧ ¬ r.Satisfied S n := fun n hn =>
    ⟨fun h => hwn.nodeNames_disjoint hn (TriggerExpr.pending_mem h),
      fun h => hwn.nodeNames_disjoint hn (TriggerExpr.satisfied_mem h)⟩
  have hcn : ∀ n ∈ l.nodeNames, n ≠ (TriggerExpr.node op l r).composedName :=
    fun n hn h => hwn.composedName_notMem.1 (h ▸ hn)
  rcases eq_or_ne op .seq with rfl | hop
  · have hsub : ∀ n ∈ l.nodeNames, n ∈ (TriggerExpr.node .seq l r).nodeNames :=
      fun n hn => List.mem_append_left _ hn
    refine ⟨fun n hn => (h.toSatisfy n (hsub n hn)).trans ?_,
      fun n hn => (h.satisfied n (hsub n hn)).trans ?_⟩
    · exact or_iff_left fun h => (hr n hn).1 h.2
    · exact or_iff_left (hr n hn).2
  · have hsub : ∀ n ∈ l.nodeNames, n ∈ (TriggerExpr.node op l r).nodeNames := by
      intro n hn
      rw [TriggerExpr.nodeNames_join hop]
      exact List.mem_append_left _ (List.mem_append_left _ hn)
    refine ⟨fun n hn => (h.toSatisfy n (hsub n hn)).trans ?_,
      fun n hn => (h.satisfied n (hsub n hn)).trans ?_⟩
    · rw [TriggerExpr.pending_join hop]
      exact or_iff_left fun h => h.elim (hr n hn).1 fun h => hcn n hn h.1
    · rw [TriggerExpr.satisfied_join hop]
      exact or_iff_left fun h => h.elim (hr n hn).2 fun h => hcn n hn h.1

/-- The right side of `l;r` shows its state once the left side is complete. -/
theorem Shows.right {op : Connective} {S : Finset String} {l r : TriggerExpr String}
    {tg : TriggerGraph} (hwn : (TriggerExpr.node op l r).WellNamed)
    (h : Shows S (.node op l r) tg) (hseq : op = .seq → l.Complete S) : Shows S r tg := by
  have hl : ∀ n ∈ r.nodeNames, ¬ l.Pending S n ∧ ¬ l.Satisfied S n := fun n hn =>
    ⟨fun h => hwn.nodeNames_disjoint (TriggerExpr.pending_mem h) hn,
      fun h => hwn.nodeNames_disjoint (TriggerExpr.satisfied_mem h) hn⟩
  have hcn : ∀ n ∈ r.nodeNames, n ≠ (TriggerExpr.node op l r).composedName :=
    fun n hn h => hwn.composedName_notMem.2 (h ▸ hn)
  rcases eq_or_ne op .seq with rfl | hop
  · have hsub : ∀ n ∈ r.nodeNames, n ∈ (TriggerExpr.node .seq l r).nodeNames :=
      fun n hn => List.mem_append_right _ hn
    refine ⟨fun n hn => (h.toSatisfy n (hsub n hn)).trans ?_,
      fun n hn => (h.satisfied n (hsub n hn)).trans ?_⟩
    · exact (or_iff_right (hl n hn).1).trans (and_iff_right (hseq rfl))
    · exact or_iff_right (hl n hn).2
  · have hsub : ∀ n ∈ r.nodeNames, n ∈ (TriggerExpr.node op l r).nodeNames := by
      intro n hn
      rw [TriggerExpr.nodeNames_join hop]
      exact List.mem_append_left _ (List.mem_append_right _ hn)
    refine ⟨fun n hn => (h.toSatisfy n (hsub n hn)).trans ?_,
      fun n hn => (h.satisfied n (hsub n hn)).trans ?_⟩
    · rw [TriggerExpr.pending_join hop, or_iff_right (hl n hn).1]
      exact or_iff_left fun h => hcn n hn h.1
    · rw [TriggerExpr.satisfied_join hop, or_iff_right (hl n hn).2]
      exact or_iff_left fun h => hcn n hn h.1

/-- The nodes of the right side of `l;r` are pending only once the left side is complete. -/
theorem Shows.seq_right {S : Finset String} {l r : TriggerExpr String} {tg : TriggerGraph}
    (hwn : (TriggerExpr.node .seq l r).WellNamed) (h : Shows S (.node .seq l r) tg) :
    ∀ n ∈ r.nodeNames, (n ∈ tg.toSatisfy ↔ l.Complete S ∧ r.Pending S n) ∧
      (n ∈ tg.satisfied ↔ r.Satisfied S n) := by
  intro n hn
  have hmem : n ∈ (TriggerExpr.node .seq l r).nodeNames := List.mem_append_right _ hn
  refine ⟨(h.toSatisfy n hmem).trans ?_, (h.satisfied n hmem).trans ?_⟩
  · exact or_iff_right fun h => hwn.nodeNames_disjoint (TriggerExpr.pending_mem h) hn
  · exact or_iff_right fun h => hwn.nodeNames_disjoint (TriggerExpr.satisfied_mem h) hn

theorem Shows.seq {S : Finset String} {l r : TriggerExpr String} {tg : TriggerGraph}
    (hwn : (TriggerExpr.node .seq l r).WellNamed) (hl : Shows S l tg)
    (hr : ∀ n ∈ r.nodeNames, (n ∈ tg.toSatisfy ↔ l.Complete S ∧ r.Pending S n) ∧
      (n ∈ tg.satisfied ↔ r.Satisfied S n)) : Shows S (.node .seq l r) tg := by
  constructor
  · intro n hn
    rcases List.mem_append.mp hn with hn | hn
    · refine (hl.toSatisfy n hn).trans (or_iff_left fun h => ?_).symm
      exact hwn.nodeNames_disjoint hn (TriggerExpr.pending_mem h.2)
    · refine (hr n hn).1.trans (or_iff_right fun h => ?_).symm
      exact hwn.nodeNames_disjoint (TriggerExpr.pending_mem h) hn
  · intro n hn
    rcases List.mem_append.mp hn with hn | hn
    · refine (hl.satisfied n hn).trans (or_iff_left fun h => ?_).symm
      exact hwn.nodeNames_disjoint hn (TriggerExpr.satisfied_mem h)
    · refine (hr n hn).2.trans (or_iff_right fun h => ?_).symm
      exact hwn.nodeNames_disjoint (TriggerExpr.satisfied_mem h) hn

/-- The node that joins two sides. -/
theorem Shows.joint {op : Connective} (hop : op ≠ .seq) {S : Finset String}
    {l r : TriggerExpr String} {tg : TriggerGraph}
    (hwn : (TriggerExpr.node op l r).WellNamed) (h : Shows S (.node op l r) tg) :
    ((TriggerExpr.node op l r).composedName ∈ tg.toSatisfy ↔
      (l.Complete S ∨ r.Complete S) ∧ ¬ (TriggerExpr.node op l r).Complete S) ∧
    ((TriggerExpr.node op l r).composedName ∈ tg.satisfied ↔
      (TriggerExpr.node op l r).Complete S) := by
  have hmem : (TriggerExpr.node op l r).composedName ∈ (TriggerExpr.node op l r).nodeNames := by
    rw [TriggerExpr.nodeNames_join hop]
    exact List.mem_append_right _ (List.mem_singleton_self _)
  obtain ⟨hl, hr⟩ := hwn.composedName_notMem
  constructor
  · rw [h.toSatisfy _ hmem, TriggerExpr.pending_join hop,
      or_iff_right fun h => hl (TriggerExpr.pending_mem h),
      or_iff_right fun h => hr (TriggerExpr.pending_mem h)]
    exact and_iff_right rfl
  · rw [h.satisfied _ hmem, TriggerExpr.satisfied_join hop,
      or_iff_right fun h => hl (TriggerExpr.satisfied_mem h),
      or_iff_right fun h => hr (TriggerExpr.satisfied_mem h)]
    exact and_iff_right rfl

/-- Putting the two sides of `&` or `|` together again. -/
theorem Shows.join {op : Connective} (hop : op ≠ .seq) {S : Finset String}
    {l r : TriggerExpr String} {tg : TriggerGraph}
    (hwn : (TriggerExpr.node op l r).WellNamed) (hl : Shows S l tg) (hr : Shows S r tg)
    (hto : (TriggerExpr.node op l r).composedName ∈ tg.toSatisfy ↔
      (l.Complete S ∨ r.Complete S) ∧ ¬ (TriggerExpr.node op l r).Complete S)
    (hsat : (TriggerExpr.node op l r).composedName ∈ tg.satisfied ↔
      (TriggerExpr.node op l r).Complete S) : Shows S (.node op l r) tg := by
  have hdisj : ∀ n, n ∈ l.nodeNames → n ∉ r.nodeNames := fun n => hwn.nodeNames_disjoint
  obtain ⟨hcl, hcr⟩ := hwn.composedName_notMem
  constructor
  · intro n hn
    rw [TriggerExpr.nodeNames_join hop, List.mem_append, List.mem_append,
      List.mem_singleton] at hn
    rw [TriggerExpr.pending_join hop]
    rcases hn with (hn | hn) | rfl
    · rw [hl.toSatisfy n hn]
      refine (or_iff_left fun h => h.elim ?_ ?_).symm
      · exact fun h => hdisj n hn (TriggerExpr.pending_mem h)
      · exact fun h => hcl (h.1 ▸ hn)
    · rw [hr.toSatisfy n hn, or_iff_right fun h => hdisj n (TriggerExpr.pending_mem h) hn]
      apply Iff.symm
      apply or_iff_left
      intro h
      exact hcr (h.1 ▸ hn)
    · rw [hto, or_iff_right fun h => hcl (TriggerExpr.pending_mem h),
        or_iff_right fun h => hcr (TriggerExpr.pending_mem h)]
      exact (and_iff_right rfl).symm
  · intro n hn
    rw [TriggerExpr.nodeNames_join hop, List.mem_append, List.mem_append,
      List.mem_singleton] at hn
    rw [TriggerExpr.satisfied_join hop]
    rcases hn with (hn | hn) | rfl
    · rw [hl.satisfied n hn]
      refine (or_iff_left fun h => h.elim ?_ ?_).symm
      · exact fun h => hdisj n hn (TriggerExpr.satisfied_mem h)
      · exact fun h => hcl (h.1 ▸ hn)
    · rw [hr.satisfied n hn, or_iff_right fun h => hdisj n (TriggerExpr.satisfied_mem h) hn]
      apply Iff.symm
      apply or_iff_left
      intro h
      exact hcr (h.1 ▸ hn)
    · rw [hsat, or_iff_right fun h => hcl (TriggerExpr.satisfied_mem h),
        or_iff_right fun h => hcr (TriggerExpr.satisfied_mem h)]
      exact (and_iff_right rfl).symm

/-! ### The cascade -/

/-- How many joining nodes lie above a literal. -/
def cascadeDepth (x : String) : TriggerExpr String → ℕ
  | .literal _ => 0
  | .node .seq l r => if x ∈ l.literals then cascadeDepth x l else cascadeDepth x r
  | .node _ l r => (if x ∈ l.literals then cascadeDepth x l else cascadeDepth x r) + 1

theorem cascadeDepth_join {op : Connective} (hop : op ≠ .seq) (x : String)
    (l r : TriggerExpr String) : cascadeDepth x (.node op l r) =
      (if x ∈ l.literals then cascadeDepth x l else cascadeDepth x r) + 1 := by
  cases op <;> first | rfl | exact absurd rfl hop

theorem cascadeDepth_lt (x : String) (e : TriggerExpr String) : cascadeDepth x e < e.graphSize := by
  induction e with
  | literal n => exact Nat.one_pos
  | node op l r ihl ihr =>
    rcases eq_or_ne op .seq with rfl | hop
    · rw [cascadeDepth, TriggerExpr.graphSize]
      split <;> omega
    · rw [cascadeDepth_join hop, TriggerExpr.graphSize_join hop]
      split <;> omega

/-- What a firing that leads from `S` to `S'` does to the part `e` of the graph: it ends at the
check "in satisfied" if some `|` has both sides complete, and otherwise goes on with the successors
`K` of the sink if `e` has just become complete. -/
structure Outcome (e : TriggerExpr String) (S S' : Finset String) (K : List NodePtr) (f : ℕ)
    (tg : TriggerGraph) (run : Except Fatal TriggerGraph) : Prop where
  clash : e.Clash S' → ∃ n, run = .error (.inSatisfied n)
  clear : ¬ e.Clash S' → ∃ tg', Shows S' e tg' ∧ SameElsewhere e.nodeNames tg tg' ∧
    run = if e.Complete S' ∧ ¬ e.Complete S then
      K.foldlM (triggerSuccessor (triggerOrAnd f)) tg' else .ok tg'

theorem sameElsewhere_markToSatisfy (n : String) (tg : TriggerGraph) :
    SameElsewhere [n] tg (tg.markToSatisfy n) where
  sources := rfl
  sink := rfl
  table := rfl
  toSatisfy := fun m hm => by
    rw [List.mem_singleton] at hm
    exact (Finset.mem_insert).trans (or_iff_right hm)
  satisfied := fun _ _ => Iff.rfl

theorem sameElsewhere_markSatisfied (n : String) (tg : TriggerGraph) :
    SameElsewhere [n] tg (tg.markSatisfied n) where
  sources := rfl
  sink := rfl
  table := rfl
  toSatisfy := fun m hm => by
    rw [List.mem_singleton] at hm
    exact (Finset.mem_erase).trans (and_iff_right hm)
  satisfied := fun m hm => by
    rw [List.mem_singleton] at hm
    exact (Finset.mem_insert).trans (or_iff_right hm)

/-- Only `|` adds a clash of its own. -/
theorem clash_join {op : Connective} (hop : op ≠ .seq) {l r : TriggerExpr String}
    {S : Finset String} : (TriggerExpr.node op l r).Clash S ↔
      l.Clash S ∨ r.Clash S ∨ (op = .or ∧ l.Complete S ∧ r.Complete S) := by
  cases op with
  | seq => exact absurd rfl hop
  | and => simp [TriggerExpr.Clash]
  | or => simp [TriggerExpr.Clash]

/-- The state of a joint whose node alone has changed. -/
theorem Shows.join_of_same {op : Connective} (hop : op ≠ .seq) {S : Finset String}
    {l r : TriggerExpr String} {tg tg' : TriggerGraph}
    (hwn : (TriggerExpr.node op l r).WellNamed) (hl : Shows S l tg) (hr : Shows S r tg)
    (hsame : SameElsewhere [(TriggerExpr.node op l r).composedName] tg tg')
    (hto : (TriggerExpr.node op l r).composedName ∈ tg'.toSatisfy ↔
      (l.Complete S ∨ r.Complete S) ∧ ¬ (TriggerExpr.node op l r).Complete S)
    (hsat : (TriggerExpr.node op l r).composedName ∈ tg'.satisfied ↔
      (TriggerExpr.node op l r).Complete S) : Shows S (.node op l r) tg' := by
  obtain ⟨hcl, hcr⟩ := hwn.composedName_notMem
  refine .join hop hwn (hl.of_same hsame ?_) (hr.of_same hsame ?_) hto hsat
  · intro n hn hmem
    exact hcl (List.mem_singleton.mp hmem ▸ hn)
  · intro n hn hmem
    exact hcr (List.mem_singleton.mp hmem ▸ hn)

/-- The step from the two sides of `&` or `|` to the whole: one side may just have become complete
and then leads to the joining node. -/
theorem outcome_join {op : Connective} (hop : op ≠ .seq) {l r : TriggerExpr String}
    {off : ℕ} {P K : List NodePtr} {tg tg₁ : TriggerGraph} {S S' : Finset String}
    (hwn : (TriggerExpr.node op l r).WellNamed)
    (hloc : Located tg.table (.node op l r) off P K)
    (hcl : ¬ (TriggerExpr.node op l r).Clash S) (hcl₁ : ¬ l.Clash S') (hcr₁ : ¬ r.Clash S')
    (hshows : Shows S (.node op l r) tg) (hl : Shows S' l tg₁) (hr : Shows S' r tg₁)
    (hsame : SameElsewhere (l.nodeNames ++ r.nodeNames) tg tg₁) (hS : S ⊆ S') (f : ℕ)
    {run : Except Fatal TriggerGraph}
    (hrun : run = if (l.Complete S' ∧ ¬ l.Complete S) ∨ (r.Complete S' ∧ ¬ r.Complete S) then
      triggerSuccessor (triggerOrAnd (f + 1)) tg₁ (off + l.graphSize + r.graphSize)
      else .ok tg₁)
    (hone : (l.Complete S' → l.Complete S) ∨ (r.Complete S' → r.Complete S)) :
    Outcome (.node op l r) S S' K f tg run := by
  have hnames : ∀ n, n ∈ (TriggerExpr.node op l r).nodeNames ↔
      n ∈ l.nodeNames ++ r.nodeNames ∨ n = (TriggerExpr.node op l r).composedName := by
    intro n
    rw [TriggerExpr.nodeNames_join hop, List.mem_append, List.mem_singleton]
  have hcn : (TriggerExpr.node op l r).composedName ∉ l.nodeNames ++ r.nodeNames := by
    rw [List.mem_append, not_or]
    exact hwn.composedName_notMem
  obtain ⟨hto, hsat⟩ := hshows.joint hop hwn
  have hto₁ := (hsame.toSatisfy _ hcn).trans hto
  have hsat₁ := (hsame.satisfied _ hcn).trans hsat
  have hsame₁ : SameElsewhere (TriggerExpr.node op l r).nodeNames tg tg₁ :=
    hsame.mono fun n hn => (hnames n).mpr (Or.inl hn)
  have hmark : ∀ tg', SameElsewhere [(TriggerExpr.node op l r).composedName] tg₁ tg' →
      SameElsewhere (TriggerExpr.node op l r).nodeNames tg tg' := fun tg' h =>
    hsame₁.trans (h.mono fun n hn => (hnames n).mpr (Or.inr (List.mem_singleton.mp hn)))
  have hmono : (TriggerExpr.node op l r).Complete S → (TriggerExpr.node op l r).Complete S' :=
    TriggerExpr.complete_mono hS
  have hmonol : l.Complete S → l.Complete S' := TriggerExpr.complete_mono hS
  have hmonor : r.Complete S → r.Complete S' := TriggerExpr.complete_mono hS
  -- a clash at `S'` means that a `|` had one side complete already
  have hclash : (TriggerExpr.node op l r).Clash S' → (TriggerExpr.node op l r).Complete S := by
    intro h
    rcases (clash_join hop).mp h with h | h | ⟨rfl, hl', hr'⟩
    · exact absurd h hcl₁
    · exact absurd h hcr₁
    · exact hone.imp (fun h => h hl') fun h => h hr'
  by_cases hnew : (l.Complete S' ∧ ¬ l.Complete S) ∨ (r.Complete S' ∧ ¬ r.Complete S)
  · have hside : l.Complete S' ∨ r.Complete S' := hnew.imp And.left And.left
    rw [if_pos hnew, triggerSuccessor_join hop hwn (hsame.table ▸ hloc) hl hr hside] at hrun
    by_cases hC : (TriggerExpr.node op l r).Complete S'
    · rw [if_pos hC] at hrun
      by_cases hCS : (TriggerExpr.node op l r).Complete S
      · rw [if_pos (hsat₁.mpr hCS)] at hrun
        refine ⟨fun _ => ⟨_, hrun⟩, fun h => absurd ?_ h⟩
        rw [clash_join hop]
        cases op with
        | seq => exact absurd rfl hop
        | and => exact (hnew.elim (fun h => h.2 hCS.1) fun h => h.2 hCS.2).elim
        | or =>
          refine Or.inr (Or.inr ⟨rfl, ?_⟩)
          rcases hnew with ⟨hl', hnl⟩ | ⟨hr', hnr⟩
          · exact ⟨hl', hmonor (hCS.resolve_left hnl)⟩
          · exact ⟨hmonol (hCS.resolve_right hnr), hr'⟩
      · rw [if_neg fun h => hCS (hsat₁.mp h)] at hrun
        refine ⟨fun h => absurd (hclash h) hCS,
          fun _ => ⟨markSatisfied (TriggerExpr.node op l r).composedName
            (markToSatisfy (TriggerExpr.node op l r).composedName tg₁), ?_, ?_, ?_⟩⟩
        · refine hl.join_of_same hop hwn hr
            ((sameElsewhere_markToSatisfy _ _).trans (sameElsewhere_markSatisfied _ _)) ?_ ?_
          · exact ⟨fun h => absurd h (Finset.notMem_erase _ _), fun h => absurd hC h.2⟩
          · exact ⟨fun _ => hC, fun _ => Finset.mem_insert_self _ _⟩
        · exact hmark _
            ((sameElsewhere_markToSatisfy _ _).trans (sameElsewhere_markSatisfied _ _))
        · rw [if_pos ⟨hC, hCS⟩]
          exact hrun
    · rw [if_neg hC] at hrun
      refine ⟨fun h => absurd (hmono (hclash h)) hC,
        fun _ => ⟨markToSatisfy (TriggerExpr.node op l r).composedName tg₁, ?_, ?_, ?_⟩⟩
      · refine hl.join_of_same hop hwn hr (sameElsewhere_markToSatisfy _ _) ?_ ?_
        · exact ⟨fun _ => ⟨hside, hC⟩, fun _ => Finset.mem_insert_self _ _⟩
        · exact hsat₁.trans ⟨hmono, fun h => absurd h hC⟩
      · exact hmark _ (sameElsewhere_markToSatisfy _ _)
      · rw [if_neg fun h => hC h.1]
        exact hrun
  · rw [if_neg hnew] at hrun
    rw [not_or, not_and, not_not, not_and, not_not] at hnew
    have hl' : l.Complete S' ↔ l.Complete S := ⟨hnew.1, hmonol⟩
    have hr' : r.Complete S' ↔ r.Complete S := ⟨hnew.2, hmonor⟩
    have hC : (TriggerExpr.node op l r).Complete S' ↔ (TriggerExpr.node op l r).Complete S := by
      cases op with
      | seq => exact hr'
      | and => exact and_congr hl' hr'
      | or => exact or_congr hl' hr'
    refine ⟨fun h => absurd ?_ hcl, fun _ => ⟨tg₁, ?_, hsame₁, ?_⟩⟩
    · rw [clash_join hop] at h ⊢
      rcases h with h | h | ⟨hor, h⟩
      · exact absurd h hcl₁
      · exact absurd h hcr₁
      · exact Or.inr (Or.inr ⟨hor, hl'.mp h.1, hr'.mp h.2⟩)
    · refine hl.join hop hwn hr ?_ (hsat₁.trans hC.symm)
      rw [hto₁, hl', hr', hC]
    · rw [if_neg fun h => h.2 (hC.mp h.1)]
      exact hrun

theorem Outcome.of_clash {e : TriggerExpr String} {S S' : Finset String} {K : List NodePtr} {f : ℕ}
    {tg : TriggerGraph} {n : String} (h : e.Clash S') :
    Outcome e S S' K f tg (.error (.inSatisfied n)) :=
  ⟨fun _ => ⟨n, rfl⟩, fun hn => absurd h hn⟩

theorem triggerWithin_literal {x : String} {off : ℕ} {P K : List NodePtr} {tg : TriggerGraph}
    {S : Finset String} (hloc : Located tg.table (.literal x) off P K)
    (hshows : Shows S (.literal x) tg) (hxS : x ∉ S) (f : ℕ) :
    Outcome (.literal x) S (insert x S) K f tg (tg.triggerWithin f x) := by
  have hx := List.mem_singleton_self x
  have hto : x ∈ tg.toSatisfy := (hshows.toSatisfy x hx).mpr ⟨rfl, hxS⟩
  have hsat : x ∉ tg.satisfied := fun h => hxS ((hshows.satisfied x hx).mp h).2
  refine ⟨False.elim, fun _ => ⟨tg.markSatisfied x, ?_, ?_, ?_⟩⟩
  · constructor
    · intro n hn
      rw [List.mem_singleton.mp hn]
      exact ⟨fun h => absurd h (Finset.notMem_erase _ _),
        fun h => absurd (Finset.mem_insert_self x S) h.2⟩
    · intro n hn
      rw [List.mem_singleton.mp hn]
      exact ⟨fun _ => ⟨rfl, Finset.mem_insert_self x S⟩, fun _ => Finset.mem_insert_self _ _⟩
  · exact sameElsewhere_markSatisfied x tg
  · have hlookup : tg.lookup x = .ok ⟨.literal, x, P, K⟩ := by
      rw [lookup, hloc.2]
      exact deref_of_getElem hloc.1
    rw [if_pos ⟨show x ∈ insert x S from Finset.mem_insert_self x S, hxS⟩, triggerWithin,
      checkPending_ok hto hsat, hlookup]
    rfl

/-- A firing on the left of `l;r` puts the first literals of `r` into `toSatisfy` if it completes
`l`. -/
theorem outcome_seq_left {l r : TriggerExpr String} {off : ℕ} {P K : List NodePtr}
    {tg : TriggerGraph} {S : Finset String} {x : String}
    (hwn : (TriggerExpr.node .seq l r).WellNamed)
    (hloc : Located tg.table (.node .seq l r) off P K)
    (hlegal : (TriggerExpr.node .seq l r).Legal S) (hcl : ¬ (TriggerExpr.node .seq l r).Clash S)
    (hshows : Shows S (.node .seq l r) tg) (hx : x ∈ l.literals) (f : ℕ)
    {run : Except Fatal TriggerGraph}
    (h : Outcome l S (insert x S) (r.graphSources (off + l.graphSize)) f tg run) :
    Outcome (.node .seq l r) S (insert x S) K f tg run := by
  have hxr : x ∉ r.literals := fun hxr => hwn.disjoint x hx x hxr rfl
  have hagree := TriggerExpr.agree_insert (S := S) hxr
  have hcr : r.Complete (insert x S) ↔ r.Complete S := (TriggerExpr.complete_congr hagree).symm
  have hclr : ¬ r.Clash (insert x S) := fun h =>
    hcl (Or.inr ((TriggerExpr.clash_congr hagree).mpr h))
  have hright := hshows.seq_right hwn
  constructor
  · intro hclash
    exact h.clash (hclash.resolve_right hclr)
  · intro hclash
    obtain ⟨tg₁, hl₁, hsame, hrun⟩ := h.clear fun h => hclash (Or.inl h)
    have hsub : ∀ n ∈ l.nodeNames, n ∈ (TriggerExpr.node .seq l r).nodeNames :=
      fun n hn => List.mem_append_left _ hn
    have hright₁ : ∀ n ∈ r.nodeNames,
        (n ∈ tg₁.toSatisfy ↔ l.Complete S ∧ r.Pending S n) ∧
        (n ∈ tg₁.satisfied ↔ r.Satisfied (insert x S) n) := by
      intro n hn
      have hnl : n ∉ l.nodeNames := fun hnl => hwn.nodeNames_disjoint hnl hn
      rw [hsame.toSatisfy n hnl, hsame.satisfied n hnl, ← TriggerExpr.satisfied_congr hagree]
      exact hright n hn
    have hnot : ¬ ((TriggerExpr.node .seq l r).Complete (insert x S) ∧
        ¬ (TriggerExpr.node .seq l r).Complete S) := fun h => h.2 (hcr.mp h.1)
    by_cases hnew : l.Complete (insert x S) ∧ ¬ l.Complete S
    · obtain ⟨tg₂, hfold, hso, hsi, htable, hsat, hto⟩ := foldlM_sources
        (triggerOrAnd f) tg₁ (hsame.table ▸ hloc.2)
      rw [if_pos hnew, hfold] at hrun
      have huntouched : ∀ a ∈ r.literals, a ∉ insert x S := by
        intro a ha hmem
        rcases Finset.mem_insert.mp hmem with rfl | hmem
        · exact hxr ha
        · exact hlegal.2.2 hnew.2 a ha hmem
      refine ⟨tg₂, .seq hwn ⟨fun n hn => ?_, fun n hn => ?_⟩ fun n hn => ⟨?_, ?_⟩, ?_,
        hrun.trans (if_neg hnot).symm⟩
      · have hnr : n ∉ r.sourceNames := fun h => hwn.nodeNames_disjoint hn
          (TriggerExpr.literals_subset r n (TriggerExpr.sourceNames_subset r n h))
        rw [hto, or_iff_left hnr]
        exact hl₁.toSatisfy n hn
      · rw [hsat]
        exact hl₁.satisfied n hn
      · rw [hto, (hright₁ n hn).1, TriggerExpr.pending_of_untouched huntouched,
          or_iff_right fun h => hnew.2 h.1]
        exact (and_iff_right hnew.1).symm
      · rw [hsat]
        exact (hright₁ n hn).2
      · refine (hsame.mono hsub).trans ⟨hso, hsi, htable, fun n hn => ?_, fun n _ => by rw [hsat]⟩
        rw [hto, or_iff_left]
        intro h
        exact hn (List.mem_append_right _
          (TriggerExpr.literals_subset r n (TriggerExpr.sourceNames_subset r n h)))
    · rw [if_neg hnew] at hrun
      have hcl' : l.Complete (insert x S) ↔ l.Complete S :=
        ⟨fun h => not_not.mp fun hn => hnew ⟨h, hn⟩,
          TriggerExpr.complete_mono (Finset.subset_insert x S)⟩
      refine ⟨tg₁, .seq hwn hl₁ fun n hn => ⟨?_, (hright₁ n hn).2⟩, hsame.mono hsub,
        hrun.trans (if_neg hnot).symm⟩
      rw [(hright₁ n hn).1, hcl', TriggerExpr.pending_congr hagree]

/-- A firing on the right of `l;r` is one of `r`. -/
theorem outcome_seq_right {l r : TriggerExpr String} {K : List NodePtr}
    {tg : TriggerGraph} {S : Finset String} {x : String}
    (hwn : (TriggerExpr.node .seq l r).WellNamed) (hcl : ¬ (TriggerExpr.node .seq l r).Clash S)
    (hshows : Shows S (.node .seq l r) tg) (hlc : l.Complete S) (hx : x ∈ r.literals) (f : ℕ)
    {run : Except Fatal TriggerGraph} (h : Outcome r S (insert x S) K f tg run) :
    Outcome (.node .seq l r) S (insert x S) K f tg run := by
  have hxl : x ∉ l.literals := fun hxl => hwn.disjoint x hxl x hx rfl
  have hagree := TriggerExpr.agree_insert (S := S) hxl
  have hcll : ¬ l.Clash (insert x S) := fun h =>
    hcl (Or.inl ((TriggerExpr.clash_congr hagree).mpr h))
  have hlc' : l.Complete (insert x S) := (TriggerExpr.complete_congr hagree).mp hlc
  constructor
  · intro hclash
    exact h.clash (hclash.resolve_left hcll)
  · intro hclash
    obtain ⟨tg₁, hr₁, hsame, hrun⟩ := h.clear fun h => hclash (Or.inr h)
    refine ⟨tg₁, .seq hwn ?_ fun n hn => ⟨?_, hr₁.satisfied n hn⟩, ?_, hrun⟩
    · exact ((hshows.left hwn).of_same hsame fun n hn => hwn.nodeNames_disjoint hn).congr hagree
    · rw [hr₁.toSatisfy n hn]
      exact (and_iff_right hlc').symm
    · exact hsame.mono fun n hn => List.mem_append_right _ hn

/-- A firing on the left of `&` or `|`. -/
theorem outcome_join_left {op : Connective} (hop : op ≠ .seq) {l r : TriggerExpr String}
    {off : ℕ} {P K : List NodePtr} {tg : TriggerGraph} {S : Finset String} {x : String}
    (hwn : (TriggerExpr.node op l r).WellNamed)
    (hloc : Located tg.table (.node op l r) off P K)
    (hcl : ¬ (TriggerExpr.node op l r).Clash S) (hshows : Shows S (.node op l r) tg)
    (hx : x ∈ l.literals) (f : ℕ) {run : Except Fatal TriggerGraph}
    (h : Outcome l S (insert x S) [off + l.graphSize + r.graphSize] (f + 1) tg run) :
    Outcome (.node op l r) S (insert x S) K f tg run := by
  have hxr : x ∉ r.literals := fun hxr => hwn.disjoint x hx x hxr rfl
  have hagree := TriggerExpr.agree_insert (S := S) hxr
  have hcr : r.Complete (insert x S) → r.Complete S := (TriggerExpr.complete_congr hagree).mpr
  have hclr : ¬ r.Clash (insert x S) := fun h =>
    hcl ((clash_join hop).mpr (Or.inr (Or.inl ((TriggerExpr.clash_congr hagree).mpr h))))
  by_cases hclash : l.Clash (insert x S)
  · obtain ⟨n, hn⟩ := h.clash hclash
    rw [hn]
    exact .of_clash ((clash_join hop).mpr (Or.inl hclash))
  · obtain ⟨tg₁, hl₁, hsame, hrun⟩ := h.clear hclash
    have hr₁ : Shows (insert x S) r tg₁ :=
      ((hshows.right hwn fun h => absurd h hop).of_same hsame fun n hn hnl =>
        hwn.nodeNames_disjoint hnl hn).congr hagree
    refine outcome_join hop hwn hloc hcl hclash hclr hshows hl₁ hr₁
      (hsame.mono fun n hn => List.mem_append_left _ hn) (Finset.subset_insert x S) f ?_
      (Or.inr hcr)
    rw [hrun, foldlM_singleton]
    exact if_congr (or_iff_left fun h => h.2 (hcr h.1)).symm rfl rfl

/-- A firing on the right of `&` or `|`. -/
theorem outcome_join_right {op : Connective} (hop : op ≠ .seq) {l r : TriggerExpr String}
    {off : ℕ} {P K : List NodePtr} {tg : TriggerGraph} {S : Finset String} {x : String}
    (hwn : (TriggerExpr.node op l r).WellNamed)
    (hloc : Located tg.table (.node op l r) off P K)
    (hcl : ¬ (TriggerExpr.node op l r).Clash S) (hshows : Shows S (.node op l r) tg)
    (hx : x ∈ r.literals) (f : ℕ) {run : Except Fatal TriggerGraph}
    (h : Outcome r S (insert x S) [off + l.graphSize + r.graphSize] (f + 1) tg run) :
    Outcome (.node op l r) S (insert x S) K f tg run := by
  have hxl : x ∉ l.literals := fun hxl => hwn.disjoint x hxl x hx rfl
  have hagree := TriggerExpr.agree_insert (S := S) hxl
  have hcll : l.Complete (insert x S) → l.Complete S := (TriggerExpr.complete_congr hagree).mpr
  have hcll' : ¬ l.Clash (insert x S) := fun h =>
    hcl ((clash_join hop).mpr (Or.inl ((TriggerExpr.clash_congr hagree).mpr h)))
  by_cases hclash : r.Clash (insert x S)
  · obtain ⟨n, hn⟩ := h.clash hclash
    rw [hn]
    exact .of_clash ((clash_join hop).mpr (Or.inr (Or.inl hclash)))
  · obtain ⟨tg₁, hr₁, hsame, hrun⟩ := h.clear hclash
    have hl₁ : Shows (insert x S) l tg₁ :=
      ((hshows.left hwn).of_same hsame fun n hn => hwn.nodeNames_disjoint hn).congr hagree
    refine outcome_join hop hwn hloc hcl hcll' hclash hshows hl₁ hr₁
      (hsame.mono fun n hn => List.mem_append_right _ hn) (Finset.subset_insert x S) f ?_
      (Or.inl hcll)
    rw [hrun, foldlM_singleton]
    exact if_congr (or_iff_right fun h => h.2 (hcll h.1)).symm rfl rfl

/-- **One firing**: from the state for `S`, firing an enabled literal `x` leads to the state for
`insert x S`, or to the check "in satisfied" if both sides of some `|` are then complete. -/
theorem triggerWithin_outcome {e : TriggerExpr String} (hwn : e.WellNamed) {off : ℕ}
    {P K : List NodePtr} {tg : TriggerGraph} {S : Finset String} {x : String}
    (hloc : Located tg.table e off P K) (hlegal : e.Legal S) (hcl : ¬ e.Clash S)
    (hshows : Shows S e tg) (hx : x ∈ e.enabled S) (hxS : x ∉ S) (f : ℕ) :
    Outcome e S (insert x S) K f tg (tg.triggerWithin (f + cascadeDepth x e) x) := by
  induction e generalizing off P K f with
  | literal n =>
    rw [Finset.mem_singleton.mp hx] at hxS ⊢
    exact triggerWithin_literal hloc hshows hxS f
  | node op l r ihl ihr =>
    have hl := hshows.left hwn
    have hlit : x ∈ r.literals → x ∉ l.literals := fun hr hl => hwn.disjoint x hl x hr rfl
    rcases eq_or_ne op .seq with rfl | hop
    · rw [cascadeDepth]
      rcases Finset.mem_union.mp hx with hxl | hxr
      · have hxlit := TriggerExpr.enabled_subset_literals S l x hxl
        rw [if_pos hxlit]
        exact outcome_seq_left hwn hloc hlegal hcl hshows hxlit f
          (ihl hwn.left hloc.1 hlegal.1 (fun h => hcl (Or.inl h)) hl hxl f)
      · by_cases hlc : l.Complete S
        · rw [if_pos hlc] at hxr
          have hxlit := TriggerExpr.enabled_subset_literals S r x hxr
          rw [if_neg (hlit hxlit)]
          exact outcome_seq_right hwn hcl hshows hlc hxlit f
            (ihr hwn.right hloc.2 hlegal.2.1 (fun h => hcl (Or.inr h))
              (hshows.right hwn fun _ => hlc) hxr f)
        · rw [if_neg hlc] at hxr
          exact absurd hxr (Finset.notMem_empty x)
    · rw [cascadeDepth_join hop, ← Nat.add_assoc, Nat.add_right_comm]
      have hlegal' : l.Legal S ∧ r.Legal S := by
        cases op <;> first | exact hlegal | exact absurd rfl hop
      have hx' : x ∈ l.enabled S ∨ x ∈ r.enabled S := by
        cases op <;> first | exact Finset.mem_union.mp hx | exact absurd rfl hop
      have hcl' := hcl
      rw [clash_join hop, not_or, not_or] at hcl'
      obtain ⟨hlocl, hlocr, _⟩ := (located_join hop).mp hloc
      rcases hx' with hxl | hxr
      · have hxlit := TriggerExpr.enabled_subset_literals S l x hxl
        rw [if_pos hxlit]
        exact outcome_join_left hop hwn hloc hcl hshows hxlit f
          (ihl hwn.left hlocl hlegal'.1 hcl'.1 hl hxl (f + 1))
      · have hxlit := TriggerExpr.enabled_subset_literals S r x hxr
        rw [if_neg (hlit hxlit)]
        exact outcome_join_right hop hwn hloc hcl hshows hxlit f
          (ihr hwn.right hlocr hlegal'.2 hcl'.2.1
            (hshows.right hwn fun h => absurd h hop) hxr (f + 1))

end Sieve.Server
