import Sieve.Server.TreeGraph

/-!
# The graph of a tree is acyclic, and the cascade ends

* `TwoTerminal tg`: the nodes lie between the sources and the sink, without a cycle, and their two
  lists are inverse to each other;
* `Ascending`: along the successors the positions in the heap grow;
* `triggerOrAnd_alike`: the nodes on the stack lie behind each other, so there are never more
  than the heap holds;
* `binaryTreeToTriggerGraph_twoTerminal`: the graph of every tree.
-/

namespace Sieve.Server

open Sieve.Library

/-- The nodes lie between the sources and the sink. -/
structure TwoTerminal (tg : TriggerGraph) : Prop where
  acyclic : ∀ p, ¬ Relation.TransGen tg.table.arrows.Step p p
  sources_nodup : tg.sources.Nodup
  sources_iff : ∀ p, p ∈ tg.sources ↔
    ∃ n, tg.table.heap[p]? = some n ∧ n.nodeType = .literal ∧ n.predecessors = []
  literal : ∀ (p : ℕ) n, tg.table.heap[p]? = some n → n.nodeType = .literal → n.predecessors.length ≤ 1
  joint : ∀ (p : ℕ) n, tg.table.heap[p]? = some n → n.nodeType ≠ .literal →
    ∃ q q', q ≠ q' ∧ n.predecessors = [q, q']
  inverse : ∀ (p q : ℕ) n m, tg.table.heap[p]? = some n → tg.table.heap[q]? = some m →
    n.successors.count q = m.predecessors.count p
  closed : ∀ (p : ℕ) n, tg.table.heap[p]? = some n →
    ∀ q ∈ n.predecessors ++ n.successors, q < tg.table.heap.length
  sink_mem : tg.sink < tg.table.heap.length
  reachable : ∀ p < tg.table.heap.length, ∃ source ∈ tg.sources, tg.table.arrows.Path source p
  reaches : ∀ p < tg.table.heap.length, tg.table.arrows.Path p tg.sink
  indexed : ∀ x p, tg.table.allNodes x = some p ↔ ∃ n, tg.table.heap[p]? = some n ∧ n.nodeName = x

theorem NodeTable.not_step_of_le {table : NodeTable} {p q : ℕ} (hp : table.heap.length ≤ p) :
    ¬ table.arrows.Step p q := by
  have hnone := List.getElem?_eq_none_iff.mpr hp
  simp [Arrows.Step, arrows, hnone]

/-- The part allocated from the empty table is the whole graph. -/
theorem Builds.twoTerminal {node : TreeNode} (hnames : node.composedNames.Nodup) {tg : TriggerGraph}
    (h : Builds node ⟨[], fun _ => none⟩ tg.sources tg.sink tg.table) : TwoTerminal tg := by
  have hmem : ∀ {p : ℕ}, p ∈ Set.Ico (NodeTable.mk [] fun _ => none).heap.length tg.table.heap.length ↔
      p < tg.table.heap.length := by
    intro p
    rw [Set.mem_Ico]
    exact and_iff_right (Nat.zero_le p)
  have hlt : ∀ {p : ℕ} {n}, tg.table.heap[p]? = some n → p < tg.table.heap.length :=
    fun hn => (List.getElem?_eq_some_iff.mp hn).1
  constructor
  · intro p hcycle
    by_cases hp : p < tg.table.heap.length
    · exact h.part.acyclic (hmem.mpr hp) hcycle
    · obtain ⟨q, hstep, _⟩ := Relation.TransGen.head'_iff.mp hcycle
      exact NodeTable.not_step_of_le (Nat.le_of_not_lt hp) hstep
  · exact h.part.sources_nodup
  · intro p
    constructor
    · intro hp
      have hnode := List.getElem?_eq_getElem (hmem.mp (h.part.sources_mem p hp))
      exact ⟨_, hnode, h.literal_of_source hp hnode⟩
    · rintro ⟨n, hn, _, hpred⟩
      rw [h.part.starts p (hmem.mpr (hlt hn)), (NodeTable.arrows_of_getElem hn).2, hpred]
  · intro p n hn htype
    have hjoined := h.grown.joined p n (Nat.zero_le p) hn
    rw [TriggerNode.Joined, htype] at hjoined
    exact hjoined
  · intro p n hn htype
    have hjoined := h.grown.joined p n (Nat.zero_le p) hn
    cases hnode : n.nodeType with
    | literal => exact absurd hnode htype
    | and | or =>
      rw [TriggerNode.Joined, hnode] at hjoined
      exact hjoined
  · intro p q n m hn hm
    have hinverse := h.part.inverse p (hmem.mpr (hlt hn)) q (hmem.mpr (hlt hm))
    rw [(NodeTable.arrows_of_getElem hn).1, (NodeTable.arrows_of_getElem hm).2] at hinverse
    exact hinverse
  · intro p n hn q hq
    have hp := hmem.mpr (hlt hn)
    rcases List.mem_append.mp hq with hq | hq
    · rw [← (NodeTable.arrows_of_getElem hn).2] at hq
      exact hmem.mp (h.part.backward p hp q hq)
    · rw [← (NodeTable.arrows_of_getElem hn).1] at hq
      exact hmem.mp (h.part.forward p hp q hq).1
  · exact h.sink_mem.2
  · exact fun p hp => h.part.reachable p (hmem.mpr hp)
  · intro p hp
    obtain ⟨sink, hsink, hpath⟩ := h.part.reaches p (hmem.mpr hp)
    rw [List.mem_singleton.mp hsink] at hpath
    exact hpath
  · intro x p
    constructor
    · intro hx
      refine (h.grown.indexed x p hx).resolve_left fun hnone => ?_
      cases hnone
    · rintro ⟨n, hn, hname⟩
      rw [← hname]
      exact h.grown.entered hnames p n (Nat.zero_le p) hn

/-! ### The cascade -/

/-- The successors of a node lie behind it, and every node is found under its name. -/
structure Ascending (table : NodeTable) : Prop where
  entered : ∀ (p : ℕ) n, table.heap[p]? = some n → table.allNodes n.nodeName = some p
  ascends : ∀ (p : ℕ) n, table.heap[p]? = some n → ∀ q ∈ n.successors, p < q

theorem Builds.ascending {node : TreeNode} (hnames : node.composedNames.Nodup) {tg : TriggerGraph}
    (h : Builds node ⟨[], fun _ => none⟩ tg.sources tg.sink tg.table) : Ascending tg.table where
  entered := fun p n hn => h.grown.entered hnames p n (Nat.zero_le p) hn
  ascends := by
    intro p n hn q hq
    rw [← (NodeTable.arrows_of_getElem hn).1] at hq
    exact (h.part.forward p ⟨Nat.zero_le p, (List.getElem?_eq_some_iff.mp hn).1⟩ q hq).2

namespace TriggerGraph

variable {tg tg' : TriggerGraph} {f g : String → TriggerGraph → Except Fatal TriggerGraph}

theorem triggerSuccessor_table
    (hf : ∀ nodeName tg tg', f nodeName tg = .ok tg' → tg'.table = tg.table) {successor : NodePtr}
    (h : triggerSuccessor f tg successor = .ok tg') : tg'.table = tg.table := by
  rw [triggerSuccessor, bind_ok_iff] at h
  obtain ⟨node, _, h⟩ := h
  cases htype : node.nodeType with
  | literal =>
    simp only [htype] at h
    rw [← Except.ok.inj h]
    rfl
  | or =>
    simp only [htype] at h
    exact hf node.nodeName (tg.markToSatisfy node.nodeName) tg' h
  | and =>
    simp only [htype] at h
    rw [bind_ok_iff] at h
    obtain ⟨andIsTriggered, _, h⟩ := h
    cases andIsTriggered with
    | true => exact hf node.nodeName (tg.markToSatisfy node.nodeName) tg' h
    | false =>
      rw [← Except.ok.inj h]
      rfl

/-- Firing changes the two sets only. -/
theorem triggerOrAnd_table (n : ℕ) (nodeName : String) (tg tg' : TriggerGraph)
    (h : triggerOrAnd n nodeName tg = .ok tg') : tg'.table = tg.table := by
  induction n generalizing nodeName tg tg' with
  | zero => cases h
  | succ n ih =>
    rw [triggerOrAnd, bind_ok_iff] at h
    obtain ⟨node, _, h⟩ := h
    split at h
    case isTrue => cases h
    case isFalse =>
      refine foldlM_invariant (fun _ tg' => tg'.table = tg.table) rfl ?_ h
      intro _ _ _ _ htable hstep
      exact (triggerSuccessor_table ih hstep).trans htable

theorem deref_ne_stackOverflow (heap : Heap) (p : NodePtr) :
    heap.deref p ≠ .error .stackOverflow := by
  rw [Heap.deref]
  split <;> simp

theorem checkPending_ne_stackOverflow (nodeName : String) (tg : TriggerGraph) :
    tg.checkPending nodeName ≠ .error .stackOverflow := by
  rw [checkPending, lookup]
  split
  · simp
  split
  · simp
  split
  · exact deref_ne_stackOverflow _ _
  · simp

theorem andIsTriggered_ne_stackOverflow (tg : TriggerGraph) (predecessors : List NodePtr) :
    tg.andIsTriggered predecessors ≠ .error .stackOverflow := by
  have halike : Alike .stackOverflow (tg.andIsTriggered predecessors) (tg.andIsTriggered predecessors) := by
    refine alike_foldlM (P := fun _ => True) trivial (fun _ _ _ _ _ => trivial) ?_
    intro andIsTriggered _ predecessor _
    exact alike_bind (deref_ne_stackOverflow _ _) fun node _ => alike_ok _ _
  exact halike.2

theorem triggerSuccessor_alike {successor : NodePtr}
    (h : ∀ node, tg.table.heap.deref successor = .ok node → ∀ tg', tg'.table = tg.table →
      Alike .stackOverflow (f node.nodeName tg') (g node.nodeName tg')) :
    Alike .stackOverflow (triggerSuccessor f tg successor) (triggerSuccessor g tg successor) := by
  refine alike_bind (deref_ne_stackOverflow _ _) fun node hnode => ?_
  cases node.nodeType with
  | literal =>
    exact alike_ok _ _
  | or =>
    exact h node hnode _ rfl
  | and =>
    refine alike_bind (andIsTriggered_ne_stackOverflow _ _) fun andIsTriggered _ => ?_
    cases andIsTriggered with
    | true => exact h node hnode _ rfl
    | false => exact alike_ok _ _

/-- The node to fire lies at `p` or behind, and as many nodes may be put on the stack as lie from
`p` on. -/
theorem triggerOrAnd_alike {table : NodeTable} (h : Ascending table) (n m p : ℕ) (nodeName : String)
    (tg : TriggerGraph) (htable : tg.table = table) (hp : p < table.heap.length)
    (hfrom : ∀ q, table.allNodes nodeName = some q → p ≤ q) (hn : table.heap.length ≤ p + n)
    (hm : table.heap.length ≤ p + m) :
    Alike .stackOverflow (triggerOrAnd n nodeName tg) (triggerOrAnd m nodeName tg) := by
  induction n generalizing m p nodeName tg with
  | zero => omega
  | succ n ih =>
    cases m with
    | zero => omega
    | succ m =>
      refine alike_bind (checkPending_ne_stackOverflow _ _) fun node hnode => ?_
      split
      case isTrue => exact ⟨rfl, by simp⟩
      case isFalse =>
        -- the node found under the name, and its successors behind it
        have hfound : ∃ q : ℕ, table.allNodes nodeName = some q ∧ table.heap[q]? = some node := by
          rw [checkPending] at hnode
          split at hnode
          · cases hnode
          split at hnode
          · cases hnode
          rw [lookup, htable] at hnode
          split at hnode
          case h_1 q hq =>
            refine ⟨q, hq, ?_⟩
            rw [Heap.deref] at hnode
            split at hnode
            case h_1 node' hnode' => rw [hnode', Except.ok.inj hnode]
            case h_2 => cases hnode
          case h_2 => cases hnode
        obtain ⟨q, hq, hheap⟩ := hfound
        have hpq := hfrom q hq
        refine alike_foldlM (P := fun tg' => tg'.table = table) htable ?_ ?_
        · intro s _ s' hs hstep
          exact (triggerSuccessor_table (triggerOrAnd_table n) hstep).trans hs
        · intro s hs successor hsuccessor
          have hbehind := h.ascends q node hheap successor hsuccessor
          refine triggerSuccessor_alike fun node' hnode' tg' htable' => ?_
          rw [hs, Heap.deref] at hnode'
          split at hnode'
          case h_2 => cases hnode'
          case h_1 node'' hnode'' =>
            rw [← Except.ok.inj hnode']
            have hlength := (List.getElem?_eq_some_iff.mp hnode'').1
            refine ih m successor node''.nodeName tg' (htable'.trans hs) hlength (fun q' hq' => ?_)
              (by omega) (by omega)
            rw [h.entered successor node'' hnode''] at hq'
            exact le_of_eq (Option.some.inj hq')

end TriggerGraph

/-- **The graph of a tree with distinct names is acyclic, and from every state the cascade ends with
as many nodes on the stack as there are in the graph.** -/
theorem binaryTreeToTriggerGraph_twoTerminal {node : TreeNode} (htree : TriggerTree node)
    (hnames : node.composedNames.Nodup) :
    ∃ tg, binaryTreeToTriggerGraph node = .ok tg ∧ TwoTerminal tg ∧
      ∀ (toSatisfy satisfied : Finset String) (nodeName : String) (n : ℕ), tg.table.heap.length ≤ n →
        TriggerGraph.triggerOrAnd n nodeName { tg with toSatisfy, satisfied } ≠ .error .stackOverflow ∧
        TriggerGraph.triggerOrAnd n nodeName { tg with toSatisfy, satisfied } =
          TriggerGraph.triggerOrAnd tg.table.heap.length nodeName { tg with toSatisfy, satisfied } := by
  obtain ⟨tg, hrun, hbuilds⟩ := htree.triggerGraph
  refine ⟨tg, hrun, hbuilds.twoTerminal hnames, fun toSatisfy satisfied nodeName n hn => ?_⟩
  have hpositive : 0 < tg.table.heap.length := Nat.zero_lt_of_lt hbuilds.sink_mem.2
  obtain ⟨hsame, hends⟩ := TriggerGraph.triggerOrAnd_alike (hbuilds.ascending hnames) n
    tg.table.heap.length 0 nodeName { tg with toSatisfy, satisfied } rfl hpositive
    (fun q _ => Nat.zero_le q) (by omega) (by omega)
  exact ⟨hends, hsame⟩

/-- The tree of `(a|b);c`. -/
theorem binaryTreeToTriggerGraph_twoTerminal_seq :
    ∃ tg, binaryTreeToTriggerGraph (.node ";" "((a|b);c)"
        (.node "|" "(a|b)" (.node "a" "a" .nil .nil) (.node "b" "b" .nil .nil))
        (.node "c" "c" .nil .nil)) = .ok tg ∧ TwoTerminal tg := by
  have hname : ∀ {name : String}, name = "a" ∨ name = "b" ∨ name = "c" →
      name ≠ ";" ∧ name ≠ "&" ∧ name ≠ "|" := by
    intro name hname
    rcases hname with rfl | rfl | rfl <;> decide
  obtain ⟨tg, hrun, hgraph, _⟩ := binaryTreeToTriggerGraph_twoTerminal
    (.operator (.inl rfl) "((a|b);c)"
      (.operator (.inr (.inr rfl)) "(a|b)" (.literal (hname (.inl rfl)) "a" .nil .nil)
        (.literal (hname (.inr (.inl rfl))) "b" .nil .nil))
      (.literal (hname (.inr (.inr rfl))) "c" .nil .nil)) (by decide)
  exact ⟨tg, hrun, hgraph⟩

end Sieve.Server
