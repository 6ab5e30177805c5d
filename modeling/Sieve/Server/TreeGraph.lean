import Sieve.Library.FoldExcept
import Sieve.Library.SeriesParallel
import Sieve.Server.TriggerGraphShape
import Mathlib.Order.Interval.Set.LinearOrder

/-!
# The graph of a tree

`binaryTreeToTriggerNode` over trees that need not come from an expression.

* `TriggerTree`: every operator has two operands, and a literal's children are not looked at;
* `NodeTable.arrows`: the successors and the predecessors in the heap, as a graph;
* `Linked`: pointers are added to nodes that stay where they are;
* `Grown`: new nodes behind the older ones, each entered under its name;
* `Builds`: what one call allocates is a part with one sink, put together in series for `;` and in
  parallel, before the new node, for `&` and `|`.
-/

namespace Sieve.Server

open Sieve.Library

/-! ### Trees -/

def TreeNode.composedNames : TreeNode → List String
  | .nil => []
  | .node _ composedName left right => composedName :: (left.composedNames ++ right.composedNames)

/-- A tree whose operators have two operands. -/
inductive TriggerTree : TreeNode → Prop where
  | literal {name : String} (hname : name ≠ ";" ∧ name ≠ "&" ∧ name ≠ "|") (composedName : String)
      (left right : TreeNode) : TriggerTree (.node name composedName left right)
  | operator {name : String} (hname : name = ";" ∨ name = "&" ∨ name = "|") (composedName : String)
      {left right : TreeNode} (hl : TriggerTree left) (hr : TriggerTree right) :
      TriggerTree (.node name composedName left right)

/-! ### The heap as a graph -/

/-- The pointers of the nodes in the heap. -/
def NodeTable.arrows (table : NodeTable) : Arrows NodePtr where
  succ p := (table.heap[p]?).elim [] (·.successors)
  pred p := (table.heap[p]?).elim [] (·.predecessors)

theorem NodeTable.arrows_of_getElem {table : NodeTable} {p : ℕ} {n : TriggerNode}
    (h : table.heap[p]? = some n) :
    table.arrows.succ p = n.successors ∧ table.arrows.pred p = n.predecessors := by
  simp [arrows, h]

/-- A literal has at most one predecessor, any other node two. -/
def TriggerNode.Joined (n : TriggerNode) : Prop :=
  match n.nodeType with
  | .literal => n.predecessors.length ≤ 1
  | _ => ∃ p q, p ≠ q ∧ n.predecessors = [p, q]

theorem TriggerNode.Joined.literal {n : TriggerNode} (h : n.Joined) (hpred : n.predecessors = []) :
    n.nodeType = .literal := by
  cases htype : n.nodeType with
  | literal => rfl
  | and | or =>
    rw [Joined, htype] at h
    obtain ⟨p, q, _, hpq⟩ := h
    rw [hpred] at hpq
    cases hpq

/-! ### Added pointers -/

/-- `P p` and `S p` are appended to the predecessors and to the successors of node `p`. -/
structure Linked (table table' : NodeTable) (P S : ℕ → List ℕ) : Prop where
  heap : ∀ p : ℕ, table'.heap[p]? =
    (table.heap[p]?).map fun n => (n.addPredecessors (P p)).addSuccessors (S p)
  allNodes : table'.allNodes = table.allNodes

theorem addPredecessors_nil (n : TriggerNode) : n.addPredecessors [] = n := by
  simp [TriggerNode.addPredecessors]

theorem addSuccessors_nil (n : TriggerNode) : n.addSuccessors [] = n := by
  simp [TriggerNode.addSuccessors]

section Linked

variable {table table' table'' : NodeTable} {P S P' S' : ℕ → List ℕ}

theorem Linked.length (h : Linked table table' P S) : table'.heap.length = table.heap.length := by
  have hiff : ∀ p : ℕ, table'.heap.length ≤ p ↔ table.heap.length ≤ p := by
    intro p
    rw [← List.getElem?_eq_none_iff, ← List.getElem?_eq_none_iff, h.heap, Option.map_eq_none_iff]
  have hle := hiff table.heap.length
  have hle' := hiff table'.heap.length
  omega

theorem Linked.succ (h : Linked table table' P S) {p : ℕ} (hp : p < table.heap.length) :
    table'.arrows.succ p = table.arrows.succ p ++ S p := by
  have hnode := List.getElem?_eq_getElem hp
  rw [(NodeTable.arrows_of_getElem hnode).1]
  have hnode' := h.heap p
  rw [hnode] at hnode'
  exact (NodeTable.arrows_of_getElem hnode').1

theorem Linked.pred (h : Linked table table' P S) {p : ℕ} (hp : p < table.heap.length) :
    table'.arrows.pred p = table.arrows.pred p ++ P p := by
  have hnode := List.getElem?_eq_getElem hp
  rw [(NodeTable.arrows_of_getElem hnode).2]
  have hnode' := h.heap p
  rw [hnode] at hnode'
  exact (NodeTable.arrows_of_getElem hnode').2

theorem Linked.trans (h : Linked table table' P S) (h' : Linked table' table'' P' S') :
    Linked table table'' (fun p => P p ++ P' p) fun p => S p ++ S' p where
  heap := by
    intro p
    rw [h'.heap, h.heap, Option.map_map]
    congr 1
    funext n
    simp [TriggerNode.addPredecessors, TriggerNode.addSuccessors]
  allNodes := h'.allNodes.trans h.allNodes

theorem linked_addSuccessors (table : NodeTable) (q : ℕ) (X : List ℕ) :
    Linked table (table.modify q (.addSuccessors X)) (fun _ => []) fun p => if p = q then X else [] where
  heap := by
    intro p
    simp only [addPredecessors_nil]
    by_cases hp : p = q
    · rw [hp, NodeTable.modify_self]
      simp
    · rw [NodeTable.modify_of_ne _ _ hp]
      simp [hp, addSuccessors_nil]
  allNodes := rfl

theorem linked_linkPredecessors (table : NodeTable) (q : ℕ) {sources : List ℕ} (hnodup : sources.Nodup) :
    Linked table (linkPredecessors q sources table) (fun p => if p ∈ sources then [q] else []) fun _ => [] where
  heap := by
    intro p
    simp only [addSuccessors_nil]
    induction sources generalizing table with
    | nil => simp [linkPredecessors, addPredecessors_nil]
    | cons source sources ih =>
      rw [List.nodup_cons] at hnodup
      show (linkPredecessors q sources (table.modify source (.addPredecessors [q]))).heap[p]? = _
      by_cases hp : p = source
      · rw [hp, linkPredecessors_of_notMem q hnodup.1, NodeTable.modify_self]
        simp
      · rw [ih _ hnodup.2, NodeTable.modify_of_ne _ _ hp]
        simp [hp]
  allNodes := linkPredecessors_allNodes q sources table

end Linked

/-! ### New nodes -/

/-- New nodes behind the older ones, with their names among `names`. -/
structure Grown (names : List String) (table table' : NodeTable) : Prop where
  grows : table.heap.length ≤ table'.heap.length
  older : ∀ p : ℕ, p < table.heap.length → table'.heap[p]? = table.heap[p]?
  joined : ∀ (p : ℕ) n, table.heap.length ≤ p → table'.heap[p]? = some n → n.Joined
  named : ∀ (p : ℕ) n, table.heap.length ≤ p → table'.heap[p]? = some n → n.nodeName ∈ names
  other : ∀ x ∉ names, table'.allNodes x = table.allNodes x
  entered : names.Nodup → ∀ (p : ℕ) n, table.heap.length ≤ p → table'.heap[p]? = some n →
    table'.allNodes n.nodeName = some p
  indexed : ∀ x p, table'.allNodes x = some p →
    table.allNodes x = some p ∨ ∃ n, table'.heap[p]? = some n ∧ n.nodeName = x

section Grown

variable {names names' : List String} {table table' table'' : NodeTable}

theorem grown_refl (table : NodeTable) : Grown [] table table where
  grows := Nat.le_refl _
  older := fun _ _ => rfl
  joined := fun p n hp h => absurd (List.getElem?_eq_some_iff.mp h).1 (by omega)
  named := fun p n hp h => absurd (List.getElem?_eq_some_iff.mp h).1 (by omega)
  other := fun _ _ => rfl
  entered := fun _ p n hp h => absurd (List.getElem?_eq_some_iff.mp h).1 (by omega)
  indexed := fun _ _ h => .inl h

theorem Grown.mono (h : Grown names table table') (hsub : names.Sublist names') :
    Grown names' table table' :=
  { h with
    named := fun p n hp hn => hsub.subset (h.named p n hp hn)
    other := fun x hx => h.other x fun hmem => hx (hsub.subset hmem)
    entered := fun hnodup => h.entered (hnodup.sublist hsub) }

theorem Grown.append (h : Grown names table table') (h' : Grown names' table' table'') :
    Grown (names ++ names') table table'' where
  grows := h.grows.trans h'.grows
  older := fun p hp => (h'.older p (hp.trans_le h.grows)).trans (h.older p hp)
  joined := by
    intro p n hp hn
    by_cases hlt : p < table'.heap.length
    · exact h.joined p n hp (by rw [← h'.older p hlt, hn])
    · exact h'.joined p n (by omega) hn
  named := by
    intro p n hp hn
    rw [List.mem_append]
    by_cases hlt : p < table'.heap.length
    · exact .inl (h.named p n hp (by rw [← h'.older p hlt, hn]))
    · exact .inr (h'.named p n (by omega) hn)
  other := by
    intro x hx
    rw [List.mem_append, not_or] at hx
    rw [h'.other x hx.2, h.other x hx.1]
  entered := by
    intro hnodup p n hp hn
    rw [List.nodup_append] at hnodup
    by_cases hlt : p < table'.heap.length
    · -- the names of the later nodes are different
      have hn' : table'.heap[p]? = some n := by rw [← h'.older p hlt, hn]
      have hname := h.named p n hp hn'
      rw [h'.other _ fun hname' => hnodup.2.2 _ hname _ hname' rfl]
      exact h.entered hnodup.1 p n hp hn'
    · exact h'.entered hnodup.2.1 p n (by omega) hn
  indexed := by
    intro x p hx
    rcases h'.indexed x p hx with hx | hx
    · refine (h.indexed x p hx).imp_right fun ⟨n, hn, hname⟩ => ⟨n, ?_, hname⟩
      rw [h'.older p (List.getElem?_eq_some_iff.mp hn).1, hn]
    · exact .inr hx

theorem Grown.alloc (h : Grown names table table') {node : TriggerNode} (hnode : node.Joined) :
    Grown (node.nodeName :: names) table (table'.alloc node).2 := by
  have hold : ∀ p : ℕ, p < table'.heap.length →
      (table'.alloc node).2.heap[p]? = table'.heap[p]? := fun p hp => List.getElem?_append_left hp
  have hnew : (table'.alloc node).2.heap[table'.heap.length]? = some node := List.getElem?_concat_length
  have hlength : (table'.alloc node).2.heap.length = table'.heap.length + 1 := List.length_append
  have hcases : ∀ (p : ℕ) n, (table'.alloc node).2.heap[p]? = some n →
      table'.heap[p]? = some n ∨ p = table'.heap.length ∧ n = node := by
    intro p n hn
    have hp := (List.getElem?_eq_some_iff.mp hn).1
    by_cases hlt : p < table'.heap.length
    · exact .inl (by rw [← hold p hlt, hn])
    · have hp' : p = table'.heap.length := by omega
      rw [hp', hnew] at hn
      exact .inr ⟨hp', (Option.some.inj hn).symm⟩
  have hgrows := h.grows
  constructor
  · omega
  · intro p hp
    rw [hold p (by omega), h.older p hp]
  · intro p n hp hn
    rcases hcases p n hn with hn | ⟨_, rfl⟩
    · exact h.joined p n hp hn
    · exact hnode
  · intro p n hp hn
    rw [List.mem_cons]
    rcases hcases p n hn with hn | ⟨_, rfl⟩
    · exact .inr (h.named p n hp hn)
    · exact .inl rfl
  · intro x hx
    rw [List.mem_cons, not_or] at hx
    rw [← h.other x hx.2]
    exact Function.update_of_ne hx.1 _ _
  · intro hnodup p n hp hn
    rw [List.nodup_cons] at hnodup
    rcases hcases p n hn with hn | ⟨rfl, rfl⟩
    · have hne : n.nodeName ≠ node.nodeName := by
        intro heq
        rw [← heq] at hnodup
        exact hnodup.1 (h.named p n hp hn)
      rw [← h.entered hnodup.2 p n hp hn]
      exact Function.update_of_ne hne _ _
    · exact Function.update_self _ _ _
  · intro x p hx
    by_cases hname : x = node.nodeName
    · have hx' : (table'.alloc node).2.allNodes node.nodeName = some table'.heap.length :=
        Function.update_self _ _ _
      rw [hname, hx'] at hx
      rw [← Option.some.inj hx]
      exact .inr ⟨node, hnew, hname.symm⟩
    · have hx' : table'.allNodes x = some p := by
        rw [← hx]
        show _ = Function.update table'.allNodes node.nodeName _ x
        rw [Function.update_of_ne hname]
      refine (h.indexed x p hx').imp_right fun ⟨n, hn, hname⟩ => ⟨n, ?_, hname⟩
      rw [hold p (List.getElem?_eq_some_iff.mp hn).1, hn]

/-- Pointers are added to the new nodes only. -/
theorem Grown.linked {P S : ℕ → List ℕ} (h : Grown names table table') (hlinked : Linked table' table'' P S)
    (hout : ∀ p < table.heap.length, P p = [] ∧ S p = [])
    (hjoined : ∀ (p : ℕ) n, table.heap.length ≤ p → table'.heap[p]? = some n →
      (n.addPredecessors (P p)).Joined) : Grown names table table'' := by
  have hread : ∀ (p : ℕ) n', table''.heap[p]? = some n' → ∃ n, table'.heap[p]? = some n ∧
      n' = (n.addPredecessors (P p)).addSuccessors (S p) := by
    intro p n' hn'
    rw [hlinked.heap, Option.map_eq_some_iff] at hn'
    obtain ⟨n, hn, heq⟩ := hn'
    exact ⟨n, hn, heq.symm⟩
  constructor
  · rw [hlinked.length]
    exact h.grows
  · intro p hp
    rw [hlinked.heap, h.older p hp, (hout p hp).1, (hout p hp).2]
    simp [addPredecessors_nil, addSuccessors_nil]
  · intro p n' hp hn'
    obtain ⟨n, hn, heq⟩ := hread p n' hn'
    rw [heq]
    exact hjoined p n hp hn
  · intro p n' hp hn'
    obtain ⟨n, hn, heq⟩ := hread p n' hn'
    rw [heq]
    exact h.named p n hp hn
  · intro x hx
    rw [hlinked.allNodes, h.other x hx]
  · intro hnodup p n' hp hn'
    obtain ⟨n, hn, heq⟩ := hread p n' hn'
    rw [hlinked.allNodes, heq]
    exact h.entered hnodup p n hp hn
  · intro x p hx
    rw [hlinked.allNodes] at hx
    refine (h.indexed x p hx).imp_right fun ⟨n, hn, hname⟩ => ?_
    refine ⟨(n.addPredecessors (P p)).addSuccessors (S p), ?_, hname⟩
    rw [hlinked.heap, hn]
    rfl

end Grown

/-! ### What a tree allocates -/

/-- What `binaryTreeToTriggerNode` allocates. -/
structure Builds (node : TreeNode) (table : NodeTable) (sources : List NodePtr) (sink : NodePtr)
    (table' : NodeTable) : Prop where
  run : binaryTreeToTriggerNode node table = .ok ((sources, sink), table')
  grown : Grown node.composedNames table table'
  part : Part table'.arrows (Set.Ico table.heap.length table'.heap.length) sources [sink]

theorem Ico_length_concat {a b : ℕ} (h : a ≤ b) : Set.Ico a (b + 1) = Set.Ico a b ∪ {b} := by
  ext p
  simp only [Set.mem_Ico, Set.mem_union, Set.mem_singleton_iff]
  omega

theorem NodeTable.alloc_length (table : NodeTable) (node : TriggerNode) :
    (table.alloc node).2.heap.length = table.heap.length + 1 := List.length_append

theorem NodeTable.alloc_getElem (table : NodeTable) (node : TriggerNode) {p : ℕ} (hp : p < table.heap.length) :
    (table.alloc node).2.heap[p]? = table.heap[p]? := List.getElem?_append_left hp

theorem NodeTable.alloc_getElem_length (table : NodeTable) (node : TriggerNode) :
    (table.alloc node).2.heap[table.heap.length]? = some node := List.getElem?_concat_length

/-- A part stays as it is when the heap changes elsewhere. -/
theorem part_of_heap_eq {table table' : NodeTable} {nodes : Set ℕ} {sources sinks : List ℕ}
    (h : Part table.arrows nodes sources sinks)
    (hheap : ∀ p ∈ nodes, table'.heap[p]? = table.heap[p]?) : Part table'.arrows nodes sources sinks := by
  refine h.congr (fun p hp => ?_) fun p hp => ?_ <;>
  · simp only [NodeTable.arrows, hheap p hp]

/-- A new node without pointers. -/
theorem part_alloc (table : NodeTable) {node : TriggerNode} (hpred : node.predecessors = [])
    (hsucc : node.successors = []) : Part (table.alloc node).2.arrows {table.heap.length}
      [table.heap.length] [table.heap.length] := by
  have hnode := NodeTable.arrows_of_getElem (table.alloc_getElem_length node)
  exact Part.single (hnode.1.trans hsucc) (hnode.2.trans hpred)

theorem builds_literal {name : String} (hname : name ≠ ";" ∧ name ≠ "&" ∧ name ≠ "|")
    (composedName : String) (left right : TreeNode) (table : NodeTable) :
    Builds (.node name composedName left right) table [table.heap.length] table.heap.length
      (table.alloc ⟨.literal, composedName, [], []⟩).2 where
  run := by
    rw [binaryTreeToTriggerNode, if_neg (by simpa using hname.1), if_neg (by simpa using hname.2.1),
      if_neg (by simpa using hname.2.2)]
    rfl
  grown := by
    refine ((grown_refl table).alloc ?_).mono ?_
    · exact Nat.zero_le 1
    · simp [TreeNode.composedNames]
  part := by
    rw [table.alloc_length, Ico_length_concat (Nat.le_refl _), Set.Ico_self, Set.empty_union]
    exact part_alloc table rfl rfl

section Operator

variable {left right : TreeNode} {table table₁ table₂ : NodeTable} {sourcesOfLeft sourcesOfRight : List ℕ}
  {sinkOfLeft sinkOfRight : ℕ}

/-- Allocating the right side leaves the left side as it is. -/
theorem Builds.left_part (hl : Builds left table sourcesOfLeft sinkOfLeft table₁)
    (hr : Builds right table₁ sourcesOfRight sinkOfRight table₂) :
    Part table₂.arrows (Set.Ico table.heap.length table₁.heap.length) sourcesOfLeft [sinkOfLeft] :=
  part_of_heap_eq hl.part fun p hp => hr.grown.older p hp.2

theorem Builds.sink_mem {node : TreeNode} {table' : NodeTable} {sources : List ℕ} {sink : ℕ}
    (h : Builds node table sources sink table') : table.heap.length ≤ sink ∧ sink < table'.heap.length :=
  h.part.sinks_mem sink (List.mem_singleton_self sink)

/-- The first literals of a part have no predecessor yet. -/
theorem Builds.literal_of_source {node : TreeNode} {table' : NodeTable} {sources : List ℕ} {sink p : ℕ}
    (h : Builds node table sources sink table') (hp : p ∈ sources) {n : TriggerNode}
    (hn : table'.heap[p]? = some n) : n.nodeType = .literal ∧ n.predecessors = [] := by
  have hmem := h.part.sources_mem p hp
  have hpred : n.predecessors = [] := by
    rw [← (NodeTable.arrows_of_getElem hn).2]
    exact (h.part.starts p hmem).mp hp
  exact ⟨(h.grown.joined p n hmem.1 hn).literal hpred, hpred⟩

/-- `;` puts the two sides one after the other. -/
theorem Builds.seq (hl : Builds left table sourcesOfLeft sinkOfLeft table₁)
    (hr : Builds right table₁ sourcesOfRight sinkOfRight table₂) (composedName : String) :
    Builds (.node ";" composedName left right) table sourcesOfLeft sinkOfRight
      (linkPredecessors sinkOfLeft sourcesOfRight
        (table₂.modify sinkOfLeft (.addSuccessors sourcesOfRight))) := by
  have hlinked := (linked_addSuccessors table₂ sinkOfLeft sourcesOfRight).trans
    (linked_linkPredecessors (table₂.modify sinkOfLeft (.addSuccessors sourcesOfRight)) sinkOfLeft
      hr.part.sources_nodup)
  simp only [List.nil_append, List.append_nil] at hlinked
  have hsink := hl.sink_mem
  have hgrows := hl.grown.grows
  have hgrows' := hr.grown.grows
  refine ⟨?_, ?_, ?_⟩
  · rw [binaryTreeToTriggerNode, hl.run]
    show (binaryTreeToTriggerNode right table₁ >>= _) = _
    rw [hr.run]
    rfl
  · have hgrown := hl.grown.append hr.grown
    refine (hgrown.linked hlinked (fun p hp => ?_) fun p n hp hn => ?_).mono (List.sublist_cons_self _ _)
    · have hsource : p ∉ sourcesOfRight := by
        intro hmem
        have hfrom : table₁.heap.length ≤ p := (hr.part.sources_mem p hmem).1
        omega
      have hne : p ≠ sinkOfLeft := by omega
      rw [if_neg hsource, if_neg hne]
      exact ⟨rfl, rfl⟩
    · by_cases hsource : p ∈ sourcesOfRight
      · -- a first literal of the right side gets its one predecessor
        obtain ⟨htype, hpred⟩ := hr.literal_of_source hsource hn
        rw [if_pos hsource, TriggerNode.Joined]
        simp [TriggerNode.addPredecessors, htype, hpred]
      · rw [if_neg hsource, addPredecessors_nil]
        exact hgrown.joined p n hp hn
  · rw [hlinked.length, ← Set.Ico_union_Ico_eq_Ico hgrows hgrows']
    have hheap : ∀ p ∈ Set.Ico table.heap.length table₁.heap.length ∪
        Set.Ico table₁.heap.length table₂.heap.length, p < table₂.heap.length := by
      intro p hp
      rw [Set.Ico_union_Ico_eq_Ico hgrows hgrows'] at hp
      exact hp.2
    refine (hl.left_part hr).series hr.part (fun p hp q hq => hp.2.trans_le hq.1) (fun p hp => ?_)
      fun p hp => ?_
    · simp only [hlinked.succ (hheap p hp), List.mem_singleton]
    · exact hlinked.pred (hheap p hp)

/-- A new node with predecessors, seen as one that gets them later. -/
theorem linked_alloc (table : NodeTable) (node : TriggerNode) (ps : List ℕ) :
    Linked (table.alloc node).2 (table.alloc (node.addPredecessors ps)).2
      (fun p => if p = table.heap.length then ps else []) fun _ => [] where
  heap := by
    intro p
    simp only [addSuccessors_nil]
    by_cases hp : p = table.heap.length
    · rw [hp, table.alloc_getElem_length, table.alloc_getElem_length]
      simp
    · simp only [hp, if_false, addPredecessors_nil, Option.map_id']
      by_cases hlt : p < table.heap.length
      · rw [table.alloc_getElem _ hlt, table.alloc_getElem _ hlt]
      · have hnone : ∀ node, (table.alloc node).2.heap[p]? = none := by
          intro node
          rw [List.getElem?_eq_none_iff, table.alloc_length]
          omega
        rw [hnone, hnone]
  allNodes := rfl

/-- `&` and `|` put the two sides side by side, and the new node after both. -/
theorem Builds.join (hl : Builds left table sourcesOfLeft sinkOfLeft table₁)
    (hr : Builds right table₁ sourcesOfRight sinkOfRight table₂) {nodeType : NodeType}
    (htype : nodeType ≠ .literal) (composedName : String) :
    Grown (composedName :: (left.composedNames ++ right.composedNames)) table
        (joinTriggerNodes nodeType composedName sinkOfLeft sinkOfRight table₂).2 ∧
      Part (joinTriggerNodes nodeType composedName sinkOfLeft sinkOfRight table₂).2.arrows
        (Set.Ico table.heap.length
          (joinTriggerNodes nodeType composedName sinkOfLeft sinkOfRight table₂).2.heap.length)
        (sourcesOfLeft ++ sourcesOfRight) [table₂.heap.length] := by
  have hlinks := (linked_addSuccessors
    (table₂.alloc ⟨nodeType, composedName, [sinkOfLeft, sinkOfRight], []⟩).2 sinkOfLeft
      [table₂.heap.length]).trans (linked_addSuccessors _ sinkOfRight [table₂.heap.length])
  have hlinked : Linked (table₂.alloc ⟨nodeType, composedName, [sinkOfLeft, sinkOfRight], []⟩).2
      (joinTriggerNodes nodeType composedName sinkOfLeft sinkOfRight table₂).2 _ _ := hlinks
  simp only [List.nil_append] at hlinked
  have hsink := hl.sink_mem
  have hsink' := hr.sink_mem
  have hgrows := hl.grown.grows
  have hgrows' := hr.grown.grows
  have hne : sinkOfLeft ≠ sinkOfRight := by omega
  constructor
  · have hnode : TriggerNode.Joined ⟨nodeType, composedName, [sinkOfLeft, sinkOfRight], []⟩ := by
      cases nodeType with
      | literal => exact absurd rfl htype
      | and | or => exact ⟨sinkOfLeft, sinkOfRight, hne, rfl⟩
    have hgrown := (hl.grown.append hr.grown).alloc hnode
    refine hgrown.linked hlinked (fun p hp => ?_) fun p n hp hn => ?_
    · have hne : p ≠ sinkOfLeft ∧ p ≠ sinkOfRight := by omega
      rw [if_neg hne.1, if_neg hne.2]
      exact ⟨rfl, rfl⟩
    · rw [addPredecessors_nil]
      exact hgrown.joined p n hp hn
  · have hnew := (linked_alloc table₂ ⟨nodeType, composedName, [], []⟩ [sinkOfLeft, sinkOfRight]).trans hlinked
    simp only [List.nil_append, List.append_nil] at hnew
    have hlength : (joinTriggerNodes nodeType composedName sinkOfLeft sinkOfRight table₂).2.heap.length =
        table₂.heap.length + 1 := by rw [hlinked.length, table₂.alloc_length]
    have hkeep : ∀ p ∈ Set.Ico table₁.heap.length table₂.heap.length,
        (table₂.alloc ⟨nodeType, composedName, [], []⟩).2.heap[p]? = table₂.heap[p]? :=
      fun p hp => table₂.alloc_getElem _ hp.2
    have hkeep' : ∀ p ∈ Set.Ico table.heap.length table₁.heap.length,
        (table₂.alloc ⟨nodeType, composedName, [], []⟩).2.heap[p]? = table₂.heap[p]? :=
      fun p hp => table₂.alloc_getElem _ (hp.2.trans_le hgrows')
    have hleft := part_of_heap_eq (hl.left_part hr) hkeep'
    have hsides := hleft.parallel (part_of_heap_eq hr.part hkeep)
      fun p hp hp' => absurd hp.2 (Nat.not_lt.mpr hp'.1)
    rw [Set.Ico_union_Ico_eq_Ico hgrows hgrows'] at hsides
    rw [hlength, Ico_length_concat (hgrows.trans hgrows')]
    have hheap : ∀ p ∈ Set.Ico table.heap.length table₂.heap.length ∪ {table₂.heap.length},
        p < (table₂.alloc ⟨nodeType, composedName, [], []⟩).2.heap.length := by
      intro p hp
      rw [← Ico_length_concat (hgrows.trans hgrows'), Set.mem_Ico] at hp
      rw [table₂.alloc_length]
      exact hp.2
    refine hsides.series (part_alloc table₂ rfl rfl) (fun p hp q hq => ?_) (fun p hp => ?_) fun p hp => ?_
    · rw [Set.mem_singleton_iff.mp hq]
      exact hp.2
    · rw [hnew.succ (hheap p hp)]
      congr 1
      by_cases hp' : p = sinkOfLeft
      · simp [hp', hne]
      · simp [hp']
    · rw [hnew.pred (hheap p hp)]
      simp

theorem Builds.and (hl : Builds left table sourcesOfLeft sinkOfLeft table₁)
    (hr : Builds right table₁ sourcesOfRight sinkOfRight table₂) (composedName : String) :
    Builds (.node "&" composedName left right) table (sourcesOfLeft ++ sourcesOfRight)
      table₂.heap.length (joinTriggerNodes .and composedName sinkOfLeft sinkOfRight table₂).2 := by
  obtain ⟨hgrown, hpart⟩ := hl.join hr (by decide : NodeType.and ≠ .literal) composedName
  refine ⟨?_, hgrown, hpart⟩
  rw [binaryTreeToTriggerNode, hl.run]
  show (binaryTreeToTriggerNode right table₁ >>= _) = _
  rw [hr.run]
  rfl

theorem Builds.or (hl : Builds left table sourcesOfLeft sinkOfLeft table₁)
    (hr : Builds right table₁ sourcesOfRight sinkOfRight table₂) (composedName : String) :
    Builds (.node "|" composedName left right) table (sourcesOfLeft ++ sourcesOfRight)
      table₂.heap.length (joinTriggerNodes .or composedName sinkOfLeft sinkOfRight table₂).2 := by
  obtain ⟨hgrown, hpart⟩ := hl.join hr (by decide : NodeType.or ≠ .literal) composedName
  refine ⟨?_, hgrown, hpart⟩
  rw [binaryTreeToTriggerNode, hl.run]
  show (binaryTreeToTriggerNode right table₁ >>= _) = _
  rw [hr.run]
  rfl

end Operator

/-- **Every tree is allocated, as a part with one sink.** -/
theorem TriggerTree.builds {node : TreeNode} (h : TriggerTree node) (table : NodeTable) :
    ∃ sources sink table', Builds node table sources sink table' := by
  induction h generalizing table with
  | literal hname composedName left right =>
    exact ⟨_, _, _, builds_literal hname composedName left right table⟩
  | operator hname composedName _ _ ihl ihr =>
    obtain ⟨_, _, table₁, hleft⟩ := ihl table
    obtain ⟨_, _, _, hright⟩ := ihr table₁
    rcases hname with rfl | rfl | rfl
    · exact ⟨_, _, _, hleft.seq hright composedName⟩
    · exact ⟨_, _, _, hleft.and hright composedName⟩
    · exact ⟨_, _, _, hleft.or hright composedName⟩

/-- The graph of a tree, before anything has been fired. -/
theorem TriggerTree.triggerGraph {node : TreeNode} (h : TriggerTree node) :
    ∃ tg, binaryTreeToTriggerGraph node = .ok tg ∧
      Builds node ⟨[], fun _ => none⟩ tg.sources tg.sink tg.table := by
  obtain ⟨sources, sink, table, hbuilds⟩ := h.builds ⟨[], fun _ => none⟩
  have htotal : ∃ toSatisfy : Finset String, sources.foldlM (fun toSatisfy source => do
      let node ← table.heap.deref source
      Except.ok (insert node.nodeName toSatisfy)) ∅ = Except.ok toSatisfy := by
    refine foldlM_total fun toSatisfy source hsource => ?_
    have hnode := List.getElem?_eq_getElem (hbuilds.part.sources_mem source hsource).2
    exact ⟨insert _ toSatisfy, by rw [Heap.deref, hnode]; rfl⟩
  obtain ⟨toSatisfy, htoSatisfy⟩ := htotal
  refine ⟨⟨sources, sink, table, toSatisfy, ∅⟩, ?_, hbuilds⟩
  rw [binaryTreeToTriggerGraph, hbuilds.run]
  show ((sources.foldlM (fun toSatisfy source => do
    let node ← table.heap.deref source
    Except.ok (insert node.nodeName toSatisfy)) ∅ : Except Fatal (Finset String)) >>= _) = _
  rw [htoSatisfy]
  rfl

end Sieve.Server
