import Sieve.Server.TriggerGraph
import Sieve.Server.TriggerTree

/-!
# Where the nodes of a trigger expression lie in the graph

* `Located table e off P K`: the nodes of `e` lie in the heap from `off` on, linked as the meaning
  of `e` asks, with `P` the predecessors of the first literals and `K` the successors of the sink;
* `Located.addSuccessors`, `Located.addPredecessors`: linking a part to its surroundings changes
  `K` and `P` only;
* `binaryTreeToTriggerNode_located`: the nodes of `e` are allocated behind everything older.
-/

namespace Sieve.Trigger

/-- The type of the node that joins the two sides of `&` or `|`. -/
def Connective.joinType : Connective → Server.NodeType
  | .or => .or
  | _ => .and

namespace TriggerExpr

/-- The number of nodes in the graph; `;` has none of its own. -/
def graphSize : TriggerExpr String → ℕ
  | .literal _ => 1
  | .node .seq l r => l.graphSize + r.graphSize
  | .node _ l r => l.graphSize + r.graphSize + 1

/-- Where the sink lies when the nodes start at `off`. -/
def graphSink : TriggerExpr String → ℕ → ℕ
  | .literal _, off => off
  | .node .seq l r, off => r.graphSink (off + l.graphSize)
  | .node _ l r, off => off + l.graphSize + r.graphSize

/-- Where the literals enabled first lie. -/
def graphSources : TriggerExpr String → ℕ → List ℕ
  | .literal _, off => [off]
  | .node .seq l _, off => l.graphSources off
  | .node _ l r, off => l.graphSources off ++ r.graphSources (off + l.graphSize)

/-- The names of all nodes of the graph. -/
def nodeNames : TriggerExpr String → List String
  | .literal n => [n]
  | .node .seq l r => l.nodeNames ++ r.nodeNames
  | .node op l r => l.nodeNames ++ r.nodeNames ++ [(TriggerExpr.node op l r).composedName]

/-- The literals enabled first. -/
def sourceNames : TriggerExpr String → List String
  | .literal n => [n]
  | .node .seq l _ => l.sourceNames
  | .node _ l r => l.sourceNames ++ r.sourceNames

def sinkName : TriggerExpr String → String
  | .literal n => n
  | .node .seq _ r => r.sinkName
  | .node op l r => (TriggerExpr.node op l r).composedName

section Join

variable {op : Connective} (h : op ≠ .seq) (l r : TriggerExpr String)
include h

theorem graphSize_join :
    (TriggerExpr.node op l r).graphSize = l.graphSize + r.graphSize + 1 := by
  cases op <;> first | rfl | exact absurd rfl h

theorem graphSink_join (off : ℕ) :
    (TriggerExpr.node op l r).graphSink off = off + l.graphSize + r.graphSize := by
  cases op <;> first | rfl | exact absurd rfl h

theorem graphSources_join (off : ℕ) : (TriggerExpr.node op l r).graphSources off =
    l.graphSources off ++ r.graphSources (off + l.graphSize) := by
  cases op <;> first | rfl | exact absurd rfl h

theorem nodeNames_join : (TriggerExpr.node op l r).nodeNames =
    l.nodeNames ++ r.nodeNames ++ [(TriggerExpr.node op l r).composedName] := by
  cases op <;> first | rfl | exact absurd rfl h

theorem sourceNames_join :
    (TriggerExpr.node op l r).sourceNames = l.sourceNames ++ r.sourceNames := by
  cases op <;> first | rfl | exact absurd rfl h

theorem sinkName_join :
    (TriggerExpr.node op l r).sinkName = (TriggerExpr.node op l r).composedName := by
  cases op <;> first | rfl | exact absurd rfl h

end Join

theorem graphSink_mem (e : TriggerExpr String) (off : ℕ) :
    off ≤ e.graphSink off ∧ e.graphSink off < off + e.graphSize := by
  induction e generalizing off with
  | literal n => exact ⟨Nat.le_refl _, Nat.lt_succ_self _⟩
  | node op l r ihl ihr =>
    rcases eq_or_ne op .seq with rfl | hop
    · have hr := ihr (off + l.graphSize)
      rw [graphSink, graphSize]
      omega
    · rw [graphSink_join hop, graphSize_join hop]
      omega

theorem graphSources_mem (e : TriggerExpr String) (off : ℕ) :
    ∀ p ∈ e.graphSources off, off ≤ p ∧ p < off + e.graphSize := by
  induction e generalizing off with
  | literal n =>
    intro p hp
    rw [List.mem_singleton.mp hp]
    exact ⟨Nat.le_refl _, Nat.lt_succ_self _⟩
  | node op l r ihl ihr =>
    intro p hp
    rcases eq_or_ne op .seq with rfl | hop
    · have h := ihl off p hp
      rw [graphSize]
      omega
    · rw [graphSources_join hop, List.mem_append] at hp
      rw [graphSize_join hop]
      rcases hp with hp | hp
      · have h := ihl off p hp
        omega
      · have h := ihr _ p hp
        omega

theorem nodeNames_subset (e : TriggerExpr String) : ∀ n ∈ e.nodeNames, n ∈ e.subNames := by
  induction e with
  | literal n => exact fun m hm => hm
  | node op l r ihl ihr =>
    intro n hn
    have hsides : n ∈ l.nodeNames ++ r.nodeNames → n ∈ (TriggerExpr.node op l r).subNames := by
      intro hn
      rw [subNames]
      rcases List.mem_append.mp hn with hn | hn
      · exact List.mem_append_left _ (List.mem_append_right _ (ihl n hn))
      · exact List.mem_append_left _ (List.mem_append_left _ (ihr n hn))
    rcases eq_or_ne op .seq with rfl | hop
    · exact hsides hn
    · rw [nodeNames_join hop] at hn
      rcases List.mem_append.mp hn with hn | hn
      · exact hsides hn
      · rw [List.mem_singleton.mp hn]
        exact composedName_mem_subNames _

theorem WellNamed.nodeNames_disjoint {op : Connective} {l r : TriggerExpr String}
    (h : WellNamed (.node op l r)) {n : String} (hl : n ∈ l.nodeNames) : n ∉ r.nodeNames :=
  fun hr => h.subNames_disjoint (nodeNames_subset l n hl) (nodeNames_subset r n hr)

theorem WellNamed.composedName_notMem {op : Connective} {l r : TriggerExpr String}
    (h : WellNamed (.node op l r)) :
    (TriggerExpr.node op l r).composedName ∉ l.nodeNames ∧
      (TriggerExpr.node op l r).composedName ∉ r.nodeNames :=
  ⟨fun hl => h.composedName_fresh.1 (nodeNames_subset l _ hl),
    fun hr => h.composedName_fresh.2 (nodeNames_subset r _ hr)⟩

theorem sourceNames_subset (e : TriggerExpr String) : ∀ n ∈ e.sourceNames, n ∈ e.literals := by
  induction e with
  | literal n => exact fun m hm => hm
  | node op l r ihl ihr =>
    intro n hn
    rcases eq_or_ne op .seq with rfl | hop
    · exact List.mem_append_left _ (ihl n hn)
    · rw [sourceNames_join hop, List.mem_append] at hn
      exact List.mem_append.mpr (hn.imp (ihl n) (ihr n))

theorem literals_subset (e : TriggerExpr String) : ∀ n ∈ e.literals, n ∈ e.nodeNames := by
  induction e with
  | literal n => exact fun m hm => hm
  | node op l r ihl ihr =>
    intro n hn
    have hsides : n ∈ l.nodeNames ++ r.nodeNames :=
      List.mem_append.mpr ((List.mem_append.mp hn).imp (ihl n) (ihr n))
    rcases eq_or_ne op .seq with rfl | hop
    · exact hsides
    · rw [nodeNames_join hop]
      exact List.mem_append_left _ hsides

/-- A joining node's name starts with `(`, so only literals have operator-free names. -/
theorem mem_literals_of_operatorFree {e : TriggerExpr String} {n : String} (h : n ∈ e.nodeNames)
    (hfree : OperatorFree n) : n ∈ e.literals := by
  induction e with
  | literal m => exact h
  | node op l r ihl ihr =>
    have hsides : n ∈ l.nodeNames ++ r.nodeNames → n ∈ (TriggerExpr.node op l r).literals :=
      fun h => List.mem_append.mpr ((List.mem_append.mp h).imp ihl ihr)
    rcases eq_or_ne op .seq with rfl | hop
    · exact hsides h
    · rw [nodeNames_join hop] at h
      rcases List.mem_append.mp h with h | h
      · exact hsides h
      · rw [List.mem_singleton.mp h] at hfree
        refine absurd (hfree '(' ?_) (by decide)
        rw [composedName_node_toList]
        exact List.mem_cons_self

theorem sinkName_mem (e : TriggerExpr String) : e.sinkName ∈ e.nodeNames := by
  induction e with
  | literal n => exact List.mem_singleton_self n
  | node op l r ihl ihr =>
    rcases eq_or_ne op .seq with rfl | hop
    · exact List.mem_append_right _ ihr
    · rw [sinkName_join hop, nodeNames_join hop]
      exact List.mem_append_right _ (List.mem_singleton_self _)

end TriggerExpr

end Sieve.Trigger

namespace Sieve.Server

open Sieve.Trigger

/-! ### The nodes of an expression in the heap -/

/-- The nodes of the expression lie in the heap from `off` on. -/
def Located (table : NodeTable) :
    TriggerExpr String → ℕ → List NodePtr → List NodePtr → Prop
  | .literal n, off, P, K =>
    table.heap[off]? = some ⟨.literal, n, P, K⟩ ∧ table.allNodes n = some off
  | .node .seq l r, off, P, K =>
    Located table l off P (r.graphSources (off + l.graphSize)) ∧
      Located table r (off + l.graphSize) [l.graphSink off] K
  | .node op l r, off, P, K =>
    Located table l off P [off + l.graphSize + r.graphSize] ∧
      Located table r (off + l.graphSize) P [off + l.graphSize + r.graphSize] ∧
      table.heap[off + l.graphSize + r.graphSize]? = some ⟨op.joinType,
        (TriggerExpr.node op l r).composedName,
        [l.graphSink off, r.graphSink (off + l.graphSize)], K⟩ ∧
      table.allNodes (TriggerExpr.node op l r).composedName =
        some (off + l.graphSize + r.graphSize)

theorem located_join {table : NodeTable} {op : Connective} (h : op ≠ .seq)
    {l r : TriggerExpr String} {off : ℕ} {P K : List NodePtr} :
    Located table (.node op l r) off P K ↔
      Located table l off P [off + l.graphSize + r.graphSize] ∧
      Located table r (off + l.graphSize) P [off + l.graphSize + r.graphSize] ∧
      table.heap[off + l.graphSize + r.graphSize]? = some ⟨op.joinType,
        (TriggerExpr.node op l r).composedName,
        [l.graphSink off, r.graphSink (off + l.graphSize)], K⟩ ∧
      table.allNodes (TriggerExpr.node op l r).composedName =
        some (off + l.graphSize + r.graphSize) := by
  cases op <;> first | rfl | exact absurd rfl h

/-- Only the expression's own part of the heap and its own names matter. -/
theorem Located.congr {table table' : NodeTable} {e : TriggerExpr String} {off : ℕ}
    {P K : List NodePtr} (h : Located table e off P K)
    (hheap : ∀ i, off ≤ i → i < off + e.graphSize → table'.heap[i]? = table.heap[i]?)
    (hnames : ∀ n ∈ e.nodeNames, table'.allNodes n = table.allNodes n) :
    Located table' e off P K := by
  induction e generalizing off P K with
  | literal n =>
    refine ⟨?_, ?_⟩
    · rw [hheap off (Nat.le_refl _) (Nat.lt_succ_self _)]
      exact h.1
    · rw [hnames n (List.mem_singleton_self n)]
      exact h.2
  | node op l r ihl ihr =>
    rcases eq_or_ne op .seq with rfl | hop
    · rw [TriggerExpr.graphSize] at hheap
      refine ⟨ihl h.1 ?_ ?_, ihr h.2 ?_ ?_⟩
      · exact fun i hi hi' => hheap i hi (by omega)
      · exact fun n hn => hnames n (List.mem_append_left _ hn)
      · exact fun i hi hi' => hheap i (by omega) (by omega)
      · exact fun n hn => hnames n (List.mem_append_right _ hn)
    · rw [located_join hop] at h ⊢
      rw [TriggerExpr.graphSize_join hop] at hheap
      rw [TriggerExpr.nodeNames_join hop] at hnames
      obtain ⟨hl, hr, hnode, hname⟩ := h
      refine ⟨ihl hl ?_ ?_, ihr hr ?_ ?_, ?_, ?_⟩
      · exact fun i hi hi' => hheap i hi (by omega)
      · exact fun n hn => hnames n (List.mem_append_left _ (List.mem_append_left _ hn))
      · exact fun i hi hi' => hheap i (by omega) (by omega)
      · exact fun n hn => hnames n (List.mem_append_left _ (List.mem_append_right _ hn))
      · rw [hheap _ (by omega) (by omega)]
        exact hnode
      · rw [hnames _ (List.mem_append_right _ (List.mem_singleton_self _))]
        exact hname

/-! ### Linking a part to its surroundings -/

theorem NodeTable.modify_self (table : NodeTable) (p : ℕ) (f : TriggerNode → TriggerNode) :
    (table.modify p f).heap[p]? = (table.heap[p]?).map f := by
  show (List.modify table.heap p f)[p]? = _
  rw [List.getElem?_modify]
  simp

theorem NodeTable.modify_of_ne (table : NodeTable) {p i : ℕ}
    (f : TriggerNode → TriggerNode) (h : i ≠ p) :
    (table.modify p f).heap[i]? = table.heap[i]? := by
  show (List.modify table.heap p f)[i]? = _
  rw [List.getElem?_modify]
  simp [Ne.symm h]

@[simp] theorem NodeTable.modify_allNodes (table : NodeTable) (p : NodePtr)
    (f : TriggerNode → TriggerNode) : (table.modify p f).allNodes = table.allNodes := rfl

/-- Linking the sink of an expression to `X`. -/
theorem Located.addSuccessors {table : NodeTable} {e : TriggerExpr String} {off : ℕ}
    {P K : List NodePtr} (h : Located table e off P K) (X : List NodePtr) :
    Located (table.modify (e.graphSink off) (.addSuccessors X)) e off P (K ++ X) := by
  induction e generalizing off P K with
  | literal n =>
    refine ⟨?_, h.2⟩
    rw [TriggerExpr.graphSink, NodeTable.modify_self, h.1]
    rfl
  | node op l r ihl ihr =>
    rcases eq_or_ne op .seq with rfl | hop
    · refine ⟨h.1.congr ?_ fun n _ => rfl, ihr h.2⟩
      intro i hi hi'
      have hsink := r.graphSink_mem (off + l.graphSize)
      exact NodeTable.modify_of_ne _ _ (by rw [TriggerExpr.graphSink]; omega)
    · rw [located_join hop] at h ⊢
      rw [TriggerExpr.graphSink_join hop]
      obtain ⟨hl, hr, hnode, hname⟩ := h
      refine ⟨hl.congr ?_ fun n _ => rfl, hr.congr ?_ fun n _ => rfl, ?_, hname⟩
      · exact fun i hi hi' => NodeTable.modify_of_ne _ _ (by omega)
      · exact fun i hi hi' => NodeTable.modify_of_ne _ _ (by omega)
      · rw [NodeTable.modify_self, hnode]
        rfl

/-- The loop over `sourcesOfRight`. -/
def linkPredecessors (q : NodePtr) (sources : List NodePtr) (table : NodeTable) : NodeTable :=
  sources.foldl (fun table source => table.modify source (.addPredecessors [q])) table

theorem linkPredecessors_append (q : NodePtr) (xs ys : List NodePtr) (table : NodeTable) :
    linkPredecessors q (xs ++ ys) table = linkPredecessors q ys (linkPredecessors q xs table) :=
  List.foldl_append

theorem linkPredecessors_allNodes (q : NodePtr) (sources : List NodePtr) (table : NodeTable) :
    (linkPredecessors q sources table).allNodes = table.allNodes := by
  induction sources generalizing table with
  | nil => rfl
  | cons p sources ih => exact ih (table.modify p (.addPredecessors [q]))

theorem linkPredecessors_of_notMem (q : ℕ) {sources : List ℕ} {i : ℕ}
    (h : i ∉ sources) (table : NodeTable) :
    (linkPredecessors q sources table).heap[i]? = table.heap[i]? := by
  induction sources generalizing table with
  | nil => rfl
  | cons p sources ih =>
    rw [List.mem_cons, not_or] at h
    show (linkPredecessors q sources (table.modify p (.addPredecessors [q]))).heap[i]? = _
    rw [ih h.2, NodeTable.modify_of_ne _ _ h.1]

/-- A loop over pointers outside an expression's part of the heap leaves it in place. -/
theorem Located.linkOther {table : NodeTable} {e : TriggerExpr String} {off : ℕ}
    {P K : List NodePtr} (h : Located table e off P K) (q : ℕ) {sources : List ℕ}
    (hout : ∀ p ∈ sources, p < off ∨ off + e.graphSize ≤ p) :
    Located (linkPredecessors q sources table) e off P K := by
  refine h.congr ?_ fun n _ => by rw [linkPredecessors_allNodes]
  intro i hi hi'
  refine linkPredecessors_of_notMem q ?_ table
  intro hmem
  have hi'' := hout i hmem
  omega

/-- Linking `q` to the first literals of an expression. -/
theorem Located.addPredecessors {table : NodeTable} {e : TriggerExpr String} {off : ℕ}
    {P K : List NodePtr} (h : Located table e off P K) (q : NodePtr) :
    Located (linkPredecessors q (e.graphSources off) table) e off (P ++ [q]) K := by
  induction e generalizing table off P K with
  | literal n =>
    refine ⟨?_, h.2⟩
    show (table.modify off (.addPredecessors [q])).heap[off]? = _
    rw [NodeTable.modify_self, h.1]
    rfl
  | node op l r ihl ihr =>
    have hsl := l.graphSources_mem off
    have hsr := r.graphSources_mem (off + l.graphSize)
    rcases eq_or_ne op .seq with rfl | hop
    · refine ⟨ihl h.1, h.2.linkOther q ?_⟩
      exact fun p hp => Or.inl (hsl p hp).2
    · rw [located_join hop] at h ⊢
      obtain ⟨hl, hr, hnode, hname⟩ := h
      rw [TriggerExpr.graphSources_join hop, linkPredecessors_append]
      refine ⟨(ihl hl).linkOther q ?_, ihr (hr.linkOther q ?_), ?_, ?_⟩
      · exact fun p hp => Or.inr (hsr p hp).1
      · exact fun p hp => Or.inl (hsl p hp).2
      · rw [linkPredecessors_of_notMem q, linkPredecessors_of_notMem q]
        · exact hnode
        · intro hp
          have := hsl _ hp
          omega
        · intro hp
          have := hsr _ hp
          omega
      · rw [linkPredecessors_allNodes, linkPredecessors_allNodes]
        exact hname

/-! ### Building the graph -/

/-- What `table'` adds to `table`: the nodes of `e`, behind everything older. -/
structure Adds (table table' : NodeTable) (e : TriggerExpr String) : Prop where
  length : table'.heap.length = table.heap.length + e.graphSize
  heap : ∀ i < table.heap.length, table'.heap[i]? = table.heap[i]?
  names : ∀ n ∉ e.nodeNames, table'.allNodes n = table.allNodes n
  located : Located table' e table.heap.length [] []

theorem isLiteral_of_operatorFree {n : String} (h : OperatorFree n) :
    (n == ";") = false ∧ (n == "&") = false ∧ (n == "|") = false := by
  refine ⟨?_, ?_, ?_⟩ <;>
    exact beq_false_of_ne fun heq => by
      rw [heq] at h
      revert h
      decide

theorem adds_literal (table : NodeTable) (n : String) :
    Adds table (table.alloc ⟨.literal, n, [], []⟩).2 (.literal n) where
  length := List.length_append
  heap := fun _ hi => List.getElem?_append_left hi
  names := fun _ hm => Function.update_of_ne (fun h => hm (List.mem_singleton.mpr h)) _ _
  located := ⟨List.getElem?_concat_length, Function.update_self _ _ _⟩

/-- Allocating the right side leaves the left side in place. -/
theorem Adds.located_left {op : Connective} {table table₁ table₂ : NodeTable}
    {l r : TriggerExpr String} (hwn : (TriggerExpr.node op l r).WellNamed)
    (hl : Adds table table₁ l) (hr : Adds table₁ table₂ r) :
    Located table₂ l table.heap.length [] [] := by
  refine hl.located.congr ?_ fun n hn => hr.names n (hwn.nodeNames_disjoint hn)
  intro i _ hi
  exact hr.heap i (by rw [hl.length]; exact hi)

theorem Adds.located_right {table table₁ table₂ : NodeTable} {l r : TriggerExpr String}
    (hl : Adds table table₁ l) (hr : Adds table₁ table₂ r) :
    Located table₂ r (table.heap.length + l.graphSize) [] [] := by
  rw [← hl.length]
  exact hr.located

theorem linkPredecessors_length (q : NodePtr) (sources : List NodePtr) (table : NodeTable) :
    (linkPredecessors q sources table).heap.length = table.heap.length := by
  induction sources generalizing table with
  | nil => rfl
  | cons p sources ih =>
    show (linkPredecessors q sources (table.modify p (.addPredecessors [q]))).heap.length = _
    rw [ih]
    exact List.length_modify ..

/-- The two sides of `l;r` are linked sink to sources. -/
theorem Adds.seq {table table₁ table₂ : NodeTable} {l r : TriggerExpr String}
    (hwn : (TriggerExpr.node .seq l r).WellNamed) (hl : Adds table table₁ l)
    (hr : Adds table₁ table₂ r) :
    Adds table (linkPredecessors (l.graphSink table.heap.length)
      (r.graphSources table₁.heap.length)
      (table₂.modify (l.graphSink table.heap.length)
        (.addSuccessors (r.graphSources table₁.heap.length)))) (.node .seq l r) := by
  have hsink := l.graphSink_mem table.heap.length
  have hsources := r.graphSources_mem (table.heap.length + l.graphSize)
  have hlength := hl.length
  constructor
  · rw [linkPredecessors_length]
    show (List.modify table₂.heap _ _).length = _
    rw [List.length_modify, hr.length, hlength, TriggerExpr.graphSize, Nat.add_assoc]
  · intro i hi
    rw [linkPredecessors_of_notMem, NodeTable.modify_of_ne _ _ (by omega), hr.heap i (by omega),
      hl.heap i hi]
    intro hmem
    have := r.graphSources_mem _ i hmem
    omega
  · intro n hn
    rw [TriggerExpr.nodeNames, List.mem_append, not_or] at hn
    rw [linkPredecessors_allNodes, NodeTable.modify_allNodes, hr.names n hn.2, hl.names n hn.1]
  · have hleft := (hl.located_left hwn hr).addSuccessors
      (r.graphSources (table.heap.length + l.graphSize))
    have hright : Located (table₂.modify (l.graphSink table.heap.length) (.addSuccessors
        (r.graphSources (table.heap.length + l.graphSize)))) r
        (table.heap.length + l.graphSize) [] [] :=
      (hl.located_right hr).congr (fun i hi _ => NodeTable.modify_of_ne _ _ (by omega))
        fun n _ => rfl
    rw [hlength]
    refine ⟨hleft.linkOther _ ?_, hright.addPredecessors _⟩
    exact fun p hp => Or.inr (hsources p hp).1

/-- The two sides of `l&r` and `l|r` are linked to one new node. -/
theorem Adds.join {op : Connective} (hop : op ≠ .seq) {table table₁ table₂ : NodeTable}
    {l r : TriggerExpr String} (hwn : (TriggerExpr.node op l r).WellNamed)
    (hl : Adds table table₁ l) (hr : Adds table₁ table₂ r) :
    (joinTriggerNodes op.joinType (TriggerExpr.node op l r).composedName
        (l.graphSink table.heap.length) (r.graphSink table₁.heap.length) table₂).1 =
      (TriggerExpr.node op l r).graphSink table.heap.length ∧
    Adds table (joinTriggerNodes op.joinType (TriggerExpr.node op l r).composedName
      (l.graphSink table.heap.length) (r.graphSink table₁.heap.length) table₂).2
      (.node op l r) := by
  have hlength := hl.length
  have hlength₂ := hr.length
  have hsinkl := l.graphSink_mem table.heap.length
  have hsinkr := r.graphSink_mem table₁.heap.length
  have hfresh := hwn.composedName_notMem
  have hsize := TriggerExpr.graphSize_join hop l r
  have hnode : table₂.heap.length = table.heap.length + l.graphSize + r.graphSize := by omega
  generalize hnew : (⟨op.joinType, (TriggerExpr.node op l r).composedName,
    [l.graphSink table.heap.length, r.graphSink table₁.heap.length], []⟩ : TriggerNode) = new
  have hjoin : joinTriggerNodes op.joinType (TriggerExpr.node op l r).composedName
      (l.graphSink table.heap.length) (r.graphSink table₁.heap.length) table₂ =
      (table₂.heap.length, ((table₂.alloc new).2.modify (l.graphSink table.heap.length)
        (.addSuccessors [table₂.heap.length])).modify (r.graphSink table₁.heap.length)
        (.addSuccessors [table₂.heap.length])) := by
    rw [← hnew]
    rfl
  have halloc : ∀ i < table₂.heap.length, (table₂.alloc new).2.heap[i]? = table₂.heap[i]? :=
    fun i hi => List.getElem?_append_left hi
  have hnames : ∀ n ≠ (TriggerExpr.node op l r).composedName,
      (table₂.alloc new).2.allNodes n = table₂.allNodes n := by
    intro n hn
    rw [← hnew]
    exact Function.update_of_ne hn _ _
  rw [hjoin, TriggerExpr.graphSink_join hop]
  refine ⟨hnode, ?_, ?_, ?_, ?_⟩
  · show (List.modify (List.modify (table₂.heap ++ [new]) _ _) _ _).length = _
    rw [List.length_modify, List.length_modify, List.length_append, List.length_singleton, hsize]
    omega
  · intro i hi
    rw [NodeTable.modify_of_ne _ _ (by omega), NodeTable.modify_of_ne _ _ (by omega),
      halloc i (by omega), hr.heap i (by omega), hl.heap i hi]
  · intro n hn
    simp only [TriggerExpr.nodeNames_join hop, List.mem_append, List.mem_singleton, not_or] at hn
    rw [NodeTable.modify_allNodes, NodeTable.modify_allNodes, hnames n hn.2, hr.names n hn.1.2,
      hl.names n hn.1.1]
  · rw [located_join hop, ← hnode]
    refine ⟨?_, ?_, ?_, ?_⟩
    · have hleft : Located (table₂.alloc new).2 l table.heap.length [] [] :=
        (hl.located_left hwn hr).congr (fun i _ hi => halloc i (by omega))
          fun n hn => hnames n fun h => hfresh.1 (h ▸ hn)
      refine (hleft.addSuccessors [table₂.heap.length]).congr ?_ fun n _ => rfl
      exact fun i hi hi' => NodeTable.modify_of_ne _ _ (by omega)
    · have hright : Located ((table₂.alloc new).2.modify (l.graphSink table.heap.length)
          (.addSuccessors [table₂.heap.length])) r (table.heap.length + l.graphSize) [] [] :=
        (hl.located_right hr).congr
          (fun i hi hi' => by rw [NodeTable.modify_of_ne _ _ (by omega), halloc i (by omega)])
          fun n hn => hnames n fun h => hfresh.2 (h ▸ hn)
      have hlinked := hright.addSuccessors [table₂.heap.length]
      rw [← hlength] at hlinked ⊢
      exact hlinked
    · rw [NodeTable.modify_of_ne _ _ (by omega), NodeTable.modify_of_ne _ _ (by omega), ← hlength,
        ← hnew]
      exact List.getElem?_concat_length
    · rw [NodeTable.modify_allNodes, NodeTable.modify_allNodes, ← hnew]
      exact Function.update_self _ _ _

/-- **Building the graph of a well-named expression** allocates its nodes behind everything older
and returns its sources and its sink. -/
theorem binaryTreeToTriggerNode_located {e : TriggerExpr String} (hwn : e.WellNamed)
    (table : NodeTable) :
    ∃ table', binaryTreeToTriggerNode e.toTree table =
        .ok ((e.graphSources table.heap.length, e.graphSink table.heap.length), table') ∧
      Adds table table' e := by
  induction e generalizing table with
  | literal n =>
    obtain ⟨hseq, hand, hor⟩ :=
      isLiteral_of_operatorFree (hwn.operatorFree n (List.mem_singleton_self n))
    refine ⟨_, ?_, adds_literal table n⟩
    rw [TriggerExpr.toTree, binaryTreeToTriggerNode, hseq, hand, hor]
    rfl
  | node op l r ihl ihr =>
    obtain ⟨table₁, hrun₁, hl⟩ := ihl hwn.left table
    obtain ⟨table₂, hrun₂, hr⟩ := ihr hwn.right table₁
    rw [TriggerExpr.toTree, binaryTreeToTriggerNode, hrun₁]
    show ∃ table', (if op.symbol == ";" then
        (binaryTreeToTriggerNode r.toTree table₁ >>= fun s => _)
      else if op.symbol == "&" then (binaryTreeToTriggerNode r.toTree table₁ >>= fun s => _)
      else if op.symbol == "|" then (binaryTreeToTriggerNode r.toTree table₁ >>= fun s => _)
      else _) = _ ∧ _
    rw [hrun₂]
    cases op with
    | seq =>
      refine ⟨_, ?_, hl.seq hwn hr⟩
      show _ = Except.ok ((l.graphSources _, r.graphSink (_ + l.graphSize)), _)
      rw [← hl.length]
      rfl
    | and =>
      obtain ⟨hnode, hadds⟩ := Adds.join (show Connective.and ≠ .seq from nofun) hwn hl hr
      refine ⟨_, ?_, hadds⟩
      rw [← hnode, TriggerExpr.graphSources, ← hl.length]
      · rfl
      · exact nofun
    | or =>
      obtain ⟨hnode, hadds⟩ := Adds.join (show Connective.or ≠ .seq from nofun) hwn hl hr
      refine ⟨_, ?_, hadds⟩
      rw [← hnode, TriggerExpr.graphSources, ← hl.length]
      · rfl
      · exact nofun

end Sieve.Server
