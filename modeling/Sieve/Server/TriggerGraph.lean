import Sieve.Server.Expression
import Mathlib.Data.Finset.Basic

/-!
# The trigger graph: the coordinator's code

The definitions follow the rest of `trigger_graph.go`.  Trigger nodes are allocated one after the
other in a heap and pointers are their positions there:

* `binaryTreeToTriggerNode`: allocates the nodes of a tree and links them;
* `trigger`, `triggerOrAnd`: fire a literal and cascade along the successors.

`triggerOrAnd` recurses along the successors; its bound is the number of nodes on the stack, and at
`0` the stack overflows.
-/

namespace Sieve.Server

/-! ### Nodes and the heap -/

inductive NodeType where
  | literal
  | and
  | or
  deriving DecidableEq, Repr

/-- A `*TriggerNode`: a position in the heap. -/
abbrev NodePtr := ℕ

structure TriggerNode where
  nodeType : NodeType
  nodeName : String
  predecessors : List NodePtr
  successors : List NodePtr
  deriving DecidableEq, Repr

def TriggerNode.addPredecessors (nodes : List NodePtr) (tn : TriggerNode) : TriggerNode :=
  { tn with predecessors := tn.predecessors ++ nodes }

def TriggerNode.addSuccessors (nodes : List NodePtr) (tn : TriggerNode) : TriggerNode :=
  { tn with successors := tn.successors ++ nodes }

abbrev Heap := List TriggerNode

def Heap.deref (heap : Heap) (p : NodePtr) : Except Fatal TriggerNode :=
  match heap[p]? with
  | some node => .ok node
  | none => .error .nilDereference

/-- `allNodes` together with the heap it points into. -/
structure NodeTable where
  heap : Heap
  allNodes : String → Option NodePtr

/-- Allocate a node and enter it in `allNodes` under its name. -/
def NodeTable.alloc (table : NodeTable) (node : TriggerNode) : NodePtr × NodeTable :=
  (table.heap.length,
    { heap := table.heap ++ [node]
      allNodes := Function.update table.allNodes node.nodeName (some table.heap.length) })

def NodeTable.modify (table : NodeTable) (p : NodePtr) (f : TriggerNode → TriggerNode) :
    NodeTable :=
  { table with heap := List.modify table.heap p f }

/-! ### From the tree to the graph -/

/-- The common part of the cases `&` and `|`. -/
def joinTriggerNodes (nodeType : NodeType) (composedName : String) (sinkOfLeft sinkOfRight : NodePtr)
    (table : NodeTable) : NodePtr × NodeTable :=
  let (node, table) := table.alloc ⟨nodeType, composedName, [sinkOfLeft, sinkOfRight], []⟩
  let table := table.modify sinkOfLeft (.addSuccessors [node])
  let table := table.modify sinkOfRight (.addSuccessors [node])
  (node, table)

def binaryTreeToTriggerNode :
    TreeNode → NodeTable → Except Fatal ((List NodePtr × NodePtr) × NodeTable)
  | .nil, _ => .error .nilDereference
  | .node name composedName left right, table =>
    if name == ";" then do
      let ((sourcesOfLeft, sinkOfLeft), table) ← binaryTreeToTriggerNode left table
      let ((sourcesOfRight, sinkOfRight), table) ← binaryTreeToTriggerNode right table
      let table := table.modify sinkOfLeft (.addSuccessors sourcesOfRight)
      let table := sourcesOfRight.foldl
        (fun table source => table.modify source (.addPredecessors [sinkOfLeft])) table
      .ok ((sourcesOfLeft, sinkOfRight), table)
    else if name == "&" then do
      let ((sourcesOfLeft, sinkOfLeft), table) ← binaryTreeToTriggerNode left table
      let ((sourcesOfRight, sinkOfRight), table) ← binaryTreeToTriggerNode right table
      let (triggerAndNode, table) := joinTriggerNodes .and composedName sinkOfLeft sinkOfRight table
      .ok ((sourcesOfLeft ++ sourcesOfRight, triggerAndNode), table)
    else if name == "|" then do
      let ((sourcesOfLeft, sinkOfLeft), table) ← binaryTreeToTriggerNode left table
      let ((sourcesOfRight, sinkOfRight), table) ← binaryTreeToTriggerNode right table
      let (triggerOrNode, table) := joinTriggerNodes .or composedName sinkOfLeft sinkOfRight table
      .ok ((sourcesOfLeft ++ sourcesOfRight, triggerOrNode), table)
    else
      let (triggerLiteralNode, table) := table.alloc ⟨.literal, composedName, [], []⟩
      .ok (([triggerLiteralNode], triggerLiteralNode), table)

structure TriggerGraph where
  sources : List NodePtr
  sink : NodePtr
  table : NodeTable
  toSatisfy : Finset String
  satisfied : Finset String

def binaryTreeToTriggerGraph (node : TreeNode) : Except Fatal TriggerGraph := do
  let ((sources, sink), table) ← binaryTreeToTriggerNode node ⟨[], fun _ => none⟩
  let toSatisfy ← sources.foldlM (fun toSatisfy source => do
    let node ← table.heap.deref source
    .ok (insert node.nodeName toSatisfy)) ∅
  .ok ⟨sources, sink, table, toSatisfy, ∅⟩

/-! ### Firing -/

namespace TriggerGraph

def fullyTriggered (tg : TriggerGraph) : Except Fatal Bool := do
  let node ← tg.table.heap.deref tg.sink
  .ok (decide (node.nodeName ∈ tg.satisfied))

/-- `tg.allNodes[nodeName]`, about to be dereferenced. -/
def lookup (tg : TriggerGraph) (nodeName : String) : Except Fatal TriggerNode :=
  match tg.table.allNodes nodeName with
  | some p => tg.table.heap.deref p
  | none => .error .nilDereference

/-- The checks that start `trigger` and `triggerOrAnd`, up to the look at the node's type. -/
def checkPending (nodeName : String) (tg : TriggerGraph) : Except Fatal TriggerNode :=
  if nodeName ∉ tg.toSatisfy then .error (.notInToSatisfy nodeName)
  else if nodeName ∈ tg.satisfied then .error (.inSatisfied nodeName)
  else tg.lookup nodeName

def markSatisfied (nodeName : String) (tg : TriggerGraph) : TriggerGraph :=
  { tg with
    satisfied := insert nodeName tg.satisfied
    toSatisfy := tg.toSatisfy.erase nodeName }

def markToSatisfy (nodeName : String) (tg : TriggerGraph) : TriggerGraph :=
  { tg with toSatisfy := insert nodeName tg.toSatisfy }

/-- The loop over an And node's predecessors. -/
def andIsTriggered (tg : TriggerGraph) (predecessors : List NodePtr) : Except Fatal Bool :=
  predecessors.foldlM (fun andIsTriggered predecessor => do
    let node ← tg.table.heap.deref predecessor
    .ok (if node.nodeName ∉ tg.satisfied then false else andIsTriggered)) true

/-- One round of the loop over the successors of a satisfied node. -/
def triggerSuccessor (triggerOrAnd : String → TriggerGraph → Except Fatal TriggerGraph)
    (tg : TriggerGraph) (successor : NodePtr) : Except Fatal TriggerGraph := do
  let node ← tg.table.heap.deref successor
  let tg := tg.markToSatisfy node.nodeName
  match node.nodeType with
  | .or => triggerOrAnd node.nodeName tg
  | .and => do
    if ← tg.andIsTriggered node.predecessors then triggerOrAnd node.nodeName tg else .ok tg
  | .literal => .ok tg

def triggerOrAnd : ℕ → String → TriggerGraph → Except Fatal TriggerGraph
  | 0, _, _ => .error .stackOverflow
  | n + 1, nodeName, tg => do
    let node ← tg.checkPending nodeName
    if node.nodeType != .or && node.nodeType != .and then .error (.notOrNorAnd nodeName)
    else node.successors.foldlM (triggerSuccessor (triggerOrAnd n)) (tg.markSatisfied nodeName)

/-- `trigger` with the bound `n` for the cascade. -/
def triggerWithin (n : ℕ) (nodeName : String) (tg : TriggerGraph) : Except Fatal TriggerGraph := do
  let node ← tg.checkPending nodeName
  if node.nodeType != .literal then .error (.notLiteral nodeName)
  else node.successors.foldlM (triggerSuccessor (triggerOrAnd n)) (tg.markSatisfied nodeName)

def trigger (nodeName : String) (tg : TriggerGraph) : Except Fatal TriggerGraph :=
  tg.triggerWithin tg.table.heap.length nodeName

end TriggerGraph

example : ((do
    let tg ← binaryTreeToTriggerGraph (← expressionToBinaryTree "(a|b)&c")
    let tg ← tg.trigger "b"
    let tg ← tg.trigger "c"
    tg.fullyTriggered) : Except Fatal Bool) = .ok true := by decide

end Sieve.Server
