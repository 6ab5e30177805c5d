import Sieve.Analyzer.EventGraph
import Sieve.Library.FoldExcept

/-!
# From events heard to writes

The part of `event_graph.py` and of `analyze.py` that connects the events heard with the writes and
annotated API calls that they may have caused:

* `HearWriteGraph`: the vertices, added in order, and the edges;
* `generateHearWritePairs`: which vertices are connected;
* `HearWriteGraph.sanityCheck`: what is asserted about the graph afterwards;
* `connected_accepted_iff`: when the check accepts what has been connected.
-/

namespace Sieve.Analyzer

open Sieve.Library

/-! ### Vertices and edges -/

/-- An event heard, with the lines where it begins and ends. -/
structure TimedHear where
  hear : ControllerHear
  startTimestamp : ℤ
  endTimestamp : ℤ

/-- What an edge may lead to. -/
inductive Effect where
  | write (write : ControllerWrite)
  | nonK8sWrite (call : ControllerNonK8sWrite)

namespace Effect

def isControllerWrite : Effect → Bool
  | .write _ => true
  | .nonK8sWrite _ => false

def reconcileId : Effect → ℤ
  | .write w => w.reconcileId
  | .nonK8sWrite c => c.reconcileId

def startTimestamp : Effect → ℤ
  | .write w => w.startTimestamp
  | .nonK8sWrite c => c.startTimestamp

def endTimestamp : Effect → ℤ
  | .write w => w.endTimestamp
  | .nonK8sWrite c => c.endTimestamp

def rangeStartTimestamp : Effect → ℤ
  | .write w => w.rangeStartTimestamp
  | .nonK8sWrite c => c.rangeStartTimestamp

def rangeEndTimestamp : Effect → ℤ
  | .write w => w.rangeEndTimestamp
  | .nonK8sWrite c => c.rangeEndTimestamp

end Effect

/-- `gid` is the number of the vertex. -/
structure EventVertex (α : Type) where
  gid : ℕ
  content : α

structure EventEdge where
  source : EventVertex TimedHear
  sink : EventVertex Effect

/-- The out-edges belong to the vertex with the number. -/
structure HearWriteGraph where
  vertexCnt : ℕ
  controllerHearVertices : List (EventVertex TimedHear)
  controllerWriteVertices : List (EventVertex ControllerWrite)
  controllerNonK8sWriteVertices : List (EventVertex ControllerNonK8sWrite)
  controllerHearIds : Finset ℤ
  outInterReconcilerEdges : ℕ → List EventEdge
  controllerHearControllerWriteEdges : List EventEdge

namespace HearWriteGraph

def empty : HearWriteGraph := ⟨0, [], [], [], ∅, fun _ => [], []⟩

def addControllerHear (graph : HearWriteGraph) (hear : TimedHear) :
    Except AnalysisError HearWriteGraph :=
  if hear.hear.id ∈ graph.controllerHearIds then .error .assertion
  else .ok { graph with
    vertexCnt := graph.vertexCnt + 1
    controllerHearVertices := graph.controllerHearVertices ++ [⟨graph.vertexCnt, hear⟩]
    controllerHearIds := insert hear.hear.id graph.controllerHearIds }

def addSortedControllerHears (graph : HearWriteGraph) (hears : List TimedHear) :
    Except AnalysisError HearWriteGraph := hears.foldlM addControllerHear graph

/-- Reads and round boundaries get numbers, too. -/
def addReconcilerEvent (graph : HearWriteGraph) : ReconcilerEvent → HearWriteGraph
  | .write write => { graph with
      vertexCnt := graph.vertexCnt + 1
      controllerWriteVertices := graph.controllerWriteVertices ++ [⟨graph.vertexCnt, write⟩] }
  | .nonK8sWrite call => { graph with
      vertexCnt := graph.vertexCnt + 1
      controllerNonK8sWriteVertices :=
        graph.controllerNonK8sWriteVertices ++ [⟨graph.vertexCnt, call⟩] }
  | _ => { graph with vertexCnt := graph.vertexCnt + 1 }

def addSortedReconcilerEvents (graph : HearWriteGraph) (events : List ReconcilerEvent) :
    HearWriteGraph := events.foldl addReconcilerEvent graph

/-- `connect_hear_to_write`. -/
def connectHearToWrite (graph : HearWriteGraph) (pair : EventVertex TimedHear × EventVertex Effect) :
    Except AnalysisError HearWriteGraph :=
  if pair.1.content.startTimestamp < pair.2.content.startTimestamp then
    .ok { graph with
      outInterReconcilerEdges := Function.update graph.outInterReconcilerEdges pair.1.gid
        (graph.outInterReconcilerEdges pair.1.gid ++ [⟨pair.1, pair.2⟩])
      controllerHearControllerWriteEdges :=
        graph.controllerHearControllerWriteEdges ++ [⟨pair.1, pair.2⟩] }
  else .error .assertion

end HearWriteGraph

/-! ### Pairs -/

/-- `base_pass`: what has been heard before the write and since its range began. -/
def basePass (hears : List (EventVertex TimedHear)) (effects : List (EventVertex Effect)) :
    List (EventVertex TimedHear × EventVertex Effect) :=
  effects.flatMap fun effect =>
    (hears.filter fun hear =>
      effect.content.reconcileId != -1 &&
        decide (effect.content.rangeStartTimestamp < hear.content.endTimestamp) &&
        decide (hear.content.startTimestamp < effect.content.startTimestamp)).map
      fun hear => (hear, effect)

/-- `hear_read_overlap_filtering_pass`; annotated API calls have no reads. -/
def readOverlaps (pair : EventVertex TimedHear × EventVertex Effect) : Bool :=
  match pair.2.content with
  | .write write => decide (pair.1.content.hear.key ∈ write.readKeys) ||
      decide (pair.1.content.hear.rtype ∈ write.readTypes)
  | .nonK8sWrite _ => true

/-- The vertices of the writes, and after them those of the annotated API calls. -/
def HearWriteGraph.effects (graph : HearWriteGraph) : List (EventVertex Effect) :=
  graph.controllerWriteVertices.map (fun vertex => ⟨vertex.gid, .write vertex.content⟩) ++
    graph.controllerNonK8sWriteVertices.map fun vertex => ⟨vertex.gid, .nonK8sWrite vertex.content⟩

def generateHearWritePairs (graph : HearWriteGraph) :
    List (EventVertex TimedHear × EventVertex Effect) :=
  (basePass graph.controllerHearVertices graph.effects).filter readOverlaps

/-! ### The check -/

/-- Each is later than the one before. -/
def increasing : List ℤ → Bool
  | earlier :: later :: rest => decide (earlier < later) && increasing (later :: rest)
  | _ => true

namespace HearWriteGraph

/-- The out-edges of a vertex begin at it. -/
def edgesBegin (graph : HearWriteGraph) (gid : ℕ) : Bool :=
  (graph.outInterReconcilerEdges gid).all fun edge => gid == edge.source.gid

def hearOk (graph : HearWriteGraph) (vertex : EventVertex TimedHear) : Bool :=
  vertex.content.startTimestamp != -1 && vertex.content.endTimestamp != -1 &&
    decide (vertex.content.startTimestamp < vertex.content.endTimestamp) &&
    graph.edgesBegin vertex.gid

def writeOk (graph : HearWriteGraph) (vertex : EventVertex ControllerWrite) : Bool :=
  decide (vertex.content.startTimestamp < vertex.content.endTimestamp) &&
    graph.edgesBegin vertex.gid &&
    (vertex.content.reconcileId == -1 || vertex.content.rangeEndTimestamp != -1 &&
      decide (vertex.content.rangeStartTimestamp < vertex.content.rangeEndTimestamp) &&
      vertex.content.endTimestamp == vertex.content.rangeEndTimestamp)

/-- The assertions about an edge from an event heard to a write. -/
def edgeOk (edge : EventEdge) : Bool :=
  edge.sink.content.isControllerWrite &&
    decide (edge.source.content.startTimestamp < edge.sink.content.startTimestamp)

/-- `sanity_check`; that a vertex has the method `is_controller_hear` is no condition. -/
def sanityCheck (graph : HearWriteGraph) : Except AnalysisError Unit :=
  if increasing (graph.controllerHearVertices.map fun vertex => vertex.content.startTimestamp) &&
      graph.controllerHearVertices.all graph.hearOk &&
      increasing (graph.controllerWriteVertices.map fun vertex => vertex.content.startTimestamp) &&
      graph.controllerWriteVertices.all graph.writeOk &&
      graph.controllerHearControllerWriteEdges.all edgeOk then .ok ()
  else .error .assertion

end HearWriteGraph

/-! ### What is connected -/

/-- The write or the annotated API call of an event. -/
def effectOf : ReconcilerEvent → Option Effect
  | .write write => some (.write write)
  | .nonK8sWrite call => some (.nonK8sWrite call)
  | _ => none

/-- The timestamps are line numbers, in order: the events heard and the writes and calls begin one
after the other and end later, and a range, which a write or call in a round has, begins earlier than
it ends, with the write. -/
structure WellTimed (hears : List TimedHear) (events : List ReconcilerEvent) : Prop where
  hearsOrdered : hears.Pairwise fun earlier later => earlier.startTimestamp < later.startTimestamp
  hears : ∀ hear ∈ hears, 0 ≤ hear.startTimestamp ∧ hear.startTimestamp < hear.endTimestamp
  effectsOrdered : (events.filterMap effectOf).Pairwise fun earlier later =>
    earlier.startTimestamp < later.startTimestamp
  effects : ∀ effect ∈ events.filterMap effectOf, 0 ≤ effect.startTimestamp ∧
    effect.startTimestamp < effect.endTimestamp
  ranges : ∀ effect ∈ events.filterMap effectOf, effect.reconcileId ≠ -1 →
    effect.rangeStartTimestamp < effect.rangeEndTimestamp ∧
      effect.rangeEndTimestamp = effect.endTimestamp

/-- The graph with these events. -/
def buildGraph (hears : List TimedHear) (events : List ReconcilerEvent) :
    Except AnalysisError HearWriteGraph := do
  let graph ← HearWriteGraph.empty.addSortedControllerHears hears
  .ok (graph.addSortedReconcilerEvents events)

/-- The annotated API calls among the events. -/
def controllerCalls (events : List ReconcilerEvent) : List ControllerNonK8sWrite :=
  events.filterMap fun event =>
    match event with
    | .nonK8sWrite call => some call
    | _ => none

/-- The call is in a round, and something is heard before it and since its range began. -/
def CallPaired (hears : List TimedHear) (events : List ReconcilerEvent) : Prop :=
  ∃ call hear, .nonK8sWrite call ∈ events ∧ hear ∈ hears ∧ call.reconcileId ≠ -1 ∧
    call.rangeStartTimestamp < hear.endTimestamp ∧ hear.startTimestamp < call.startTimestamp

/-! ### The graph that is checked -/

/-- What the vertices hold, before anything is connected. -/
structure Holds (graph : HearWriteGraph) (hears : List TimedHear) (events : List ReconcilerEvent) :
    Prop where
  hears : graph.controllerHearVertices.map EventVertex.content = hears
  writes : graph.controllerWriteVertices.map EventVertex.content = controllerWrites events
  calls : graph.controllerNonK8sWriteVertices.map EventVertex.content = controllerCalls events
  unconnected : graph.controllerHearControllerWriteEdges = []
  noEdges : ∀ gid, graph.outInterReconcilerEdges gid = []

theorem holds_hears {hears : List TimedHear} {graph : HearWriteGraph}
    (h : HearWriteGraph.empty.addSortedControllerHears hears = .ok graph) : Holds graph hears [] := by
  refine foldlM_invariant (fun hears graph => Holds graph hears [])
    ⟨rfl, rfl, rfl, rfl, fun _ => rfl⟩ (fun hears hear graph graph' hholds hstep => ?_) h
  rw [HearWriteGraph.addControllerHear] at hstep
  split at hstep
  · cases hstep
  · rw [← Except.ok.inj hstep]
    exact ⟨by simp [hholds.hears], hholds.writes, hholds.calls, hholds.unconnected, hholds.noEdges⟩

theorem Holds.addReconcilerEvent {hears : List TimedHear} {events : List ReconcilerEvent}
    {graph : HearWriteGraph} (h : Holds graph hears events) (event : ReconcilerEvent) :
    Holds (graph.addReconcilerEvent event) hears (events ++ [event]) := by
  obtain ⟨hhears, hwrites, hcalls, hunconnected, hnoEdges⟩ := h
  cases event with
  | write w =>
    refine ⟨hhears, ?_, ?_, hunconnected, hnoEdges⟩
    · simp [HearWriteGraph.addReconcilerEvent, controllerWrites, hwrites]
    · simp [HearWriteGraph.addReconcilerEvent, controllerCalls, hcalls]
  | nonK8sWrite c =>
    refine ⟨hhears, ?_, ?_, hunconnected, hnoEdges⟩
    · simp [HearWriteGraph.addReconcilerEvent, controllerWrites, hwrites]
    · simp [HearWriteGraph.addReconcilerEvent, controllerCalls, hcalls]
  | _ =>
    refine ⟨hhears, ?_, ?_, hunconnected, hnoEdges⟩
    · simp [HearWriteGraph.addReconcilerEvent, controllerWrites, hwrites]
    · simp [HearWriteGraph.addReconcilerEvent, controllerCalls, hcalls]

theorem holds_built {hears : List TimedHear} {events : List ReconcilerEvent} {graph : HearWriteGraph}
    (h : buildGraph hears events = .ok graph) : Holds graph hears events := by
  obtain ⟨graph₀, hhears, hgraph⟩ := bind_ok_iff.mp h
  rw [← Except.ok.inj hgraph, HearWriteGraph.addSortedReconcilerEvents]
  have hholds := holds_hears hhears
  clear h hgraph
  induction events using List.reverseRecOn with
  | nil => exact hholds
  | append_singleton events event ih =>
    rw [List.foldl_append]
    exact ih.addReconcilerEvent event

/-! ### Connecting the pairs -/

/-- The graph after these pairs have been connected. -/
structure Connected (graph : HearWriteGraph) (pairs : List (EventVertex TimedHear × EventVertex Effect))
    (graph' : HearWriteGraph) : Prop where
  hears : graph'.controllerHearVertices = graph.controllerHearVertices
  writes : graph'.controllerWriteVertices = graph.controllerWriteVertices
  edges : graph'.controllerHearControllerWriteEdges =
    graph.controllerHearControllerWriteEdges ++ pairs.map fun pair => ⟨pair.1, pair.2⟩
  begins : ∀ gid, graph'.edgesBegin gid = true

theorem Connected.step {graph graph' : HearWriteGraph}
    {pairs : List (EventVertex TimedHear × EventVertex Effect)} (h : Connected graph pairs graph')
    {pair : EventVertex TimedHear × EventVertex Effect}
    (hpair : pair.1.content.startTimestamp < pair.2.content.startTimestamp) :
    ∃ graph'', graph'.connectHearToWrite pair = .ok graph'' ∧
      Connected graph (pairs ++ [pair]) graph'' := by
  refine ⟨_, if_pos hpair, h.hears, h.writes, ?_, fun gid => ?_⟩
  · simp [h.edges]
  · have hbegins := h.begins
    rw [HearWriteGraph.edgesBegin]
    show (Function.update graph'.outInterReconcilerEdges pair.1.gid _ gid).all _ = true
    by_cases hgid : gid = pair.1.gid
    · have hgid' := hbegins pair.1.gid
      rw [HearWriteGraph.edgesBegin] at hgid'
      rw [hgid, Function.update_self, List.all_append, hgid']
      simp
    · rw [Function.update_of_ne hgid]
      exact hbegins gid

/-- **Pairs in order are connected.** -/
theorem connected_run {graph : HearWriteGraph} (hbegins : ∀ gid, graph.edgesBegin gid = true)
    {pairs : List (EventVertex TimedHear × EventVertex Effect)}
    (hpairs : ∀ pair ∈ pairs, pair.1.content.startTimestamp < pair.2.content.startTimestamp) :
    ∃ graph', pairs.foldlM HearWriteGraph.connectHearToWrite graph = .ok graph' ∧
      Connected graph pairs graph' := by
  induction pairs using List.reverseRecOn with
  | nil => exact ⟨graph, rfl, rfl, rfl, by simp, hbegins⟩
  | append_singleton pairs pair ih =>
    obtain ⟨graph', hrun, hconnected⟩ := ih fun p hmem => hpairs p (by simp [hmem])
    obtain ⟨graph'', hstep, hconnected'⟩ := hconnected.step (hpairs pair (by simp))
    exact ⟨graph'', foldlM_snoc_ok_iff.mpr ⟨graph', hrun, hstep⟩, hconnected'⟩

/-! ### The pairs -/

theorem mem_pairs_iff {graph : HearWriteGraph} {pair : EventVertex TimedHear × EventVertex Effect} :
    pair ∈ generateHearWritePairs graph ↔ pair.1 ∈ graph.controllerHearVertices ∧
      pair.2 ∈ graph.effects ∧ pair.2.content.reconcileId ≠ -1 ∧
      pair.2.content.rangeStartTimestamp < pair.1.content.endTimestamp ∧
      pair.1.content.startTimestamp < pair.2.content.startTimestamp ∧ readOverlaps pair = true := by
  obtain ⟨hear, effect⟩ := pair
  simp only [generateHearWritePairs, basePass, List.mem_filter, List.mem_flatMap, List.mem_map,
    Prod.mk.injEq, Bool.and_eq_true, bne_iff_ne, decide_eq_true_eq]
  constructor
  · intro h
    obtain ⟨⟨effect', heffect, hear', ⟨hhear, ⟨hid, hrange⟩, hstart⟩, rfl, rfl⟩, hoverlaps⟩ := h
    exact ⟨hhear, heffect, hid, hrange, hstart, hoverlaps⟩
  · intro h
    obtain ⟨hhear, heffect, hid, hrange, hstart, hoverlaps⟩ := h
    exact ⟨⟨effect, heffect, hear, ⟨hhear, ⟨hid, hrange⟩, hstart⟩, rfl, rfl⟩, hoverlaps⟩

theorem mem_controllerCalls {events : List ReconcilerEvent} {call : ControllerNonK8sWrite} :
    call ∈ controllerCalls events ↔ .nonK8sWrite call ∈ events := by
  rw [controllerCalls, List.mem_filterMap]
  constructor
  · intro h
    obtain ⟨event, hmem, heq⟩ := h
    cases event with
    | nonK8sWrite c => exact Option.some.inj heq ▸ hmem
    | _ => cases heq
  · exact fun h => ⟨_, h, rfl⟩

/-- All pairs lead to writes when no annotated API call is paired. -/
theorem pairs_to_writes_iff {graph : HearWriteGraph} {hears : List TimedHear}
    {events : List ReconcilerEvent} (h : Holds graph hears events) :
    (∀ pair ∈ generateHearWritePairs graph, pair.2.content.isControllerWrite = true) ↔
      ¬ CallPaired hears events := by
  constructor
  · intro hwrites hpaired
    obtain ⟨call, hear, hcall, hhear, hid, hrange, hstart⟩ := hpaired
    rw [← mem_controllerCalls, ← h.calls, List.mem_map] at hcall
    rw [← h.hears, List.mem_map] at hhear
    obtain ⟨callVertex, hcallVertex, rfl⟩ := hcall
    obtain ⟨hearVertex, hhearVertex, rfl⟩ := hhear
    have hmem : (⟨callVertex.gid, .nonK8sWrite callVertex.content⟩ : EventVertex Effect) ∈
        graph.effects :=
      List.mem_append.mpr (.inr (List.mem_map.mpr ⟨callVertex, hcallVertex, rfl⟩))
    have hpair := hwrites (hearVertex, ⟨callVertex.gid, .nonK8sWrite callVertex.content⟩)
      (mem_pairs_iff.mpr ⟨hhearVertex, hmem, hid, hrange, hstart, rfl⟩)
    cases hpair
  · intro hnot pair hpair
    obtain ⟨hhear, heffect, hid, hrange, hstart, -⟩ := mem_pairs_iff.mp hpair
    obtain ⟨hearVertex, effectVertex⟩ := pair
    obtain hwrite | hcall := List.mem_append.mp heffect
    · obtain ⟨vertex, -, rfl⟩ := List.mem_map.mp hwrite
      rfl
    · obtain ⟨vertex, hvertex, rfl⟩ := List.mem_map.mp hcall
      refine absurd ⟨vertex.content, hearVertex.content, ?_, ?_, hid, hrange, hstart⟩ hnot
      · rw [← mem_controllerCalls, ← h.calls]
        exact List.mem_map_of_mem hvertex
      · rw [← h.hears]
        exact List.mem_map_of_mem hhear

/-! ### The check of what has been connected -/

theorem increasing_of_pairwise {timestamps : List ℤ} (h : timestamps.Pairwise (· < ·)) :
    increasing timestamps = true := by
  induction timestamps with
  | nil => rfl
  | cons earlier rest ih =>
    cases rest with
    | nil => rfl
    | cons later rest =>
      rw [List.pairwise_cons] at h
      rw [increasing, Bool.and_eq_true, decide_eq_true_eq]
      exact ⟨h.1 later (by simp), ih h.2⟩

theorem controllerWrites_ordered {events : List ReconcilerEvent}
    (h : (events.filterMap effectOf).Pairwise fun earlier later =>
      earlier.startTimestamp < later.startTimestamp) :
    (controllerWrites events).Pairwise fun earlier later =>
      earlier.startTimestamp < later.startTimestamp := by
  rw [controllerWrites, List.pairwise_filterMap]
  rw [List.pairwise_filterMap] at h
  refine h.imp fun {earlier later} hlt write hwrite write' hwrite' => ?_
  cases earlier with
  | write w =>
    cases later with
    | write w' =>
      rw [← Option.some.inj hwrite, ← Option.some.inj hwrite']
      exact hlt (.write w) rfl (.write w') rfl
    | _ => cases hwrite'
  | _ => cases hwrite

/-- Only the kinds of the sinks are left to be checked. -/
theorem connected_sanityCheck_iff {graph graph' : HearWriteGraph} {hears : List TimedHear}
    {events : List ReconcilerEvent} (h : WellTimed hears events) (hholds : Holds graph hears events)
    (hconnected : Connected graph (generateHearWritePairs graph) graph') :
    graph'.sanityCheck = .ok () ↔
      ∀ pair ∈ generateHearWritePairs graph, pair.2.content.isControllerWrite = true := by
  have hhears : increasing (graph'.controllerHearVertices.map fun vertex =>
      vertex.content.startTimestamp) = true := by
    rw [hconnected.hears]
    refine increasing_of_pairwise ?_
    rw [← Function.comp_def TimedHear.startTimestamp, ← List.map_map, hholds.hears, List.pairwise_map]
    exact h.hearsOrdered
  have hwrites : increasing (graph'.controllerWriteVertices.map fun vertex =>
      vertex.content.startTimestamp) = true := by
    rw [hconnected.writes]
    refine increasing_of_pairwise ?_
    rw [← Function.comp_def ControllerWrite.startTimestamp, ← List.map_map, hholds.writes,
      List.pairwise_map]
    exact controllerWrites_ordered h.effectsOrdered
  have hhearOk : graph'.controllerHearVertices.all graph'.hearOk = true := by
    rw [List.all_eq_true, hconnected.hears]
    intro vertex hmem
    obtain ⟨hstart, hend⟩ := h.hears vertex.content (hholds.hears ▸ List.mem_map_of_mem hmem)
    simp only [HearWriteGraph.hearOk, hconnected.begins, Bool.and_true, Bool.and_eq_true, bne_iff_ne,
      decide_eq_true_eq]
    omega
  have hwriteOk : graph'.controllerWriteVertices.all graph'.writeOk = true := by
    rw [List.all_eq_true, hconnected.writes]
    intro vertex hmem
    have heffect : .write vertex.content ∈ events.filterMap effectOf :=
      List.mem_filterMap.mpr
        ⟨_, mem_controllerWrites_iff.mp (hholds.writes ▸ List.mem_map_of_mem hmem), rfl⟩
    obtain ⟨hstart, hend⟩ := h.effects _ heffect
    have hrange := h.ranges _ heffect
    simp only [Effect.startTimestamp, Effect.endTimestamp, Effect.reconcileId,
      Effect.rangeStartTimestamp, Effect.rangeEndTimestamp] at hstart hend hrange
    simp only [HearWriteGraph.writeOk, hconnected.begins, Bool.and_true, Bool.and_eq_true,
      Bool.or_eq_true, bne_iff_ne, beq_iff_eq, decide_eq_true_eq]
    refine ⟨hend, ?_⟩
    by_cases hid : vertex.content.reconcileId = -1
    · exact .inl hid
    · obtain ⟨hlt, heq⟩ := hrange hid
      exact .inr (by omega)
  rw [HearWriteGraph.sanityCheck, hhears, hwrites, hhearOk, hwriteOk, hconnected.edges,
    hholds.unconnected, List.nil_append, List.all_map]
  have hedges : (generateHearWritePairs graph).all
      (HearWriteGraph.edgeOk ∘ fun pair => ⟨pair.1, pair.2⟩) = true ↔
        ∀ pair ∈ generateHearWritePairs graph, pair.2.content.isControllerWrite = true := by
    rw [List.all_eq_true]
    refine forall₂_congr fun pair hmem => ?_
    obtain ⟨-, -, -, -, hstart, -⟩ := mem_pairs_iff.mp hmem
    simp [HearWriteGraph.edgeOk, hstart]
  rw [← hedges]
  simp only [Bool.and_self, Bool.true_and]
  split
  · rename_i hall
    exact iff_of_true rfl hall
  · rename_i hall
    exact iff_of_false nofun hall

/-- **What has been connected is accepted** exactly when nothing heard is paired with an annotated API
call. -/
theorem connected_accepted_iff {hears : List TimedHear} {events : List ReconcilerEvent}
    {graph : HearWriteGraph} (h : WellTimed hears events)
    (hgraph : buildGraph hears events = .ok graph) :
    (∃ graph', (generateHearWritePairs graph).foldlM HearWriteGraph.connectHearToWrite graph =
      .ok graph' ∧ graph'.sanityCheck = .ok ()) ↔ ¬ CallPaired hears events := by
  have hholds := holds_built hgraph
  have hbegins : ∀ gid, graph.edgesBegin gid = true := by
    intro gid
    rw [HearWriteGraph.edgesBegin, hholds.noEdges]
    rfl
  obtain ⟨graph', hrun, hconnected⟩ := connected_run hbegins fun pair hpair =>
    (mem_pairs_iff.mp hpair).2.2.2.2.1
  rw [← pairs_to_writes_iff hholds, ← connected_sanityCheck_iff h hholds hconnected]
  constructor
  · intro haccepted
    obtain ⟨graph'', hrun', hcheck⟩ := haccepted
    rw [hrun] at hrun'
    rw [Except.ok.inj hrun']
    exact hcheck
  · exact fun hcheck => ⟨graph', hrun, hcheck⟩

def podAdded : TimedHear :=
  ⟨⟨0, .added, "pod", "default", "a", [], none, none, none, [], 1⟩, 0, 1⟩

/-- A call in the first round, after the pod has been heard of. -/
def callAfterHear : ControllerNonK8sWrite where
  id := 0
  module := "main"
  filePath := "main.go"
  recvType := "*Client"
  funName := "Backup"
  reconcileFun := "Reconcile"
  reconcileId := 0
  startTimestamp := 3
  endTimestamp := 4
  rangeStartTimestamp := -1
  rangeEndTimestamp := 4

theorem wellTimed_beforeRounds :
    WellTimed [podAdded] [.nonK8sWrite { callAfterHear with reconcileId := -1 }] where
  hearsOrdered := List.pairwise_singleton _ _
  hears := by simp [podAdded]
  effectsOrdered := List.pairwise_singleton _ _
  effects := by simp [effectOf, callAfterHear, Effect.startTimestamp, Effect.endTimestamp]
  ranges := by simp [effectOf, Effect.reconcileId]

theorem connected_accepted_iff_beforeRounds :
    (∃ graph', (generateHearWritePairs ⟨2, [⟨0, podAdded⟩], [],
        [⟨1, { callAfterHear with reconcileId := -1 }⟩], {0}, fun _ => [], []⟩).foldlM
          HearWriteGraph.connectHearToWrite ⟨2, [⟨0, podAdded⟩], [],
            [⟨1, { callAfterHear with reconcileId := -1 }⟩], {0}, fun _ => [], []⟩ = .ok graph' ∧
        graph'.sanityCheck = .ok ()) ↔
      ¬ CallPaired [podAdded] [.nonK8sWrite { callAfterHear with reconcileId := -1 }] :=
  connected_accepted_iff wellTimed_beforeRounds rfl

/-- The call is connected with the pod, and the edge is refused. -/
theorem pairedCall_refused :
    WellTimed [podAdded] [.nonK8sWrite callAfterHear] ∧
      ∃ graph, buildGraph [podAdded] [.nonK8sWrite callAfterHear] = .ok graph ∧
        ∃ graph', (generateHearWritePairs graph).foldlM HearWriteGraph.connectHearToWrite graph =
          .ok graph' ∧ graph'.sanityCheck = .error .assertion := by
  refine ⟨⟨List.pairwise_singleton _ _, by simp [podAdded], List.pairwise_singleton _ _, ?_, ?_⟩,
    _, rfl, _, rfl, rfl⟩
  · simp [effectOf, callAfterHear, Effect.startTimestamp, Effect.endTimestamp]
  · simp [effectOf, callAfterHear, Effect.endTimestamp, Effect.rangeStartTimestamp,
      Effect.rangeEndTimestamp]

end Sieve.Analyzer
