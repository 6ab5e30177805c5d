import Sieve.Analyzer.K8sEvent

/-!
# The stale-state policy

`stale_state.py`: whether the API server is paused before or after the event that is to be missed.
The events of the reconcilers form a chain in the event graph, and `decide_stale_state_timing` walks
along it from a deletion:

* `EventGraph`, `addSortedReconcilerEvents`: the chain with its edges;
* `decideStaleStateTiming`: the walk, a loop that takes fuel here;
* `timingOf`: what the walk is looking for, in the events after the deletion;
* `staleStateTiming_iff`: when the walk finds it.
-/

namespace Sieve.Policies

open Sieve.Event Sieve.Analyzer

/-! ### Keys of differences -/

mutual

/-- The loop body over the common keys. -/
def sameKeyValue : Json → Json → Bool
  | .obj prev, .obj cur =>
    prev.all (fun field => (cur.lookup field.1).isSome) &&
      cur.all (fun field => (prev.lookup field.1).isSome) && sameKeyFields prev cur
  | .obj _, _ => false
  | _, _ => true

def sameKeyFields : Fields → Fields → Bool
  | [], _ => true
  | (key, prev) :: prevEvent, curEvent =>
    (match curEvent.lookup key with
      | some cur => sameKeyValue prev cur
      | none => true) && sameKeyFields prevEvent curEvent

end

def sameKey (prevEvent curEvent : Fields) : Bool := sameKeyValue (.obj prevEvent) (.obj curEvent)

/-! ### The chain of events -/

/-- The reconcilers' part of the graph.  A vertex is its place in the list, an edge its sink. -/
structure EventGraph where
  vertices : List ReconcilerEvent
  outIntraReconcilerEdges : ℕ → List ℕ

/-- The edge from the vertex before `i` to `i`. -/
def EventGraph.addOutIntraReconcilerEdge (graph : EventGraph) (i : ℕ) : EventGraph :=
  { graph with
    outIntraReconcilerEdges := Function.update graph.outIntraReconcilerEdges (i - 1)
      (graph.outIntraReconcilerEdges (i - 1) ++ [i]) }

def addSortedReconcilerEvents (reconcilerEventList : List ReconcilerEvent) : EventGraph :=
  (List.range' 1 (reconcilerEventList.length - 1)).foldl EventGraph.addOutIntraReconcilerEdge
    ⟨reconcilerEventList, fun _ => []⟩

/-! ### The walk -/

inductive Timing where
  | before
  | both
  | after
  deriving DecidableEq, Repr

def isReconcileEnd : ReconcilerEvent → Bool
  | .reconcileEnd _ => true
  | _ => false

/-- A write that creates the object with this key. -/
def isCreateOf (key : String) : ReconcilerEvent → Bool
  | .write write => write.etype == .create && write.key == key
  | _ => false

/-- What the loop body does at `nextVertex`: it returns, or goes on with this `reconcile_cnt`. -/
def visitVertex (key : String) (reconcileCnt : ℕ) (nextVertex : ReconcilerEvent) : Timing ⊕ ℕ :=
  if isReconcileEnd nextVertex then
    if reconcileCnt + 1 = 2 then .inl .after else .inr (reconcileCnt + 1)
  else if isCreateOf key nextVertex then
    .inl (if reconcileCnt = 0 then .before else .both)
  else .inr reconcileCnt

/-- The `while True`; `none` when the fuel is used up.  The last branches look at the edges of the
deletion, not of the current vertex. -/
def decideLoop (graph : EventGraph) (sinkVertex : ℕ) (key : String) :
    ℕ → ℕ → ℕ → Option (Except AnalysisError Timing)
  | 0, _, _ => none
  | fuel + 1, reconcileCnt, curVertex =>
    match graph.outIntraReconcilerEdges curVertex with
    | [next] =>
      match graph.vertices[next]? with
      | none => none
      | some nextVertex =>
        match visitVertex key reconcileCnt nextVertex with
        | .inl timing => some (.ok timing)
        | .inr reconcileCnt => decideLoop graph sinkVertex key fuel reconcileCnt next
    | _ =>
      if graph.outIntraReconcilerEdges sinkVertex = [] then some (.ok .after)
      else some (.error .assertion)

/-- `decide_stale_state_timing`, for the event heard and the place of the write. -/
def decideStaleStateTiming (graph : EventGraph) (source : ControllerHear) (sinkVertex fuel : ℕ) :
    Option (Except AnalysisError Timing) :=
  match graph.vertices[sinkVertex]? with
  | some (.write sink) =>
    if sink.etype != .delete then some (.error .assertion)
    else
      match source.slimPrevObjMap, source.slimCurObjMap with
      | none, _ => some (.ok .after)
      | some _, none => some (.error .attributeError)
      | some slimPrevObjMap, some slimCurObjMap =>
        if !sameKey slimPrevObjMap slimCurObjMap then some (.ok .after)
        else decideLoop graph sinkVertex sink.key fuel 0 sinkVertex
  | _ => some (.error .assertion)

/-- The timing for a creation after so many ends of rounds. -/
def timingAfter : ℕ → Timing
  | 0 => .before
  | 1 => .both
  | _ => .after

/-- The first creation of the key tells, if there is one. -/
def timingOf (key : String) (later : List ReconcilerEvent) : Timing :=
  match later.findIdx? (isCreateOf key) with
  | none => .after
  | some i => timingAfter ((later.take i).countP isReconcileEnd)

/-- The walk comes to a decision before the end of the chain. -/
def Decides (key : String) (later : List ReconcilerEvent) : Prop :=
  (∃ event ∈ later, isCreateOf key event = true) ∨ 2 ≤ later.countP isReconcileEnd

/-! ### The edges of the chain -/

theorem foldl_addEdge_vertices (graph : EventGraph) (is : List ℕ) :
    (is.foldl EventGraph.addOutIntraReconcilerEdge graph).vertices = graph.vertices := by
  induction is generalizing graph with
  | nil => rfl
  | cons i is ih => exact ih _

theorem addSortedReconcilerEvents_vertices (events : List ReconcilerEvent) :
    (addSortedReconcilerEvents events).vertices = events := foldl_addEdge_vertices _ _

theorem foldl_addEdge_edges (graph : EventGraph) (n i : ℕ) :
    ((List.range' 1 n).foldl EventGraph.addOutIntraReconcilerEdge
      graph).outIntraReconcilerEdges i =
      graph.outIntraReconcilerEdges i ++ (if i < n then [i + 1] else []) := by
  induction n with
  | zero => simp
  | succ n ih =>
    rw [List.range'_1_concat, List.foldl_append]
    show Function.update _ (1 + n - 1) _ i = _
    rw [Nat.add_sub_cancel_left]
    by_cases hi : i = n
    · rw [hi] at ih ⊢
      rw [Function.update_self, ih]
      simp [Nat.add_comm]
    · rw [Function.update_of_ne hi, ih]
      congr 1
      split <;> split <;> first | rfl | omega

/-- Every vertex but the last has one edge, to the vertex after it. -/
theorem addSortedReconcilerEvents_edges (events : List ReconcilerEvent) (i : ℕ) :
    (addSortedReconcilerEvents events).outIntraReconcilerEdges i =
      if i + 1 < events.length then [i + 1] else [] := by
  rw [addSortedReconcilerEvents, foldl_addEdge_edges, List.nil_append]
  congr 1
  simp only [eq_iff_iff]
  omega

/-! ### The walk along the rest of the chain -/

/-- The walk, told from the events that are still to come; `atEnd` is what happens at the end. -/
def walk (key : String) (atEnd : Except AnalysisError Timing) :
    ℕ → List ReconcilerEvent → Except AnalysisError Timing
  | _, [] => atEnd
  | reconcileCnt, event :: later =>
    match visitVertex key reconcileCnt event with
    | .inl timing => .ok timing
    | .inr reconcileCnt => walk key atEnd reconcileCnt later

variable {key : String}

/-- With enough fuel the loop is the walk. -/
theorem decideLoop_eq_walk {events : List ReconcilerEvent} (sinkVertex : ℕ) {fuel : ℕ}
    (reconcileCnt : ℕ) {curVertex : ℕ} (hcur : curVertex < events.length)
    (hfuel : events.length ≤ curVertex + fuel) :
    decideLoop (addSortedReconcilerEvents events) sinkVertex key fuel reconcileCnt curVertex =
      some (walk key (if sinkVertex + 1 < events.length then .error .assertion else .ok .after)
        reconcileCnt (events.drop (curVertex + 1))) := by
  induction fuel generalizing reconcileCnt curVertex with
  | zero => omega
  | succ fuel ih =>
    rw [decideLoop, addSortedReconcilerEvents_edges, addSortedReconcilerEvents_edges,
      addSortedReconcilerEvents_vertices]
    by_cases hnext : curVertex + 1 < events.length
    · rw [if_pos hnext]
      simp only [List.getElem?_eq_getElem hnext]
      rw [List.drop_eq_getElem_cons hnext, walk]
      cases visitVertex key reconcileCnt events[curVertex + 1] with
      | inl timing => rfl
      | inr reconcileCnt => exact ih reconcileCnt hnext (by omega)
    · rw [if_neg hnext, List.drop_eq_nil_of_le (by omega), walk]
      by_cases hsink : sinkVertex + 1 < events.length <;> simp [hsink]

theorem not_create_of_end {event : ReconcilerEvent} (h : isReconcileEnd event = true) :
    isCreateOf key event = false := by
  cases event with
  | reconcileEnd mark => rfl
  | _ => cases h

/-- A walk that has met at most one end of a round. -/
theorem walk_eq (atEnd : Except AnalysisError Timing) (later : List ReconcilerEvent)
    {reconcileCnt : ℕ} (hle : reconcileCnt ≤ 1) : walk key atEnd reconcileCnt later =
      match later.findIdx? (isCreateOf key) with
      | some i => .ok (timingAfter (reconcileCnt + (later.take i).countP isReconcileEnd))
      | none => if 2 ≤ reconcileCnt + later.countP isReconcileEnd then .ok .after else atEnd := by
  induction later generalizing reconcileCnt with
  | nil => simp [walk, show ¬ 2 ≤ reconcileCnt by omega]
  | cons event later ih =>
    rw [walk, visitVertex, List.findIdx?_cons]
    cases hend : isReconcileEnd event with
    | true =>
      rw [if_pos rfl, not_create_of_end hend]
      by_cases hsecond : reconcileCnt + 1 = 2
      · obtain rfl : reconcileCnt = 1 := by omega
        -- the second end of a round decides, whatever comes after it
        cases later.findIdx? (isCreateOf key) with
        | none => simp [hend, show 2 ≤ 1 + (later.countP isReconcileEnd + 1) by omega]
        | some i =>
          simp only [if_true, Bool.false_eq_true, if_false, Option.map_some, List.take_succ_cons,
            List.countP_cons_of_pos hend]
          rw [show 1 + ((later.take i).countP isReconcileEnd + 1) =
            (later.take i).countP isReconcileEnd + 2 by omega]
          rfl
      · rw [if_neg hsecond]
        obtain rfl : reconcileCnt = 0 := by omega
        show walk key atEnd 1 later = _
        rw [ih le_rfl]
        cases later.findIdx? (isCreateOf key) with
        | none => simp [hend, Nat.add_comm]
        | some i => simp [hend, Nat.add_comm]
    | false =>
      rw [if_neg Bool.false_ne_true]
      cases hcreate : isCreateOf key event with
      | true =>
        obtain rfl | rfl : reconcileCnt = 0 ∨ reconcileCnt = 1 := by omega
        · simp [timingAfter]
        · simp [timingAfter]
      | false =>
        rw [if_neg Bool.false_ne_true]
        show walk key atEnd reconcileCnt later = _
        rw [ih hle]
        cases later.findIdx? (isCreateOf key) with
        | none => simp [hend]
        | some i => simp [hend]

theorem walk_decides (atEnd : Except AnalysisError Timing) {later : List ReconcilerEvent}
    (h : Decides key later) : walk key atEnd 0 later = .ok (timingOf key later) := by
  rw [walk_eq atEnd later (Nat.zero_le 1), timingOf]
  cases hfind : later.findIdx? (isCreateOf key) with
  | some i => simp
  | none =>
    rw [List.findIdx?_eq_none_iff] at hfind
    obtain ⟨event, hmem, hcreate⟩ | hends := h
    · rw [hfind event hmem] at hcreate
      cases hcreate
    · rw [Nat.zero_add, if_pos hends]

theorem walk_ends (atEnd : Except AnalysisError Timing) {later : List ReconcilerEvent}
    (h : ¬ Decides key later) : walk key atEnd 0 later = atEnd ∧ timingOf key later = .after := by
  have hfind : later.findIdx? (isCreateOf key) = none := by
    rw [List.findIdx?_eq_none_iff]
    exact fun event hmem => Bool.eq_false_iff.mpr fun hcreate => h (.inl ⟨event, hmem, hcreate⟩)
  rw [walk_eq atEnd later (Nat.zero_le 1), timingOf, hfind, Nat.zero_add]
  exact ⟨if_neg fun hends => h (.inr hends), rfl⟩

/-! ### When the walk finds what it is looking for -/

/-- More fuel changes no result. -/
theorem decideLoop_mono {graph : EventGraph} {sinkVertex fuel reconcileCnt curVertex : ℕ}
    {result : Except AnalysisError Timing} (more : ℕ)
    (h : decideLoop graph sinkVertex key fuel reconcileCnt curVertex = some result) :
    decideLoop graph sinkVertex key (fuel + more) reconcileCnt curVertex = some result := by
  induction fuel generalizing reconcileCnt curVertex with
  | zero => cases h
  | succ fuel ih =>
    rw [Nat.add_right_comm, decideLoop]
    rw [decideLoop] at h
    split at h
    · split at h
      · cases h
      · split at h
        · exact h
        · exact ih h
    · exact h

theorem decideStaleStateTiming_eq {events : List ReconcilerEvent} {source : ControllerHear}
    {sinkVertex : ℕ} {sink : ControllerWrite} {slimPrevObjMap slimCurObjMap : Fields}
    (hsink : events[sinkVertex]? = some (.write sink)) (hdelete : sink.etype = .delete)
    (hprev : source.slimPrevObjMap = some slimPrevObjMap)
    (hcur : source.slimCurObjMap = some slimCurObjMap)
    (hkeys : sameKey slimPrevObjMap slimCurObjMap = true) (fuel : ℕ) :
    decideStaleStateTiming (addSortedReconcilerEvents events) source sinkVertex fuel =
      decideLoop (addSortedReconcilerEvents events) sinkVertex sink.key fuel 0 sinkVertex := by
  rw [decideStaleStateTiming, addSortedReconcilerEvents_vertices, hsink]
  simp [hdelete, hprev, hcur, hkeys]

/-- **The timing is found** if and only if nothing comes after the deletion, or the walk decides
before the chain ends. -/
theorem staleStateTiming_iff {events : List ReconcilerEvent} {source : ControllerHear}
    {sinkVertex : ℕ} {sink : ControllerWrite} {slimPrevObjMap slimCurObjMap : Fields}
    (hsink : events[sinkVertex]? = some (.write sink)) (hdelete : sink.etype = .delete)
    (hprev : source.slimPrevObjMap = some slimPrevObjMap)
    (hcur : source.slimCurObjMap = some slimCurObjMap)
    (hkeys : sameKey slimPrevObjMap slimCurObjMap = true) :
    (∃ fuel, decideStaleStateTiming (addSortedReconcilerEvents events) source sinkVertex fuel =
      some (.ok (timingOf sink.key (events.drop (sinkVertex + 1))))) ↔
      events.drop (sinkVertex + 1) = [] ∨ Decides sink.key (events.drop (sinkVertex + 1)) := by
  have hlt : sinkVertex < events.length := (List.getElem?_eq_some_iff.mp hsink).1
  simp only [decideStaleStateTiming_eq hsink hdelete hprev hcur hkeys]
  constructor
  · rintro ⟨fuel, hresult⟩
    rw [List.drop_eq_nil_iff]
    by_contra hnot
    obtain ⟨hmore, hundecided⟩ := not_or.mp hnot
    have hmono := decideLoop_mono events.length hresult
    rw [decideLoop_eq_walk _ _ hlt (by omega), (walk_ends _ hundecided).1,
      if_pos (by omega)] at hmono
    cases hmono
  · intro hdecides
    refine ⟨events.length, ?_⟩
    rw [decideLoop_eq_walk _ _ hlt (by omega)]
    by_cases h : Decides sink.key (events.drop (sinkVertex + 1))
    · rw [walk_decides _ h]
    · have hnil := List.drop_eq_nil_iff.mp (hdecides.resolve_right h)
      rw [(walk_ends _ h).1, (walk_ends (.ok .after) h).2, if_neg (by omega)]

/-- An update that changes the value of one field. -/
def phaseUpdate : ControllerHear where
  id := 0
  etype := .updated
  rtype := "pod"
  objNamespace := "default"
  name := "a"
  objMap := []
  prevEtype := some .added
  slimPrevObjMap := some [("phase", .str "Pending")]
  slimCurObjMap := some [("phase", .str "Running")]
  cancelledBy := []
  signatureCounter := 1

def podWrite (etype : WriteType) : ControllerWrite :=
  ⟨0, etype, "pod", "default", "b", "Reconcile", "NoError", [], -1, -1, -1, -1, -1, ∅, ∅, [], none,
    none, none, 1⟩

theorem staleStateTiming_iff_recreated :
    (∃ fuel, decideStaleStateTiming (addSortedReconcilerEvents
        [.write (podWrite .delete), .reconcileEnd ⟨"Reconcile", 0, 1⟩, .write (podWrite .create)])
        phaseUpdate 0 fuel = some (.ok (timingOf "pod/default/b"
          [.reconcileEnd ⟨"Reconcile", 0, 1⟩, .write (podWrite .create)]))) ↔
      [ReconcilerEvent.reconcileEnd ⟨"Reconcile", 0, 1⟩, .write (podWrite .create)] = [] ∨
        Decides "pod/default/b"
          [.reconcileEnd ⟨"Reconcile", 0, 1⟩, .write (podWrite .create)] :=
  @staleStateTiming_iff [.write (podWrite .delete), .reconcileEnd ⟨"Reconcile", 0, 1⟩,
    .write (podWrite .create)] phaseUpdate 0 (podWrite .delete) _ _ rfl rfl rfl rfl (by decide)

/-- The controller deletes an object, its round ends, and so does the log. -/
theorem deletion_before_end_of_log :
    (∃ fuel, decideStaleStateTiming (addSortedReconcilerEvents
      [.write (podWrite .delete), .reconcileEnd ⟨"Reconcile", 0, 1⟩]) phaseUpdate 0 fuel =
        some (.error .assertion)) ∧
      ¬ ∃ fuel, decideStaleStateTiming (addSortedReconcilerEvents
        [.write (podWrite .delete), .reconcileEnd ⟨"Reconcile", 0, 1⟩]) phaseUpdate 0 fuel =
          some (.ok (timingOf "pod/default/b" [.reconcileEnd ⟨"Reconcile", 0, 1⟩])) := by
  refine ⟨⟨2, rfl⟩, ?_⟩
  rintro ⟨fuel, h⟩
  match fuel with
  | 0 => cases h
  | 1 => cases h
  | fuel + 2 => cases h

end Sieve.Policies
