import Sieve.Analyzer.AnalyzeRun
import Sieve.Analyzer.EventGraph
import Sieve.Server.TestCoordinator

/-!
# The object before a write

The learner compares a write with what was read in the same round, the coordinator with what was read
last in any round.

* `prevObjMap_eq`: the object that the learner finds;
* `handedPrevState_eq`: the object that the coordinator hands to the triggers;
* `previousObject_iff`: when they are the same;
* `previousObject_differs`: an object read in an earlier round.
-/

namespace Sieve.Replay

open Sieve.Event Sieve.Analyzer Sieve.Server Sieve.Library

/-! ### The coordinator -/

/-- What is reported of a read. -/
def reportRead (tc : TestCoordinator) (read : ControllerRead) : TestCoordinator :=
  match read.etype, read.keyToObj with
  | .get, [(key, obj)] => tc.notifyTestAfterControllerGet key read.reconcileFun obj
  | _, objects => tc.notifyTestAfterControllerList read.reconcileFun objects

def replayStep (tc : TestCoordinator) : Step → TestCoordinator
  | .restRead read | .cacheRead read => reportRead tc read
  | _ => tc

def replaySteps (tc : TestCoordinator) (steps : List Step) : TestCoordinator :=
  steps.foldl replayStep tc

/-- The object that the previous state in the notification of an update is decoded from. -/
def handedPrevState (tc : TestCoordinator) (write : ControllerWrite) : GoMap :=
  if write.etype.isCreationOrDeletion then none
  else some (trimKindApiversion
    (tc.readFromObjectStates write.reconcileFun afterControllerWrite write.key))

/-- The coordinator hands this object to the triggers, decoded. -/
theorem prevState_eq_handed {tc : TestCoordinator} {write : ControllerWrite}
    {n : ObjectUpdateNotification}
    (h : tc.notifyTestAfterControllerWrite write.etype write.key write.reconcileFun write.objMap =
      some (.objectUpdate n)) :
    n.prevState = (handedPrevState tc write).map roundedFields := by
  rw [handedPrevState]
  change TestCoordinator.notifyControllerWrite afterControllerWrite tc _ _ _ _ = _ at h
  cases hetype : write.etype with
  | create | delete =>
    rw [hetype] at h
    cases h
  | _ =>
    simp only [hetype, TestCoordinator.notifyControllerWrite, Option.bind_eq_bind,
      Option.bind_eq_some_iff] at h
    obtain ⟨prevState, hprev, curState, _, hn⟩ := h
    rw [decodeObject] at hprev
    split at hprev
    · rw [← TriggerNotification.objectUpdate.inj (Option.some.inj hn),
        ← Option.some.inj hprev, ← roundedFields_trim]
      rfl
    · cases hprev

theorem reportRead_eq (tc : TestCoordinator) (read : ControllerRead) :
    reportRead tc read = tc.notifyTestAfterControllerList read.reconcileFun read.keyToObj := by
  rw [reportRead]
  split
  · rename_i hobjs
    rw [hobjs]
    rfl
  · rfl

section Reads

variable {tc : TestCoordinator} {f g key : String}

theorem read_get (resourceKey : String) (obj : Fields) :
    (tc.notifyTestAfterControllerGet resourceKey f obj).readFromObjectStates f
      afterControllerWrite key = if key = resourceKey then obj
        else tc.readFromObjectStates f afterControllerWrite key := by
  rw [TestCoordinator.notifyTestAfterControllerGet]
  by_cases hkey : key = resourceKey
  · rw [hkey, TestCoordinator.read_write_self, if_pos rfl]
  · rw [TestCoordinator.read_write_other _ _ (by simp [hkey]),
      TestCoordinator.read_write_other _ _ (by simp [hkey]), if_neg hkey]

theorem read_get_other (resourceKey : String) (obj : Fields) (hg : f ≠ g) :
    (tc.notifyTestAfterControllerGet resourceKey g obj).readFromObjectStates f
      afterControllerWrite key = tc.readFromObjectStates f afterControllerWrite key := by
  rw [TestCoordinator.notifyTestAfterControllerGet,
    TestCoordinator.read_write_other _ _ (by simp [hg]),
    TestCoordinator.read_write_other _ _ (by simp [hg])]

theorem read_list {objects : List (String × Fields)} (h : (objects.map Prod.fst).Nodup) :
    (tc.notifyTestAfterControllerList f objects).readFromObjectStates f afterControllerWrite key =
      (objects.lookup key).getD (tc.readFromObjectStates f afterControllerWrite key) := by
  induction objects generalizing tc with
  | nil => rfl
  | cons object objects ih =>
    obtain ⟨resourceKey, obj⟩ := object
    rw [List.map_cons, List.nodup_cons] at h
    have hrest := @ih (tc.notifyTestAfterControllerGet resourceKey f obj) h.2
    rw [read_get] at hrest
    show (TestCoordinator.notifyTestAfterControllerList _ f objects).readFromObjectStates _ _ _ = _
    rw [hrest, List.lookup_cons]
    by_cases hkey : key = resourceKey
    · have hnone : objects.lookup key = none := by
        rw [List.lookup_eq_none_iff]
        intro object hmem
        rw [hkey, bne_iff_ne]
        intro heq
        exact h.1 (List.mem_map.mpr ⟨object, hmem, heq.symm⟩)
      simp [hkey ▸ hnone, hkey]
    · simp [hkey, beq_eq_false_iff_ne.mpr hkey]

theorem read_list_other {objects : List (String × Fields)} (hg : f ≠ g) :
    (tc.notifyTestAfterControllerList g objects).readFromObjectStates f afterControllerWrite key =
      tc.readFromObjectStates f afterControllerWrite key := by
  induction objects generalizing tc with
  | nil => rfl
  | cons object objects ih =>
    show (TestCoordinator.notifyTestAfterControllerList _ g objects).readFromObjectStates _ _ _ = _
    rw [ih, read_get_other _ _ hg]

theorem read_replayStep (step : Step) :
    (replayStep tc step).readFromObjectStates f afterControllerWrite key =
      (step.readObj f key).getD (tc.readFromObjectStates f afterControllerWrite key) := by
  cases step with
  | restRead read | cacheRead read =>
    rw [replayStep, reportRead_eq, Step.readObj]
    by_cases hf : read.reconcileFun = f
    · rw [if_pos hf, hf]
      exact read_list read.nodup
    · rw [if_neg hf]
      exact read_list_other (Ne.symm hf)
  | _ => rfl

/-- The coordinator keeps what was read last. -/
theorem read_replaySteps (steps : List Step) :
    (replaySteps tc steps).readFromObjectStates f afterControllerWrite key =
      (lastRead f key steps.reverse).getD (tc.readFromObjectStates f afterControllerWrite key) := by
  induction steps using List.reverseRecOn with
  | nil => rfl
  | append_singleton steps step ih =>
    rw [replaySteps, List.foldl_append]
    show (replayStep (replaySteps tc steps) step).readFromObjectStates _ _ _ = _
    rw [read_replayStep, ih, List.reverse_append, List.reverse_singleton, List.singleton_append]
    simp only [lastRead, List.findSome?_cons]
    cases step.readObj f key <;> rfl

end Reads

theorem handedPrevState_eq {tc : TestCoordinator} {write : ControllerWrite}
    (hupdate : write.etype.isCreationOrDeletion = false) : handedPrevState tc write =
      some (trimKindApiversion (tc.readFromObjectStates write.reconcileFun afterControllerWrite
        write.key)) := by
  rw [handedPrevState, hupdate]
  rfl

/-! ### The learner -/

/-- Reads before the write are looked at, later ones are not. -/
theorem prevRead_append {write : ControllerWrite} {reads later : List ControllerRead}
    {prev result : Fields × Option ReadType}
    (hreads : ∀ read ∈ reads, read.endTimestamp < write.startTimestamp)
    (hlater : ∀ read ∈ later, write.startTimestamp < read.endTimestamp)
    (h : prevRead write prev (reads ++ later) = .ok result) :
    result.1 = ((reads.filterMap fun read =>
      if read.reconcileFun = write.reconcileFun ∧ read.reconcileId = write.reconcileId then
        read.keyToObj.lookup write.key else none).getLast?).getD prev.1 := by
  induction reads generalizing prev with
  | nil =>
    cases later with
    | nil =>
      rw [← Except.ok.inj h]
      rfl
    | cons read later =>
      rw [List.nil_append, prevRead, if_pos (hlater read List.mem_cons_self)] at h
      rw [← Except.ok.inj h]
      rfl
  | cons read reads ih =>
    have hread := hreads read List.mem_cons_self
    rw [List.cons_append, prevRead, if_neg (by omega)] at h
    cases hlookup : read.keyToObj.lookup write.key with
    | none =>
      rw [hlookup] at h
      cases h
    | some obj =>
      rw [hlookup] at h
      simp only [if_pos hread] at h
      have hrest := ih (fun r hmem => hreads r (List.mem_cons_of_mem read hmem)) h
      rw [hrest, List.filterMap_cons]
      by_cases hround : read.reconcileFun = write.reconcileFun ∧
          read.reconcileId = write.reconcileId
      · simp [hround, hlookup, List.getLast?_cons]
      · have hfalse : (read.reconcileFun == write.reconcileFun &&
            read.reconcileId == write.reconcileId) = false := by
          simpa using hround
        simp [hround, hfalse]

theorem controllerReads_append (events later : List ReconcilerEvent) (key : String) :
    controllerReads (events ++ later) key = controllerReads events key ++ controllerReads later key :=
  List.filterMap_append

/-- The reads of the key in the round. -/
theorem controllerReads_round (f : String) (id : ℤ) (key : String) (events : List ReconcilerEvent) :
    ((controllerReads events key).filterMap fun read =>
      if read.reconcileFun = f ∧ read.reconcileId = id then read.keyToObj.lookup key else none) =
      roundObjs f id key events := by
  rw [controllerReads, roundObjs, List.filterMap_filterMap]
  apply List.filterMap_congr
  intro event _
  cases event with
  | read read =>
    by_cases hkey : key ∈ read.keySet
    · simp [hkey]
    · have hnone : read.keyToObj.lookup key = none := by
        rw [List.lookup_eq_none_iff]
        intro object hmem
        rw [bne_iff_ne]
        intro heq
        apply hkey
        rw [ControllerRead.keySet, List.mem_toFinset]
        exact List.mem_map.mpr ⟨object, hmem, heq.symm⟩
      simp [hkey, hnone]
  | _ => rfl

theorem mem_assignPrevReads {events : List ReconcilerEvent} {writes assigned : List ControllerWrite}
    {learned : ControllerWrite} (h : assignPrevReads events writes = .ok assigned)
    (hmem : learned ∈ assigned) : ∃ write ∈ writes, ∃ prev,
      prevRead write ([], none) (controllerReads events write.key) = .ok prev ∧
      learned = { write with prevObjMap := prev.1, prevEtype := prev.2 } := by
  induction writes generalizing assigned with
  | nil =>
    rw [← Except.ok.inj h] at hmem
    cases hmem
  | cons write writes ih =>
    obtain ⟨prev, hprev, h⟩ := bind_ok_iff.mp h
    obtain ⟨rest, hrest, h⟩ := bind_ok_iff.mp h
    rw [← Except.ok.inj h] at hmem
    obtain hmem | hmem := List.mem_cons.mp hmem
    · exact ⟨write, List.mem_cons_self, prev, hprev, hmem⟩
    · obtain ⟨write', hmem', hwrite'⟩ := ih hrest hmem
      exact ⟨write', List.mem_cons_of_mem write hmem', hwrite'⟩

/-- A write with its difference comes from an event. -/
theorem mem_computeEventDiffOfWrites {masks : String → Masks} {events : List ReconcilerEvent}
    {writes : List ControllerWrite} {learned : ControllerWrite}
    (h : computeEventDiffOfWrites masks events = .ok writes) (hmem : learned ∈ writes) :
    ∃ write prev, ReconcilerEvent.write write ∈ events ∧
      prevRead write ([], none) (controllerReads events write.key) = .ok prev ∧
      learned.startTimestamp = write.startTimestamp ∧ learned.prevObjMap = prev.1 := by
  obtain ⟨assigned, hassigned, hwrites⟩ := bind_ok_iff.mp h
  rw [← Except.ok.inj hwrites] at hmem
  obtain ⟨slimmed, hslimmed, n, hlearned⟩ := mem_number _ _ hmem
  obtain ⟨write', hwrite', heq⟩ := List.mem_map.mp hslimmed
  obtain ⟨write, hwrite, prev, hprev, hassign⟩ := mem_assignPrevReads hassigned hwrite'
  obtain ⟨event, hevent, hsome⟩ := List.mem_filterMap.mp hwrite
  refine ⟨write, prev, ?_, hprev, ?_, ?_⟩
  · cases event with
    | write write₀ =>
      rw [← Option.some.inj hsome]
      exact hevent
    | _ => cases hsome
  · rw [hlearned, ← heq, hassign]
  · rw [hlearned, ← heq, hassign]

/-! ### The condition -/

theorem rounds_pos_of_readInRound {compress : Bool} {f key : String} {past : List Step}
    (h : readInRound compress f key past = true) : 0 < rounds f past := by
  induction past with
  | nil => cases h
  | cons step past ih =>
    have hle : rounds f past ≤ rounds f (step :: past) := (List.sublist_cons_self _ _).countP_le
    rw [readInRound] at h
    split at h
    · rename_i hread
      rw [Bool.and_eq_true, decide_eq_true_iff] at hread
      omega
    · split at h
      · cases h
      · have := ih h
        omega

/-- **The object that the learner finds** for a write: what was read last, if in the same round. -/
theorem prevObjMap_eq {config : ReconcilerConfig} {masks : String → Masks} {before after : List Step}
    {write learned : ControllerWrite} {events : List ReconcilerEvent}
    {writes : List ControllerWrite}
    (hparse : parseReconcilerEvents config (logFrom [] (before ++ .write write :: after)) =
      .ok events)
    (hdiff : computeEventDiffOfWrites masks events = .ok writes) (hmem : learned ∈ writes)
    (hstart : learned.startTimestamp = (logFrom [] before).length) : learned.prevObjMap =
      (if readInRound config.compressTrivialReconcileEnabled write.reconcileFun write.key
        before.reverse then lastRead write.reconcileFun write.key before.reverse else none).getD [] := by
  obtain ⟨st, hst, hevents⟩ := bind_ok_iff.mp hparse
  rw [logFrom_append, logFrom, parseLines_append] at hst
  obtain ⟨st₁, hbefore, hst⟩ := hst
  obtain ⟨st₂, hwrite, hafter⟩ := parseLines_append.mp hst
  obtain ⟨events₁, hparsed₁, _⟩ := parsed_run (parsed_init config) hbefore
  rw [Nat.zero_add] at hwrite hafter hparsed₁
  rw [List.append_nil, List.nil_append] at hparsed₁
  rw [List.append_nil] at hwrite hafter
  obtain ⟨new, hparsed₂, _, hnew⟩ := parsed_write hparsed₁ hwrite
  obtain ⟨later, hparsed₃, hlater⟩ := parsed_run hparsed₂ hafter
  -- the events of the whole run: of what was before, of the write, of what came later
  have hall : events = events₁ ++ new ++ later := by
    rw [← Except.ok.inj hevents, logFrom_append, logFrom, List.append_nil]
    rw [← hparsed₃.events_eq]
    simp only [List.length_append, stepLines, List.length_cons, List.length_nil, Nat.zero_add,
      Nat.reduceAdd, Nat.add_assoc]
  obtain ⟨event, prev, hevent, hprev, hlearnedStart, hlearnedPrev⟩ :=
    mem_computeEventDiffOfWrites hdiff hmem
  rw [hstart] at hlearnedStart
  have hwriteEvent : WriteEvent (logFrom [] before).length st₁ write event := by
    rw [hall, List.mem_append, List.mem_append] at hevent
    obtain (hold | hself) | hlate := hevent
    · have := hparsed₁.write event hold
      omega
    · obtain ⟨write', heq, hwriteEvent⟩ := hnew _ hself
      rw [ReconcilerEvent.write.injEq] at heq
      rw [heq]
      exact hwriteEvent
    · have := hlater.2 event hlate
      omega
  have hreads : controllerReads events event.key =
      controllerReads events₁ event.key ++ controllerReads later event.key := by
    have hnone : controllerReads new event.key = [] := by
      rw [controllerReads, List.filterMap_eq_nil_iff]
      intro e he
      obtain ⟨write', heq, _⟩ := hnew e he
      rw [heq]
    rw [hall, controllerReads_append, controllerReads_append, hnone, List.append_nil]
  rw [hreads] at hprev
  have hfound := prevRead_append (fun read hread => ?_) (fun read hread => ?_) hprev
  · rw [controllerReads_round, hwriteEvent.reconcileFun, hwriteEvent.key] at hfound
    rw [hlearnedPrev, hfound]
    cases hcur : st₁.curReconcilePerType write.reconcileFun with
    | some cur => rw [hwriteEvent.round cur hcur, hparsed₁.round _ cur _ hcur]
    | none =>
      have hzero : rounds write.reconcileFun before.reverse = 0 := by
        have := hparsed₁.begun write.reconcileFun
        rw [hcur, Option.isNone_none, eq_comm, beq_iff_eq] at this
        exact this
      have hread : readInRound config.compressTrivialReconcileEnabled write.reconcileFun write.key
          before.reverse = false := by
        rw [← Bool.not_eq_true]
        intro h
        have := rounds_pos_of_readInRound h
        omega
      rw [roundObjs_eq_nil hparsed₁ _ (by omega), hread]
      rfl
  · have := (hparsed₁.read read (mem_controllerReads_iff.mp hread).1).1
    omega
  · have := hlater.1 read (mem_controllerReads_iff.mp hread).1
    omega

/-- **When the two agree** on the object before an update: it has been read in the round of the
update, or nothing has been read of it but an object without fields. -/
theorem previousObject_iff (masks masksAPIForm : String → Masks) {config : ReconcilerConfig}
    {before after : List Step} {write learned : ControllerWrite} {events : List ReconcilerEvent}
    {writes : List ControllerWrite} (hupdate : write.etype.isCreationOrDeletion = false)
    (hparse : parseReconcilerEvents config (logFrom [] (before ++ .write write :: after)) =
      .ok events)
    (hdiff : computeEventDiffOfWrites masks events = .ok writes) (hmem : learned ∈ writes)
    (hstart : learned.startTimestamp = (logFrom [] before).length) :
    handedPrevState (replaySteps (.new masks masksAPIForm) before) write =
        some (trimKindApiversion learned.prevObjMap) ↔
      readInRound config.compressTrivialReconcileEnabled write.reconcileFun write.key
          before.reverse = true ∨
        ∀ obj, lastRead write.reconcileFun write.key before.reverse = some obj →
          trimKindApiversion obj = [] := by
  rw [handedPrevState_eq hupdate, read_replaySteps, prevObjMap_eq hparse hdiff hmem hstart,
    Option.some.injEq]
  show trimKindApiversion ((lastRead _ _ _).getD []) = _ ↔ _
  cases hread : readInRound config.compressTrivialReconcileEnabled write.reconcileFun write.key
      before.reverse with
  | true =>
    rw [if_pos rfl]
    exact iff_of_true rfl (.inl rfl)
  | false =>
    rw [if_neg Bool.false_ne_true]
    cases lastRead write.reconcileFun write.key before.reverse with
    | none => simp
    | some obj =>
      show trimKindApiversion obj = [] ↔ _
      simp

/-! ### Two rounds -/

/-- A cached read of one object. -/
def readConf (data : String) : ControllerRead where
  etype := .get
  rtype := "configmap"
  reconcileFun := "reconcile"
  error := "NoError"
  keyToObj := [("configmap/default/conf", [("data", .str data)])]
  nodup := List.nodup_singleton _

/-- An update of it. -/
def updateConf (id : ℤ) (data : String) : ControllerWrite :=
  { id := id, etype := .update, rtype := "configmap", objNamespace := "default", name := "conf",
    reconcileFun := "reconcile", error := "NoError", objMap := [("data", .str data)] }

/-- The object is read and updated in one round. -/
def firstRound : List Step := [.beginRound "reconcile", .cacheRead (readConf "a")]

/-- It is updated again in the next round, without having been read again. -/
def secondRound : List Step :=
  firstRound ++ [.write (updateConf 0 "b"), .endRound "reconcile", .beginRound "reconcile"]

def compressed : ReconcilerConfig := ⟨true, false⟩

def noMasks : String → Masks := fun _ => ⟨∅, ∅⟩

/-- Both compare the first update with what was read. -/
theorem previousObject_iff_firstRound : ∃ events writes learned,
    parseReconcilerEvents compressed
      (logFrom [] (firstRound ++ Step.write (updateConf 0 "b") :: [])) = .ok events ∧
    computeEventDiffOfWrites noMasks events = .ok writes ∧ learned ∈ writes ∧
    handedPrevState (replaySteps (.new noMasks noMasks) firstRound) (updateConf 0 "b") =
      some (trimKindApiversion learned.prevObjMap) := by
  refine ⟨_, _, _, rfl, rfl, List.mem_of_getElem? (i := 0) rfl, ?_⟩
  have hparse : parseReconcilerEvents compressed
    (logFrom [] (firstRound ++ Step.write (updateConf 0 "b") :: [])) = .ok _ := rfl
  have hiff := previousObject_iff noMasks noMasks rfl hparse rfl
    (List.mem_of_getElem? (i := 0) rfl) rfl
  exact hiff.mpr (.inl rfl)

/-- **The two differ**: in the second round the learner finds nothing, the coordinator the object
from the first round. -/
theorem previousObject_differs : ∃ events writes learned,
    parseReconcilerEvents compressed
      (logFrom [] (secondRound ++ Step.write (updateConf 1 "c") :: [])) = .ok events ∧
    computeEventDiffOfWrites noMasks events = .ok writes ∧ learned ∈ writes ∧
    learned.startTimestamp = (logFrom [] secondRound).length ∧
    learned.prevObjMap = [] ∧
    handedPrevState (replaySteps (.new noMasks noMasks) secondRound) (updateConf 1 "c") =
      some [("data", .str "a")] ∧
    handedPrevState (replaySteps (.new noMasks noMasks) secondRound) (updateConf 1 "c") ≠
      some (trimKindApiversion learned.prevObjMap) := by
  refine ⟨_, _, _, rfl, rfl, List.mem_of_getElem? (i := 1) rfl, rfl, rfl, rfl, ?_⟩
  intro h
  have hnone : some [("data", Json.str "a")] = some [] := h
  cases hnone

end Sieve.Replay
