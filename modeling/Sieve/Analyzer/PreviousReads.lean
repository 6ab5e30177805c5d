import Sieve.Analyzer.EventGraph
import Sieve.Library.FoldExcept
import Mathlib.Data.List.Pairwise

/-!
# Which read a write is compared with

`compute_event_diff` looks through the reads of a write's key and stops at the first that ends after
the write has begun.  For events in the order of their timestamps:

* `InOrder`: the order;
* `LatestRead`: the latest read of the key before the write, in the same round;
* `prevRead_latest`: the loop finds it, and its assertions hold;
* `prevObjMap_latest`: so do the previous objects of all writes.
-/

namespace Sieve.Analyzer

open Sieve.Event Sieve.Library

/-- The timestamp that an event is ordered by. -/
def timestampOf : ReconcilerEvent → Option ℤ
  | .read r => some r.endTimestamp
  | .write w => some w.startTimestamp
  | _ => none

/-- The reads and the writes are in increasing order of distinct timestamps. -/
def InOrder (events : List ReconcilerEvent) : Prop :=
  (events.filterMap timestampOf).Pairwise (· < ·)

/-- The read ends before the write and belongs to the same round. -/
def ReadBefore (write : ControllerWrite) (read : ControllerRead) : Prop :=
  read.endTimestamp < write.startTimestamp ∧ read.reconcileFun = write.reconcileFun ∧
    read.reconcileId = write.reconcileId

/-- The latest of the reads that are before the write. -/
def LatestRead (reads : List ControllerRead) (write : ControllerWrite) (read : ControllerRead) :
    Prop :=
  read ∈ reads ∧ ReadBefore write read ∧
    ∀ read' ∈ reads, ReadBefore write read' → read'.endTimestamp ≤ read.endTimestamp

/-- The reads whose keys contain the key. -/
def ReadsOf (events : List ReconcilerEvent) (key : String) (read : ControllerRead) : Prop :=
  .read read ∈ events ∧ key ∈ read.keySet

/-- The object is the one of the latest read of the write's key, or empty when there is none. -/
def IsPrevObject (events : List ReconcilerEvent) (write : ControllerWrite) (obj : Fields) : Prop :=
  (∃ read, ReadsOf events write.key read ∧ ReadBefore write read ∧
      (∀ read', ReadsOf events write.key read' → ReadBefore write read' →
        read'.endTimestamp ≤ read.endTimestamp) ∧
      read.keyToObj.lookup write.key = some obj) ∨
    ((∀ read, ReadsOf events write.key read → ¬ ReadBefore write read) ∧ obj = [])

/-- The write, with what `compute_event_diff` has found out about it. -/
def Completes (write learned : ControllerWrite) : Prop :=
  learned = { write with
    prevObjMap := learned.prevObjMap
    prevEtype := learned.prevEtype
    slimPrevObjMap := learned.slimPrevObjMap
    slimCurObjMap := learned.slimCurObjMap
    signatureCounter := learned.signatureCounter }

/-! ### The loop -/

theorem lookup_of_mem_keySet {read : ControllerRead} {key : String} (h : key ∈ read.keySet) :
    ∃ obj, read.keyToObj.lookup key = some obj := by
  rw [ControllerRead.keySet, List.mem_toFinset, List.mem_map] at h
  obtain ⟨field, hmem, rfl⟩ := h
  rw [← Option.isSome_iff_exists, Option.isSome_iff_ne_none, ne_eq, List.lookup_eq_none_iff]
  intro hnone
  have hne := hnone field hmem
  simp at hne

/-- The reads of a key that are in order: the loop ends without an assertion, with the latest read. -/
theorem prevRead_latest {write : ControllerWrite} {reads : List ControllerRead}
    (hordered : reads.Pairwise fun earlier later => earlier.endTimestamp < later.endTimestamp)
    (hdistinct : ∀ read ∈ reads, read.endTimestamp ≠ write.startTimestamp)
    (hkeys : ∀ read ∈ reads, write.key ∈ read.keySet) (prev : Fields × Option ReadType) :
    ∃ found, prevRead write prev reads = .ok found ∧
      ((∃ read, LatestRead reads write read ∧ read.keyToObj.lookup write.key = some found.1) ∨
        ((∀ read ∈ reads, ¬ ReadBefore write read) ∧ found = prev)) := by
  induction reads generalizing prev with
  | nil => exact ⟨prev, rfl, .inr ⟨by simp, rfl⟩⟩
  | cons read reads ih =>
    obtain ⟨hfirst, hrest⟩ := List.pairwise_cons.mp hordered
    obtain ⟨hne, hdistinct⟩ := List.forall_mem_cons.mp hdistinct
    obtain ⟨hkey, hkeys⟩ := List.forall_mem_cons.mp hkeys
    rw [prevRead]
    by_cases hlater : write.startTimestamp < read.endTimestamp
    · -- this read and all that follow end after the write has begun
      refine ⟨prev, if_pos hlater, .inr ⟨fun read' hmem hbefore => ?_, rfl⟩⟩
      have hend := hbefore.1
      obtain rfl | hmem := List.mem_cons.mp hmem
      · omega
      · have := hfirst read' hmem
        omega
    · obtain ⟨obj, hobj⟩ := lookup_of_mem_keySet hkey
      have hearlier : read.endTimestamp < write.startTimestamp := by omega
      rw [if_neg hlater, hobj]
      simp only [if_pos hearlier]
      obtain ⟨found, hfound, hspec⟩ := ih hrest hdistinct hkeys
        (if read.reconcileFun == write.reconcileFun && read.reconcileId == write.reconcileId
          then (obj, some read.etype) else prev)
      refine ⟨found, hfound, ?_⟩
      obtain ⟨latest, ⟨hmem, hbefore, hmax⟩, hlookup⟩ | ⟨hnone, hprev⟩ := hspec
      · refine .inl ⟨latest, ⟨List.mem_cons_of_mem read hmem, hbefore, ?_⟩, hlookup⟩
        refine List.forall_mem_cons.mpr ⟨fun _ => ?_, hmax⟩
        have := hfirst latest hmem
        omega
      · by_cases hround : read.reconcileFun = write.reconcileFun ∧
            read.reconcileId = write.reconcileId
        · refine .inl ⟨read, ⟨List.mem_cons_self, ⟨hearlier, hround⟩, ?_⟩, ?_⟩
          · refine List.forall_mem_cons.mpr ⟨fun _ => le_refl _, fun read' hmem' hbefore => ?_⟩
            exact absurd hbefore (hnone read' hmem')
          · rw [hprev, if_pos (by simpa using hround)]
            exact hobj
        · refine .inr ⟨List.forall_mem_cons.mpr ⟨fun hbefore => hround hbefore.2, hnone⟩, ?_⟩
          rw [hprev, if_neg (by simpa using hround)]

/-! ### The reads of a key -/

theorem controllerReads_ordered {events : List ReconcilerEvent} (h : InOrder events) (key : String) :
    (controllerReads events key).Pairwise fun earlier later =>
      earlier.endTimestamp < later.endTimestamp := by
  rw [InOrder, List.pairwise_filterMap] at h
  rw [controllerReads, List.pairwise_filterMap]
  refine h.imp fun {earlier later} hlt read hread read' hread' => ?_
  cases earlier with
  | read r =>
    cases later with
    | read r' =>
      simp only [Option.ite_none_right_eq_some, Option.some.injEq] at hread hread'
      rw [← hread.2, ← hread'.2]
      exact hlt r.endTimestamp rfl r'.endTimestamp rfl
    | _ => cases hread'
  | _ => cases hread

theorem InOrder.ne {events : List ReconcilerEvent} (h : InOrder events) {read : ControllerRead}
    {write : ControllerWrite} (hread : .read read ∈ events) (hwrite : .write write ∈ events) :
    read.endTimestamp ≠ write.startTimestamp := by
  rw [InOrder, List.pairwise_filterMap] at h
  have hdistinct : events.Pairwise fun event event' =>
      ∀ t ∈ timestampOf event, ∀ t' ∈ timestampOf event', t ≠ t' :=
    h.imp fun {event event'} hlt t ht t' ht' => ne_of_lt (hlt t ht t' ht')
  have hsymm : Std.Symm fun event event' : ReconcilerEvent =>
      ∀ t ∈ timestampOf event, ∀ t' ∈ timestampOf event', t ≠ t' :=
    ⟨fun event event' hne t ht t' ht' => (hne t' ht' t ht).symm⟩
  exact hdistinct.forall hread hwrite (by simp) read.endTimestamp rfl write.startTimestamp rfl

/-- The previous object of one write. -/
theorem prevRead_isPrevObject {events : List ReconcilerEvent} (h : InOrder events)
    {write : ControllerWrite} (hwrite : .write write ∈ events) :
    ∃ found, prevRead write ([], none) (controllerReads events write.key) = .ok found ∧
      IsPrevObject events write found.1 := by
  obtain ⟨found, hfound, hspec⟩ := prevRead_latest (controllerReads_ordered h write.key)
    (fun read hmem => h.ne (mem_controllerReads_iff.mp hmem).1 hwrite)
    (fun read hmem => (mem_controllerReads_iff.mp hmem).2) ([], none)
  refine ⟨found, hfound, ?_⟩
  obtain ⟨read, ⟨hmem, hbefore, hmax⟩, hlookup⟩ | ⟨hnone, hprev⟩ := hspec
  · exact .inl ⟨read, mem_controllerReads_iff.mp hmem, hbefore,
      fun read' hread' => hmax read' (mem_controllerReads_iff.mpr hread'), hlookup⟩
  · refine .inr ⟨fun read hread => hnone read (mem_controllerReads_iff.mpr hread), ?_⟩
    rw [hprev]

/-! ### All writes -/

theorem assignPrevReads_spec {events : List ReconcilerEvent} (h : InOrder events)
    {writes : List ControllerWrite} (hwrites : ∀ write ∈ writes, .write write ∈ events) :
    ∃ assigned, assignPrevReads events writes = .ok assigned ∧
      List.Forall₂ (fun write assigned => IsPrevObject events write assigned.prevObjMap ∧
        Completes write assigned) writes assigned := by
  induction writes with
  | nil => exact ⟨[], rfl, .nil⟩
  | cons write writes ih =>
    obtain ⟨hwrite, hrest⟩ := List.forall_mem_cons.mp hwrites
    obtain ⟨found, hfound, hobject⟩ := prevRead_isPrevObject h hwrite
    obtain ⟨assigned, hassigned, hspec⟩ := ih hrest
    refine ⟨{ write with prevObjMap := found.1, prevEtype := found.2 } :: assigned, ?_,
      .cons ⟨hobject, rfl⟩ hspec⟩
    rw [assignPrevReads, hfound, hassigned]
    rfl

/-- **Every write is compared with its latest read**: the assertions hold, and the previous object of
the write is the one that the latest read of its key found before it in the same round. -/
theorem prevObjMap_latest (masks : String → Masks) {events : List ReconcilerEvent}
    (h : InOrder events) : ∃ writes, computeEventDiffOfWrites masks events = .ok writes ∧
      writes.length = (controllerWrites events).length ∧
      ∀ (i : ℕ) (write : ControllerWrite), (controllerWrites events)[i]? = some write →
        ∃ learned, writes[i]? = some learned ∧ Completes write learned ∧
          IsPrevObject events write learned.prevObjMap := by
  obtain ⟨assigned, hassigned, hspec⟩ := assignPrevReads_spec h
    fun write hmem => mem_controllerWrites_iff.mp hmem
  refine ⟨computeWriteDiff masks assigned, ?_, ?_, fun i write hwrite => ?_⟩
  · rw [computeEventDiffOfWrites, hassigned]
    rfl
  · rw [computeWriteDiff, number_length, List.length_map, hspec.length_eq]
  · obtain ⟨hlt, hget⟩ := List.getElem?_eq_some_iff.mp hwrite
    have hlt' : i < assigned.length := hspec.length_eq ▸ hlt
    obtain ⟨hobject, hcompletes⟩ := hspec.get hlt hlt'
    simp only [List.get_eq_getElem, hget] at hobject hcompletes
    rw [computeWriteDiff, number_getElem?, List.getElem?_map, List.getElem?_eq_getElem hlt']
    refine ⟨_, rfl, ?_, hobject⟩
    rw [Completes]
    rw [Completes] at hcompletes
    rw [hcompletes]

def podGet : ControllerRead where
  etype := .get
  rtype := "pod"
  reconcileFun := "Reconcile"
  error := "NoError"
  keyToObj := [("pod/default/a", [("phase", .str "Pending")])]
  nodup := List.nodup_singleton _
  reconcileId := 0
  endTimestamp := 1

def podUpdate : ControllerWrite where
  id := 0
  etype := .update
  rtype := "pod"
  objNamespace := "default"
  name := "a"
  reconcileFun := "Reconcile"
  error := "NoError"
  objMap := [("phase", .str "Running")]
  reconcileId := 0
  startTimestamp := 2
  endTimestamp := 3

theorem prevObjMap_latest_podGet :
    ∃ writes, computeEventDiffOfWrites (fun _ => ⟨∅, ∅⟩) [.read podGet, .write podUpdate] =
        .ok writes ∧
      writes.length = (controllerWrites [.read podGet, .write podUpdate]).length ∧
      ∀ (i : ℕ) (write : ControllerWrite),
        (controllerWrites [.read podGet, .write podUpdate])[i]? = some write →
        ∃ learned, writes[i]? = some learned ∧ Completes write learned ∧
          IsPrevObject [.read podGet, .write podUpdate] write learned.prevObjMap :=
  prevObjMap_latest _ (by simp [InOrder, timestampOf, podGet, podUpdate])

end Sieve.Analyzer
