import Sieve.Event.Canonical
import Sieve.Event.DiffDetermines
import Sieve.Library.OccurrenceCount
import Sieve.Policies.IntermediateState

/-!
# Masks never make a write effective

The two passes of the intermediate-state policy look at two differences of one write: the detectable
pass at the masked one, the effective-write pass at the unmasked one.

* `unchanged_iff`: a difference counts as no change exactly when the states, or for a status write
  their statuses, are equal;
* `Unchanged.masked`: equal states and statuses are still equal after masking;
* `masked_writes_effective`: what the detectable pass keeps, the effective-write pass keeps.
-/

namespace Sieve.Policies

open Sieve.Event Sieve.Analyzer Sieve.Library

def writesStatus (etype : WriteType) : Bool :=
  etype == .statusUpdate || etype == .statusPatch

/-- The write changes nothing that it is for: nothing at all, or not the status if it writes the
status. -/
def Unchanged (prev cur : Fields) (etype : WriteType) : Prop :=
  EqualObjects python prev cur ∨
    writesStatus etype ∧
      Option.Rel (Json.Equal python.scalarEqual) (prev.lookup "status") (cur.lookup "status")

/-! ### What the two filters read from a difference -/

theorem diffEventAsMap_none_iff {prev cur : Fields} (hprev : Json.Distinct (.obj prev))
    (hcur : Json.Distinct (.obj cur)) :
    diffEventAsMap python prev cur = none ↔ EqualObjects python prev cur := by
  have hapart := (@apart python python_lawful _ _ hprev hcur).1
  rw [diffValue_obj, Option.map_eq_none_iff] at hapart
  exact hapart

theorem sameDiff_iff {prev cur : Fields} (hprev : Json.Distinct (.obj prev))
    (hcur : Json.Distinct (.obj cur)) :
    sameDiff ((diffEventAsMap python prev cur).map Prod.fst)
        ((diffEventAsMap python prev cur).map Prod.snd) = true ↔
      EqualObjects python prev cur := by
  rw [← diffEventAsMap_none_iff hprev hcur]
  cases hdiff : diffEventAsMap python prev cur with
  | none => simp [sameDiff]
  | some sides =>
    have hne := (@apart python python_lawful _ _ hprev hcur).2 (.obj sides.1) (.obj sides.2)
      (by rw [diffValue_obj, hdiff, Option.map_some])
    simpa [sameDiff, Json.Equal] using hne

/-- One side of a difference has the status exactly when the statuses differ. -/
theorem hasStatus_iff {prev cur : Fields} (hprev : Json.Distinct (.obj prev))
    (hcur : Json.Distinct (.obj cur)) {sides : Fields × Fields}
    (hdiff : diffEventAsMap python prev cur = some sides) :
    (hasStatus sides.1 = false ∧ hasStatus sides.2 = false) ↔
      Option.Rel (Json.Equal python.scalarEqual) (prev.lookup "status") (cur.lookup "status") := by
  rw [diffEventAsMap_eq] at hdiff
  obtain ⟨rfl, -⟩ := finishMap_some hdiff
  rw [hasStatus, hasStatus, mapDiff_fst_lookup hprev.keys, mapDiff_snd_lookup hprev.keys]
  cases hp : prev.lookup "status" with
  | none =>
    cases hc : cur.lookup "status" with
    | none => simp [prevSide, curSide]
    | some c => simp [prevSide, curSide]
  | some p =>
    cases hc : cur.lookup "status" with
    | none => simp [prevSide, curSide]
    | some c =>
      have hnone := (@apart python python_lawful _ _ (lookup_distinct hprev hp)
        (lookup_distinct hcur hc)).1
      simp [prevSide, curSide, Option.rel_some_some, hnone]

/-- **No change.** -/
theorem unchanged_iff {prev cur : Fields} (hprev : Json.Distinct (.obj prev))
    (hcur : Json.Distinct (.obj cur)) (etype : WriteType) :
    (sameDiff ((diffEventAsMap python prev cur).map Prod.fst)
        ((diffEventAsMap python prev cur).map Prod.snd) ||
      missesStatus ((diffEventAsMap python prev cur).map Prod.fst)
        ((diffEventAsMap python prev cur).map Prod.snd) etype) = true ↔
      Unchanged prev cur etype := by
  rw [Bool.or_eq_true, sameDiff_iff hprev hcur, Unchanged]
  by_cases hequal : EqualObjects python prev cur
  · simp [hequal]
  · simp only [hequal, false_or]
    cases hdiff : diffEventAsMap python prev cur with
    | none => exact absurd ((diffEventAsMap_none_iff hprev hcur).mp hdiff) hequal
    | some sides =>
      rw [← hasStatus_iff hprev hcur hdiff]
      simp [missesStatus, writesStatus, and_comm]

/-! ### Masks -/

theorem trimKindApiversion_distinct {event : Fields} (h : Json.Distinct (.obj event)) :
    Json.Distinct (.obj (trimKindApiversion event)) :=
  erase_distinct (erase_distinct h)

/-- **Masks hide changes and add none.** -/
theorem Unchanged.masked {prev cur : Fields} (hprev : Json.Distinct (.obj prev))
    (hcur : Json.Distinct (.obj cur)) {etype : WriteType} (masks : Masks)
    (h : Unchanged prev cur etype) :
    Unchanged (canonicalizeEvent prev masks) (canonicalizeEvent cur masks) etype := by
  rcases h with hequal | ⟨hstatus, hrel⟩
  · left
    have hmasked := @canonicalizeField_equal python masks.fieldKeyMask masks.fieldPathMask
      python_lawful "" _ _ hprev hcur hequal
    rw [canonicalizeField_obj, canonicalizeField_obj] at hmasked
    exact hmasked
  · right
    refine ⟨hstatus, ?_⟩
    rw [canonicalizeEvent, canonicalizeEvent, canonicalizeEventAsMap_lookup,
      canonicalizeEventAsMap_lookup]
    cases hp : prev.lookup "status" with
    | none =>
      rw [hp] at hrel
      rw [rel_none hrel]
      exact .none
    | some p =>
      rw [hp] at hrel
      obtain ⟨c, hc, hequal⟩ := rel_some hrel
      rw [hc]
      refine .some ?_
      rw [canonicalizeUnder, canonicalizeUnder]
      split
      · exact .refl python_lawful (.scalar trivial)
      · exact canonicalizeField_equal python_lawful _ (lookup_distinct hprev hp)
          (lookup_distinct hcur hc) hequal

/-! ### The two passes -/

/-- Both states of the write are JSON objects. -/
def HasObjects (write : ControllerWrite) : Prop :=
  Json.Distinct (.obj write.prevObjMap) ∧ Json.Distinct (.obj write.objMap)

/-- The slim states are the sides of the masked difference. -/
def SlimBy (masks : Masks) (write : ControllerWrite) : Prop :=
  let diff := diffEvent write.prevObjMap write.objMap masks true true
  write.slimPrevObjMap = diff.map Prod.fst ∧ write.slimCurObjMap = diff.map Prod.snd

theorem emptyWrite_iff {write : ControllerWrite} (hobjects : HasObjects write) :
    emptyWrite write = true ↔ Unchanged (trimKindApiversion write.prevObjMap)
      (trimKindApiversion write.objMap) write.etype :=
  unchanged_iff (trimKindApiversion_distinct hobjects.1) (trimKindApiversion_distinct hobjects.2) _

theorem detectableWriteDiff_changed {diffPrevObj diffCurObj : Option Fields} {curEtype : WriteType}
    {signatureCounter : ℕ} (hupdate : curEtype.isCreationOrDeletion = false)
    (h : detectableWriteDiff diffPrevObj diffCurObj curEtype signatureCounter = true) :
    (sameDiff diffPrevObj diffCurObj || missesStatus diffPrevObj diffCurObj curEtype) = false := by
  rw [detectableWriteDiff, hupdate] at h
  split at h
  · cases h
  · split at h
    · cases h
    · simp_all

/-- **A write that is detectable on its masked difference is effective.** -/
theorem emptyWrite_of_detectable {masks : Masks} {write : ControllerWrite}
    (hobjects : HasObjects write) (hupdate : write.etype.isCreationOrDeletion = false)
    (hslim : SlimBy masks write) {signatureCounter : ℕ}
    (h : detectableWriteDiff write.slimPrevObjMap write.slimCurObjMap write.etype
      signatureCounter = true) : emptyWrite write = false := by
  have hprev := trimKindApiversion_distinct hobjects.1
  have hcur := trimKindApiversion_distinct hobjects.2
  rw [← Bool.not_eq_true, emptyWrite_iff hobjects]
  intro hunchanged
  have hmasked := (unchanged_iff (canonicalizeEventAsMap_distinct _ hprev)
    (canonicalizeEventAsMap_distinct _ hcur) write.etype).mpr
      (hunchanged.masked hprev hcur masks)
  have hchanged := detectableWriteDiff_changed hupdate h
  rw [hslim.1, hslim.2] at hchanged
  exact Bool.false_ne_true (hchanged.symm.trans hmasked)

/-- What `compute_event_diff` leaves of a write: its states, and the masked difference. -/
theorem mem_computeWriteDiff {masks : String → Masks} {writes : List ControllerWrite}
    (hobjects : ∀ write ∈ writes, HasObjects write) {write : ControllerWrite}
    (hmem : write ∈ computeWriteDiff masks writes) :
    HasObjects write ∧ SlimBy (masks write.key) write := by
  obtain ⟨slim, hslim, n, rfl⟩ := mem_number _ _ hmem
  obtain ⟨original, horiginal, rfl⟩ := List.mem_map.mp hslim
  exact ⟨hobjects original horiginal, rfl, rfl⟩

/-- **What the detectable pass keeps is effective.** -/
theorem mem_effectiveWriteFilteringPass {testContext : TestContext} {masks : String → Masks}
    {writes : List ControllerWrite} (hobjects : ∀ write ∈ writes, HasObjects write)
    {write : ControllerWrite}
    (hmem : write ∈ intermediateStateDetectablePass testContext (computeWriteDiff masks writes)) :
    write ∈ effectiveWriteFilteringPass (computeWriteDiff masks writes) := by
  rw [intermediateStateDetectablePass, List.mem_filter, Bool.and_eq_true] at hmem
  obtain ⟨hwrite, -, hdetectable⟩ := hmem
  obtain ⟨hobjects, hslim⟩ := mem_computeWriteDiff hobjects hwrite
  rw [effectiveWriteFilteringPass, List.mem_filter]
  refine ⟨hwrite, ?_⟩
  cases hupdate : write.etype.isCreationOrDeletion with
  | true => rfl
  | false => simp [emptyWrite_of_detectable hobjects hupdate hslim hdetectable]

/-- **Masks never make a write effective.**  An update that `detectable_event_diff` accepts on its
masked difference stays in `effective_write_filtering_pass`, whatever the masks; so the two passes
keep the same writes in either order, those that the detectable pass alone keeps. -/
theorem masked_writes_effective :
    (∀ (prev cur : JsonObject) (masks : Masks) (write : ControllerWrite) (signatureCounter : ℕ),
      write.prevObjMap = prev.1 → write.objMap = cur.1 →
      write.etype.isCreationOrDeletion = false →
      detectableWriteDiff ((diffEvent prev.1 cur.1 masks true true).map Prod.fst)
        ((diffEvent prev.1 cur.1 masks true true).map Prod.snd) write.etype signatureCounter = true →
      effectiveWriteFilteringPass [write] = [write]) ∧
    ∀ (testContext : TestContext) (masks : String → Masks) (writes : List ControllerWrite),
      (∀ write ∈ writes, HasObjects write) →
      let slim := computeWriteDiff masks writes
      effectiveWriteFilteringPass (intermediateStateDetectablePass testContext slim) =
        intermediateStateDetectablePass testContext slim ∧
      intermediateStateDetectablePass testContext (effectiveWriteFilteringPass slim) =
        intermediateStateDetectablePass testContext slim := by
  constructor
  · intro prev cur masks write signatureCounter hprev hcur hupdate hdetectable
    -- the slim states of the write itself do not matter
    have hempty : emptyWrite write = false :=
      @emptyWrite_of_detectable masks
        { write with
          slimPrevObjMap := (diffEvent prev.1 cur.1 masks true true).map Prod.fst
          slimCurObjMap := (diffEvent prev.1 cur.1 masks true true).map Prod.snd }
        ⟨by simpa only [hprev] using prev.2, by simpa only [hcur] using cur.2⟩ hupdate
        ⟨by simp only [hprev, hcur], by simp only [hprev, hcur]⟩ signatureCounter hdetectable
    simp [effectiveWriteFilteringPass, hempty]
  · intro testContext masks writes hobjects slim
    have heffective : effectiveWriteFilteringPass (intermediateStateDetectablePass testContext slim) =
        intermediateStateDetectablePass testContext slim := by
      rw [effectiveWriteFilteringPass, List.filter_eq_self]
      intro write hmem
      exact (List.mem_filter.mp (mem_effectiveWriteFilteringPass hobjects hmem)).2
    refine ⟨heffective, ?_⟩
    rw [← heffective]
    simp only [effectiveWriteFilteringPass, intermediateStateDetectablePass, List.filter_filter,
      Bool.and_comm]

/-- A status with one condition and its time. -/
def readyState (time : String) (ready : Bool) : Fields :=
  [("status", .obj [("lastUpdateTime", .str time), ("ready", .bool ready)])]

theorem readyState_distinct (time : String) (ready : Bool) :
    Json.Distinct (.obj (readyState time ready)) := by
  refine .obj (by simp [readyState]) fun field hmem => ?_
  rw [readyState, List.mem_singleton] at hmem
  rw [hmem]
  refine .obj (by simp) fun field hmem => ?_
  rw [List.mem_cons, List.mem_singleton] at hmem
  rcases hmem with rfl | rfl <;> exact .scalar trivial

def readyWrite : ControllerWrite where
  id := 0
  etype := .statusUpdate
  rtype := "pod"
  objNamespace := "default"
  name := "web"
  reconcileFun := "PodReconciler"
  error := "NoError"
  objMap := readyState "10:05" true
  prevObjMap := readyState "10:00" false

/-- A pod that becomes ready, with the time masked. -/
theorem masked_writes_effective_ready : effectiveWriteFilteringPass [readyWrite] = [readyWrite] :=
  masked_writes_effective.1 ⟨_, readyState_distinct "10:00" false⟩
    ⟨_, readyState_distinct "10:05" true⟩ ⟨{"lastUpdateTime"}, ∅⟩ readyWrite 1 rfl rfl rfl
    (by decide)

end Sieve.Policies
