import Sieve.Plan.Generate
import Sieve.Plan.SameTriggers
import Sieve.Server.APIDiffs
import Sieve.Server.StateMachineRun

/-!
# Generated plans read back

What the coordinator makes of a plan is what the plan is for.

* `roundedMap`, `strToMap_dumpsMap`: the text of a difference, read again, with its numbers as floats;
* `IntendedAction`, `intendedActions`: what the policies mean, without any text;
* `Realizes`: an action that has been read does what is meant;
* `parseTestPlan_generateTestPlan`, `generateTestPlan_readBack`: every generated plan is read, and its actions do.
-/

namespace Sieve.Plan

open Sieve.Event Sieve.Server Sieve.Analyzer Sieve.Policies Sieve.Trigger Sieve.Library

/-! ### Differences -/

/-- The difference with its keys in order. -/
def sortedMap (m : GoMap) : GoMap :=
  m.map fun fields => (byKey fields).map fun field => (field.1, field.2.sortKeys)

theorem sortedMap_same {m : GoMap} (h : DistinctMap m) : SameMap m (sortedMap m) := by
  cases m with
  | none => exact ⟨h, nofun, rfl⟩
  | some fields =>
    have hdistinct := h fields rfl
    refine ⟨h, fun fields' heq => ?_, ?_⟩
    · rw [← Option.some.inj heq, ← sortKeys_obj]
      exact sortKeys_distinct hdistinct
    · have hequal := sortKeys_equal go_lawful hdistinct
      rw [sortKeys_obj] at hequal
      exact hequal

/-- The difference with the numbers that the coordinator reads. -/
def roundedMap (m : GoMap) : GoMap := m.map roundedFields

theorem distinct_roundedMap {m : GoMap} (h : DistinctMap m) : DistinctMap (roundedMap m) := by
  cases m with
  | none => exact nofun
  | some fields =>
    intro fields' heq
    have hrounded := rounded_distinct (h fields rfl)
    rw [rounded_obj] at hrounded
    rw [← Option.some.inj heq]
    exact hrounded

/-- A difference that can be written and read. -/
structure ReadableMap (m : GoMap) : Prop where
  distinct : DistinctMap m
  decimal : (mapText m).Decimal
  inRange : (mapText m).inRange = true

/-- **The text of a difference, read again.** -/
theorem strToMap_dumpsMap {m : GoMap} (h : ReadableMap m) : strToMap (dumpsMap m) = .ok (sortedMap (roundedMap m)) := by
  have htext : dumpsMap m = dumps (mapText m) := by cases m <;> rfl
  have hdistinct : (mapText m).Distinct := by
    cases m with
    | none => exact .scalar trivial
    | some fields => exact h.distinct fields rfl
  rw [strToMap, htext, unmarshalText_dumps hdistinct h.decimal h.inRange]
  cases m with
  | none => rfl
  | some fields =>
    rw [mapText, rounded_obj, sortKeys_obj]
    rfl

/-! ### Differences in the form of the API server -/

theorem allKeys_sortKeys {P : String → Prop} {x : Json} (h : x.AllKeys P) : x.sortKeys.AllKeys P := by
  induction x using Json.induct with
  | scalar x hscalar =>
    cases x with
    | arr items => exact hscalar.elim
    | obj fields => exact hscalar.elim
    | _ => exact h
  | arr items ih =>
    rw [Json.sortKeys, sortKeysItems_eq]
    exact .arr (List.forall_mem_map.mpr fun x hx => ih x hx (h.items x hx))
  | obj fields ih =>
    rw [sortKeys_obj]
    exact .obj (List.forall_mem_map.mpr fun field hfield => h.keys field (mem_byKey.mp hfield))
      (List.forall_mem_map.mpr fun field hfield =>
        ih field (mem_byKey.mp hfield) (h.values field (mem_byKey.mp hfield)))

theorem sortedMap_form {m : GoMap} (h : ControllerForm (m.getD [])) : ControllerForm ((sortedMap m).getD []) := by
  cases m with
  | none => exact h
  | some fields =>
    have hsorted : (sortedMap (some fields)).getD [] =
      (byKey fields).map fun field => (field.1, field.2.sortKeys) := rfl
    rw [hsorted]
    have hdistinct := sortKeys_distinct h.distinct
    have hkeys := allKeys_sortKeys h.keys
    rw [Option.getD_some, sortKeys_obj] at hdistinct hkeys
    refine ⟨hdistinct, hkeys, fun x hx => ?_⟩
    have hlookup := @lookup_byKey fields h.distinct.keys "metadata"
    rw [hlookup] at hx
    obtain ⟨y, hy, rfl⟩ := Option.map_eq_some_iff.mp hx
    obtain ⟨metadataMap, rfl⟩ := h.metadata y hy
    exact ⟨_, sortKeys_obj metadataMap⟩

theorem allKeys_rounded {P : String → Prop} {x : Json} (h : x.AllKeys P) : x.rounded.AllKeys P := by
  induction x using Json.induct with
  | scalar x hscalar => exact .scalar (rounded_scalar.mpr hscalar)
  | arr items ih =>
    rw [rounded_arr]
    exact .arr (List.forall_mem_map.mpr fun x hx => ih x hx (h.items x hx))
  | obj fields ih =>
    rw [rounded_obj, roundedFields_eq]
    exact .obj (List.forall_mem_map.mpr h.keys)
      (List.forall_mem_map.mpr fun field hfield => ih field hfield (h.values field hfield))

theorem roundedMap_form {m : GoMap} (h : ControllerForm (m.getD [])) : ControllerForm ((roundedMap m).getD []) := by
  have hfields : (roundedMap m).getD [] = roundedFields (m.getD []) := by cases m <;> rfl
  have hdistinct := rounded_distinct h.distinct
  have hkeys := allKeys_rounded h.keys
  rw [rounded_obj] at hdistinct hkeys
  rw [hfields]
  refine ⟨hdistinct, hkeys, fun x hx => ?_⟩
  rw [roundedFields_lookup] at hx
  obtain ⟨y, hy, rfl⟩ := Option.map_eq_some_iff.mp hx
  obtain ⟨metadataMap, rfl⟩ := h.metadata y hy
  exact ⟨_, rounded_obj metadataMap⟩

theorem metadataOf_equal {fields fields' : Fields} (h : ControllerForm fields) (h' : ControllerForm fields')
    (hequal : Json.Equal go.scalarEqual (.obj fields) (.obj fields')) :
    Json.Equal go.scalarEqual (.obj (metadataOf fields)) (.obj (metadataOf fields')) := by
  have hkey := (equal_obj_iff h.distinct.keys h'.distinct.keys).mp hequal "metadata"
  rw [metadataOf, metadataOf]
  cases hx : fields.lookup "metadata" with
  | none =>
    rw [hx] at hkey
    rw [rel_none hkey]
    rfl
  | some x =>
    obtain ⟨metadataMap, rfl⟩ := h.metadata x hx
    rw [hx] at hkey
    obtain ⟨y, hy, hxy⟩ := rel_some hkey
    obtain ⟨metadataMap', rfl⟩ := h'.metadata y hy
    rw [hy]
    exact hxy

/-- **Equal states have equal forms** in the API server. -/
theorem apiFields_equal {fields fields' : Fields} (h : ControllerForm fields) (h' : ControllerForm fields')
    (hequal : Json.Equal go.scalarEqual (.obj fields) (.obj fields')) :
    Json.Equal go.scalarEqual (.obj (apiFields fields)) (.obj (apiFields fields')) := by
  obtain ⟨hmetadata, hlower⟩ := metadataOf_form h
  obtain ⟨hmetadata', hlower'⟩ := metadataOf_form h'
  rw [equal_obj_iff (apiFields_distinct h).keys (apiFields_distinct h').keys]
  intro key
  rw [apiFields, apiFields]
  by_cases hkey : IsLowerKey key
  · rw [lookup_merged_lower (allKeys_erase h.keys "metadata") hkey,
      lookup_merged_lower (allKeys_erase h'.keys "metadata") hkey]
    exact (equal_obj_iff hmetadata.keys hmetadata'.keys).mp (metadataOf_equal h h' hequal) key
  · have hrest := (equal_obj_iff h.distinct.keys h'.distinct.keys).mp hequal (swapFirst key)
    rw [lookup_merged_upper hlower hkey, lookup_merged_upper hlower' hkey, lookup_erase, lookup_erase]
    split
    · exact .none
    · cases hx : fields.lookup (swapFirst key) with
      | none =>
        rw [hx] at hrest
        rw [rel_none hrest]
        exact .none
      | some x =>
        rw [hx] at hrest
        obtain ⟨y, hy, hxy⟩ := rel_some hrest
        rw [hy]
        exact .some ((equal_mapKeys_iff swapFirst_injective).mpr hxy)

/-- The difference in the form of the API server. -/
theorem apiFields_sortedMap {m : GoMap} (h : ControllerForm (m.getD [])) :
    SameMap (some (apiFields (m.getD []))) (some (apiFields ((sortedMap m).getD []))) := by
  have hsorted := sortedMap_form h
  refine ⟨fun fields heq => ?_, fun fields heq => ?_, ?_⟩
  · rw [← Option.some.inj heq]
    exact apiFields_distinct h
  · rw [← Option.some.inj heq]
    exact apiFields_distinct hsorted
  · refine apiFields_equal h hsorted ?_
    cases m with
    | none => rfl
    | some fields =>
      exact (sortedMap_same fun fields' heq => Option.some.inj heq ▸ h.distinct).equivalent

/-! ### Definitions -/

/-- The entry is read, and the trigger answers like `definition`. -/
def Reads (definition : TriggerDefinition) (entry : Yaml) : Prop :=
  ∃ raw definition', entry = .map raw ∧ parseTriggerDefinition raw = .ok definition' ∧
    SameTrigger definition definition'

theorem reads_create (triggerName resourceKey : String) (occurrence : ℤ) (observedWhen observedBy : String) :
    Reads (.objectCreate ⟨triggerName, resourceKey, occurrence, 0, observedWhen, observedBy⟩)
      (definitionAt triggerName (objectCondition onObjectCreate resourceKey occurrence) observedWhen observedBy) :=
  ⟨_, _, rfl, rfl, .objectCreate _⟩

theorem reads_delete (triggerName resourceKey : String) (occurrence : ℤ) (observedWhen observedBy : String) :
    Reads (.objectDelete ⟨triggerName, resourceKey, occurrence, 0, observedWhen, observedBy⟩)
      (definitionAt triggerName (objectCondition onObjectDelete resourceKey occurrence) observedWhen observedBy) :=
  ⟨_, _, rfl, rfl, .objectDelete _⟩

/-- Without differences any update is meant. -/
theorem reads_anyUpdate (triggerName resourceKey : String) (occurrence : ℤ) (observedWhen observedBy : String) :
    Reads (.objectUpdate ⟨triggerName, resourceKey, none, none, false, occurrence, 0, observedWhen, observedBy⟩)
      (definitionAt triggerName (objectCondition onObjectUpdate resourceKey occurrence) observedWhen observedBy) :=
  ⟨_, _, rfl, rfl, .objectUpdate _ (.refl nofun) (.refl nofun)⟩

theorem reads_call (triggerName : String) (call : ControllerNonK8sWrite) (observedWhen observedBy : String) :
    Reads (.annotatedAPICall ⟨triggerName, call.module, call.filePath, call.recvType, call.funName,
        call.signatureCounter, 0, observedWhen, observedBy⟩)
      (definitionAt triggerName (callCondition call) observedWhen observedBy) :=
  ⟨_, _, rfl, rfl, .annotatedAPICall _⟩

theorem reads_timeout (triggerName : String) (timeoutValue : ℤ) :
    Reads (.timeout ⟨triggerName, timeoutValue⟩) (.map [("triggerName", .str triggerName),
      ("condition", .map [("conditionType", .str onTimeout), ("timeoutValue", .int timeoutValue)])]) :=
  ⟨_, _, rfl, rfl, .timeout _⟩

theorem parseStateDiff_dumpsMap {m : GoMap} (h : ReadableMap m) {condition : Entries} {key : String}
    (hkey : condition.lookup key = some (.str (dumpsMap m))) :
    parseStateDiff condition key false = .ok (sortedMap (roundedMap m)) := by
  rw [parseStateDiff, getStr, hkey]
  show (strToMap (dumpsMap m) >>= fun stateDiff => _) = _
  rw [strToMap_dumpsMap h]
  rfl

/-- A difference as the trigger is to compare it. -/
def comparedDiff (convertStateToAPIForm : Bool) (m : GoMap) : GoMap :=
  if convertStateToAPIForm then some (apiFields (m.getD [])) else m

/-- A difference that can be written and, if need be, converted. -/
structure ReadableDiff (convertStateToAPIForm : Bool) (m : GoMap) : Prop where
  readable : ReadableMap m
  form : convertStateToAPIForm = true → ControllerForm (m.getD [])

theorem parseStateDiff_readable {convertStateToAPIForm : Bool} {m : GoMap}
    (h : ReadableDiff convertStateToAPIForm m) {condition : Entries} {key : String}
    (hkey : condition.lookup key = some (.str (dumpsMap m))) :
    ∃ m', parseStateDiff condition key convertStateToAPIForm = .ok m' ∧
      SameMap (comparedDiff convertStateToAPIForm (roundedMap m)) m' := by
  cases convertStateToAPIForm with
  | false =>
    exact ⟨_, parseStateDiff_dumpsMap h.readable hkey, sortedMap_same (distinct_roundedMap h.readable.distinct)⟩
  | true =>
    have hform := roundedMap_form (h.form rfl)
    refine ⟨_, ?_, apiFields_sortedMap hform⟩
    rw [parseStateDiff, getStr, hkey]
    simp only [bind, Except.bind, if_true, strToMap_dumpsMap h.readable,
      convertObjectStateToAPIForm_eq (sortedMap_form hform)]

theorem reads_modification (triggerName resourceKey : String) {m : GoMap} (h : ReadableMap m) (occurrence : ℤ)
    (observedWhen observedBy : String) :
    Reads (.anyFieldModification ⟨triggerName, resourceKey, roundedMap m, false, occurrence, 0, observedWhen,
        observedBy⟩)
      (definitionAt triggerName (modificationCondition resourceKey m occurrence) observedWhen observedBy) := by
  refine ⟨_, .anyFieldModification ⟨triggerName, resourceKey, sortedMap (roundedMap m), false, occurrence, 0,
    observedWhen, observedBy⟩, rfl, ?_, .anyFieldModification _ (sortedMap_same (distinct_roundedMap h.distinct))⟩
  show parseAnyFieldModification _ (modificationCondition resourceKey m occurrence) = _
  rw [parseAnyFieldModification]
  show (parseStateDiff _ "prevStateDiff" false >>= fun prevStateDiff => _) = _
  rw [parseStateDiff_dumpsMap h rfl]
  rfl

theorem reads_update (triggerName resourceKey : String) {convertStateToAPIForm : Bool}
    {slimPrevObjMap slimCurObjMap : Option Fields} (hprev : ReadableDiff convertStateToAPIForm slimPrevObjMap)
    (hcur : ReadableDiff convertStateToAPIForm slimCurObjMap) (occurrence : ℤ) (observedWhen observedBy : String) :
    Reads (.objectUpdate ⟨triggerName, resourceKey, comparedDiff convertStateToAPIForm (roundedMap slimPrevObjMap),
        comparedDiff convertStateToAPIForm (roundedMap slimCurObjMap), convertStateToAPIForm, occurrence, 0,
        observedWhen, observedBy⟩)
      (definitionAt triggerName (updateCondition resourceKey slimPrevObjMap slimCurObjMap convertStateToAPIForm
        occurrence) observedWhen observedBy) := by
  obtain ⟨prev, hparsePrev, hsamePrev⟩ := @parseStateDiff_readable _ _ hprev
    (updateCondition resourceKey slimPrevObjMap slimCurObjMap convertStateToAPIForm occurrence) "prevStateDiff" rfl
  obtain ⟨cur, hparseCur, hsameCur⟩ := @parseStateDiff_readable _ _ hcur
    (updateCondition resourceKey slimPrevObjMap slimCurObjMap convertStateToAPIForm occurrence) "curStateDiff" rfl
  refine ⟨_, .objectUpdate ⟨triggerName, resourceKey, prev, cur, convertStateToAPIForm, occurrence, 0,
    observedWhen, observedBy⟩, rfl, ?_, .objectUpdate _ hsamePrev hsameCur⟩
  have hboth : parseStateDiffs (updateCondition resourceKey slimPrevObjMap slimCurObjMap convertStateToAPIForm
      occurrence) convertStateToAPIForm = .ok (prev, cur) := by
    have hthere : ((updateCondition resourceKey slimPrevObjMap slimCurObjMap convertStateToAPIForm
        occurrence).lookup "prevStateDiff").isSome &&
      ((updateCondition resourceKey slimPrevObjMap slimCurObjMap convertStateToAPIForm
        occurrence).lookup "curStateDiff").isSome := rfl
    rw [parseStateDiffs, if_pos hthere, hparsePrev, hparseCur]
    rfl
  show parseObjectUpdate _ (updateCondition resourceKey slimPrevObjMap slimCurObjMap convertStateToAPIForm
    occurrence) = _
  rw [parseObjectUpdate]
  cases convertStateToAPIForm with
  | false =>
    show (parseStateDiffs _ false >>= fun stateDiffs => _) = _
    rw [hboth]
    rfl
  | true =>
    show (parseStateDiffs _ true >>= fun stateDiffs => _) = _
    rw [hboth]
    rfl

/-! ### What the policies mean -/

/-- An action without any text. -/
structure IntendedAction where
  kind : ActionKind
  waitBefore : ℤ
  waitAfter : ℤ
  async : Bool
  expression : TriggerExpr String
  definitions : List TriggerDefinition

/-- The event is received; the states are compared as the observer has them. -/
def hearTrigger (hear : ControllerHear) (convertStateToAPIForm : Bool) (observedWhen observedBy : String) :
    TriggerDefinition :=
  match hear.etype with
  | .added => .objectCreate ⟨"trigger1", hear.key, hear.signatureCounter, 0, observedWhen, observedBy⟩
  | .deleted => .objectDelete ⟨"trigger1", hear.key, hear.signatureCounter, 0, observedWhen, observedBy⟩
  | .updated | .replaced | .sync => .objectUpdate ⟨"trigger1", hear.key,
      comparedDiff convertStateToAPIForm hear.slimPrevObjMap, comparedDiff convertStateToAPIForm hear.slimCurObjMap,
      convertStateToAPIForm, hear.signatureCounter, 0, observedWhen, observedBy⟩

/-- The object of the event is seen to have changed again. -/
def nextTriggers (hear : ControllerHear) : List TriggerDefinition :=
  match hear.etype with
  | .added =>
    [.objectUpdate ⟨"trigger2", hear.key, none, none, false, 1, 0, afterControllerRecv, "informer"⟩,
      .objectDelete ⟨"trigger3", hear.key, 1, 0, afterControllerRecv, "informer"⟩]
  | .deleted =>
    [.objectCreate ⟨"trigger2", hear.key, 1, 0, afterControllerRecv, "informer"⟩,
      .objectUpdate ⟨"trigger3", hear.key, none, none, false, 1, 0, afterControllerRecv, "informer"⟩]
  | .updated | .replaced | .sync =>
    [.anyFieldModification ⟨"trigger2", hear.key, hear.slimCurObjMap, false, 1, 0, afterControllerRecv, "informer"⟩,
      .objectDelete ⟨"trigger3", hear.key, 1, 0, afterControllerRecv, "informer"⟩]

/-- The actions of the plan for a selection. -/
def intendedActions (context : PlanContext) : Selection → List IntendedAction
  | .write write =>
    [⟨.restartController context.controllerPodLabel, 0, 0, false, .literal "trigger1", [controllerWriteTrigger write]⟩]
  | .call call =>
    [⟨.restartController context.controllerPodLabel, 0, 0, false, .literal "trigger1",
      [annotatedAPIInvocationTrigger call]⟩]
  | .unobserved hear =>
    [⟨.pauseController hear.key beforeControllerRead true, 0, 0, false, .literal "trigger1",
      [unobservedStateTrigger hear]⟩,
    ⟨.resumeController hear.key beforeControllerRead, 0, 0, false,
      .node .or (.literal "trigger2") (.literal "trigger3"), nextTriggers hear⟩]
  | .stale hear write pauseTiming =>
    [⟨.pauseAPIServer context.followingApi hear.key, 0, 0, false, .literal "trigger1",
      [hearTrigger hear (convertsToAPIForm context hear) (pausedWhen pauseTiming) context.followingApi]⟩,
    ⟨.reconnectController context.controllerPodLabel context.followingApi, 10, 0, true, .literal "trigger2",
      [.objectCreate ⟨"trigger2", write.key, 1, 0, afterAPIServerRecv, context.leadingApi⟩]⟩,
    ⟨.resumeAPIServer context.followingApi hear.key, 0, 0, false, .literal "trigger3", [.timeout ⟨"trigger3", 20⟩]⟩]

/-- The events with the numbers that the coordinator reads. -/
def roundedHear (hear : ControllerHear) : ControllerHear :=
  { hear with slimPrevObjMap := roundedMap hear.slimPrevObjMap, slimCurObjMap := roundedMap hear.slimCurObjMap }

def roundedWrite (write : ControllerWrite) : ControllerWrite :=
  { write with slimPrevObjMap := roundedMap write.slimPrevObjMap, slimCurObjMap := roundedMap write.slimCurObjMap }

theorem roundedHear_etype (hear : ControllerHear) : (roundedHear hear).etype = hear.etype := rfl

theorem roundedWrite_etype (write : ControllerWrite) : (roundedWrite write).etype = write.etype := rfl

def Selection.rounded : Selection → Selection
  | .write controllerWrite => .write (roundedWrite controllerWrite)
  | .call annotatedCall => .call annotatedCall
  | .unobserved hear => .unobserved (roundedHear hear)
  | .stale hear controllerWrite pauseTiming => .stale (roundedHear hear) controllerWrite pauseTiming

/-- The differences of the selected event can be written and, if need be, converted. -/
def Selection.Readable (context : PlanContext) : Selection → Prop
  | .write controllerWrite =>
    ReadableDiff false controllerWrite.slimPrevObjMap ∧ ReadableDiff false controllerWrite.slimCurObjMap
  | .call _ => True
  | .unobserved hear => ReadableDiff false hear.slimPrevObjMap ∧ ReadableDiff false hear.slimCurObjMap
  | .stale hear _ _ => ReadableDiff (convertsToAPIForm context hear) hear.slimPrevObjMap ∧
      ReadableDiff (convertsToAPIForm context hear) hear.slimCurObjMap

/-! ### Triggers of the plans -/

theorem reads_controllerWriteTrigger {write : ControllerWrite} (hprev : ReadableDiff false write.slimPrevObjMap)
    (hcur : ReadableDiff false write.slimCurObjMap) :
    Reads (controllerWriteTrigger (roundedWrite write))
      (definitionAt "trigger1" (writeCondition write) afterControllerWrite write.reconcileFun) := by
  rw [controllerWriteTrigger, roundedWrite_etype, writeCondition]
  cases write.etype with
  | create => exact reads_create _ _ _ _ _
  | delete => exact reads_delete _ _ _ _ _
  | _ => exact reads_update _ _ hprev hcur _ _ _

theorem reads_hearTrigger {hear : ControllerHear} {convertStateToAPIForm : Bool}
    (hprev : ReadableDiff convertStateToAPIForm hear.slimPrevObjMap)
    (hcur : ReadableDiff convertStateToAPIForm hear.slimCurObjMap) (observedWhen observedBy : String) :
    Reads (hearTrigger (roundedHear hear) convertStateToAPIForm observedWhen observedBy)
      (definitionAt "trigger1" (hearCondition hear convertStateToAPIForm) observedWhen observedBy) := by
  rw [hearTrigger, roundedHear_etype, hearCondition]
  cases hear.etype with
  | added => exact reads_create _ _ _ _ _
  | deleted => exact reads_delete _ _ _ _ _
  | _ => exact reads_update _ _ hprev hcur _ _ _

theorem unobservedStateTrigger_eq (hear : ControllerHear) :
    unobservedStateTrigger hear = hearTrigger hear false beforeControllerRecv "informer" := by
  rw [unobservedStateTrigger, hearTrigger]
  cases hear.etype <;> rfl

theorem reads_nextTriggers {hear : ControllerHear} (hcur : ReadableMap hear.slimCurObjMap) :
    List.Forall₂ Reads (nextTriggers (roundedHear hear))
      [definitionAt "trigger2" (nextConditions hear).1 afterControllerRecv "informer",
        definitionAt "trigger3" (nextConditions hear).2 afterControllerRecv "informer"] := by
  rw [nextTriggers, roundedHear_etype, nextConditions]
  cases hear.etype with
  | added => exact .cons (reads_anyUpdate _ _ _ _ _) (.cons (reads_delete _ _ _ _ _) .nil)
  | deleted => exact .cons (reads_create _ _ _ _ _) (.cons (reads_anyUpdate _ _ _ _ _) .nil)
  | _ => exact .cons (reads_modification _ _ hcur _ _ _) (.cons (reads_delete _ _ _ _ _) .nil)

/-! ### Actions -/

theorem parseTriggerDefinitions_reads {definitions : List TriggerDefinition} {entries : List Yaml}
    (h : List.Forall₂ Reads definitions entries) :
    ∃ definitions', parseTriggerDefinitions entries = .ok definitions' ∧
      List.Forall₂ SameTrigger definitions definitions' := by
  induction h with
  | nil => exact ⟨[], rfl, .nil⟩
  | cons hreads _ ih =>
    obtain ⟨raw, definition', rfl, hparse, hsame⟩ := hreads
    obtain ⟨definitions', hparses, hsames⟩ := ih
    refine ⟨definition' :: definitions', ?_, .cons hsame hsames⟩
    rw [parseTriggerDefinitions]
    show (parseTriggerDefinition raw >>= fun triggerDefinition => _) = _
    rw [hparse]
    show (parseTriggerDefinitions _ >>= fun triggerDefinitions => _) = _
    rw [hparses]
    rfl

theorem definitionTable_sameTrigger {definitions definitions' : List TriggerDefinition}
    (h : List.Forall₂ SameTrigger definitions definitions') (name : String) :
    Option.Rel SameTrigger (definitionTable definitions name) (definitionTable definitions' name) := by
  have hfold : ∀ table table' : String → Option TriggerDefinition,
      (∀ name, Option.Rel SameTrigger (table name) (table' name)) → ∀ name, Option.Rel SameTrigger
        (definitions.foldl (fun (table : String → Option TriggerDefinition) d =>
          Function.update table d.getTriggerName (some d)) table name)
        (definitions'.foldl (fun (table : String → Option TriggerDefinition) d =>
          Function.update table d.getTriggerName (some d)) table' name) := by
    induction h with
    | nil => exact fun table table' htable => htable
    | @cons definition definition' _ _ hsame _ ih =>
      intro table table' htable
      refine ih _ _ fun name => ?_
      show Option.Rel SameTrigger (Function.update table definition.getTriggerName (some definition) name)
        (Function.update table' definition'.getTriggerName (some definition') name)
      rw [hsame.getTriggerName]
      by_cases hname : name = definition.getTriggerName
      · rw [hname, Function.update_self, Function.update_self]
        exact .some hsame
      · rw [Function.update_of_ne hname, Function.update_of_ne hname]
        exact htable name
  exact hfold _ _ (fun _ => .none) name

/-- The action that has been read does what is meant. -/
structure Realizes (intended : IntendedAction) (planned : PlannedAction) : Prop where
  kind : planned.kind = intended.kind
  waitBefore : planned.waitBefore = intended.waitBefore
  waitAfter : planned.waitAfter = intended.waitAfter
  async : planned.action.async = intended.async
  graph : Reflects intended.expression ∅ planned.action.triggerGraph
  definitions : ∀ name, Option.Rel SameTrigger (definitionTable intended.definitions name)
    (planned.action.triggerDefinitions name)

/-- The trigger under each name answers as meant, to all notifications. -/
def AnswersAsMeant (intended : IntendedAction) (planned : PlannedAction) : Prop :=
  ∀ name definition, definitionTable intended.definitions name = some definition →
    ∃ definition', planned.action.triggerDefinitions name = some definition' ∧
      ∀ ns, (∀ n ∈ ns, DecodedNotification n) → definition'.answers ns = definition.answers ns

theorem Realizes.answers {intended : IntendedAction} {planned : PlannedAction} (h : Realizes intended planned) :
    AnswersAsMeant intended planned := by
  intro name definition hdef
  have hrel := h.definitions name
  rw [hdef] at hrel
  obtain ⟨definition', hdef', hsame⟩ := rel_some hrel
  exact ⟨definition', hdef', fun ns hns => answers_sameTrigger hsame hns⟩

theorem parseTriggerGraph_ok {expression : String} {e : TriggerExpr String} (h : Denotes 1 expression e)
    (hnodup : e.literals.Nodup) :
    ∃ triggerGraph, parseTriggerGraph expression = .ok triggerGraph ∧ Reflects e ∅ triggerGraph := by
  have hnamed : e.WellNamed := ⟨fun n hn => (h.generates.operatorFree n hn).2, hnodup⟩
  obtain ⟨triggerGraph, hbuild, hreflects⟩ := reflects_initial hnamed
  refine ⟨triggerGraph, ?_, hreflects⟩
  have hgraph : expressionToBinaryTree expression >>= binaryTreeToTriggerGraph = .ok triggerGraph := by
    rw [expressionToBinaryTree_of_denotes h hnodup]
    exact hbuild
  rw [parseTriggerGraph, hgraph]

/-- The entry of an action with this meaning. -/
def ReadsAction (intended : IntendedAction) (entry : Yaml) : Prop :=
  ∃ raw planned, entry = .map raw ∧ parseAction raw = .ok planned ∧ Realizes intended planned

/-- **Reading an action**: its trigger, its type and what it waits for. -/
theorem parseAction_reads {intended : IntendedAction} {raw : Entries} {entries : List Yaml}
    {expression actionType : String} (htrigger : raw.lookup "trigger" = some (triggerEntry entries expression).2)
    (htype : raw.lookup "actionType" = some (.str actionType))
    (hdefinitions : List.Forall₂ Reads intended.definitions entries)
    (hdenotes : Denotes 1 expression intended.expression) (hnodup : intended.expression.literals.Nodup)
    (hasync : getBoolOr raw "async" false = .ok intended.async)
    (hbefore : getIntOr raw "waitBefore" 0 = .ok intended.waitBefore)
    (hafter : getIntOr raw "waitAfter" 0 = .ok intended.waitAfter)
    (hkind : parseActionKind raw actionType = .ok intended.kind) :
    ReadsAction intended (.map raw) := by
  obtain ⟨definitions', hparse, hsame⟩ := parseTriggerDefinitions_reads hdefinitions
  obtain ⟨triggerGraph, htriggerGraph, hreflects⟩ := parseTriggerGraph_ok hdenotes hnodup
  refine ⟨raw, ⟨intended.kind, intended.waitBefore, intended.waitAfter,
    ⟨triggerGraph, definitionTable definitions', intended.async⟩⟩, rfl, ?_, rfl, rfl, rfl, rfl, hreflects,
    definitionTable_sameTrigger hsame⟩
  rw [parseAction, getMap, htrigger]
  show (parseTriggerGraph expression >>= fun triggerGraph => _) = _
  rw [htriggerGraph]
  show (parseTriggerDefinitions entries >>= fun triggerDefinitions => _) = _
  rw [hparse, getStr, htype]
  show (getBoolOr raw "async" false >>= fun async => _) = _
  rw [hasync]
  show (getIntOr raw "waitBefore" 0 >>= fun waitBefore => _) = _
  rw [hbefore]
  show (getIntOr raw "waitAfter" 0 >>= fun waitAfter => _) = _
  rw [hafter]
  show (parseActionKind raw actionType >>= fun kind => _) = _
  rw [hkind]
  rfl

theorem parseActions_reads {intended : List IntendedAction} {entries : List Yaml}
    (h : List.Forall₂ ReadsAction intended entries) :
    ∃ planned, parseActions entries = .ok planned ∧ List.Forall₂ Realizes intended planned := by
  induction h with
  | nil => exact ⟨[], rfl, .nil⟩
  | cons hreads _ ih =>
    obtain ⟨raw, planned, rfl, hparse, hrealizes⟩ := hreads
    obtain ⟨planneds, hparses, hrealize⟩ := ih
    refine ⟨planned :: planneds, ?_, .cons hrealizes hrealize⟩
    rw [parseActions]
    show (parseAction raw >>= fun action => _) = _
    rw [hparse]
    show (parseActions _ >>= fun actions => _) = _
    rw [hparses]
    rfl

/-! ### Plans -/

theorem denotes_name {name : String} (h : name ≠ "" ∧ OperatorFree name) : Denotes 1 name (.literal name) :=
  (Denotes.name h.1 h.2).of_le (by decide)

theorem denotes_either : Denotes 1 "trigger2|trigger3" (.node .or (.literal "trigger2") (.literal "trigger3")) :=
  (Denotes.binary .or ((Denotes.name (n := "trigger2") (by decide) (by decide)).of_le (by decide))
    ((Denotes.name (n := "trigger3") (by decide) (by decide)).of_le (by decide))).looser

/-- **Every generated plan is read**, and its actions do what is meant. -/
theorem parseTestPlan_generateTestPlan (context : PlanContext) {selection : Selection}
    (h : selection.Readable context) :
    ∃ planned, parseTestPlan (generateTestPlan context selection) = .ok (some planned) ∧
      List.Forall₂ Realizes (intendedActions context selection.rounded) planned := by
  have hactions : ∃ entries, (generateTestPlan context selection).lookup "actions" = some (.list entries) ∧
      List.Forall₂ ReadsAction (intendedActions context selection.rounded) entries := by
    cases selection with
    | write write =>
      refine ⟨_, rfl, .cons ?_ .nil⟩
      exact parseAction_reads rfl rfl (.cons (reads_controllerWriteTrigger h.1 h.2) .nil)
        (denotes_name (by decide)) (List.nodup_singleton _) rfl rfl rfl rfl
    | call call =>
      refine ⟨_, rfl, .cons ?_ .nil⟩
      exact parseAction_reads rfl rfl (.cons (reads_call _ call _ _) .nil) (denotes_name (by decide))
        (List.nodup_singleton _) rfl rfl rfl rfl
    | unobserved hear =>
      have htrigger := reads_hearTrigger h.1 h.2 beforeControllerRecv "informer"
      rw [← unobservedStateTrigger_eq] at htrigger
      refine ⟨_, rfl, .cons ?_ (.cons ?_ .nil)⟩
      · exact parseAction_reads rfl rfl (.cons htrigger .nil) (denotes_name (by decide)) (List.nodup_singleton _)
          rfl rfl rfl rfl
      · exact parseAction_reads rfl rfl (reads_nextTriggers h.2.readable) denotes_either
          (show ["trigger2", "trigger3"].Nodup by decide) rfl rfl rfl rfl
    | stale hear write pauseTiming =>
      refine ⟨_, rfl, .cons ?_ (.cons ?_ (.cons ?_ .nil))⟩
      · exact parseAction_reads rfl rfl (.cons (reads_hearTrigger h.1 h.2 _ _) .nil) (denotes_name (by decide))
          (List.nodup_singleton _) rfl rfl rfl rfl
      · exact parseAction_reads rfl rfl (.cons (reads_create _ _ _ _ _) .nil) (denotes_name (by decide))
          (List.nodup_singleton _) rfl rfl rfl rfl
      · exact parseAction_reads rfl rfl (.cons (reads_timeout _ _) .nil) (denotes_name (by decide))
          (List.nodup_singleton _) rfl rfl rfl rfl
  obtain ⟨entries, hlookup, hreads⟩ := hactions
  obtain ⟨planned, hparse, hrealizes⟩ := parseActions_reads hreads
  refine ⟨planned, ?_, hrealizes⟩
  rw [parseTestPlan, hlookup]
  show (parseActions entries >>= fun actions => _) = _
  rw [hparse]
  rfl

/-- **Generated plans read back**: the actions, and what their triggers answer. -/
theorem generateTestPlan_readBack (context : PlanContext) {selection : Selection} (h : selection.Readable context) :
    ∃ planned, parseTestPlan (generateTestPlan context selection) = .ok (some planned) ∧
      List.Forall₂ (fun intended planned => Realizes intended planned ∧ AnswersAsMeant intended planned)
        (intendedActions context selection.rounded) planned := by
  obtain ⟨planned, hparse, hrealizes⟩ := parseTestPlan_generateTestPlan context h
  exact ⟨planned, hparse, hrealizes.imp fun _ _ hrealizes => ⟨hrealizes, hrealizes.answers⟩⟩

/-- A stateful set has been scaled down. -/
def scaledHear : ControllerHear where
  id := 0
  etype := .updated
  rtype := "statefulset"
  objNamespace := "default"
  name := "s"
  objMap := []
  prevEtype := some .updated
  slimPrevObjMap := some [("spec", .obj [("replicas", .num 2)])]
  slimCurObjMap := some [("spec", .obj [("replicas", .num 1)])]
  cancelledBy := [1]
  signatureCounter := 1

def deletedWrite : ControllerWrite where
  id := 1
  etype := .delete
  rtype := "pod"
  objNamespace := "default"
  name := "s-1"
  reconcileFun := "r"
  error := "NoError"
  objMap := []

/-- The differences are compared in the form of the API server. -/
theorem generateTestPlan_readBack_scaled : ∃ planned,
    parseTestPlan (generateTestPlan ⟨"scale", "operator", "leading", "following", ["zookeepercluster"]⟩
      (.stale scaledHear deletedWrite .after)) = .ok (some planned) ∧
      List.Forall₂ (fun intended planned => Realizes intended planned ∧ AnswersAsMeant intended planned)
        (intendedActions ⟨"scale", "operator", "leading", "following", ["zookeepercluster"]⟩
          (Selection.stale scaledHear deletedWrite .after).rounded) planned := by
  have hdiff : ∀ replicas : ℤ, |replicas| < 2 ^ 53 →
      ReadableDiff true (some [("spec", .obj [("replicas", .num replicas)])]) := by
    intro replicas hreplicas
    have hspec : Json.Distinct (.obj [("spec", .obj [("replicas", .num replicas)])]) :=
      .obj (List.nodup_singleton _) (List.forall_mem_singleton.mpr
        (.obj (List.nodup_singleton _) (List.forall_mem_singleton.mpr (.scalar trivial))))
    refine ⟨⟨fun fields heq => Option.some.inj heq ▸ hspec, ?_, ?_⟩, fun _ => ⟨hspec, ?_, fun x hx => ?_⟩⟩
    · exact .obj (List.forall_mem_singleton.mpr (.obj (List.forall_mem_singleton.mpr
        (.scalar trivial fun q hq => Json.num.inj hq ▸ isDecimal_intCast replicas))))
    · rw [mapText, inRange_obj_iff, List.forall_mem_singleton, inRange_obj_iff, List.forall_mem_singleton, Json.inRange,
        binary64_intCast hreplicas]
      rfl
    · have hkeys : IsLowerKey "spec" ∧ IsLowerKey "replicas" := by decide
      exact .obj (List.forall_mem_singleton.mpr hkeys.1) (List.forall_mem_singleton.mpr
        (.obj (List.forall_mem_singleton.mpr hkeys.2) (List.forall_mem_singleton.mpr (.scalar trivial))))
    · cases hx
  exact generateTestPlan_readBack _ ⟨hdiff 2 (by decide), hdiff 1 (by decide)⟩

end Sieve.Plan
