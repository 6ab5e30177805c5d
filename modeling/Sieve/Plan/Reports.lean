import Sieve.Plan.Load
import Sieve.Event.EventType
import Sieve.Server.StateTables

/-!
# What the hooks report to the coordinator

The controller and the API servers report events; a hook asks its tables first whether the plan has a trigger for the
object, and the coordinator keeps the texts of the states it needs for the differences.

* `Report`: what a hook may report, with objects as they are sent;
* `Report.forwarded`: the look-ups of the hooks;
* `Coordinator`, `Coordinator.handle`: the handlers up to what they send to the state machine;
* `Coordinator.next`: what they write, object by object;
* `handle_alike`: what a handler depends on.
-/

namespace Sieve.Plan

open Sieve.Event Sieve.Server

/-! ### Reports -/

/-- The types of the events of an API server. -/
inductive APIEventType where
  | added
  | modified
  | deleted
  | other
  deriving DecidableEq

/-- The type of a write is none if the coordinator does not support it. -/
inductive Report where
  | apiServerRecv (before : Bool) (apiServerHostname : String) (operationType : APIEventType)
      (resourceKey object : String)
  | controllerRecv (before : Bool) (operationType : HearType) (resourceKey object : String)
  | controllerGet (resourceKey reconcileFun object : String)
  | controllerList (resourceType reconcileFun objectList : String)
  | controllerWrite (before : Bool) (writeType : Option WriteType) (resourceKey reconcileFun object : String)
  | annotatedAPICall (before : Bool) (moduleName filePath receiverType funName reconcileFun : String)

def apiServerPoint (before : Bool) : String := if before then beforeAPIServerRecv else afterAPIServerRecv

def recvPoint (before : Bool) : String := if before then beforeControllerRecv else afterControllerRecv

def writePoint (before : Bool) : String := if before then beforeControllerWrite else afterControllerWrite

def callPoint (before : Bool) : String := if before then beforeAnnotatedAPICall else afterAnnotatedAPICall

/-- An entry of the tables of states, and the text that is written into it. -/
structure Write where
  observedBy : String
  observedWhen : String
  resourceKey : String
  value : String

/-- The objects of a list that have not been written yet. -/
structure Listed where
  resourceType : String
  reconcileFun : String
  objects : List GoMap

def Listed.none : Listed := ⟨"", "", []⟩

/-- How far a handler has come.  It looks up the state when it sends, and writes when the state machine is done with
what it has sent. -/
inductive Handling where
  | arrived (report : Report)
  | sent (n : TriggerNotification) (writes : List Write)
  | writing (writes : List Write) (listed : Listed)

/-- The coordinator, with the handlers that have not returned.  The state machine takes what they have sent in any
order: a handler may be interrupted before it sends. -/
structure Coordinator where
  tables : StateTables
  masks : String → Masks
  masksAPIForm : String → Masks
  sm : StateMachine
  handling : Multiset Handling

/-- What a handler does with a report about one object. -/
inductive Operation where
  | create
  | delete
  | update (trimmed : Bool)
  | unsupported

def APIEventType.operation : APIEventType → Operation
  | .added => .create
  | .modified => .update false
  | .deleted => .delete
  | .other => .unsupported

def hearOperation : HearType → Operation
  | .added => .create
  | .updated | .replaced | .sync => .update false
  | .deleted => .delete

def writeOperation : Option WriteType → Operation
  | some .create => .create
  | some .update | some .patch | some .statusUpdate | some .statusPatch => .update true
  | some .delete => .delete
  | none => .unsupported

namespace Coordinator

variable (json : GoJson) (c : Coordinator)

/-- The common part of the handlers for one object: the tables, and the handler after it has sent.  It has no result
where `strToMap` ends the process. -/
def observe (operation : Operation) (observedBy observedWhen resourceKey object : String) (writes : List Write) :
    Option (StateTables × Handling) :=
  let tables := c.tables.initializeObjectStatesEntry observedBy observedWhen resourceKey
  match operation with
  | .create => some (tables, .sent (.objectCreate ⟨resourceKey, observedWhen, observedBy⟩) writes)
  | .delete => some (tables, .sent (.objectDelete ⟨resourceKey, observedWhen, observedBy⟩) writes)
  | .update trimmed => do
    let prevState ← json.toMap (tables.readFromObjectStates observedBy observedWhen resourceKey)
    let curState ← json.toMap object
    let trim := if trimmed then Option.map trimKindApiversion else id
    some (tables, .sent (.objectUpdate ⟨resourceKey, observedWhen, observedBy, trim prevState, trim curState,
      c.masks resourceKey, c.masksAPIForm resourceKey⟩) writes)
  | .unsupported => some (tables, .writing writes .none)

/-- Both tables for what a controller reads. -/
def readWrites (resourceKey reconcileFun object : String) : List Write :=
  [⟨reconcileFun, beforeControllerWrite, resourceKey, object⟩,
    ⟨reconcileFun, afterControllerWrite, resourceKey, object⟩]

def initializeRead (tables : StateTables) (resourceKey reconcileFun : String) : StateTables :=
  (tables.initializeObjectStatesEntry reconcileFun beforeControllerWrite
    resourceKey).initializeObjectStatesEntry reconcileFun afterControllerWrite resourceKey

/-- The handlers, until they have sent or begin to write. -/
def handle : Report → Option (StateTables × Handling)
  | .apiServerRecv before apiServerHostname operationType resourceKey object =>
    c.observe json operationType.operation apiServerHostname (apiServerPoint before) resourceKey object
      [⟨apiServerHostname, apiServerPoint before, resourceKey, object⟩]
  | .controllerRecv before operationType resourceKey object =>
    c.observe json (hearOperation operationType) "informer" (recvPoint before) resourceKey object
      [⟨"informer", recvPoint before, resourceKey, object⟩]
  | .controllerGet resourceKey reconcileFun object =>
    some (initializeRead c.tables resourceKey reconcileFun,
      .writing (readWrites resourceKey reconcileFun object) .none)
  | .controllerList resourceType reconcileFun objectList =>
    (strToSlice (json.unmarshal objectList)).map fun objects =>
      (c.tables, .writing [] ⟨resourceType, reconcileFun, objects⟩)
  | .controllerWrite before writeType resourceKey reconcileFun object =>
    c.observe json (writeOperation writeType) reconcileFun (writePoint before) resourceKey object []
  | .annotatedAPICall before moduleName filePath receiverType funName reconcileFun =>
    some (c.tables, .sent (.annotatedAPICall ⟨moduleName, filePath, receiverType, funName, callPoint before,
      reconcileFun⟩) [])

/-- The next object of a list. -/
def next (resourceType reconcileFun : String) (objectState : GoMap) (objects : List GoMap) :
    Option (StateTables × Handling) := do
  let (name, objNamespace) ← extractNameNamespaceFromObjMap (objectState.getD [])
  let resourceKey := generateResourceKey resourceType objNamespace name
  some (initializeRead c.tables resourceKey reconcileFun,
    .writing (readWrites resourceKey reconcileFun (json.marshal objectState)) ⟨resourceType, reconcileFun, objects⟩)

end Coordinator

/-! ### What a report is about -/

def Write.point (write : Write) : Point := .object write.resourceKey write.observedWhen write.observedBy

/-- Where the states of a listed object are kept. -/
def objectPoints (resourceType reconcileFun : String) (objectState : GoMap) : List Point :=
  match extractNameNamespaceFromObjMap (objectState.getD []) with
  | some (name, objNamespace) =>
    (Coordinator.readWrites (generateResourceKey resourceType objNamespace name) reconcileFun "").map Write.point
  | none => []

/-- Where the report is observed, and whose states it sets. -/
def Report.points (json : GoJson) : Report → List Point
  | .apiServerRecv before apiServerHostname _ resourceKey _ =>
    [.object resourceKey (apiServerPoint before) apiServerHostname]
  | .controllerRecv before _ resourceKey _ => [.object resourceKey (recvPoint before) "informer"]
  | .controllerGet resourceKey reconcileFun _ =>
    [.object resourceKey beforeControllerWrite reconcileFun, .object resourceKey afterControllerWrite reconcileFun]
  | .controllerList resourceType reconcileFun objectList =>
    ((strToSlice (json.unmarshal objectList)).getD []).flatMap (objectPoints resourceType reconcileFun)
  | .controllerWrite before _ resourceKey reconcileFun _ => [.object resourceKey (writePoint before) reconcileFun]
  | .annotatedAPICall _ _ _ receiverType funName _ => [.call receiverType funName]

def notificationPoint : TriggerNotification → Point
  | .timeout _ => .timeout
  | .annotatedAPICall n => .call n.receiverType n.funName
  | .objectCreate n => .object n.resourceKey n.observedWhen n.observedBy
  | .objectDelete n => .object n.resourceKey n.observedWhen n.observedBy
  | .objectUpdate n => .object n.resourceKey n.observedWhen n.observedBy

/-- What the rest of a handler is about. -/
def Handling.points (json : GoJson) : Handling → List Point
  | .arrived report => report.points json
  | .sent n writes => notificationPoint n :: writes.map Write.point
  | .writing writes listed =>
    writes.map Write.point ++ listed.objects.flatMap (objectPoints listed.resourceType listed.reconcileFun)

/-- The text that the coordinator keeps for a point. -/
def stateAt (tables : StateTables) : Point → String
  | .object resourceKey observedWhen observedBy => (tables observedBy observedWhen resourceKey).getD "\x7b\x7d"
  | _ => ""

theorem stateAt_initialized (tables : StateTables) (observedBy observedWhen resourceKey : String) (point : Point) :
    stateAt (tables.initializeObjectStatesEntry observedBy observedWhen resourceKey) point =
      stateAt tables point := by
  cases point with
  | object resourceKey' observedWhen' observedBy' =>
    by_cases hsame : observedBy' = observedBy ∧ observedWhen' = observedWhen ∧ resourceKey' = resourceKey
    · obtain ⟨rfl, rfl, rfl⟩ := hsame
      rw [stateAt, StateTables.initialize_self, Option.getD_some, stateAt]
    · rw [stateAt, StateTables.initialize_other _ hsame, stateAt]
  | _ => rfl

theorem stateAt_initializedRead (tables : StateTables) (resourceKey reconcileFun : String) (point : Point) :
    stateAt (Coordinator.initializeRead tables resourceKey reconcileFun) point = stateAt tables point := by
  rw [Coordinator.initializeRead, stateAt_initialized, stateAt_initialized]

theorem stateAt_write (tables : StateTables) (write : Write) (point : Point) :
    stateAt (tables.writeToObjectStates write.observedBy write.observedWhen write.resourceKey write.value) point =
      if point = write.point then write.value else stateAt tables point := by
  cases point with
  | object resourceKey observedWhen observedBy =>
    by_cases hsame : observedBy = write.observedBy ∧ observedWhen = write.observedWhen ∧
        resourceKey = write.resourceKey
    · obtain ⟨rfl, rfl, rfl⟩ := hsame
      show _ = if write.point = write.point then write.value else _
      rw [if_pos rfl, stateAt, StateTables.write_self, Option.getD_some]
    · rw [if_neg fun heq => hsame ?_, stateAt, StateTables.write_other _ _ hsame, stateAt]
      obtain ⟨rfl, rfl, rfl⟩ := Point.object.inj heq
      exact ⟨rfl, rfl, rfl⟩
  | call receiverType funName =>
    rw [if_neg (by simp [Write.point])]
    rfl
  | timeout =>
    rw [if_neg (by simp [Write.point])]
    rfl

/-- What a handler looks up, once its entry is there. -/
theorem read_initialized (tables : StateTables) (observedBy observedWhen resourceKey : String) :
    (tables.initializeObjectStatesEntry observedBy observedWhen resourceKey).readFromObjectStates observedBy
      observedWhen resourceKey = stateAt tables (.object resourceKey observedWhen observedBy) := by
  rw [StateTables.readFromObjectStates, StateTables.initialize_self, Option.getD_some, stateAt]

/-! ### Texts that can be decoded -/

/-- The coordinator can decode the texts of the report, and the objects of a list have keys of their type. -/
def Report.WellFormed (json : GoJson) : Report → Prop
  | .apiServerRecv _ _ _ _ object => (json.toMap object).isSome
  | .controllerRecv _ _ _ object => (json.toMap object).isSome
  | .controllerGet _ _ object => (json.toMap object).isSome
  | .controllerList resourceType _ objectList => ∃ objects, strToSlice (json.unmarshal objectList) = some objects ∧
      ∀ objectState ∈ objects, ∃ name objNamespace,
        extractNameNamespaceFromObjMap (objectState.getD []) = some (name, objNamespace) ∧
          Client.hasPrefix (generateResourceKey resourceType objNamespace name) (resourceType ++ "/") = true
  | .controllerWrite _ _ _ _ object => (json.toMap object).isSome
  | .annotatedAPICall _ _ _ _ _ _ => True

/-- The rest of the handler does not end the process. -/
def Handling.Sound (json : GoJson) : Handling → Prop
  | .arrived report => report.WellFormed json
  | .sent _ writes => ∀ write ∈ writes, (json.toMap write.value).isSome
  | .writing writes listed => (∀ write ∈ writes, (json.toMap write.value).isSome) ∧
      ∀ objectState ∈ listed.objects, (extractNameNamespaceFromObjMap (objectState.getD [])).isSome ∧
        (json.toMap (json.marshal objectState)).isSome

/-- All texts that the coordinator keeps can be decoded. -/
def Decodable (json : GoJson) (tables : StateTables) : Prop :=
  ∀ resourceKey observedWhen observedBy,
    (json.toMap (stateAt tables (.object resourceKey observedWhen observedBy))).isSome

/-! ### What a handler does -/

section Handlers

variable {json : GoJson} {c c' : Coordinator} {tables : StateTables} {h : Handling}

theorem observe_spec {operation : Operation} {observedBy observedWhen resourceKey object : String}
    {writes : List Write}
    (hobserve : c.observe json operation observedBy observedWhen resourceKey object writes = some (tables, h)) :
    tables = c.tables.initializeObjectStatesEntry observedBy observedWhen resourceKey ∧
      (h = .writing writes .none ∨ ∃ n, h = .sent n writes ∧
        notificationPoint n = .object resourceKey observedWhen observedBy) := by
  cases operation with
  | create | delete =>
    obtain ⟨rfl, rfl⟩ := Prod.mk.inj (Option.some.inj hobserve)
    exact ⟨rfl, .inr ⟨_, rfl, rfl⟩⟩
  | update trimmed =>
    obtain ⟨prevState, hprev, hrest⟩ := Option.bind_eq_some_iff.mp hobserve
    obtain ⟨curState, hcur, hrest⟩ := Option.bind_eq_some_iff.mp hrest
    obtain ⟨rfl, rfl⟩ := Prod.mk.inj (Option.some.inj hrest)
    exact ⟨rfl, .inr ⟨_, rfl, rfl⟩⟩
  | unsupported =>
    obtain ⟨rfl, rfl⟩ := Prod.mk.inj (Option.some.inj hobserve)
    exact ⟨rfl, .inl rfl⟩

/-- **A handler stays with the points of its report**, and keeps the states. -/
theorem handle_spec {report : Report} (hhandle : c.handle json report = some (tables, h)) :
    (∀ point, stateAt tables point = stateAt c.tables point) ∧
      ∀ point ∈ h.points json, point ∈ report.points json := by
  have hobserved : ∀ {operation observedBy observedWhen resourceKey object writes},
      (∀ write ∈ writes, Write.point write = .object resourceKey observedWhen observedBy) →
      c.observe json operation observedBy observedWhen resourceKey object writes = some (tables, h) →
      (∀ point, stateAt tables point = stateAt c.tables point) ∧
        ∀ point ∈ h.points json, point ∈ [Point.object resourceKey observedWhen observedBy] := by
    intro operation observedBy observedWhen resourceKey object writes hwrites hobserve
    obtain ⟨rfl, hh⟩ := observe_spec hobserve
    refine ⟨stateAt_initialized _ _ _ _, fun point hmem => List.mem_singleton.mpr ?_⟩
    have hwritten : point ∈ writes.map Write.point → point = .object resourceKey observedWhen observedBy := by
      intro hmem
      obtain ⟨write, hwrite, rfl⟩ := List.mem_map.mp hmem
      exact hwrites write hwrite
    rcases hh with rfl | ⟨n, rfl, hn⟩
    · exact hwritten (by simpa [Handling.points, Listed.none] using hmem)
    · rcases List.mem_cons.mp hmem with rfl | hmem
      · exact hn
      · exact hwritten hmem
  cases report with
  | apiServerRecv before apiServerHostname operationType resourceKey object =>
    exact hobserved (List.forall_mem_singleton.mpr rfl) hhandle
  | controllerRecv before operationType resourceKey object =>
    exact hobserved (List.forall_mem_singleton.mpr rfl) hhandle
  | controllerGet resourceKey reconcileFun object =>
    obtain ⟨rfl, rfl⟩ := Prod.mk.inj (Option.some.inj hhandle)
    refine ⟨stateAt_initializedRead _ _ _, fun point hmem => ?_⟩
    simpa [Handling.points, Listed.none, Coordinator.readWrites, Write.point, Report.points] using hmem
  | controllerList resourceType reconcileFun objectList =>
    obtain ⟨objects, hobjects, hrest⟩ := Option.map_eq_some_iff.mp hhandle
    obtain ⟨rfl, rfl⟩ := Prod.mk.inj hrest
    refine ⟨fun _ => rfl, fun point hmem => ?_⟩
    rw [Report.points, hobjects]
    exact hmem
  | controllerWrite before writeType resourceKey reconcileFun object =>
    refine hobserved ?_ hhandle
    exact nofun
  | annotatedAPICall before moduleName filePath receiverType funName reconcileFun =>
    obtain ⟨rfl, rfl⟩ := Prod.mk.inj (Option.some.inj hhandle)
    exact ⟨fun _ => rfl, fun point hmem => hmem⟩

/-- The masks are the same. -/
def SameMasks (c c' : Coordinator) : Prop := c'.masks = c.masks ∧ c'.masksAPIForm = c.masksAPIForm

/-- **What a handler depends on**: the state that is kept for its point. -/
theorem handle_alike {report : Report} {tables' : StateTables} {h' : Handling} (hmasks : SameMasks c c')
    (hhandle : c.handle json report = some (tables, h)) (hhandle' : c'.handle json report = some (tables', h')) :
    h' = h ∨ ∃ point, stateAt c'.tables point ≠ stateAt c.tables point ∧
      ∀ p ∈ report.points json, p = point := by
  have hobserved : ∀ {operation observedBy observedWhen resourceKey object writes},
      c.observe json operation observedBy observedWhen resourceKey object writes = some (tables, h) →
      c'.observe json operation observedBy observedWhen resourceKey object writes = some (tables', h') →
      h' = h ∨ stateAt c'.tables (.object resourceKey observedWhen observedBy) ≠
        stateAt c.tables (.object resourceKey observedWhen observedBy) := by
    intro operation observedBy observedWhen resourceKey object writes hobserve hobserve'
    by_cases hsame : stateAt c'.tables (.object resourceKey observedWhen observedBy) =
        stateAt c.tables (.object resourceKey observedWhen observedBy)
    · refine .inl ?_
      cases operation with
      | update trimmed =>
        rw [Coordinator.observe, read_initialized] at hobserve hobserve'
        rw [hsame, hmasks.1, hmasks.2] at hobserve'
        obtain ⟨prevState, hprev, hrest⟩ := Option.bind_eq_some_iff.mp hobserve
        obtain ⟨curState, hcur, hrest⟩ := Option.bind_eq_some_iff.mp hrest
        rw [hprev, hcur] at hobserve'
        rw [← (Prod.mk.inj (Option.some.inj hrest)).2, ← (Prod.mk.inj (Option.some.inj hobserve')).2]
      | _ =>
        rw [← (Prod.mk.inj (Option.some.inj hobserve)).2, ← (Prod.mk.inj (Option.some.inj hobserve')).2]
    · exact .inr hsame
  have hpoint : ∀ {point : Point}, h' = h ∨ stateAt c'.tables point ≠ stateAt c.tables point →
      h' = h ∨ ∃ point', stateAt c'.tables point' ≠ stateAt c.tables point' ∧ ∀ p ∈ [point], p = point' :=
    fun hor => hor.imp_right fun hne => ⟨_, hne, List.forall_mem_singleton.mpr rfl⟩
  cases report with
  | apiServerRecv before apiServerHostname operationType resourceKey object =>
    exact hpoint (hobserved hhandle hhandle')
  | controllerRecv before operationType resourceKey object => exact hpoint (hobserved hhandle hhandle')
  | controllerWrite before writeType resourceKey reconcileFun object => exact hpoint (hobserved hhandle hhandle')
  | controllerList resourceType reconcileFun objectList =>
    obtain ⟨objects, hobjects, hrest⟩ := Option.map_eq_some_iff.mp hhandle
    obtain ⟨objects', hobjects', hrest'⟩ := Option.map_eq_some_iff.mp hhandle'
    rw [Option.some.inj (hobjects.symm.trans hobjects')] at hrest
    exact .inl ((Prod.mk.inj hrest').2.symm.trans (Prod.mk.inj hrest).2)
  | _ => exact .inl ((Prod.mk.inj (Option.some.inj hhandle')).2.symm.trans (Prod.mk.inj (Option.some.inj hhandle)).2)

end Handlers

end Sieve.Plan
