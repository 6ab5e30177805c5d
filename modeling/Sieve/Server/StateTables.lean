import Sieve.Client.RestCalls
import Sieve.Server.ObjectMaps
import Sieve.Server.TestPlan

/-!
# The state tables of the coordinator

The handlers of `test_coordinator.go` that keep and use the states of objects, on the texts that they
get.

* `GoJson`: the encoder and the decoder of JSON;
* `StateTables`: the texts by reconciler, observation point and resource key;
* `receive`: what the coordinator does with a request of the client.
-/

namespace Sieve.Server

open Sieve.Event
open Sieve.Client (ControllerOperation Request RestRequest)

/-- `encoding/json`: objects are decoded and encoded. -/
structure GoJson where
  unmarshal : String → Option Json
  marshal : GoMap → String

/-- A text as a map; `none` where the process exits. -/
def GoJson.toMap (json : GoJson) (text : String) : Option GoMap := strToMap (json.unmarshal text)

/-- The metadata has the name of an object, and its namespace unless it belongs to the cluster. -/
structure ListedObject where
  fields : Fields
  metadata : Fields
  objNamespace : String
  name : String
  hmetadata : fields.lookup "metadata" = some (.obj metadata)
  hname : metadata.lookup "name" = some (.str name)
  hnamespace : (metadata.lookup "namespace").getD (.str "") = .str objNamespace

namespace ListedObject

def resourceKey (object : ListedObject) (resourceType : String) : String :=
  generateResourceKey resourceType object.objNamespace object.name

theorem extract_eq (object : ListedObject) :
    extractNameNamespaceFromObjMap object.fields = some (object.name, object.objNamespace) := by
  have hnamespace := object.hnamespace
  rw [extractNameNamespaceFromObjMap, object.hmetadata]
  simp only [nameNamespaceEntries, stringEntry, object.hname]
  cases h : object.metadata.lookup "namespace" with
  | none =>
    rw [h] at hnamespace
    simp only [Option.getD_none, Json.str.injEq] at hnamespace
    simp [hnamespace]
  | some value =>
    rw [h, Option.getD_some] at hnamespace
    simp [hnamespace]

end ListedObject

/-- An entry is a text, if there is one. -/
abbrev StateTables := String → String → String → Option String

namespace StateTables

variable (tables : StateTables)

/-- `WriteToObjectStates`; the tables above the entry are there. -/
def writeToObjectStates (observedBy observedWhen resourceKey value : String) : StateTables :=
  Function.update tables observedBy
    (Function.update (tables observedBy) observedWhen
      (Function.update (tables observedBy observedWhen) resourceKey (some value)))

def initializeObjectStatesEntry (observedBy observedWhen resourceKey : String) : StateTables :=
  match tables observedBy observedWhen resourceKey with
  | some _ => tables
  | none => tables.writeToObjectStates observedBy observedWhen resourceKey "\x7b\x7d"

def readFromObjectStates (observedBy observedWhen resourceKey : String) : String :=
  (tables observedBy observedWhen resourceKey).getD ""

theorem write_self (b w k v : String) : tables.writeToObjectStates b w k v b w k = some v := by
  simp [writeToObjectStates]

theorem write_other {b w k b' w' k' : String} (v : String) (h : ¬ (b' = b ∧ w' = w ∧ k' = k)) :
    tables.writeToObjectStates b w k v b' w' k' = tables b' w' k' := by
  rw [writeToObjectStates]
  by_cases hb : b' = b
  · rw [hb, Function.update_self]
    by_cases hw : w' = w
    · rw [hw, Function.update_self]
      exact Function.update_of_ne (fun hk => h ⟨hb, hw, hk⟩) _ _
    · rw [Function.update_of_ne hw]
  · rw [Function.update_of_ne hb]

theorem initialize_of_some {b w k v : String} (h : tables b w k = some v) :
    tables.initializeObjectStatesEntry b w k = tables := by
  rw [initializeObjectStatesEntry, h]

theorem initialize_of_none {b w k : String} (h : tables b w k = none) :
    tables.initializeObjectStatesEntry b w k =
      tables.writeToObjectStates b w k "\x7b\x7d" := by
  rw [initializeObjectStatesEntry, h]

theorem initialize_self (b w k : String) :
    tables.initializeObjectStatesEntry b w k b w k = some ((tables b w k).getD "\x7b\x7d") := by
  cases h : tables b w k with
  | none => rw [initialize_of_none _ h, write_self, Option.getD_none]
  | some value => rw [initialize_of_some _ h, h, Option.getD_some]

theorem initialize_other {b w k b' w' k' : String} (hother : ¬ (b' = b ∧ w' = w ∧ k' = k)) :
    tables.initializeObjectStatesEntry b w k b' w' k' = tables b' w' k' := by
  cases h : tables b w k with
  | none => rw [initialize_of_none _ h, tables.write_other _ hother]
  | some value => rw [initialize_of_some _ h]

/-- An entry that is there stays. -/
theorem initialize_kept {b w k v : String} (b' w' k' : String) (h : tables b w k = some v) :
    tables.initializeObjectStatesEntry b' w' k' b w k = some v := by
  by_cases hentry : b = b' ∧ w = w' ∧ k = k'
  · obtain ⟨rfl, rfl, rfl⟩ := hentry
    rw [initialize_of_some _ h, h]
  · rw [initialize_other _ hentry, h]

/-! ### Reads -/

def notifyTestAfterControllerGet (resourceKey reconcileFun object : String) : StateTables :=
  (((tables.initializeObjectStatesEntry reconcileFun beforeControllerWrite
    resourceKey).initializeObjectStatesEntry reconcileFun afterControllerWrite
      resourceKey).writeToObjectStates reconcileFun beforeControllerWrite resourceKey
        object).writeToObjectStates reconcileFun afterControllerWrite resourceKey object

/-- The loop over the listed objects. -/
def addListed (json : GoJson) (resourceType reconcileFun : String) :
    StateTables → List GoMap → Option StateTables
  | tables, [] => some tables
  | tables, objectState :: objects => do
    let (name, objNamespace) ← extractNameNamespaceFromObjMap (objectState.getD [])
    let resourceKey := generateResourceKey resourceType objNamespace name
    addListed json resourceType reconcileFun
      (tables.notifyTestAfterControllerGet resourceKey reconcileFun (json.marshal objectState)) objects

def notifyTestAfterControllerList (json : GoJson) (resourceType reconcileFun objectList : String) :
    Option StateTables := do
  let objects ← strToSlice (json.unmarshal objectList)
  addListed json resourceType reconcileFun tables objects

/-- The tables in which a read of the object is kept. -/
def IsWritePoint (observedWhen : String) : Prop :=
  observedWhen = beforeControllerWrite ∨ observedWhen = afterControllerWrite

theorem get_self (resourceKey reconcileFun object : String) {observedWhen : String}
    (hpoint : IsWritePoint observedWhen) :
    tables.notifyTestAfterControllerGet resourceKey reconcileFun object reconcileFun observedWhen
      resourceKey = some object := by
  rw [notifyTestAfterControllerGet]
  by_cases hafter : observedWhen = afterControllerWrite
  · rw [hafter, write_self]
  · obtain rfl := hpoint.resolve_right hafter
    rw [write_other _ _ (by simp [hafter]), write_self]

theorem get_other (object : String) {resourceKey reconcileFun b w k : String}
    (h : ¬ (b = reconcileFun ∧ IsWritePoint w ∧ k = resourceKey)) :
    tables.notifyTestAfterControllerGet resourceKey reconcileFun object b w k = tables b w k := by
  have hbefore : ¬ (b = reconcileFun ∧ w = beforeControllerWrite ∧ k = resourceKey) :=
    fun hentry => h ⟨hentry.1, .inl hentry.2.1, hentry.2.2⟩
  have hafter : ¬ (b = reconcileFun ∧ w = afterControllerWrite ∧ k = resourceKey) :=
    fun hentry => h ⟨hentry.1, .inr hentry.2.1, hentry.2.2⟩
  rw [notifyTestAfterControllerGet, write_other _ _ hafter, write_other _ _ hbefore,
    initialize_other _ hafter, initialize_other _ hbefore]

/-- A list keeps each of its objects, and nothing else changes. -/
theorem addListed_objects (json : GoJson) (resourceType reconcileFun : String)
    {listed : List ListedObject} (hkeys : (listed.map (·.resourceKey resourceType)).Nodup) :
    ∃ tables', addListed json resourceType reconcileFun tables (listed.map (some ·.fields)) =
        some tables' ∧
      (∀ object ∈ listed, ∀ w, IsWritePoint w →
        tables' reconcileFun w (object.resourceKey resourceType) =
          some (json.marshal (some object.fields))) ∧
      ∀ b w k, ¬ (b = reconcileFun ∧ IsWritePoint w ∧
        ∃ object ∈ listed, k = object.resourceKey resourceType) → tables' b w k = tables b w k := by
  induction listed generalizing tables with
  | nil => exact ⟨tables, rfl, by simp, by simp⟩
  | cons first listed ih =>
    rw [List.map_cons, List.nodup_cons] at hkeys
    have hlater : ∀ object ∈ listed,
        object.resourceKey resourceType ≠ first.resourceKey resourceType := by
      intro object hmem heq
      exact hkeys.1 (List.mem_map.mpr ⟨object, hmem, heq⟩)
    obtain ⟨tables', hadd, hobjects, hothers⟩ :=
      ih (tables.notifyTestAfterControllerGet (first.resourceKey resourceType) reconcileFun
        (json.marshal (some first.fields))) hkeys.2
    refine ⟨tables', ?_, ?_, ?_⟩
    · rw [List.map_cons, addListed, Option.getD_some, first.extract_eq]
      exact hadd
    · intro object hmem w hw
      obtain rfl | hmem := List.mem_cons.mp hmem
      · rw [hothers _ _ _ ?_, get_self _ _ _ _ hw]
        rintro ⟨-, -, later, hmem, heq⟩
        exact hlater later hmem heq.symm
      · exact hobjects object hmem w hw
    · intro b w k h
      rw [hothers b w k ?_, get_other _ _ ?_]
      · rintro ⟨hb, hw, hk⟩
        exact h ⟨hb, hw, first, List.mem_cons_self, hk⟩
      · rintro ⟨hb, hw, object, hmem, hk⟩
        exact h ⟨hb, hw, object, List.mem_cons_of_mem _ hmem, hk⟩

/-! ### Writes -/

/-- What is sent to the state machine about a write. -/
inductive WriteNotification where
  | create
  | delete
  | update (prevState curState : GoMap)

/-- `NotifyTestBeforeControllerWrite` and `NotifyTestAfterControllerWrite`: the tables, and the
notification if the type of the write is supported. -/
def notifyControllerWrite (json : GoJson) (observedWhen : String) (writeType : ControllerOperation)
    (resourceKey reconcileFun object : String) : Option (StateTables × Option WriteNotification) :=
  let initialized := tables.initializeObjectStatesEntry reconcileFun observedWhen resourceKey
  match writeType with
  | .create => some (initialized, some .create)
  | .update | .patch | .statusUpdate => do
    let prevObjectState ←
      json.toMap (initialized.readFromObjectStates reconcileFun observedWhen resourceKey)
    let curObjectState ← json.toMap object
    some (initialized,
      some (.update (prevObjectState.map trimKindApiversion) (curObjectState.map trimKindApiversion)))
  | .delete => some (initialized, some .delete)
  | _ => some (initialized, none)

/-- A write enters its own entry only, and an update is compared with that entry. -/
theorem notifyControllerWrite_spec {json : GoJson} {observedWhen resourceKey reconcileFun object : String}
    {writeType : ControllerOperation} {tables' : StateTables} {notification : Option WriteNotification}
    (h : tables.notifyControllerWrite json observedWhen writeType resourceKey reconcileFun object =
      some (tables', notification)) :
    tables' = tables.initializeObjectStatesEntry reconcileFun observedWhen resourceKey ∧
      ∀ prevState curState, notification = some (.update prevState curState) →
        (json.toMap (tables'.readFromObjectStates reconcileFun observedWhen resourceKey)).map
          (Option.map trimKindApiversion) = some prevState := by
  cases writeType with
  | update | patch | statusUpdate =>
    simp only [notifyControllerWrite, Option.bind_eq_bind, Option.bind_eq_some_iff, Option.some.injEq,
      Prod.mk.injEq] at h
    obtain ⟨prev, hprev, cur, -, rfl, rfl⟩ := h
    refine ⟨rfl, fun prevState curState hupdate => ?_⟩
    simp only [Option.some.injEq, WriteNotification.update.injEq] at hupdate
    rw [hprev, Option.map_some, hupdate.1]
  | _ =>
    simp only [notifyControllerWrite, Option.some.injEq, Prod.mk.injEq] at h
    obtain ⟨rfl, rfl⟩ := h
    exact ⟨rfl, by simp⟩

/-! ### Requests -/

/-- A notification about a write, and where it was observed. -/
structure Observed where
  observedWhen : String
  observedBy : String
  resourceKey : String
  notification : WriteNotification

/-- The tables after a request, and what is sent to the state machine.  Requests to pause leave the
tables alone. -/
def receive (json : GoJson) : RestRequest → Option (StateTables × Option Observed)
  | .request (.afterControllerGet resourceKey reconcileFun object) =>
    some (tables.notifyTestAfterControllerGet resourceKey reconcileFun object, none)
  | .request (.afterControllerList resourceType reconcileFun objectList) =>
    (tables.notifyTestAfterControllerList json resourceType reconcileFun objectList).map (·, none)
  | .request _ => some (tables, none)
  | .controllerWrite before writeType resourceKey reconcileFun object =>
    let observedWhen := if before then beforeControllerWrite else afterControllerWrite
    (tables.notifyControllerWrite json observedWhen writeType resourceKey reconcileFun object).map
      fun (tables, notification) =>
        (tables, notification.map (⟨observedWhen, reconcileFun, resourceKey, ·⟩))

end StateTables

end Sieve.Server
