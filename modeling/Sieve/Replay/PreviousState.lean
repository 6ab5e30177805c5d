import Sieve.Library.Runs
import Sieve.Replay.ListReads

/-!
# The previous state of an update

A test run keeps what a reconciler has read for the updates that it does later.

* `HookCall`: the hooks of the client around reads and writes, with what they have read;
* `TestRun`, `HookStep`: the coordinator's tables, what was read last, and the updates notified;
* `PrevIsLastRead`: every update is notified with the object that was read last;
* `previousState_iff`: it is, in every run, for the plans by which no read is left out;
* `previousState_fails`: a plan that observes before the write only.
-/

namespace Sieve.Replay

open Sieve.Event Sieve.Client Sieve.Server Sieve.Library
open Sieve.Client (TestConfig RestCall Request RestRequest)
open StateTables (IsWritePoint Observed)
open Relation (ReflTransGen)

/-- A hook of the client, and the events that other hooks report.  The Get of the cache is one that
has found the object; `listed` are the objects in the JSON of the items. -/
inductive HookCall where
  | cacheGet (reconcileFun resourceType objNamespace name serializedObj : String) (object : Fields)
  | cacheList (reconcileFun resourceType : String) (items : List CachedObject)
    (listed : List ListedObject)
  | beforeRestCall (reconcileFun : String) (call : RestCall)
  | afterRestCall (reconcileFun : String) (controllerOperationID : ℤ) (call : RestCall) (respErr : Bool)
  | received (observedBy observedWhen resourceKey object : String)

namespace HookCall

variable (config : TestConfig) (json : GoJson)

def requests : HookCall → List RestRequest
  | cacheGet f t ns name serializedObj _ =>
    (notifyTestAfterCacheGet config true f (metaNamespaceKey ns name) ⟨t, some serializedObj⟩ true).map
      .request
  | cacheList f _ items _ => (notifyTestAfterCacheList config true f items false).map .request
  | beforeRestCall f call => (notifyTestBeforeRestCall config true f call).2
  | afterRestCall f id call respErr => notifyTestAfterRestCall config true f id call respErr
  | received _ _ _ _ => []

/-- The objects that have been read, by their keys. -/
def objectsRead : HookCall → List (String × Fields)
  | cacheGet _ t ns name _ object => [(Client.generateResourceKey t ns name, object)]
  | cacheList _ t _ listed => listed.map fun object => (object.resourceKey t, object.fields)
  | afterRestCall _ id call respErr =>
    if call.operation = .get ∧ id ≠ -1 ∧ respErr = false then
      (call.serialized.bind json.toMap).join.toList.map (call.resourceKey, ·)
    else []
  | _ => []

def reader : HookCall → String
  | cacheGet f _ _ _ _ _ => f
  | cacheList f _ _ _ => f
  | beforeRestCall f _ => f
  | afterRestCall f _ _ _ => f
  | received _ _ _ _ => ""

/-- What is read has a clean name, and its JSON is read back; what the REST client lists is an object.
The other hooks enter states that were observed at other points. -/
def Valid : HookCall → Prop
  | cacheGet _ t ns name serializedObj object =>
    CleanName t ns name ∧ json.toMap serializedObj = some (some object)
  | cacheList _ t items listed =>
    (∀ item ∈ items, item.resourceType = t) ∧
    items.map (fun item => item.serialized.bind json.toMap) =
      listed.map (fun object => some (some object.fields)) ∧
    (∀ objectList, serializeAll items = some objectList →
      json.unmarshal objectList = some (.arr (listed.map (.obj ·.fields)))) ∧
    (listed.map (·.resourceKey t)).Nodup ∧
    ∀ object ∈ listed, CleanName t object.objNamespace object.name ∧
      json.toMap (json.marshal (some object.fields)) = some (some object.fields)
  | afterRestCall _ _ call respErr =>
    respErr = false →
      (call.operation = .get →
        CleanName (pluralToSingular call.resourceType) call.objNamespace call.resourceName ∧
        ∃ serializedObj object, call.serialized = some serializedObj ∧
          json.toMap serializedObj = some (some object)) ∧
      (call.operation = .list → ∀ serializedObj, call.serialized = some serializedObj →
        ∃ listObject, json.unmarshal serializedObj = some (.obj listObject))
  | beforeRestCall _ _ => True
  | received _ observedWhen _ _ => ¬ IsWritePoint observedWhen

end HookCall

/-! ### Runs -/

structure TestRun where
  /-- `none` when the coordinator has exited. -/
  tables : Option StateTables
  /-- What was read last, by reconciler and key. -/
  lastRead : String → String → Option Fields
  /-- The notifications about writes, each with what the reconciler had read last. -/
  notified : List (Observed × Option Fields)

namespace TestRun

variable (config : TestConfig) (json : GoJson)

def start : TestRun := ⟨some fun _ _ _ => none, fun _ _ => none, []⟩

def deliver (run : TestRun) (request : RestRequest) : TestRun :=
  match run.tables with
  | none => run
  | some tables =>
    match tables.receive json request with
    | none => { run with tables := none }
    | some (tables', observed) =>
      { run with
        tables := some tables'
        notified := run.notified ++
          observed.toList.map fun o => (o, run.lastRead o.observedBy o.resourceKey) }

/-- The objects are what has been read last. -/
def read (run : TestRun) (reconcileFun : String) (objects : List (String × Fields)) : TestRun :=
  { run with
    lastRead := fun f key =>
      if f = reconcileFun then (objects.lookup key).or (run.lastRead f key) else run.lastRead f key }

def receive (run : TestRun) (observedBy observedWhen resourceKey object : String) : TestRun :=
  { run with
    tables := run.tables.map (·.writeToObjectStates observedBy observedWhen resourceKey object) }

def handle (run : TestRun) (call : HookCall) : TestRun :=
  let reported := (call.requests config).foldl (deliver json) run
  match call with
  | .received observedBy observedWhen resourceKey object =>
    reported.receive observedBy observedWhen resourceKey object
  | _ => reported.read call.reader (call.objectsRead json)

end TestRun

def HookStep (config : TestConfig) (json : GoJson) (run : TestRun) (call : HookCall) (run' : TestRun) :
    Prop := call.Valid json ∧ run' = run.handle config json call

/-- **The previous state of an update is the object that the reconciler has read last**, without kind
and API version. -/
def PrevIsLastRead (run : TestRun) : Prop :=
  ∀ o object, (o, some object) ∈ run.notified →
    ∀ prevState curState, o.notification = .update prevState curState →
      prevState = some (trimKindApiversion object)

/-! ### Plans -/

variable {config : TestConfig} {json : GoJson}

/-- Some trigger on the key has the observation point, and some has the reconciler. -/
def Observes (config : TestConfig) (observedWhen key reconcileFun : String) : Prop :=
  checkKVPairInTriggerObservationPoint config key "when" observedWhen false = true ∧
    checkKVPairInTriggerObservationPoint config key "by" reconcileFun false = true

instance (observedWhen key reconcileFun : String) :
    Decidable (Observes config observedWhen key reconcileFun) := inferInstanceAs (Decidable (_ ∧ _))

/-- What is observed before a write is also observed after it. -/
def ReadsObserved (config : TestConfig) : Prop :=
  ∀ resourceType objNamespace name reconcileFun, CleanName resourceType objNamespace name →
    reconcileFun ≠ unknownReconcileFun →
    Observes config "beforeControllerWrite"
      (Client.generateResourceKey resourceType objNamespace name) reconcileFun →
    Observes config "afterControllerWrite"
      (Client.generateResourceKey resourceType objNamespace name) reconcileFun

/-- A trigger on an object is one on its type. -/
theorem checkKVPair_type {key resourceType field val : String}
    (hkey : hasPrefix key (resourceType ++ "/") = true)
    (h : checkKVPairInTriggerObservationPoint config key field val false = true) :
    checkKVPairInTriggerObservationPoint config resourceType field val true = true := by
  rw [checkKVPairInTriggerObservationPoint, List.any_eq_true] at h ⊢
  obtain ⟨trigger, hmem, htrigger⟩ := h
  refine ⟨trigger, hmem, ?_⟩
  rw [Bool.and_eq_true] at htrigger ⊢
  refine ⟨?_, htrigger.2⟩
  have hresource : trigger.resourceKey = key := by simpa using htrigger.1
  simp [hresource, hkey]

/-! ### What the hooks report -/

theorem notifyObserved_eq (resource reconcileFun : String) (onlyMatchType : Bool) (request : Request) :
    notifyObserved config resource reconcileFun onlyMatchType request =
      if checkKVPairInTriggerObservationPoint config resource "when" "afterControllerWrite"
          onlyMatchType = true ∧
        checkKVPairInTriggerObservationPoint config resource "by" reconcileFun onlyMatchType = true
      then [request] else [] := by
  rw [notifyObserved]
  cases checkKVPairInTriggerObservationPoint config resource "when" "afterControllerWrite"
    onlyMatchType <;>
    cases checkKVPairInTriggerObservationPoint config resource "by" reconcileFun onlyMatchType <;> simp

theorem notifyWrite_eq (before : Bool) (call : RestCall) (reconcileFun serializedObj : String) :
    notifyWrite config before call reconcileFun serializedObj =
      if Observes config (if before then "beforeControllerWrite" else "afterControllerWrite")
        call.resourceKey reconcileFun
      then [.controllerWrite before call.operation call.resourceKey reconcileFun serializedObj]
      else [] := by
  by_cases h : Observes config (if before then "beforeControllerWrite" else "afterControllerWrite")
    call.resourceKey reconcileFun
  · rw [if_pos h]
    simp [notifyWrite, h.1, h.2]
  · rw [if_neg h]
    simp only [Observes, not_and_or, Bool.not_eq_true] at h
    obtain h | h := h <;> simp [notifyWrite, h]

namespace TestRun

section

variable {tables : StateTables} {lastRead : String → String → Option Fields}
  {notified : List (Observed × Option Fields)} {request : RestRequest}

theorem deliver_exits (h : tables.receive json request = none) :
    (TestRun.mk (some tables) lastRead notified).deliver json request = ⟨none, lastRead, notified⟩ := by
  simp [deliver, h]

theorem deliver_received {tables' : StateTables} {observed : Option Observed}
    (h : tables.receive json request = some (tables', observed)) :
    (TestRun.mk (some tables) lastRead notified).deliver json request =
      ⟨some tables', lastRead,
        notified ++ observed.toList.map fun o => (o, lastRead o.observedBy o.resourceKey)⟩ := by
  simp [deliver, h]

end

variable (run : TestRun)

theorem deliver_quiet {request : RestRequest}
    (h : ∀ tables : StateTables, tables.receive json request = some (tables, none)) :
    run.deliver json request = run := by
  obtain ⟨tables, lastRead, notified⟩ := run
  cases tables with
  | none => rfl
  | some tables => simp [deliver_received (h tables)]

/-- Requests to pause leave the tables alone. -/
theorem foldl_requestPause {request : Request} (val : String) (matchPrefix : Bool)
    (pointBefore pointAfter : String)
    (h : ∀ tables : StateTables, tables.receive json (.request request) = some (tables, none)) :
    ((requestPause config val matchPrefix pointBefore pointAfter request).map
      RestRequest.request).foldl (deliver json) run = run := by
  rw [requestPause]
  split
  · exact run.deliver_quiet h
  · rfl

theorem read_nil (reconcileFun : String) : run.read reconcileFun [] = run := by
  obtain ⟨tables, lastRead, notified⟩ := run
  simp [read]

end TestRun

/-! ### Reads -/

/-- What the report of a read does: what is observed is entered, and the rest stays. -/
structure Reported (config : TestConfig) (json : GoJson) (run run' : TestRun) (reconcileFun : String)
    (objects : List (String × Fields)) : Prop where
  lastRead : run'.lastRead = run.lastRead
  notified : run'.notified = run.notified
  tables : ∀ tables', run'.tables = some tables' → ∃ tables, run.tables = some tables ∧
    (∀ f w key, ¬ (f = reconcileFun ∧ ∃ object, (key, object) ∈ objects) →
      tables' f w key = tables f w key) ∧
    (reconcileFun ≠ unknownReconcileFun → ∀ key object, (key, object) ∈ objects →
      Observes config "afterControllerWrite" key reconcileFun → ∀ w, IsWritePoint w →
        (tables' reconcileFun w key).bind json.toMap = some (some object))

section Reported

variable {run : TestRun} {reconcileFun : String}

theorem reported_unobserved {objects : List (String × Fields)}
    (h : reconcileFun ≠ unknownReconcileFun → ∀ key object, (key, object) ∈ objects →
      ¬ Observes config "afterControllerWrite" key reconcileFun) :
    Reported config json run run reconcileFun objects where
  lastRead := rfl
  notified := rfl
  tables := fun tables htables =>
    ⟨tables, htables, fun _ _ _ _ => rfl,
      fun hf key object hmem hobserves => absurd hobserves (h hf key object hmem)⟩

theorem reported_get (key : String) {serializedObj : String} {object : Fields}
    (hobject : json.toMap serializedObj = some (some object)) :
    Reported config json run
      (run.deliver json (.request (.afterControllerGet key reconcileFun serializedObj)))
      reconcileFun [(key, object)] := by
  obtain ⟨tables, lastRead, notified⟩ := run
  cases tables with
  | none => exact ⟨rfl, rfl, by simp [TestRun.deliver]⟩
  | some tables =>
    have hdeliver : (TestRun.mk (some tables) lastRead notified).deliver json
        (.request (.afterControllerGet key reconcileFun serializedObj)) =
        ⟨some (tables.notifyTestAfterControllerGet key reconcileFun serializedObj), lastRead,
          notified⟩ := by
      rw [TestRun.deliver_received rfl]
      simp
    rw [hdeliver]
    refine ⟨rfl, rfl, fun tables' htables => ⟨tables, rfl, ?_, ?_⟩⟩
    · intro f w key' hother
      obtain rfl := Option.some.inj htables
      refine tables.get_other serializedObj fun hentry => hother ⟨hentry.1, object, ?_⟩
      simp [hentry.2.2]
    · intro _ key' object' hmem _ w hw
      obtain rfl := Option.some.inj htables
      obtain ⟨rfl, rfl⟩ := Prod.mk.inj (List.mem_singleton.mp hmem)
      rw [tables.get_self _ _ _ hw, Option.bind_some, hobject]

/-- A list is entered, or the coordinator exits. -/
theorem reported_list {resourceType objectList : String} {listed : List ListedObject}
    (harray : json.unmarshal objectList = some (.arr (listed.map (.obj ·.fields))))
    (hkeys : (listed.map (·.resourceKey resourceType)).Nodup)
    (hjson : ∀ object ∈ listed, json.toMap (json.marshal (some object.fields)) = some (some object.fields)) :
    Reported config json run
      (run.deliver json (.request (.afterControllerList resourceType reconcileFun objectList)))
      reconcileFun (listed.map fun object => (object.resourceKey resourceType, object.fields)) := by
  obtain ⟨tables, lastRead, notified⟩ := run
  cases tables with
  | none => exact ⟨rfl, rfl, by simp [TestRun.deliver]⟩
  | some tables =>
    obtain ⟨added, hadd, hobjects, hothers⟩ :=
      @keeps_array json resourceType reconcileFun objectList listed tables hkeys hjson harray
    have hdeliver : (TestRun.mk (some tables) lastRead notified).deliver json
        (.request (.afterControllerList resourceType reconcileFun objectList)) =
        ⟨some added, lastRead, notified⟩ := by
      rw [TestRun.deliver_received (by rw [StateTables.receive, hadd]; rfl)]
      simp
    rw [hdeliver]
    refine ⟨rfl, rfl, fun tables' htables => ⟨tables, rfl, ?_, ?_⟩⟩
    · intro f w key hother
      obtain rfl := Option.some.inj htables
      refine hothers f w key fun hentry => hother ⟨hentry.1, ?_⟩
      obtain ⟨-, -, object, hmem, rfl⟩ := hentry
      exact ⟨object.fields, List.mem_map.mpr ⟨object, hmem, rfl⟩⟩
    · intro _ key object hmem _ w hw
      obtain rfl := Option.some.inj htables
      obtain ⟨listedObject, hlisted, heq⟩ := List.mem_map.mp hmem
      obtain ⟨rfl, rfl⟩ := Prod.mk.inj heq
      exact hobjects listedObject hlisted w hw

/-- The coordinator exits at the list of a REST call. -/
theorem reported_listObject (resourceType : String) {objectList : String} {listObject : Fields}
    (hobject : json.unmarshal objectList = some (.obj listObject)) :
    Reported config json run
      (run.deliver json (.request (.afterControllerList resourceType reconcileFun objectList)))
      reconcileFun [] := by
  obtain ⟨tables, lastRead, notified⟩ := run
  cases tables with
  | none => exact ⟨rfl, rfl, by simp [TestRun.deliver]⟩
  | some tables =>
    rw [TestRun.deliver_exits (by rw [StateTables.receive, list_exits_of_object tables hobject]; rfl)]
    exact ⟨rfl, rfl, by simp⟩

end Reported

/-! ### The invariant -/

/-- What was read last, if it is observed, is what the tables have. -/
structure Kept (config : TestConfig) (json : GoJson) (run : TestRun) : Prop where
  clean : ∀ f key object, run.lastRead f key = some object →
    ∃ resourceType objNamespace name, CleanName resourceType objNamespace name ∧
      key = Client.generateResourceKey resourceType objNamespace name
  entry : ∀ tables, run.tables = some tables → ∀ f key object, f ≠ unknownReconcileFun →
    run.lastRead f key = some object → Observes config "afterControllerWrite" key f →
      ∀ w, IsWritePoint w → (tables f w key).bind json.toMap = some (some object)
  prev : PrevIsLastRead run

theorem kept_start : Kept config json .start where
  clean := by simp [TestRun.start]
  entry := by simp [TestRun.start]
  prev := by simp [PrevIsLastRead, TestRun.start]

/-- A reported read. -/
theorem Kept.read {run run' : TestRun} {reconcileFun : String} {objects : List (String × Fields)}
    (h : Kept config json run) (hreported : Reported config json run run' reconcileFun objects)
    (hclean : ∀ key object, (key, object) ∈ objects →
      ∃ resourceType objNamespace name, CleanName resourceType objNamespace name ∧
        key = Client.generateResourceKey resourceType objNamespace name) :
    Kept config json (run'.read reconcileFun objects) := by
  have hread : ∀ f key object, (run'.read reconcileFun objects).lastRead f key = some object →
      f = reconcileFun ∧ (key, object) ∈ objects ∨
      ¬ (f = reconcileFun ∧ ∃ object, (key, object) ∈ objects) ∧ run.lastRead f key = some object := by
    intro f key object hlast
    simp only [TestRun.read, hreported.lastRead] at hlast
    by_cases hf : f = reconcileFun
    · rw [if_pos hf] at hlast
      cases hlookup : objects.lookup key with
      | some found =>
        rw [hlookup, Option.some_or] at hlast
        obtain rfl := Option.some.inj hlast
        obtain ⟨before, after, hobjects, -⟩ := List.lookup_eq_some_iff.mp hlookup
        exact .inl ⟨hf, by simp [hobjects]⟩
      | none =>
        rw [hlookup, Option.none_or] at hlast
        refine .inr ⟨?_, hlast⟩
        rintro ⟨-, found, hmem⟩
        have hne := List.lookup_eq_none_iff.mp hlookup (key, found) hmem
        simp at hne
    · rw [if_neg hf] at hlast
      exact .inr ⟨fun hentry => hf hentry.1, hlast⟩
  constructor
  · intro f key object hlast
    obtain ⟨-, hmem⟩ | ⟨-, hlast⟩ := hread f key object hlast
    · exact hclean key object hmem
    · exact h.clean f key object hlast
  · intro tables' htables' f key object hf hlast hobserves w hw
    obtain ⟨tables, htables, hothers, hobjects⟩ := hreported.tables tables' htables'
    obtain ⟨rfl, hmem⟩ | ⟨hother, hlast⟩ := hread f key object hlast
    · exact hobjects hf key object hmem hobserves w hw
    · rw [hothers f w key hother]
      exact h.entry tables htables f key object hf hlast hobserves w hw
  · intro o object hmem
    refine h.prev o object ?_
    rw [← hreported.notified]
    exact hmem

/-- A notified write: an entry that is there is what an update is compared with. -/
theorem Kept.deliver_write {run : TestRun} (h : Kept config json run) (before : Bool)
    (writeType : ControllerOperation) {key reconcileFun : String} (object : String)
    (hf : reconcileFun ≠ unknownReconcileFun)
    (hobserves : ∀ object, run.lastRead reconcileFun key = some object →
      Observes config "afterControllerWrite" key reconcileFun) :
    Kept config json (run.deliver json (.controllerWrite before writeType key reconcileFun object)) := by
  obtain ⟨tables, lastRead, notified⟩ := run
  cases tables with
  | none => exact h
  | some tables =>
    cases hreceive : tables.receive json (.controllerWrite before writeType key reconcileFun object) with
    | none =>
      rw [TestRun.deliver_exits hreceive]
      exact ⟨h.clean, by simp, h.prev⟩
    | some result =>
      obtain ⟨tables', observed⟩ := result
      rw [TestRun.deliver_received hreceive]
      simp only [StateTables.receive, Option.map_eq_some_iff, Prod.mk.injEq, Prod.exists] at hreceive
      obtain ⟨entered, notification, hnotify, rfl, rfl⟩ := hreceive
      obtain ⟨rfl, hprev⟩ := tables.notifyControllerWrite_spec hnotify
      have hpoint : IsWritePoint (if before then beforeControllerWrite else afterControllerWrite) := by
        cases before
        · exact .inr rfl
        · exact .inl rfl
      have hentry : ∀ f key' object', f ≠ unknownReconcileFun → lastRead f key' = some object' →
          Observes config "afterControllerWrite" key' f → ∀ w, IsWritePoint w →
            (tables.initializeObjectStatesEntry reconcileFun
              (if before then beforeControllerWrite else afterControllerWrite) key f w key').bind
                json.toMap = some (some object') := by
        intro f key' object' hf' hlast hobserves' w hw
        have hbefore := h.entry tables rfl f key' object' hf' hlast hobserves' w hw
        obtain ⟨serializedObj, hsome, hobject⟩ := Option.bind_eq_some_iff.mp hbefore
        rw [tables.initialize_kept _ _ _ hsome, Option.bind_some, hobject]
      refine ⟨h.clean, ?_, ?_⟩
      · intro tables' htables'
        obtain rfl := Option.some.inj htables'
        exact hentry
      · intro o object' hmem prevState curState hupdate
        obtain hold | hnew := List.mem_append.mp hmem
        · exact h.prev o object' hold prevState curState hupdate
        · obtain ⟨o', ho', heq⟩ := List.mem_map.mp hnew
          obtain ⟨rfl, hlast⟩ := Prod.mk.inj heq
          obtain ⟨written, hwritten, rfl⟩ := Option.map_eq_some_iff.mp (Option.mem_toList.mp ho')
          have hcompared := hprev prevState curState (by rw [hwritten, ← hupdate])
          have hsame := hentry reconcileFun key object' hf hlast (hobserves object' hlast) _ hpoint
          obtain ⟨serializedObj, hsome, hobject⟩ := Option.bind_eq_some_iff.mp hsame
          rw [StateTables.readFromObjectStates, hsome, Option.getD_some, hobject, Option.map_some]
            at hcompared
          exact (Option.some.inj hcompared).symm

/-! ### Hook by hook -/

section Hooks

variable {run : TestRun}

theorem cacheGet_requests {reconcileFun resourceType objNamespace name serializedObj : String}
    (hclean : CleanName resourceType objNamespace name) (hf : reconcileFun ≠ unknownReconcileFun) :
    notifyTestAfterCacheGet config true reconcileFun (metaNamespaceKey objNamespace name)
      ⟨resourceType, some serializedObj⟩ true =
      notifyObserved config (Client.generateResourceKey resourceType objNamespace name) reconcileFun
        false (.afterControllerGet (Client.generateResourceKey resourceType objNamespace name)
          reconcileFun serializedObj) ++
        notifyTestAfterCacheGetPause config
          (Client.generateResourceKey resourceType objNamespace name) := by
  simp [notifyTestAfterCacheGet, hf, hclean.goJoin_eq]

theorem Kept.cacheGet (h : Kept config json run) {reconcileFun resourceType objNamespace name
    serializedObj : String} {object : Fields} (hclean : CleanName resourceType objNamespace name)
    (hobject : json.toMap serializedObj = some (some object)) :
    Kept config json (run.handle config json
      (.cacheGet reconcileFun resourceType objNamespace name serializedObj object)) := by
  refine h.read ?_ fun key object' hmem =>
    ⟨resourceType, objNamespace, name, hclean, (Prod.mk.inj (List.mem_singleton.mp hmem)).1⟩
  simp only [HookCall.requests, HookCall.objectsRead, HookCall.reader]
  by_cases hf : reconcileFun = unknownReconcileFun
  · have hnone : notifyTestAfterCacheGet config true reconcileFun (metaNamespaceKey objNamespace name)
        ⟨resourceType, some serializedObj⟩ true = [] := by
      simp [notifyTestAfterCacheGet, hf]
    rw [hnone]
    exact reported_unobserved fun hne => absurd hf hne
  · rw [cacheGet_requests hclean hf, List.map_append, List.foldl_append, notifyTestAfterCacheGetPause,
      TestRun.foldl_requestPause _ _ _ _ _ fun _ => rfl, notifyObserved_eq]
    split
    · exact reported_get _ hobject
    · rename_i hnot
      refine reported_unobserved fun _ key object' hmem hobserves => hnot ?_
      obtain ⟨rfl, -⟩ := Prod.mk.inj (List.mem_singleton.mp hmem)
      exact hobserves

/-- Items that are read back have been serialized. -/
theorem serializeAll_of_maps {items : List CachedObject} {listed : List ListedObject}
    (h : items.map (fun item => item.serialized.bind json.toMap) =
      listed.map (fun object => some (some object.fields))) :
    ∃ objectList, serializeAll items = some objectList := by
  have htexts : ∃ texts, items.mapM CachedObject.serialized = some texts := by
    induction items generalizing listed with
    | nil => exact ⟨[], rfl⟩
    | cons item items ih =>
      cases listed with
      | nil => simp at h
      | cons object listed =>
        rw [List.map_cons, List.map_cons, List.cons.injEq] at h
        obtain ⟨serializedObj, hserialized, -⟩ := Option.bind_eq_some_iff.mp h.1
        obtain ⟨texts, htexts⟩ := ih h.2
        exact ⟨serializedObj :: texts, by simp [List.mapM_cons, hserialized, htexts]⟩
  obtain ⟨texts, htexts⟩ := htexts
  exact ⟨_, by rw [serializeAll, htexts, Option.map_some]⟩

theorem Kept.cacheList (h : Kept config json run) {reconcileFun resourceType : String}
    {items : List CachedObject} {listed : List ListedObject}
    (hvalid : (HookCall.cacheList reconcileFun resourceType items listed).Valid json) :
    Kept config json (run.handle config json (.cacheList reconcileFun resourceType items listed)) := by
  obtain ⟨htypes, hitems, harray, hkeys, hlisted⟩ := hvalid
  refine h.read ?_ ?_
  · simp only [HookCall.requests, HookCall.objectsRead, HookCall.reader]
    by_cases hf : reconcileFun = unknownReconcileFun
    · have hnone : notifyTestAfterCacheList config true reconcileFun items false = [] := by
        cases items <;> simp [notifyTestAfterCacheList, hf]
      rw [hnone]
      exact reported_unobserved fun hne => absurd hf hne
    · cases items with
      | nil =>
        obtain rfl : listed = [] := by simpa using hitems.symm
        exact reported_unobserved (by simp)
      | cons item items =>
        obtain rfl := htypes item List.mem_cons_self
        obtain ⟨objectList, hserialized⟩ := serializeAll_of_maps hitems
        have hsent : notifyTestAfterCacheList config true reconcileFun (item :: items) false =
            notifyObserved config item.resourceType reconcileFun true
              (.afterControllerList item.resourceType reconcileFun objectList) ++
            notifyTestAfterCacheListPause config item.resourceType := by
          simp [notifyTestAfterCacheList, hf, hserialized]
        rw [hsent, List.map_append, List.foldl_append, notifyTestAfterCacheListPause,
          TestRun.foldl_requestPause _ _ _ _ _ fun _ => rfl, notifyObserved_eq]
        split
        · exact reported_list (harray objectList hserialized) hkeys
            fun object hmem => (hlisted object hmem).2
        · rename_i hnot
          refine reported_unobserved fun _ key object hmem hobserves => hnot ?_
          obtain ⟨listedObject, hmem', heq⟩ := List.mem_map.mp hmem
          obtain ⟨rfl, rfl⟩ := Prod.mk.inj heq
          have hstarts := (hlisted listedObject hmem').1.hasPrefix
          exact ⟨checkKVPair_type hstarts hobserves.1, checkKVPair_type hstarts hobserves.2⟩
  · intro key object hmem
    obtain ⟨listedObject, hmem', heq⟩ := List.mem_map.mp hmem
    obtain ⟨rfl, rfl⟩ := Prod.mk.inj heq
    exact ⟨_, _, _, (hlisted listedObject hmem').1, rfl⟩

/-- What the hooks around a write send. -/
theorem Kept.write (h : Kept config json run) (hplan : ReadsObserved config) (before : Bool)
    {call : RestCall} {reconcileFun : String} (serializedObj : String)
    (hf : reconcileFun ≠ unknownReconcileFun) :
    Kept config json ((notifyWrite config before call reconcileFun serializedObj).foldl
      (TestRun.deliver json) run) := by
  rw [notifyWrite_eq]
  by_cases hobserves : Observes config
    (if before then "beforeControllerWrite" else "afterControllerWrite") call.resourceKey reconcileFun
  · rw [if_pos hobserves]
    refine h.deliver_write before _ serializedObj hf fun object hlast => ?_
    cases before with
    | false => exact hobserves
    | true =>
      obtain ⟨t, ns, name, hclean, hkey⟩ := h.clean _ _ object hlast
      rw [hkey] at hobserves ⊢
      exact hplan t ns name reconcileFun hclean hf hobserves
  · rw [if_neg hobserves]
    exact h

theorem beforeRestCall_requests (reconcileFun : String) (call : RestCall) :
    (notifyTestBeforeRestCall config true reconcileFun call).2 = [] ∨
      reconcileFun ≠ unknownReconcileFun ∧ ∃ serializedObj writeType,
        (notifyTestBeforeRestCall config true reconcileFun call).2 =
          notifyWrite config true call reconcileFun serializedObj ++
            (notifyTestBeforeControllerWritePause config writeType call.resourceKey).map .request := by
  by_cases htype : call.resourceType = ""
  · exact .inl (by simp [notifyTestBeforeRestCall, htype])
  · by_cases hf : reconcileFun = unknownReconcileFun
    · exact .inl (by simp [notifyTestBeforeRestCall, hf])
    · cases hserialized : call.serialized with
      | none => exact .inl (by simp [notifyTestBeforeRestCall, hserialized])
      | some serializedObj =>
        cases hop : call.operation with
        | get | list | unknown =>
          exact .inl (by simp [notifyTestBeforeRestCall, hserialized, hop, htype, hf])
        | _ =>
          exact .inr ⟨hf, serializedObj, _, by
            simp [notifyTestBeforeRestCall, hserialized, hop, htype, hf]
            rfl⟩

theorem Kept.beforeRestCall (h : Kept config json run) (hplan : ReadsObserved config)
    (reconcileFun : String) (call : RestCall) :
    Kept config json (run.handle config json (.beforeRestCall reconcileFun call)) := by
  show Kept config json (TestRun.read ((notifyTestBeforeRestCall config true reconcileFun call).2.foldl
    (TestRun.deliver json) run) reconcileFun [])
  rw [TestRun.read_nil]
  obtain hnone | ⟨hf, serializedObj, writeType, hsent⟩ :=
    @beforeRestCall_requests config reconcileFun call
  · rw [hnone]
    exact h
  · rw [hsent, List.foldl_append, notifyTestBeforeControllerWritePause,
      TestRun.foldl_requestPause _ _ _ _ _ fun _ => rfl]
    exact h.write hplan true serializedObj hf

/-- What the hook after a write sends. -/
theorem afterRestCall_requests (reconcileFun : String) (id : ℤ) (call : RestCall) (respErr : Bool)
    (hget : call.operation ≠ .get) (hlist : call.operation ≠ .list) :
    notifyTestAfterRestCall config true reconcileFun id call respErr = [] ∨
      reconcileFun ≠ unknownReconcileFun ∧ ∃ serializedObj writeType,
        notifyTestAfterRestCall config true reconcileFun id call respErr =
          notifyWrite config false call reconcileFun serializedObj ++
            (notifyTestAfterControllerWritePause config writeType call.resourceKey).map .request := by
  by_cases hid : id = -1
  · exact .inl (by simp [notifyTestAfterRestCall, hid])
  · by_cases htype : call.resourceType = ""
    · exact .inl (by simp [notifyTestAfterRestCall, htype])
    · by_cases hf : reconcileFun = unknownReconcileFun
      · exact .inl (by simp [notifyTestAfterRestCall, hf])
      · cases respErr with
        | true => exact .inl (by simp [notifyTestAfterRestCall])
        | false =>
          cases hserialized : call.serialized with
          | none => exact .inl (by simp [notifyTestAfterRestCall, hserialized])
          | some serializedObj =>
            cases hop : call.operation with
            | get => exact absurd hop hget
            | list => exact absurd hop hlist
            | unknown => exact .inl (by simp [notifyTestAfterRestCall, hserialized, hop])
            | _ =>
              exact .inr ⟨hf, serializedObj, _, by
                simp [notifyTestAfterRestCall, hserialized, hop, hid, htype, hf]
                rfl⟩

/-- The hook after a read that did not succeed, or not in a reconcile. -/
theorem afterRestCall_nil {reconcileFun : String} {id : ℤ} {call : RestCall} {respErr : Bool}
    (h : id = -1 ∨ respErr = true ∨ reconcileFun = unknownReconcileFun) :
    notifyTestAfterRestCall config true reconcileFun id call respErr = [] := by
  obtain rfl | rfl | rfl := h <;> simp [notifyTestAfterRestCall]

theorem verb_of_get {call : RestCall} (hop : call.operation = .get) : call.verb = .get := by
  obtain ⟨verb, ns, t, name, subresource, objectName, serialized⟩ := call
  cases verb with
  | get => rfl
  | post | patch | other => cases hop
  | put | delete =>
    simp only [RestCall.operation, httpVerbToControllerOperation] at hop
    split at hop <;> cases hop

theorem Kept.afterRestGet (h : Kept config json run) {reconcileFun : String} {id : ℤ} {call : RestCall}
    {respErr : Bool} (hop : call.operation = .get)
    (hvalid : (HookCall.afterRestCall reconcileFun id call respErr).Valid json) :
    Kept config json (run.handle config json (.afterRestCall reconcileFun id call respErr)) := by
  by_cases hread : id ≠ -1 ∧ respErr = false
  · obtain ⟨hid, rfl⟩ := hread
    obtain ⟨hclean, serializedObj, object, hserialized, hobject⟩ := (hvalid rfl).1 hop
    have hkey : call.resourceKey = Client.generateResourceKey (pluralToSingular call.resourceType)
        call.objNamespace call.resourceName := by
      rw [RestCall.resourceKey, verb_of_get hop]
      rfl
    have hobjects : (HookCall.afterRestCall reconcileFun id call false).objectsRead json =
        [(call.resourceKey, object)] := by
      simp [HookCall.objectsRead, hop, hid, hserialized, hobject]
    have htype : call.resourceType ≠ "" := by
      intro hempty
      rw [hempty] at hclean
      exact hclean.resourceType.1 rfl
    show Kept config json (TestRun.read _ reconcileFun
      ((HookCall.afterRestCall reconcileFun id call false).objectsRead json))
    rw [hobjects]
    refine h.read ?_ fun key object' hmem =>
      ⟨_, _, _, hclean, (Prod.mk.inj (List.mem_singleton.mp hmem)).1.trans hkey⟩
    by_cases hf : reconcileFun = unknownReconcileFun
    · rw [HookCall.requests, afterRestCall_nil (.inr (.inr hf))]
      exact reported_unobserved fun hne => absurd hf hne
    · have hsent : notifyTestAfterRestCall config true reconcileFun id call false =
          (notifyObserved config call.resourceKey reconcileFun false
            (.afterControllerGet call.resourceKey reconcileFun serializedObj)).map .request := by
        simp [notifyTestAfterRestCall, hserialized, hop, hid, htype, hf]
      rw [HookCall.requests, hsent, notifyObserved_eq]
      split
      · exact reported_get _ hobject
      · rename_i hnot
        refine reported_unobserved fun _ key object' hmem hobserves => hnot ?_
        obtain ⟨rfl, -⟩ := Prod.mk.inj (List.mem_singleton.mp hmem)
        exact hobserves
  · have hnone : notifyTestAfterRestCall config true reconcileFun id call respErr = [] := by
      refine afterRestCall_nil ?_
      simp only [ne_eq, not_and_or, not_not, Bool.not_eq_false] at hread
      obtain hid | hresp := hread
      · exact .inl hid
      · exact .inr (.inl hresp)
    have hobjects : (HookCall.afterRestCall reconcileFun id call respErr).objectsRead json = [] := by
      simp only [HookCall.objectsRead, hop, true_and, if_neg hread]
    show Kept config json (TestRun.read
      ((notifyTestAfterRestCall config true reconcileFun id call respErr).foldl (TestRun.deliver json)
        run) reconcileFun ((HookCall.afterRestCall reconcileFun id call respErr).objectsRead json))
    rw [hobjects, TestRun.read_nil, hnone]
    exact h

theorem Kept.afterRestCall (h : Kept config json run) (hplan : ReadsObserved config)
    {reconcileFun : String} {id : ℤ} {call : RestCall} {respErr : Bool}
    (hvalid : (HookCall.afterRestCall reconcileFun id call respErr).Valid json) :
    Kept config json (run.handle config json (.afterRestCall reconcileFun id call respErr)) := by
  by_cases hget : call.operation = .get
  · exact h.afterRestGet hget hvalid
  · have hobjects : (HookCall.afterRestCall reconcileFun id call respErr).objectsRead json = [] := by
      simp [HookCall.objectsRead, hget]
    show Kept config json (TestRun.read
      ((notifyTestAfterRestCall config true reconcileFun id call respErr).foldl (TestRun.deliver json)
        run) reconcileFun ((HookCall.afterRestCall reconcileFun id call respErr).objectsRead json))
    rw [hobjects]
    by_cases hlist : call.operation = .list
    · refine h.read ?_ (by simp)
      by_cases hsilent : id = -1 ∨ respErr = true ∨ reconcileFun = unknownReconcileFun
      · rw [afterRestCall_nil hsilent]
        exact reported_unobserved (by simp)
      · simp only [not_or, Bool.not_eq_true] at hsilent
        obtain ⟨hid, rfl, hf⟩ := hsilent
        by_cases htype : call.resourceType = ""
        · have hnone : notifyTestAfterRestCall config true reconcileFun id call false = [] := by
            simp [notifyTestAfterRestCall, htype]
          rw [hnone]
          exact reported_unobserved (by simp)
        · cases hserialized : call.serialized with
          | none =>
            have hnone : notifyTestAfterRestCall config true reconcileFun id call false = [] := by
              simp [notifyTestAfterRestCall, hserialized]
            rw [hnone]
            exact reported_unobserved (by simp)
          | some serializedObj =>
            obtain ⟨listObject, hobject⟩ := (hvalid rfl).2 hlist serializedObj hserialized
            have hsent : notifyTestAfterRestCall config true reconcileFun id call false =
                (notifyObserved config (pluralToSingular call.resourceType) reconcileFun true
                  (.afterControllerList (pluralToSingular call.resourceType) reconcileFun
                    serializedObj)).map .request := by
              simp [notifyTestAfterRestCall, hserialized, hlist, hid, htype, hf]
            rw [hsent, notifyObserved_eq]
            split
            · exact reported_listObject _ hobject
            · exact reported_unobserved (by simp)
    · rw [TestRun.read_nil]
      obtain hnone | ⟨hf, serializedObj, writeType, hsent⟩ :=
        @afterRestCall_requests config reconcileFun id call respErr hget hlist
      · rw [hnone]
        exact h
      · rw [hsent, List.foldl_append, notifyTestAfterControllerWritePause,
          TestRun.foldl_requestPause _ _ _ _ _ fun _ => rfl]
        exact h.write hplan false serializedObj hf

theorem Kept.received (h : Kept config json run) {observedBy observedWhen resourceKey object : String}
    (hpoint : ¬ IsWritePoint observedWhen) :
    Kept config json (run.handle config json (.received observedBy observedWhen resourceKey object)) := by
  refine ⟨h.clean, ?_, h.prev⟩
  intro tables' htables' f key object' hf hlast hobserves w hw
  obtain ⟨tables, htables, rfl⟩ := Option.map_eq_some_iff.mp htables'
  rw [tables.write_other _ (by rintro ⟨-, rfl, -⟩; exact hpoint hw)]
  exact h.entry tables htables f key object' hf hlast hobserves w hw

theorem Kept.step (h : Kept config json run) (hplan : ReadsObserved config) {call : HookCall}
    {run' : TestRun} (hstep : HookStep config json run call run') : Kept config json run' := by
  obtain ⟨hvalid, rfl⟩ := hstep
  cases call with
  | cacheGet f t ns name serializedObj object => exact h.cacheGet hvalid.1 hvalid.2
  | cacheList f t items listed => exact h.cacheList hvalid
  | beforeRestCall f call => exact h.beforeRestCall hplan f call
  | afterRestCall f id call respErr => exact h.afterRestCall hplan hvalid
  | received observedBy observedWhen resourceKey object => exact h.received hvalid

end Hooks

/-! ### Main results -/

theorem pluralToSingular_append (resourceType : String) :
    pluralToSingular (resourceType ++ "s") = resourceType := by
  rw [pluralToSingular, ← String.toList_inj]
  simp

/-- The first update of an object whose read was not reported. -/
theorem deliver_initial {object : Fields} {serializedObj key reconcileFun : String}
    (lastRead : String → String → Option Fields) (hempty : json.toMap "\x7b\x7d" = some (some []))
    (hobject : json.toMap serializedObj = some (some object)) :
    ((TestRun.mk (some fun _ _ _ => none) lastRead []).deliver json
      (.controllerWrite true .update key reconcileFun serializedObj)).notified =
      [(⟨beforeControllerWrite, reconcileFun, key, .update (some []) (some (trimKindApiversion object))⟩,
        lastRead reconcileFun key)] := by
  let tables : StateTables := fun _ _ _ => none
  have hread : (tables.initializeObjectStatesEntry reconcileFun beforeControllerWrite
      key).readFromObjectStates reconcileFun beforeControllerWrite key = "\x7b\x7d" := by
    rw [StateTables.readFromObjectStates, tables.initialize_self]
    rfl
  have hnotify : tables.notifyControllerWrite json beforeControllerWrite .update key reconcileFun
      serializedObj = some (tables.initializeObjectStatesEntry reconcileFun beforeControllerWrite key,
        some (.update (some []) (some (trimKindApiversion object)))) := by
    simp only [StateTables.notifyControllerWrite, hread, hempty, hobject, Option.bind_eq_bind,
      Option.bind_some]
    rfl
  have hreceive : tables.receive json (.controllerWrite true .update key reconcileFun serializedObj) =
      some (tables.initializeObjectStatesEntry reconcileFun beforeControllerWrite key,
        some ⟨beforeControllerWrite, reconcileFun, key, .update (some []) (some (trimKindApiversion object))⟩) := by
    rw [StateTables.receive]
    simp [hnotify]
  rw [TestRun.deliver_received hreceive]
  rfl

/-- A plan that observes a key before a write but not after it: the read is not reported. -/
theorem reaches_initial {object : Fields} {serializedObj resourceType objNamespace name
    reconcileFun : String} (hempty : json.toMap "\x7b\x7d" = some (some []))
    (hobject : json.toMap serializedObj = some (some object))
    (hclean : CleanName resourceType objNamespace name) (hf : reconcileFun ≠ unknownReconcileFun)
    (hbefore : Observes config "beforeControllerWrite"
      (Client.generateResourceKey resourceType objNamespace name) reconcileFun)
    (hafter : ¬ Observes config "afterControllerWrite"
      (Client.generateResourceKey resourceType objNamespace name) reconcileFun) :
    ∃ run, ReflTransGen (Unlabelled (HookStep config json)) .start run ∧
      ∃ o curState, (o, some object) ∈ run.notified ∧ o.notification = .update (some []) curState := by
  let key := Client.generateResourceKey resourceType objNamespace name
  let lastRead : String → String → Option Fields := fun f key' =>
    if f = reconcileFun then ([(key, object)].lookup key').or none else none
  have hplural : resourceType ++ "s" ≠ "" := by
    rw [← String.toList_inj.ne]
    simp
  -- the read
  have hget : TestRun.start.handle config json
      (.cacheGet reconcileFun resourceType objNamespace name serializedObj object) =
      ⟨some fun _ _ _ => none, lastRead, []⟩ := by
    have hnone : notifyObserved config key reconcileFun false
        (.afterControllerGet key reconcileFun serializedObj) = [] := by
      rw [notifyObserved_eq]
      exact if_neg hafter
    show TestRun.read (((notifyTestAfterCacheGet config true reconcileFun
      (metaNamespaceKey objNamespace name) ⟨resourceType, some serializedObj⟩ true).map
        RestRequest.request).foldl (TestRun.deliver json) .start) _ _ = _
    rw [cacheGet_requests hclean hf, hnone, List.nil_append, notifyTestAfterCacheGetPause,
      TestRun.foldl_requestPause _ _ _ _ _ fun _ => rfl]
    rfl
  -- the update
  let call : RestCall := ⟨.put, objNamespace, resourceType ++ "s", name, "", none, some serializedObj⟩
  have hkey : call.resourceKey = key := by
    show Client.generateResourceKey (pluralToSingular (resourceType ++ "s")) objNamespace name = key
    rw [pluralToSingular_append]
  have hput : TestRun.handle config json ⟨some fun _ _ _ => none, lastRead, []⟩
      (.beforeRestCall reconcileFun call) =
      (TestRun.mk (some fun _ _ _ => none) lastRead []).deliver json
        (.controllerWrite true .update key reconcileFun serializedObj) := by
    have hsent : (notifyTestBeforeRestCall config true reconcileFun call).2 =
        notifyWrite config true call reconcileFun serializedObj ++
          (notifyTestBeforeControllerWritePause config "Update" call.resourceKey).map .request := by
      have hop : call.operation = .update := rfl
      have htype : call.resourceType ≠ "" := hplural
      have hserialized : call.serialized = some serializedObj := rfl
      simp [notifyTestBeforeRestCall, hserialized, hop, htype, hf]
      rfl
    have hwrite : notifyWrite config true call reconcileFun serializedObj =
        [.controllerWrite true .update key reconcileFun serializedObj] := by
      rw [notifyWrite_eq, hkey]
      exact if_pos hbefore
    show TestRun.read ((notifyTestBeforeRestCall config true reconcileFun call).2.foldl
      (TestRun.deliver json) _) reconcileFun [] = _
    rw [TestRun.read_nil, hsent, List.foldl_append, notifyTestBeforeControllerWritePause,
      TestRun.foldl_requestPause _ _ _ _ _ fun _ => rfl, hwrite]
    rfl
  have hread : Unlabelled (HookStep config json) .start ⟨some fun _ _ _ => none, lastRead, []⟩ :=
    ⟨.cacheGet reconcileFun resourceType objNamespace name serializedObj object,
      And.intro (And.intro hclean hobject) hget.symm⟩
  have hupdate : Unlabelled (HookStep config json) ⟨some fun _ _ _ => none, lastRead, []⟩
      ((TestRun.mk (some fun _ _ _ => none) lastRead []).deliver json
        (.controllerWrite true .update key reconcileFun serializedObj)) :=
    ⟨.beforeRestCall reconcileFun call, And.intro trivial hput.symm⟩
  refine ⟨_, .tail (.single hread) hupdate,
    ⟨beforeControllerWrite, reconcileFun, key, .update (some []) (some (trimKindApiversion object))⟩,
    some (trimKindApiversion object), ?_, rfl⟩
  rw [deliver_initial lastRead hempty hobject]
  simp [lastRead]

/-- **In every run the previous state of an update is the object read last, if and only if the plan
observes after the write what it observes before it.** -/
theorem previousState_iff {serializedObj : String} {object : Fields}
    (hempty : json.toMap "\x7b\x7d" = some (some [])) (hobject : json.toMap serializedObj = some (some object))
    (hne : trimKindApiversion object ≠ []) :
    Always (Unlabelled (HookStep config json)) .start PrevIsLastRead ↔ ReadsObserved config := by
  constructor
  · intro h resourceType objNamespace name reconcileFun hclean hf hbefore
    by_contra hafter
    obtain ⟨run, hrun, o, curState, hmem, hupdate⟩ :=
      reaches_initial hempty hobject hclean hf hbefore hafter
    exact hne (Option.some.inj (h run hrun o object hmem (some []) curState hupdate)).symm
  · intro hplan
    have hkept : Always (Unlabelled (HookStep config json)) .start (Kept config json) :=
      .of_labelled kept_start fun run call run' hkept hstep => hkept.step hplan hstep
    exact hkept.mono fun run hkept => hkept.prev

/-! ### Two plans on a pod -/

/-- The decoder on the empty state and on the pod. -/
def stateJson : GoJson where
  unmarshal text :=
    if text = "\x7b\x7d" then some (.obj []) else if text = podText then some (.obj webPod.fields) else none
  marshal _ := podText

theorem stateJson_empty : stateJson.toMap "\x7b\x7d" = some (some []) := by
  simp only [GoJson.toMap, stateJson, if_true]
  rfl

theorem stateJson_pod : stateJson.toMap podText = some (some webPod.fields) := by
  have hne : podText ≠ "\x7b\x7d" := by decide
  simp only [GoJson.toMap, stateJson, if_neg hne, if_true]
  rfl

theorem previousState_podConfig :
    Always (Unlabelled (HookStep podConfig stateJson)) .start PrevIsLastRead ↔
      ReadsObserved podConfig :=
  previousState_iff stateJson_empty stateJson_pod (by decide)

/-- The plan observes the pod before a write only. -/
def beforeConfig : TestConfig :=
  ⟨fun _ => [], [⟨"pod/default/web", some fun key =>
    if key = "when" then some (.str "beforeControllerWrite")
    else if key = "by" then some (.str "reconcile") else none⟩]⟩

/-- The pod is read from the cache and then updated. -/
theorem previousState_fails :
    ¬ Always (Unlabelled (HookStep beforeConfig stateJson)) .start PrevIsLastRead := by
  intro h
  have hclean : CleanName "pod" "default" "web" := ⟨by decide, .inr (by decide), by decide⟩
  have hkey : Client.generateResourceKey "pod" "default" "web" = "pod/default/web" := by
    rw [generateResourceKey_segments hclean.resourceType (hclean.objNamespace.resolve_left (by decide))
      hclean.name]
    rfl
  obtain ⟨run, hrun, o, curState, hmem, hupdate⟩ :=
    @reaches_initial beforeConfig _ _ _ _ _ _ "reconcile" stateJson_empty stateJson_pod hclean
      (by decide) (by rw [hkey]; decide) (by rw [hkey]; decide)
  have hprev : ([] : Fields) = trimKindApiversion webPod.fields :=
    Option.some.inj (h run hrun o webPod.fields hmem (some []) curState hupdate)
  exact absurd hprev.symm (by decide)

end Sieve.Replay
