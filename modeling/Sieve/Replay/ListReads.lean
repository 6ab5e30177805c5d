import Sieve.Server.StateTables

/-!
# Reads of lists

The client reports a list of the cache as an array, and a list of the REST client as the object that
holds the array.

* `ListReport`: the reports, with the objects that were listed;
* `Keeps`: the coordinator keeps the objects, each under its own key;
* `keeps_iff`: it does for a list of the cache only;
* `restList_not_kept`: a REST list, at which the coordinator exits.
-/

namespace Sieve.Replay

open Sieve.Event Sieve.Client Sieve.Server
open Sieve.Client (TestConfig RestCall)

/-- A list read that the client reports, and whether it was read from the cache. -/
inductive ListReport (config : TestConfig) (json : GoJson) (resourceType reconcileFun : String) :
    Bool → String → List ListedObject → Prop
  /-- The text is the array of the objects. -/
  | cache (items : List CachedObject) {objectList : String} {listed : List ListedObject}
    (hsent : .afterControllerList resourceType reconcileFun objectList ∈
      notifyTestAfterCacheList config true reconcileFun items false)
    (hitems : items.map (fun item => item.serialized.bind json.toMap) =
      listed.map (fun object => some (some object.fields)))
    (harray : json.unmarshal objectList = some (.arr (listed.map (.obj ·.fields)))) :
    ListReport config json resourceType reconcileFun true objectList listed
  /-- The text is a list object, which has the array among its fields. -/
  | rest (call : RestCall) (controllerOperationID : ℤ) {objectList : String} {fields : Fields}
    {listed : List ListedObject}
    (hsent : .request (.afterControllerList resourceType reconcileFun objectList) ∈
      notifyTestAfterRestCall config true reconcileFun controllerOperationID call false)
    (hobject : json.unmarshal objectList = some (.obj fields))
    (hitems : fields.lookup "items" = some (.arr (listed.map (.obj ·.fields)))) :
    ListReport config json resourceType reconcileFun false objectList listed

/-- After the report the tables of the reconciler for writes hold the objects, each under its own key,
and nothing else has changed. -/
def Keeps (json : GoJson) (tables : StateTables) (resourceType reconcileFun objectList : String)
    (listed : List ListedObject) : Prop :=
  ∃ tables', tables.notifyTestAfterControllerList json resourceType reconcileFun objectList =
      some tables' ∧
    (∀ object ∈ listed, ∀ w, StateTables.IsWritePoint w →
      (tables' reconcileFun w (object.resourceKey resourceType)).bind json.toMap =
        some (some object.fields)) ∧
    ∀ b w k, ¬ (b = reconcileFun ∧ StateTables.IsWritePoint w ∧
      ∃ object ∈ listed, k = object.resourceKey resourceType) → tables' b w k = tables b w k

section Reports

variable {json : GoJson} {resourceType reconcileFun objectList : String} {listed : List ListedObject}

/-- The elements of an array of objects. -/
theorem strToSlice_objects (listed : List ListedObject) :
    strToSlice (some (.arr (listed.map (.obj ·.fields)))) = some (listed.map (some ·.fields)) := by
  show (listed.map (fun object => Json.obj object.fields)).mapM (fun item => strToMap (some item)) = _
  induction listed with
  | nil => rfl
  | cons object listed ih =>
    rw [List.map_cons, List.mapM_cons, ih]
    rfl

theorem keeps_array (tables : StateTables)
    (hkeys : (listed.map (·.resourceKey resourceType)).Nodup)
    (hjson : ∀ object ∈ listed, json.toMap (json.marshal (some object.fields)) = some (some object.fields))
    (harray : json.unmarshal objectList = some (.arr (listed.map (.obj ·.fields)))) :
    Keeps json tables resourceType reconcileFun objectList listed := by
  obtain ⟨tables', hadd, hobjects, hothers⟩ :=
    tables.addListed_objects json resourceType reconcileFun hkeys
  refine ⟨tables', ?_, ?_, hothers⟩
  · rw [StateTables.notifyTestAfterControllerList, harray, strToSlice_objects]
    exact hadd
  · intro object hmem w hw
    rw [hobjects object hmem w hw, Option.bind_some]
    exact hjson object hmem

/-- The coordinator exits at a text that is an object. -/
theorem list_exits_of_object (tables : StateTables) {fields : Fields}
    (hobject : json.unmarshal objectList = some (.obj fields)) :
    tables.notifyTestAfterControllerList json resourceType reconcileFun objectList = none := by
  rw [StateTables.notifyTestAfterControllerList, hobject]
  rfl

/-- **A reported list is kept if and only if it was read from the cache.** -/
theorem keeps_iff {config : TestConfig} {fromCache : Bool} (tables : StateTables)
    (hreport : ListReport config json resourceType reconcileFun fromCache objectList listed)
    (hkeys : (listed.map (·.resourceKey resourceType)).Nodup)
    (hjson : ∀ object ∈ listed, json.toMap (json.marshal (some object.fields)) = some (some object.fields)) :
    Keeps json tables resourceType reconcileFun objectList listed ↔ fromCache = true := by
  cases hreport with
  | cache items hsent hitems harray => simp [keeps_array tables hkeys hjson harray]
  | rest call controllerOperationID hsent hobject hitems =>
    simp [Keeps, list_exits_of_object tables hobject]

end Reports

/-! ### A pod that is listed -/

/-- The plan observes what the reconciler does to the pod. -/
def podConfig : TestConfig :=
  ⟨fun _ => [], [⟨"pod/default/web", some fun key =>
    if key = "when" then some (.str "afterControllerWrite")
    else if key = "by" then some (.str "reconcile") else none⟩]⟩

def podMetadata : Fields := [("name", .str "web"), ("namespace", .str "default")]

def webPod : ListedObject :=
  ⟨[("metadata", .obj podMetadata)], podMetadata, "default", "web", rfl, rfl, rfl⟩

def podText : String := "\x7b\"metadata\":\x7b\"name\":\"web\",\"namespace\":\"default\"\x7d\x7d"

def podListText : String := "\x7b\"items\":[" ++ podText ++ "]\x7d"

/-- The decoder on the texts of the pod. -/
def podJson : GoJson where
  unmarshal text :=
    if text = podText then some (.obj webPod.fields)
    else if text = "[" ++ podText ++ "]" then some (.arr [.obj webPod.fields])
    else if text = podListText then some (.obj [("items", .arr [.obj webPod.fields])])
    else none
  marshal _ := podText

theorem unmarshal_podArray :
    podJson.unmarshal ("[" ++ podText ++ "]") = some (.arr [.obj webPod.fields]) := by
  have hpod : "[" ++ podText ++ "]" ≠ podText := by decide
  simp only [podJson, if_neg hpod, if_true]

theorem keeps_cachedPod :
    Keeps podJson (fun _ _ _ => none) "pod" "reconcile" ("[" ++ podText ++ "]") [webPod] := by
  have hreport : ListReport podConfig podJson "pod" "reconcile" true ("[" ++ podText ++ "]")
      [webPod] := by
    refine .cache [⟨"pod", some podText⟩] (by decide) ?_ unmarshal_podArray
    simp [GoJson.toMap, podJson, strToMap]
  refine (keeps_iff (fun _ _ _ => none) hreport (by simp) ?_).mpr rfl
  simp [GoJson.toMap, podJson, strToMap]

/-- A REST list of the pod: the coordinator exits. -/
theorem restList_not_kept :
    ListReport podConfig podJson "pod" "reconcile" false podListText [webPod] ∧
      ¬ Keeps podJson (fun _ _ _ => none) "pod" "reconcile" podListText [webPod] := by
  have hobject : podJson.unmarshal podListText =
      some (.obj [("items", .arr [.obj webPod.fields])]) := by
    have hpod : podListText ≠ podText := by decide
    have harray : podListText ≠ "[" ++ podText ++ "]" := by decide
    simp only [podJson, if_neg hpod, if_neg harray, if_true]
  refine ⟨.rest ⟨.get, "default", "pods", "", "", none, some podListText⟩ 1 ?_ hobject rfl, ?_⟩
  · decide
  · intro hkeeps
    obtain ⟨tables', hlist, -⟩ := hkeeps
    rw [list_exits_of_object _ hobject] at hlist
    cases hlist

end Sieve.Replay
