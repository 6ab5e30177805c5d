import Sieve.Analyzer.DecodedLines
import Sieve.Analyzer.K8sEvent
import Sieve.Client.ResourceKeys
import Sieve.Server.ObjectMaps

/-!
# Resource keys in learning and in testing

* `KubernetesObject`: an object, with what its kind is called in types and in REST calls;
* `LearnedKey`, `TestedKey`: the keys that the analyzer gives it, and those of client and coordinator;
* `sameKey_iff`: they are one key for the objects of a namespace whose kind has a plain plural.
-/

namespace Sieve.Analyzer

open Sieve.Event Sieve.Library

structure KubernetesObject where
  /-- The kind in lower case. -/
  resourceType : String
  /-- How REST calls name the kind. -/
  resource : String
  /-- Empty for an object of the cluster. -/
  objNamespace : String
  name : String
  objMap : Fields
  metadata : Fields
  hasMetadata : objMap.lookup "metadata" = some (.obj metadata)
  hasName : metadata.lookup "name" = some (.str name)
  /-- An empty namespace is omitted. -/
  hasNamespace : metadata.lookup "namespace" =
    if objNamespace = "" then none else some (.str objNamespace)
  cleanType : IsSegment resourceType.toList
  cleanNamespace : objNamespace = "" ∨ IsSegment objNamespace.toList
  cleanName : IsSegment name.toList

/-- `generate_key` of what has been parsed. -/
def ParsedHear.key (hear : ParsedHear) : String :=
  generateKey (String.ofList hear.rtype) (String.ofList hear.objNamespace) (String.ofList hear.name)

def ParsedWrite.key (write : ParsedWrite) : String :=
  generateKey (String.ofList write.rtype) (String.ofList write.objNamespace)
    (String.ofList write.name)

/-- The keys of the analyzer for the object. -/
inductive LearnedKey (o : KubernetesObject) : String → Prop where
  | hear {loads : Text → Option Json} {id : ℤ} {etype objStr : Text} {hear : ParsedHear}
    (hloads : loads objStr = some (.obj o.objMap))
    (hparse : controllerHear loads (formatInt id) etype o.resourceType.toList objStr = .ok hear) :
    LearnedKey o hear.key
  /-- A call without a name has it in its body. -/
  | write {loads : Text → Option Json} {id : ℤ} {etype reconcileFun error name objStr : Text}
    {body : Json} {write : ParsedWrite} (hloads : loads objStr = some body)
    (hname : name = o.name.toList ∨ name = [] ∧ body = .obj o.objMap)
    (hparse : controllerWrite loads (formatInt id) etype reconcileFun error
      (Client.pluralToSingular o.resource).toList o.objNamespace.toList name objStr = .ok write) :
    LearnedKey o write.key
  | list {objs : Json} {keyToObj : List (Text × Json)} {key : Text}
    (hread : readObjects "List".toList o.resourceType.toList [] [] objs = .ok keyToObj)
    (hmem : (key, .obj o.objMap) ∈ keyToObj) : LearnedKey o (String.ofList key)
  | restGet {obj : Json} {keyToObj : List (Text × Json)} {key : Text}
    (hread : readObjects "Get".toList (Client.pluralToSingular o.resource).toList
      o.objNamespace.toList o.name.toList obj = .ok keyToObj)
    (hmem : (key, obj) ∈ keyToObj) : LearnedKey o (String.ofList key)
  | cacheGet {objNamespace name : String} {obj : Json} {keyToObj : List (Text × Json)} {key : Text}
    (hkey : Client.splitCacheKey (Client.metaNamespaceKey o.objNamespace o.name) =
      some (objNamespace, name))
    (hread : readObjects "Get".toList o.resourceType.toList objNamespace.toList name.toList obj =
      .ok keyToObj)
    (hmem : (key, obj) ∈ keyToObj) : LearnedKey o (String.ofList key)

/-- The keys of the test client and the coordinator for the object. -/
inductive TestedKey (o : KubernetesObject) : String → Prop where
  | informer : TestedKey o (Client.generateResourceKey o.resourceType o.objNamespace o.name)
  | cacheGet : TestedKey o
      (goJoin o.resourceType (Client.metaNamespaceKey o.objNamespace o.name))
  | cacheList {name objNamespace : String}
    (hobj : Server.extractNameNamespaceFromObjMap o.objMap = some (name, objNamespace)) :
    TestedKey o (Server.generateResourceKey o.resourceType objNamespace name)
  | restCall (verb : Client.HttpVerb) {name : String} (hname : verb = .post ∨ name = o.name) :
    TestedKey o (Client.generateResourceKeyFromRestCall verb o.resource o.objNamespace name
      (some o.name))
  /-- The key of the store ends with the name, or with namespace and name. -/
  | apiServer {key objNamespace name : String} {start : List Text}
    (hkey : key.toList.splitOn '/' = start ++
      if o.objNamespace = "" then [o.name.toList] else [o.objNamespace.toList, o.name.toList])
    (hstart : 2 ≤ start.length)
    (hparse : Client.getResourceNamespaceNameFromAPIKey key = some (objNamespace, name)) :
    TestedKey o (Client.generateResourceKey o.resourceType objNamespace name)

/-- Whoever names the object, in learning or in testing, names it alike. -/
def SameKey (o : KubernetesObject) : Prop :=
  ∀ key key', LearnedKey o key ∨ TestedKey o key → LearnedKey o key' ∨ TestedKey o key' → key = key'

/-! ### Keys that are joined with slashes -/

theorem ofList_slashKey (resourceType objNamespace name : Text) :
    String.ofList (slashKey resourceType objNamespace name) =
      generateKey (String.ofList resourceType) (String.ofList objNamespace) (String.ofList name) := by
  rw [← String.toList_inj, slashKey, generateKey]
  simp [List.intercalate_cons_cons]

/-- The parts of a key are found in it. -/
theorem splitOn_generateKey {resourceType objNamespace name : String}
    (hnamespace : '/' ∉ objNamespace.toList) (hname : '/' ∉ name.toList) :
    (generateKey resourceType objNamespace name).toList.splitOn '/' =
      resourceType.toList.splitOn '/' ++ [objNamespace.toList, name.toList] := by
  have hkey : (generateKey resourceType objNamespace name).toList =
      resourceType.toList ++ '/' :: (objNamespace.toList ++ '/' :: name.toList) := by
    simp [generateKey]
  rw [hkey, List.splitOn_append_cons_self, List.splitOn_append_cons_self_of_not_mem hnamespace,
    List.splitOn_eq_singleton hname]

theorem generateKey_inj {resourceType resourceType' objNamespace objNamespace' name name' : String}
    (hnamespace : '/' ∉ objNamespace.toList) (hname : '/' ∉ name.toList)
    (hnamespace' : '/' ∉ objNamespace'.toList) (hname' : '/' ∉ name'.toList)
    (h : generateKey resourceType objNamespace name =
      generateKey resourceType' objNamespace' name') :
    resourceType = resourceType' ∧ objNamespace = objNamespace' := by
  have hsplit := congrArg (fun key => key.toList.splitOn '/') h
  simp only [splitOn_generateKey hnamespace hname, splitOn_generateKey hnamespace' hname'] at hsplit
  obtain ⟨htype, hrest⟩ := List.append_inj' hsplit rfl
  constructor
  · have hjoin := congrArg (['/'].intercalate ·) htype
    rw [← String.toList_inj]
    simpa [List.intercalate_splitOn] using hjoin
  · rw [← String.toList_inj]
    exact (List.cons.inj hrest).1

/-! ### The keys of an object -/

namespace KubernetesObject

variable (o : KubernetesObject)

/-- The namespace that the analyzer takes from the object. -/
def namespaceOrDefault : String := if o.objNamespace = "" then "default" else o.objNamespace

theorem slash_not_mem_namespace : '/' ∉ o.objNamespace.toList := by
  obtain hempty | hclean := o.cleanNamespace
  · simp [hempty]
  · exact hclean.2.1

theorem slash_not_mem_namespaceOrDefault : '/' ∉ o.namespaceOrDefault.toList := by
  rw [namespaceOrDefault]
  split
  · decide
  · exact o.slash_not_mem_namespace

theorem hasName_obj : HasName (.obj o.objMap) o.name.toList :=
  ⟨o.objMap, o.metadata, rfl, o.hasMetadata, by rw [String.ofList_toList]; exact o.hasName⟩

theorem hasNamespace_obj : HasNamespace (.obj o.objMap) o.namespaceOrDefault.toList := by
  refine ⟨o.objMap, o.metadata, rfl, o.hasMetadata, ?_⟩
  rw [o.hasNamespace, namespaceOrDefault, String.ofList_toList]
  split
  · exact Or.inr ⟨rfl, rfl⟩
  · exact Or.inl rfl

theorem extractNameNamespace_obj :
    Server.extractNameNamespaceFromObjMap o.objMap = some (o.name, o.objNamespace) := by
  have hnamespace := o.hasNamespace
  rw [Server.extractNameNamespaceFromObjMap, o.hasMetadata]
  by_cases hempty : o.objNamespace = ""
  · rw [if_pos hempty] at hnamespace
    simp [Server.nameNamespaceEntries, Server.stringEntry, o.hasName, hnamespace, hempty]
  · rw [if_neg hempty] at hnamespace
    simp [Server.nameNamespaceEntries, Server.stringEntry, o.hasName, hnamespace]

end KubernetesObject

section Keys

variable {o : KubernetesObject} {loads : Text → Option Json}

theorem controllerHear_obj {id : ℤ} {etype objStr : Text}
    (hloads : loads objStr = some (.obj o.objMap)) :
    controllerHear loads (formatInt id) etype o.resourceType.toList objStr =
      .ok ⟨id, etype, o.resourceType.toList, o.namespaceOrDefault.toList, o.name.toList,
        .obj o.objMap⟩ := by
  simp [controllerHear, toInt_formatInt, jsonLoads, hloads,
    extractNamespaceName_of o.hasNamespace_obj o.hasName_obj, asText, bind, Except.bind]

theorem controllerWrite_key {id : ℤ} {etype reconcileFun error rtype objNamespace name objStr : Text}
    {body : Json} {write : ParsedWrite} (hloads : loads objStr = some body)
    (hname : name = o.name.toList ∨ name = [] ∧ body = .obj o.objMap)
    (hparse : controllerWrite loads (formatInt id) etype reconcileFun error rtype objNamespace name
      objStr = .ok write) :
    write.key = generateKey (String.ofList rtype) (String.ofList objNamespace) o.name := by
  obtain ⟨_, hwrite, hnameIf⟩ := (controllerWrite_ok_iff hloads).mp hparse
  have hwriteName : write.name = o.name.toList := by
    obtain rfl | ⟨rfl, rfl⟩ := hname
    · rw [if_neg o.cleanName.1] at hnameIf
      exact hnameIf
    · rw [if_pos rfl] at hnameIf
      obtain ⟨fields, metadata, hobj, hmetadata, hlookup⟩ := hnameIf
      rw [← Json.obj.inj hobj, o.hasMetadata, Option.some.injEq, Json.obj.injEq] at hmetadata
      rw [← hmetadata, o.hasName, Option.some.injEq, Json.str.injEq] at hlookup
      rw [hlookup, String.toList_ofList]
  rw [ParsedWrite.key, hwriteName, hwrite, String.ofList_toList]

/-- The objects of a list stand under their keys. -/
theorem addObjects_key {rtype : Text} {objs : List Json} {keyToObj result : List (Text × Json)}
    (h : addObjects rtype keyToObj objs = .ok result) {key : Text} {obj : Json}
    (hmem : (key, obj) ∈ result) {objNamespace name : Text} (hnamespace : HasNamespace obj objNamespace)
    (hname : HasName obj name) : (key, obj) ∈ keyToObj ∨ key = slashKey rtype objNamespace name := by
  induction objs generalizing keyToObj with
  | nil =>
    rw [addObjects] at h
    rw [← Except.ok.inj h] at hmem
    exact Or.inl hmem
  | cons first objs ih =>
    obtain ⟨metadata, hmetadata, h⟩ := bind_ok_iff.mp h
    obtain ⟨firstNamespace, hfirstNamespace, h⟩ := bind_ok_iff.mp h
    obtain ⟨metadata', hmetadata', h⟩ := bind_ok_iff.mp h
    obtain ⟨firstName, hfirstName, h⟩ := bind_ok_iff.mp h
    obtain ⟨namespaceText, hnamespaceText, h⟩ := bind_ok_iff.mp h
    obtain ⟨nameText, hnameText, h⟩ := bind_ok_iff.mp h
    simp only at h
    split at h
    · cases h
    · obtain hold | hkey := ih h
      · obtain hold | hlast := List.mem_append.mp hold
        · exact Or.inl hold
        · obtain ⟨rfl, rfl⟩ := Prod.mk.inj (List.mem_singleton.mp hlast)
          right
          obtain ⟨fields, metadataFields, rfl, hlookup, hnameLookup⟩ := hname
          have hitem : getItem (.obj fields) "metadata" = .ok (.obj metadataFields) := by
            rw [getItem, hlookup]
          rw [hitem] at hmetadata hmetadata'
          rw [← Except.ok.inj hmetadata, metadataNamespace_of hlookup hnamespace] at hfirstNamespace
          rw [← Except.ok.inj hmetadata', getItem, hnameLookup] at hfirstName
          rw [← Except.ok.inj hfirstNamespace] at hnamespaceText
          rw [← Except.ok.inj hfirstName] at hnameText
          rw [← Except.ok.inj hnamespaceText, ← Except.ok.inj hnameText, String.toList_ofList,
            String.toList_ofList]
      · exact Or.inr hkey

theorem learnedKey_eq (hnamespace : o.objNamespace ≠ "")
    (hplural : Client.pluralToSingular o.resource = o.resourceType) {key : String}
    (h : LearnedKey o key) : key = generateKey o.resourceType o.objNamespace o.name := by
  have hdefault : o.namespaceOrDefault = o.objNamespace := if_neg hnamespace
  have hclean := o.cleanNamespace.resolve_left hnamespace
  cases h with
  | hear hloads hparse =>
    rw [controllerHear_obj hloads] at hparse
    rw [← Except.ok.inj hparse, ParsedHear.key, hdefault]
    simp only [String.ofList_toList]
  | write hloads hname hparse =>
    rw [controllerWrite_key hloads hname hparse, hplural]
    simp only [String.ofList_toList]
  | @list objs keyToObj key hread hmem =>
    have hkey : key = slashKey o.resourceType.toList o.namespaceOrDefault.toList o.name.toList := by
      rw [readObjects.eq_def, if_neg (by decide)] at hread
      split at hread
      · rw [← Except.ok.inj hread] at hmem
        cases hmem
      · obtain ⟨items, _, hadd⟩ := bind_ok_iff.mp hread
        obtain hnil | hkey := addObjects_key hadd hmem o.hasNamespace_obj o.hasName_obj
        · cases hnil
        · exact hkey
    rw [hkey, ofList_slashKey, hdefault]
    simp only [String.ofList_toList]
  | restGet hread hmem =>
    rw [readObjects.eq_def, if_pos rfl] at hread
    rw [← Except.ok.inj hread, List.mem_singleton] at hmem
    rw [(Prod.mk.inj hmem).1, ofList_slashKey, hplural]
    simp only [String.ofList_toList]
  | cacheGet hkey hread hmem =>
    rw [Client.splitCacheKey_metaNamespaceKey hclean o.cleanName] at hkey
    obtain ⟨rfl, rfl⟩ := Prod.mk.inj (Option.some.inj hkey)
    rw [readObjects.eq_def, if_pos rfl] at hread
    rw [← Except.ok.inj hread, List.mem_singleton] at hmem
    rw [(Prod.mk.inj hmem).1, ofList_slashKey]
    simp only [String.ofList_toList]

theorem testedKey_eq (hnamespace : o.objNamespace ≠ "")
    (hplural : Client.pluralToSingular o.resource = o.resourceType) {key : String}
    (h : TestedKey o key) : key = generateKey o.resourceType o.objNamespace o.name := by
  have hclean := o.cleanNamespace.resolve_left hnamespace
  have hkey := Client.generateResourceKey_segments o.cleanType hclean o.cleanName
  cases h with
  | informer => exact hkey
  | cacheGet =>
    rw [Client.goJoin_metaNamespaceKey o.cleanType hclean]
    exact hkey
  | cacheList hobj =>
    rw [o.extractNameNamespace_obj] at hobj
    obtain ⟨rfl, rfl⟩ := Prod.mk.inj (Option.some.inj hobj)
    exact hkey
  | restCall verb hname =>
    rw [← hplural] at hkey
    rw [← hplural]
    obtain rfl | rfl := hname
    · exact hkey
    · cases verb <;> exact hkey
  | apiServer hstore hstart hparse =>
    rw [if_neg hnamespace] at hstore
    rw [Client.namespaceName_of_apiKey hstore hstart] at hparse
    obtain ⟨rfl, rfl⟩ := Prod.mk.inj (Option.some.inj hparse)
    exact hkey

/-- The key of an informer event. -/
theorem learnedKey_hear (o : KubernetesObject) :
    LearnedKey o (generateKey o.resourceType o.namespaceOrDefault o.name) := by
  have hparse := @controllerHear_obj o (fun _ => some (.obj o.objMap)) 0 [] [] rfl
  have hkey := LearnedKey.hear rfl hparse
  rw [ParsedHear.key] at hkey
  simpa only [String.ofList_toList] using hkey

/-- The key of a write. -/
theorem learnedKey_write (o : KubernetesObject) :
    LearnedKey o (generateKey (Client.pluralToSingular o.resource) o.objNamespace o.name) := by
  have hparse := (@controllerWrite_ok_iff (fun _ => some (.obj o.objMap)) 0 [] [] []
    (Client.pluralToSingular o.resource).toList o.objNamespace.toList o.name.toList [] _ rfl
    ⟨0, [], (Client.pluralToSingular o.resource).toList, [], [], o.objNamespace.toList, o.name.toList,
      .obj o.objMap⟩).mpr ⟨by decide, rfl, by rw [if_neg o.cleanName.1]⟩
  have hkey := LearnedKey.write rfl (Or.inl rfl) hparse
  rw [ParsedWrite.key] at hkey
  simpa only [String.ofList_toList] using hkey

end Keys

/-- **An object is named alike everywhere if and only if it has a namespace and a plain plural.** -/
theorem sameKey_iff (o : KubernetesObject) :
    SameKey o ↔
      o.objNamespace ≠ "" ∧ Client.pluralToSingular o.resource = o.resourceType := by
  constructor
  · intro h
    obtain ⟨htype, hnamespace⟩ := generateKey_inj o.slash_not_mem_namespaceOrDefault o.cleanName.2.1
      o.slash_not_mem_namespace o.cleanName.2.1
      (h _ _ (Or.inl (learnedKey_hear o)) (Or.inl (learnedKey_write o)))
    refine ⟨fun hempty => ?_, htype.symm⟩
    rw [KubernetesObject.namespaceOrDefault, if_pos hempty, hempty] at hnamespace
    exact absurd hnamespace (by decide)
  · rintro ⟨hnamespace, hplural⟩ key key' hkey hkey'
    have heq : ∀ {key}, LearnedKey o key ∨ TestedKey o key →
        key = generateKey o.resourceType o.objNamespace o.name := fun hany =>
      hany.elim (learnedKey_eq hnamespace hplural) (testedKey_eq hnamespace hplural)
    rw [heq hkey, heq hkey']

/-- A node, which is an object of the cluster. -/
def worker : KubernetesObject where
  resourceType := "node"
  resource := "nodes"
  objNamespace := ""
  name := "worker"
  objMap := [("metadata", .obj [("name", .str "worker")])]
  metadata := [("name", .str "worker")]
  hasMetadata := rfl
  hasName := rfl
  hasNamespace := rfl
  cleanType := by decide
  cleanNamespace := Or.inl rfl
  cleanName := by decide

/-- An event of the node is learned under another key than it is tested under. -/
theorem worker_not_sameKey : ¬ SameKey worker := by
  intro h
  have hkeys := h _ _ (Or.inl (learnedKey_hear worker)) (Or.inr TestedKey.informer)
  revert hkeys
  decide

end Sieve.Analyzer
