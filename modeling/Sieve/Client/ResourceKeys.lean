import Sieve.Client.Common
import Sieve.Event.Paths

/-!
# Resource keys in testing

How the test client names an object:

* `generateResourceKey`, `generateResourceKeyFromRestCall`: in `common.go`;
* `getResourceNamespaceNameFromAPIKey`: from a key of the API server's store;
* `generateResourceKey_segments`: the key of parts that `path.Join` leaves alone.

Names of resources are ASCII, so the last byte is the last character.
-/

namespace Sieve.Client

open Sieve.Event

inductive HttpVerb where
  | get
  | post
  | put
  | patch
  | delete
  | other
  deriving DecidableEq

def generateResourceKey (resourceType objNamespace name : String) : String :=
  goJoinAll [resourceType, objNamespace, name]

/-- The name without its last letter. -/
def pluralToSingular (plural : String) : String := String.ofList plural.toList.dropLast

/-- `objectName`: the name in the metadata of the object of the call, if it has metadata. -/
def generateResourceKeyFromRestCall (verb : HttpVerb) (resourceType objNamespace name : String)
    (objectName : Option String) : String :=
  match verb, objectName with
  | .post, some objectName =>
    generateResourceKey (pluralToSingular resourceType) objNamespace objectName
  | _, _ => generateResourceKey (pluralToSingular resourceType) objNamespace name

/-- The namespace and the name, if the key has enough parts. -/
def getResourceNamespaceNameFromAPIKey (key : String) : Option (String × String) :=
  match (key.toList.splitOn '/').reverse with
  | name :: objNamespace :: _ :: _ :: _ => some (String.ofList objNamespace, String.ofList name)
  | _ => none

/-- `MetaNamespaceKeyFunc` of the client library, by which the cache knows an object. -/
def metaNamespaceKey (objNamespace name : String) : String :=
  if objNamespace == "" then name else objNamespace ++ "/" ++ name

/-- The parts of a key of the cache, as the learn client reports them: a key of one part is not
reported. -/
def splitCacheKey (key : String) : Option (String × String) :=
  match key.toList.splitOn '/' with
  | [objNamespace, name] => some (String.ofList objNamespace, String.ofList name)
  | _ => none

/-! ### Parts that are clean -/

/-- Objects of the cluster have no namespace. -/
structure CleanName (resourceType objNamespace name : String) : Prop where
  resourceType : IsSegment resourceType.toList
  objNamespace : objNamespace = "" ∨ IsSegment objNamespace.toList
  name : IsSegment name.toList

section Segments

variable {resourceType objNamespace name : String}

theorem generateResourceKey_segments (htype : IsSegment resourceType.toList)
    (hnamespace : IsSegment objNamespace.toList) (hname : IsSegment name.toList) :
    generateResourceKey resourceType objNamespace name =
      resourceType ++ "/" ++ objNamespace ++ "/" ++ name := by
  rw [generateResourceKey, goJoinAll_segments htype (by simp [hnamespace, hname]),
    ← String.toList_inj]
  simp [hnamespace.1, hname.1, List.intercalate_cons_cons]

/-- The key of an object without a namespace. -/
theorem generateResourceKey_cluster (htype : IsSegment resourceType.toList)
    (hname : IsSegment name.toList) :
    generateResourceKey resourceType "" name = resourceType ++ "/" ++ name := by
  rw [generateResourceKey, goJoinAll_segments htype (by simp [hname]), ← String.toList_inj]
  simp [hname.1, List.intercalate_cons_cons]

/-- A key of the cache leads to the same key. -/
theorem goJoin_metaNamespaceKey (htype : IsSegment resourceType.toList)
    (hnamespace : IsSegment objNamespace.toList) :
    goJoin resourceType (metaNamespaceKey objNamespace name) =
      generateResourceKey resourceType objNamespace name := by
  have hne : (objNamespace == "") = false := by
    rw [beq_eq_false_iff_ne]
    rintro rfl
    exact hnamespace.1 rfl
  have htype' : (resourceType == "") = false := by
    rw [beq_eq_false_iff_ne]
    rintro rfl
    exact htype.1 rfl
  have hpath : resourceType ++ "/" ++ (objNamespace ++ "/" ++ name) = String.ofList
      (['/'].intercalate [resourceType.toList, objNamespace.toList, name.toList]) := by
    rw [← String.toList_inj]
    simp [List.intercalate_cons_cons]
  rw [goJoin, htype', metaNamespaceKey, hne, generateResourceKey, goJoinAll,
    List.dropWhile_cons_of_neg (by simp [htype'])]
  simp only [Bool.false_eq_true, if_false]
  rw [hpath]
  rfl

theorem goJoin_cluster (htype : IsSegment resourceType.toList) (hname : IsSegment name.toList) :
    goJoin resourceType name = generateResourceKey resourceType "" name := by
  have htype' : (resourceType == "") = false := by
    rw [beq_eq_false_iff_ne]
    rintro rfl
    exact htype.1 rfl
  have hpath : resourceType ++ "/" ++ name =
      String.ofList (['/'].intercalate [resourceType.toList, name.toList]) := by
    rw [← String.toList_inj]
    simp [List.intercalate_cons_cons]
  rw [generateResourceKey_cluster htype hname, goJoin, htype', hpath]
  simp only [Bool.false_eq_true, if_false]
  rw [goClean_intercalate htype (by simp [hname])]
  simp [hname.1]

/-- The cache and the REST client lead to one key. -/
theorem CleanName.goJoin_eq (h : CleanName resourceType objNamespace name) :
    goJoin resourceType (metaNamespaceKey objNamespace name) =
      generateResourceKey resourceType objNamespace name := by
  obtain hcluster | hnamespace := h.objNamespace
  · rw [hcluster]
    show goJoin resourceType name = _
    exact goJoin_cluster h.resourceType h.name
  · exact goJoin_metaNamespaceKey h.resourceType hnamespace

/-- The key begins with the type. -/
theorem CleanName.hasPrefix (h : CleanName resourceType objNamespace name) :
    hasPrefix (generateResourceKey resourceType objNamespace name) (resourceType ++ "/") = true := by
  rw [Client.hasPrefix, List.isPrefixOf_iff_prefix]
  obtain hcluster | hnamespace := h.objNamespace
  · rw [hcluster, generateResourceKey_cluster h.resourceType h.name]
    exact ⟨name.toList, by simp⟩
  · rw [generateResourceKey_segments h.resourceType hnamespace h.name]
    exact ⟨objNamespace.toList ++ '/' :: name.toList, by simp⟩

theorem splitCacheKey_metaNamespaceKey (hnamespace : IsSegment objNamespace.toList)
    (hname : IsSegment name.toList) :
    splitCacheKey (metaNamespaceKey objNamespace name) = some (objNamespace, name) := by
  have hne : (objNamespace == "") = false := by
    rw [beq_eq_false_iff_ne]
    rintro rfl
    exact hnamespace.1 rfl
  have hkey : (objNamespace ++ "/" ++ name).toList = objNamespace.toList ++ '/' :: name.toList := by
    simp
  rw [splitCacheKey, metaNamespaceKey, hne, if_neg (by simp), hkey,
    List.splitOn_append_cons_self_of_not_mem hnamespace.2.1, List.splitOn_eq_singleton hname.2.1]
  simp

theorem namespaceName_of_apiKey {key : String} {start : List (List Char)}
    (hkey : key.toList.splitOn '/' = start ++ [objNamespace.toList, name.toList])
    (hstart : 2 ≤ start.length) :
    getResourceNamespaceNameFromAPIKey key = some (objNamespace, name) := by
  rw [getResourceNamespaceNameFromAPIKey, hkey, List.reverse_append]
  have hreverse : 2 ≤ start.reverse.length := by simpa using hstart
  match start.reverse, hreverse with
  | _ :: _ :: _, _ => simp

end Segments

end Sieve.Client
