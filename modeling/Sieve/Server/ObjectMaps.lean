import Sieve.Event.Decoding
import Sieve.Event.Paths
import Sieve.Server.Event

/-!
# Objects that the coordinator decodes

The helpers of `common.go` of the server for decoded objects; `none` is where the process exits.

* `strToMap`, `strToSlice`: what is decoded is a map, or a list of maps;
* `decodeMap`, `decodeObject`: the same on the text of a map with exact numbers;
* `extractNameNamespaceFromObjMap`, `generateResourceKey`: the keys of objects.
-/

namespace Sieve.Server

open Sieve.Event

/-- `strToMap`, for what `json.Unmarshal` makes of the text; `null` makes the map nil. -/
def strToMap : Option Json → Option GoMap
  | some (.obj fields) => some (some fields)
  | some .null => some none
  | _ => none

/-- `strToSlice`: `null` is no slice, and a nil map as an element. -/
def strToSlice : Option Json → Option (List GoMap)
  | some (.arr items) => items.mapM fun item => strToMap (some item)
  | some .null => some []
  | _ => none

/-- The value that the text of a map says. -/
def mapText : GoMap → Json
  | none => .null
  | some fields => .obj fields

/-- `strToMap` on the text of an object. -/
def decodeObject (object : Fields) : Option Fields :=
  if fieldsInRange object then some (roundedFields object) else none

/-- An entry that has to be a string if there is one. -/
def stringEntry (m : Fields) (key : String) : Option String :=
  match m.lookup key with
  | none => some ""
  | some (.str s) => some s
  | some _ => none

def nameNamespaceEntries (m : Fields) : Option (String × String) := do
  let name ← stringEntry m "name"
  let objNamespace ← stringEntry m "namespace"
  some (name, objNamespace)

def extractNameNamespaceFromObjMap (objMap : Fields) : Option (String × String) :=
  match objMap.lookup "metadata" with
  | some (.obj metadataMap) => nameNamespaceEntries metadataMap
  | some _ => some ("", "")
  | none => nameNamespaceEntries objMap

def generateResourceKey (resourceType objNamespace name : String) : String :=
  goJoinAll [resourceType, objNamespace, name]

end Sieve.Server
