import Sieve.Analyzer.SanityCheck
import Sieve.Event.Json
import Sieve.Library.Text

/-!
# Parsing a line of the learner's log

The parse functions of `k8s_event.py` and the constructors that they call, on the text of a line.
`json.loads` is a parameter.  A number is an optional sign and digits; `int` also takes blanks and
underscores, which the server does not write.

What is decoded from a line is as in the constructors; the values that they set for later are left
out.
-/

namespace Sieve.Analyzer

open Sieve.Event Sieve.Library

/-- What ends a parse function. -/
inductive ParseError where
  | assertion
  | indexError
  | valueError
  | keyError
  | typeError
  deriving DecidableEq, Repr

/-! ### Marks and tokens -/

def SIEVE_BEFORE_HEAR_MARK : Text := "[SIEVE-BEFORE-HEAR]".toList
def SIEVE_AFTER_HEAR_MARK : Text := "[SIEVE-AFTER-HEAR]".toList
def SIEVE_BEFORE_REST_WRITE_MARK : Text := "[SIEVE-BEFORE-REST-WRITE]".toList
def SIEVE_AFTER_REST_WRITE_MARK : Text := "[SIEVE-AFTER-REST-WRITE]".toList
def SIEVE_AFTER_REST_READ_MARK : Text := "[SIEVE-AFTER-REST-READ]".toList
def SIEVE_AFTER_CACHE_READ_MARK : Text := "[SIEVE-AFTER-CACHE-READ]".toList
def SIEVE_BEFORE_RECONCILE_MARK : Text := "[SIEVE-BEFORE-RECONCILE]".toList
def SIEVE_AFTER_RECONCILE_MARK : Text := "[SIEVE-AFTER-RECONCILE]".toList
def SIEVE_BEFORE_ANNOTATED_API_INVOCATION_MARK : Text :=
  "[SIEVE-BEFORE-ANNOTATED-API-INVOCATION]".toList
def SIEVE_AFTER_ANNOTATED_API_INVOCATION_MARK : Text :=
  "[SIEVE-AFTER-ANNOTATED-API-INVOCATION]".toList

/-- `line[line.find(mark):].strip("\n").split("\t")`, after the assertion that the mark is there. -/
def tokensFrom (mark line : Text) : Except ParseError (List Text) :=
  match fromFirst mark line with
  | none => .error .assertion
  | some rest => .ok ((strip '\n' rest).splitOn '\t')

def token (tokens : List Text) (i : ℕ) : Except ParseError Text :=
  match tokens[i]? with
  | none => .error .indexError
  | some text => .ok text

def toInt (text : Text) : Except ParseError ℤ :=
  match parseInt text with
  | none => .error .valueError
  | some n => .ok n

/-! ### Decoded values -/

/-- `obj[key]`. -/
def getItem (obj : Json) (key : String) : Except ParseError Json :=
  match obj with
  | .obj fields =>
    match fields.lookup key with
    | none => .error .keyError
    | some value => .ok value
  | _ => .error .typeError

/-- `key in obj`. -/
def hasItem (obj : Json) (key : String) : Except ParseError Bool :=
  match obj with
  | .obj fields => .ok (fields.lookup key).isSome
  | .arr items => .ok (items.any fun item =>
      match item with
      | .str s => s == key
      | _ => false)
  | .str s => .ok (decide (key.toList <:+: s.toList))
  | _ => .error .typeError

/-- What `for obj in objs` goes through. -/
def iterate : Json → Except ParseError (List Json)
  | .arr items => .ok items
  | .obj fields => .ok (fields.map fun field => .str field.1)
  | .str s => .ok (s.toList.map fun c => .str (String.singleton c))
  | _ => .error .typeError

/-- An argument of `"/".join`. -/
def asText : Json → Except ParseError Text
  | .str s => .ok s.toList
  | _ => .error .typeError

def slashKey (resourceType objNamespace name : Text) : Text :=
  ['/'].intercalate [resourceType, objNamespace, name]

def jsonLoads (loads : Text → Option Json) (text : Text) : Except ParseError Json :=
  match loads text with
  | none => .error .valueError
  | some value => .ok value

def extractName (obj : Json) : Except ParseError Json := do
  if ← hasItem obj "metadata" then getItem (← getItem obj "metadata") "name"
  else .error .assertion

/-- The namespace in the metadata, or the default one. -/
def metadataNamespace (metadata : Json) : Except ParseError Json := do
  if ← hasItem metadata "namespace" then getItem metadata "namespace"
  else .ok (.str "default")

def extractNamespaceName (obj : Json) : Except ParseError (Json × Json) := do
  if ← hasItem obj "metadata" then
    let name ← getItem (← getItem obj "metadata") "name"
    let objNamespace ← metadataNamespace (← getItem obj "metadata")
    .ok (objNamespace, name)
  else .error .assertion

/-! ### What is decoded -/

structure ParsedHear where
  id : ℤ
  etype : Text
  rtype : Text
  objNamespace : Text
  name : Text
  objMap : Json

structure ParsedWrite where
  id : ℤ
  etype : Text
  rtype : Text
  reconcileFun : Text
  error : Text
  objNamespace : Text
  name : Text
  objMap : Json

structure ParsedRead where
  etype : Text
  fromCache : Bool
  rtype : Text
  reconcileFun : Text
  error : Text
  keyToObj : List (Text × Json)

structure ParsedNonK8sWrite where
  id : ℤ
  module : Text
  filePath : Text
  recvType : Text
  funName : Text
  reconcileFun : Text

/-- `ReconcileBegin` and `ReconcileEnd`; the number stays a text. -/
structure ParsedReconcile where
  isBegin : Bool
  reconcileFun : Text
  reconcileId : Text

/-! ### The constructors -/

variable (loads : Text → Option Json)

/-- `ControllerHear`; the key is made of texts only. -/
def controllerHear (id etype rtype objStr : Text) : Except ParseError ParsedHear := do
  let id ← toInt id
  let objMap ← jsonLoads loads objStr
  let (objNamespace, name) ← extractNamespaceName objMap
  .ok ⟨id, etype, rtype, ← asText objNamespace, ← asText name, objMap⟩

def controllerWrite (id etype reconcileFun error rtype objNamespace name objStr : Text) :
    Except ParseError ParsedWrite := do
  let id ← toInt id
  if etype = "DeleteAllOf".toList then .error .assertion
  else
    let objMap ← jsonLoads loads objStr
    let name ← if name ≠ [] then .ok name else extractName objMap >>= asText
    .ok ⟨id, etype, rtype, reconcileFun, error, objNamespace, name, objMap⟩

/-- The loop of `ControllerRead` over the objects of a list. -/
def addObjects (rtype : Text) : List (Text × Json) → List Json →
    Except ParseError (List (Text × Json))
  | keyToObj, [] => .ok keyToObj
  | keyToObj, obj :: objs => do
    let objNamespace ← metadataNamespace (← getItem obj "metadata")
    let name ← getItem (← getItem obj "metadata") "name"
    let key := slashKey rtype (← asText objNamespace) (← asText name)
    if (keyToObj.lookup key).isSome then .error .assertion
    else addObjects rtype (keyToObj ++ [(key, obj)]) objs

/-- The objects of a read by their keys. -/
def readObjects (etype rtype objNamespace name : Text) (objs : Json) :
    Except ParseError (List (Text × Json)) :=
  if etype = "Get".toList then .ok [(slashKey rtype objNamespace name, objs)]
  else
    match objs with
    | .null => .ok []
    | objs => iterate objs >>= addObjects rtype []

/-- `ControllerRead`.  The flag is compared with a text. -/
def controllerRead (etype : Text) (fromCache : Json) (rtype objNamespace name reconcileFun error
    objStr : Text) : Except ParseError ParsedRead := do
  let fromCache :=
    match fromCache with
    | .str s => s == "true"
    | _ => false
  let objs ← jsonLoads loads objStr
  let keyToObj ← readObjects etype rtype objNamespace name objs
  .ok ⟨etype, fromCache, rtype, reconcileFun, error, keyToObj⟩

/-! ### The parse functions -/

def parseControllerHear (line : Text) : Except ParseError ParsedHear := do
  let tokens ← tokensFrom SIEVE_BEFORE_HEAR_MARK line
  controllerHear loads (← token tokens 1) (← token tokens 2) (← token tokens 3) (← token tokens 4)

def parseControllerWrite (line : Text) : Except ParseError ParsedWrite := do
  let tokens ← tokensFrom SIEVE_AFTER_REST_WRITE_MARK line
  controllerWrite loads (← token tokens 1) (← token tokens 2) (← token tokens 3) (← token tokens 4)
    (← token tokens 5) (← token tokens 6) (← token tokens 7) (← token tokens 8)

/-- The tokens are counted without the mark. -/
def parseControllerRead (line : Text) : Except ParseError ParsedRead := do
  let tokens ← tokensFrom SIEVE_AFTER_REST_READ_MARK line
  let tokens := tokens.drop 1
  let etype ← token tokens 1
  if etype = "Get".toList then
    controllerRead loads etype (.bool false) (← token tokens 4) (← token tokens 5)
      (← token tokens 6) (← token tokens 2) (← token tokens 3) (← token tokens 7)
  else if etype = "List".toList then
    controllerRead loads etype (.bool false) (← token tokens 4) [] []
      (← token tokens 2) (← token tokens 3) (← token tokens 7)
  else .error .assertion

def parseControllerCacheRead (line : Text) : Except ParseError ParsedRead := do
  let tokens ← tokensFrom SIEVE_AFTER_CACHE_READ_MARK line
  let etype ← token tokens 1
  if etype = "Get".toList then
    controllerRead loads etype (.bool true) (← token tokens 2) (← token tokens 3)
      (← token tokens 4) (← token tokens 5) (← token tokens 6) (← token tokens 7)
  else if etype = "List".toList then
    controllerRead loads etype (.bool true) (← token tokens 2) [] []
      (← token tokens 3) (← token tokens 4) (← token tokens 5)
  else .error .assertion

def parseControllerNonK8sWrite (line : Text) : Except ParseError ParsedNonK8sWrite := do
  let tokens ← tokensFrom SIEVE_AFTER_ANNOTATED_API_INVOCATION_MARK line
  .ok ⟨← toInt (← token tokens 1), ← token tokens 2, ← token tokens 3, ← token tokens 4,
    ← token tokens 5, ← token tokens 6⟩

/-- `parse_controller_hear_id_only` and its siblings: the id after one of two marks. -/
def parseIdOnly (before after line : Text) : Except ParseError ℤ := do
  let tokens ← if after <:+: line then tokensFrom after line else tokensFrom before line
  toInt (← token tokens 1)

def parseControllerHearIdOnly (line : Text) : Except ParseError ℤ :=
  parseIdOnly SIEVE_BEFORE_HEAR_MARK SIEVE_AFTER_HEAR_MARK line

def parseControllerWriteIdOnly (line : Text) : Except ParseError ℤ :=
  parseIdOnly SIEVE_BEFORE_REST_WRITE_MARK SIEVE_AFTER_REST_WRITE_MARK line

def parseControllerNonK8sWriteIdOnly (line : Text) : Except ParseError ℤ :=
  parseIdOnly SIEVE_BEFORE_ANNOTATED_API_INVOCATION_MARK SIEVE_AFTER_ANNOTATED_API_INVOCATION_MARK
    line

def parseReconcile (line : Text) : Except ParseError ParsedReconcile := do
  if SIEVE_BEFORE_RECONCILE_MARK <:+: line then
    let tokens ← tokensFrom SIEVE_BEFORE_RECONCILE_MARK line
    .ok ⟨true, ← token tokens 1, ← token tokens 2⟩
  else
    let tokens ← tokensFrom SIEVE_AFTER_RECONCILE_MARK line
    .ok ⟨false, ← token tokens 1, ← token tokens 2⟩

/-! ### The sanity check of a text -/

/-- The branch of `sanity_check_sieve_server_log` that the line takes. -/
def statusLine (line : Text) : Except ParseError StatusLine := do
  if SIEVE_BEFORE_REST_WRITE_MARK <:+: line then
    .ok (.beforeRestWrite (← parseControllerWriteIdOnly line))
  else if SIEVE_AFTER_REST_WRITE_MARK <:+: line then
    .ok (.afterRestWrite (← parseControllerWriteIdOnly line))
  else if SIEVE_BEFORE_HEAR_MARK <:+: line then
    .ok (.beforeHear (← parseControllerHearIdOnly line))
  else if SIEVE_AFTER_HEAR_MARK <:+: line then
    .ok (.afterHear (← parseControllerHearIdOnly line))
  else if SIEVE_BEFORE_RECONCILE_MARK <:+: line then
    .ok (.beforeReconcile (String.ofList (← parseReconcile line).reconcileFun))
  else if SIEVE_AFTER_RECONCILE_MARK <:+: line then
    .ok (.afterReconcile (String.ofList (← parseReconcile line).reconcileFun))
  else .ok .other

/-- Every assertion holds of the lines, and none of them fails to parse. -/
def SanityCheckPasses (lines : List Text) : Prop :=
  ∃ statuses, lines.mapM statusLine = .ok statuses ∧ sanityCheck statuses = .ok ()

end Sieve.Analyzer
