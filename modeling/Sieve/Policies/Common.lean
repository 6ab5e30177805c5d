import Sieve.Analyzer.K8sEvent

/-!
# What the perturbation policies share

`common.py` of the policies: which events make good triggers.
-/

namespace Sieve.Policies

open Sieve.Event Sieve.Analyzer

/-- The parts of the test context that the policies look at; `endState` is the decoded
`state.json`. -/
structure TestContext where
  causalityPruningEnabled : Bool
  effectiveUpdatesPruningEnabled : Bool
  nondeterministicPruningEnabled : Bool
  endState : String → Option Json

/-- Python's `==` on optional dicts. -/
def sameDiff : Option Fields → Option Fields → Bool
  | none, none => true
  | some a, some b => (Json.obj a).equal python.scalarEqual (.obj b)
  | _, _ => false

/-- `extract_generate_name`, where the name is a text. -/
def extractGenerateName (obj : Fields) : Option String :=
  let generateName (fields : Fields) : Option String :=
    match fields.lookup "generateName" with
    | some (.str s) => some s
    | _ => none
  match obj.lookup "metadata" with
  | some (.obj metadata) => generateName metadata
  | some _ => none
  | none => generateName obj

def isGeneratedRandomName (name generateName : String) : Bool :=
  generateName.toList.isPrefixOf name.toList && name.length == generateName.length + 5

def nondeterministicKey (testContext : TestContext) (key name : String) (objMap : Fields) : Bool :=
  match testContext.endState key with
  | none =>
    match extractGenerateName objMap with
    | some generateName => isGeneratedRandomName name generateName
    | none => false
  | some value => value.equal python.scalarEqual (.str "SIEVE-IGNORE")

/-- The three asserts of `event_diff_validation_check`. -/
def eventDiffValidationCheck (prevEtype : Option HearType) (curEtype : HearType) :
    Except AnalysisError Unit :=
  if prevEtype == some curEtype && curEtype.isCreationOrDeletion then .error .assertion
  else if prevEtype == some .deleted && curEtype != .added && curEtype != .updated then
    .error .assertion
  else if prevEtype != none && prevEtype != some .deleted && curEtype == .added then
    .error .assertion
  else .ok ()

/-- `detectable_event_diff` for an event received. -/
def detectableHearDiff (diffPrevObj diffCurObj : Option Fields) (prevEtype : Option HearType)
    (curEtype : HearType) (signatureCounter : ℕ) : Except AnalysisError Bool :=
  if signatureCounter > 3 then .ok false
  else do
    eventDiffValidationCheck prevEtype curEtype
    if prevEtype == none && curEtype != .added then .ok false
    else if curEtype == .replaced || curEtype == .sync then .ok false
    else if sameDiff diffPrevObj diffCurObj && curEtype == .updated then .ok false
    else .ok true

def hasStatus (diff : Fields) : Bool := (diff.lookup "status").isSome

/-- A status write whose difference says nothing about the status. -/
def missesStatus (diffPrevObj diffCurObj : Option Fields) (etype : WriteType) : Bool :=
  diffPrevObj.any (fun diff => !hasStatus diff) && diffCurObj.any (fun diff => !hasStatus diff) &&
    (etype == .statusUpdate || etype == .statusPatch)

/-- `detectable_event_diff` for a write; all six types of writes are detectable. -/
def detectableWriteDiff (diffPrevObj diffCurObj : Option Fields) (curEtype : WriteType)
    (signatureCounter : ℕ) : Bool :=
  if signatureCounter > 3 then false
  else if sameDiff diffPrevObj diffCurObj && !curEtype.isCreationOrDeletion then false
  else !missesStatus diffPrevObj diffCurObj curEtype

end Sieve.Policies
