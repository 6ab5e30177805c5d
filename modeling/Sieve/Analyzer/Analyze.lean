import Sieve.Analyzer.K8sEvent

/-!
# From the learner's log to the reconcilers' events

`parse_reconciler_events` of `analyze.py`, on decoded lines.  The dicts are functions; the ongoing
reconciles are a set, since the assertion refuses a second worker.
-/

namespace Sieve.Analyzer

/-- The settings that are looked at. -/
structure ReconcilerConfig where
  compressTrivialReconcileEnabled : Bool
  loosenReconcilerBoundary : Bool

/-- A line of the log, by its mark. -/
inductive LogLine where
  | beforeRestWrite (id : ℤ)
  | afterRestWrite (write : ControllerWrite)
  | beforeAnnotatedAPIInvocation (id : ℤ)
  | afterAnnotatedAPIInvocation (call : ControllerNonK8sWrite)
  | afterRestRead (read : ControllerRead)
  | afterCacheRead (read : ControllerRead)
  | beforeReconcile (reconcileFun : String) (reconcileId : ℤ)
  | afterReconcile (reconcileFun : String) (reconcileId : ℤ)
  | other

/-- The variables of the loop. -/
structure ParseState where
  writeStartTimestampMap : ℤ → Option ℕ
  nkWriteStartTimestampMap : ℤ → Option ℕ
  readTypesThisReconcile : Finset String
  readKeysThisReconcile : Finset String
  prevReconcilePerType : String → Option ReconcileMark
  curReconcilePerType : String → Option ReconcileMark
  /-- Of the reconcilers that have begun. -/
  curReconcileIsTrivial : String → Bool
  tsToEventMap : ℕ → Option ReconcilerEvent
  ongoingReconciles : Finset String

namespace ParseState

def init : ParseState :=
  ⟨fun _ => none, fun _ => none, ∅, ∅, fun _ => none, fun _ => none, fun _ => false, fun _ => none,
    ∅⟩

def addEvent (st : ParseState) (timestamp : ℕ) (event : ReconcilerEvent) : ParseState :=
  { st with tsToEventMap := Function.update st.tsToEventMap timestamp (some event) }

/-- Where the range of a write begins: at the round before the current one. -/
def earliestTimestamp (st : ParseState) (reconcileFun : String) : ℤ :=
  match st.prevReconcilePerType reconcileFun with
  | some prevReconcile => prevReconcile.endTimestamp
  | none => -1

end ParseState

def parseAfterRestWrite (config : ReconcilerConfig) (i : ℕ) (st : ParseState)
    (write : ControllerWrite) : Except AnalysisError ParseState :=
  let st := { st with curReconcileIsTrivial := fun _ => false }
  let cur := st.curReconcilePerType write.reconcileFun
  if cur.isNone && !config.loosenReconcilerBoundary then .ok st
  else
    match st.writeStartTimestampMap write.id with
    | none => .error .keyError
    | some start =>
      let write := { write with
        readKeys := st.readKeysThisReconcile
        readTypes := st.readTypesThisReconcile
        startTimestamp := start
        endTimestamp := i }
      match cur with
      | none => .ok (st.addEvent start (.write write))
      | some cur => do
        let write ← write.setRange (st.earliestTimestamp write.reconcileFun) i
        .ok (st.addEvent start (.write { write with reconcileId := cur.reconcileId }))

/-- An annotated API call in a round has no `set_range`. -/
def parseAfterAnnotatedAPIInvocation (config : ReconcilerConfig) (i : ℕ) (st : ParseState)
    (call : ControllerNonK8sWrite) : Except AnalysisError ParseState :=
  let st := { st with curReconcileIsTrivial := fun _ => false }
  let cur := st.curReconcilePerType call.reconcileFun
  if cur.isNone && !config.loosenReconcilerBoundary then .ok st
  else
    match st.nkWriteStartTimestampMap call.id with
    | none => .error .keyError
    | some start =>
      match cur with
      | none => .ok (st.addEvent start
          (.nonK8sWrite { call with startTimestamp := start, endTimestamp := i }))
      | some _ => .error .attributeError

def parseAfterRestRead (i : ℕ) (st : ParseState) (read : ControllerRead) : ParseState :=
  match st.curReconcilePerType read.reconcileFun with
  | none => st
  | some cur =>
    st.addEvent i (.read { read with endTimestamp := i, reconcileId := cur.reconcileId })

def parseAfterCacheRead (i : ℕ) (st : ParseState) (read : ControllerRead) : ParseState :=
  match st.curReconcilePerType read.reconcileFun with
  | none => st
  | some cur =>
    let st := st.addEvent i (.read { read with endTimestamp := i, reconcileId := cur.reconcileId })
    match read.etype with
    | .get => { st with readKeysThisReconcile := st.readKeysThisReconcile ∪ read.keySet }
    | .list => { st with readTypesThisReconcile := insert read.rtype st.readTypesThisReconcile }

/-- A round begins.  With compression it belongs to the current one when nothing has been written
since that began. -/
def parseBeforeReconcile (config : ReconcilerConfig) (i : ℕ) (st : ParseState)
    (reconcileFun : String) (reconcileId : ℤ) : Except AnalysisError ParseState :=
  if reconcileFun ∈ st.ongoingReconciles then .error .assertion
  else
    let mark : ReconcileMark := ⟨reconcileFun, reconcileId, i⟩
    let st := { st.addEvent i (.reconcileBegin mark) with
      ongoingReconciles := insert reconcileFun st.ongoingReconciles }
    let cur := st.curReconcilePerType reconcileFun
    let st :=
      if cur.isNone || !config.compressTrivialReconcileEnabled ||
          !st.curReconcileIsTrivial reconcileFun then
        { st with
          prevReconcilePerType := Function.update st.prevReconcilePerType reconcileFun cur
          curReconcilePerType := Function.update st.curReconcilePerType reconcileFun (some mark) }
      else st
    .ok { st with
      curReconcileIsTrivial := Function.update st.curReconcileIsTrivial reconcileFun true }

def parseAfterReconcile (i : ℕ) (st : ParseState) (reconcileFun : String) (reconcileId : ℤ) :
    Except AnalysisError ParseState :=
  if reconcileFun ∈ st.ongoingReconciles then
    let st := { st.addEvent i (.reconcileEnd ⟨reconcileFun, reconcileId, i⟩) with
      ongoingReconciles := st.ongoingReconciles.erase reconcileFun }
    .ok (if st.ongoingReconciles = ∅ then
        { st with readKeysThisReconcile := ∅, readTypesThisReconcile := ∅ }
      else st)
  else .error .keyError

/-- The loop body, for the line with number `i`. -/
def parseLine (config : ReconcilerConfig) (i : ℕ) (st : ParseState) :
    LogLine → Except AnalysisError ParseState
  | .beforeRestWrite id =>
    .ok { st with writeStartTimestampMap := Function.update st.writeStartTimestampMap id (some i) }
  | .afterRestWrite write => parseAfterRestWrite config i st write
  | .beforeAnnotatedAPIInvocation id => .ok { st with
      nkWriteStartTimestampMap := Function.update st.nkWriteStartTimestampMap id (some i) }
  | .afterAnnotatedAPIInvocation call => parseAfterAnnotatedAPIInvocation config i st call
  | .afterRestRead read => .ok (parseAfterRestRead i st read)
  | .afterCacheRead read => .ok (parseAfterCacheRead i st read)
  | .beforeReconcile reconcileFun reconcileId =>
    parseBeforeReconcile config i st reconcileFun reconcileId
  | .afterReconcile reconcileFun reconcileId => parseAfterReconcile i st reconcileFun reconcileId
  | .other => .ok st

def parseLines (config : ReconcilerConfig) :
    ℕ → ParseState → List LogLine → Except AnalysisError ParseState
  | _, st, [] => .ok st
  | i, st, line :: lines => do
    let st ← parseLine config i st line
    parseLines config (i + 1) st lines

/-- `parse_reconciler_events`: the events by their timestamps. -/
def parseReconcilerEvents (config : ReconcilerConfig) (lines : List LogLine) :
    Except AnalysisError (List ReconcilerEvent) := do
  let st ← parseLines config 0 .init lines
  .ok ((List.range lines.length).filterMap st.tsToEventMap)

end Sieve.Analyzer
