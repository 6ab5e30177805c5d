import Sieve.Library.FoldExcept
import Sieve.Library.LastWrites
import Sieve.Oracle.APILog
import Mathlib.Data.Char
import Mathlib.Data.List.AList
import Mathlib.Data.List.Lex

/-!
# Three passes over the API server's log

`generate_state` of `liveness_checker.py` reads the log from its end; `generate_history` of
`safety_checker.py` writes it down in order, and `apply_safety_checker` follows the watched objects in
what was written.

* `replayState`: the objects after the events, in order;
* `generateState_eq`: the end state is what the replay leaves;
* `scanHistory_shows`: the safety checker's state is that of the watched objects, all along;
* `passes_agree`: both, and when the checker is called.
-/

namespace Sieve.Oracle

open Sieve.Event Sieve.Library Sieve.Analyzer

/-! ### The end state -/

/-- `APIEventTypes.DELETED`. -/
def DELETED : Text := "DELETED".toList

/-- `end_state` and `deleted`. -/
structure StateScan where
  endState : AList fun _ : Text => Json
  deleted : Finset Text

def StateScan.event (scan : StateScan) (event : APIEvent) : StateScan :=
  if event.key ∈ scan.deleted ∨ event.key ∈ scan.endState then scan
  else if event.etype = DELETED then { scan with deleted := insert event.key scan.deleted }
  else { scan with endState := scan.endState.insert event.key event.objMap }

/-- The body of the loop. -/
def StateScan.line (loads : Text → Option Json) (scan : StateScan) (line : Text) :
    Except ParseError StateScan :=
  if isApiEventLine line then do
    let event ← parseApiEvent loads line
    .ok (scan.event event)
  else .ok scan

def generateState (loads : Text → Option Json) (log : Text) :
    Except ParseError (AList fun _ : Text => Json) := do
  let scan ← (readlines log).reverse.foldlM (StateScan.line loads) ⟨∅, ∅⟩
  .ok scan.endState

/-! ### The history -/

structure HistoryEvent where
  number : ℕ
  etype : Text
  key : Text
  state : Text

def addToHistory (history : List HistoryEvent) (event : APIEvent) : List HistoryEvent :=
  history ++ [⟨history.length, event.etype, event.key, event.objStr⟩]

def historyLine (loads : Text → Option Json) (history : List HistoryEvent) (line : Text) :
    Except ParseError (List HistoryEvent) :=
  if isApiEventLine line then do
    let event ← parseApiEvent loads line
    .ok (addToHistory history event)
  else .ok history

def generateHistory (loads : Text → Option Json) (log : Text) : Except ParseError (List HistoryEvent) :=
  (readlines log).foldlM (historyLine loads) []

/-! ### The safety checker -/

/-- `current_state`: the watched keys, each with the text of its object or `None`. -/
abbrev CurrentState := AList fun _ : Text => Option Text

def generateAlarm (subAlarm msg : Text) : Text := subAlarm ++ [' '] ++ msg

def safetyViolation (checkerName : Text) (number : ℕ) : Text :=
  generateAlarm "Safety violation:".toList ("checker ".toList ++ checkerName ++
    " failed on state ".toList ++ Nat.toDigits 10 number ++ " in history.json".toList)

/-- `messages` and `current_state`; `calls` are the calls of the customized checker so far, with the
number of the event and the state that it is given. -/
structure SafetyScan where
  messages : List Text
  currentState : CurrentState
  calls : List (ℕ × CurrentState)

variable (resourceKeys : List Text) (checkerName : Text) (customizedChecker : CurrentState → Bool)

def SafetyScan.start : SafetyScan :=
  ⟨[], resourceKeys.foldl (fun currentState key => currentState.insert key none) ∅, []⟩

/-- `existing_resource_cnt == len(current_state)`. -/
def allExist (currentState : CurrentState) : Bool :=
  (currentState.entries.countP fun entry => entry.2.isSome) == currentState.entries.length

/-- The body of the loop over the history. -/
def SafetyScan.event (scan : SafetyScan) (event : HistoryEvent) : SafetyScan :=
  if event.key ∈ resourceKeys then
    let currentState := scan.currentState.insert event.key
      (if event.etype = DELETED then none else some event.state)
    if allExist currentState then
      { currentState,
        calls := scan.calls ++ [(event.number, currentState)],
        messages := if customizedChecker currentState then scan.messages
          else scan.messages ++ [safetyViolation checkerName event.number] }
    else { scan with currentState }
  else scan

def scanHistory (history : List HistoryEvent) : SafetyScan :=
  history.foldl (SafetyScan.event resourceKeys checkerName customizedChecker) (.start resourceKeys)

def applySafetyChecker (history : List HistoryEvent) : List Text :=
  (scanHistory resourceKeys checkerName customizedChecker history).messages.mergeSort
    fun message message' => decide (message ≤ message')

/-! ### What the passes are for -/

/-- What an event leaves under its key. -/
def APIEvent.object (event : APIEvent) : Option Json :=
  if event.etype = DELETED then none else some event.objMap

/-- The objects after the events: a created or modified object is stored, a deleted one removed. -/
def replayState (events : List APIEvent) : Text → Option Json :=
  replay APIEvent.key APIEvent.object events

/-- The state has the watched keys, each with a text of its object, if there is one. -/
structure Shows (loads : Text → Option Json) (currentState : CurrentState)
    (objects : Text → Option Json) : Prop where
  mem_iff : ∀ key, key ∈ currentState ↔ key ∈ resourceKeys
  object : ∀ key ∈ resourceKeys, Option.Rel (fun text object => loads text = some object)
    (currentState.lookup key).join (objects key)

/-- The event is on a watched key, and afterwards all watched keys exist. -/
structure AllExistAfter (events : List APIEvent) (i : ℕ) : Prop where
  watched : ∃ event, events[i]? = some event ∧ event.key ∈ resourceKeys
  exist : ∀ key ∈ resourceKeys, (replayState (events.take (i + 1)) key).isSome

/-- What the safety checker has done after the events. -/
structure Follows (loads : Text → Option Json) (events : List APIEvent) (scan : SafetyScan) : Prop where
  shows : Shows resourceKeys loads scan.currentState (replayState events)
  called_iff : ∀ i, i ∈ scan.calls.map Prod.fst ↔ AllExistAfter resourceKeys events i
  once : (scan.calls.map Prod.fst).Pairwise (· < ·)
  called : ∀ call ∈ scan.calls, Shows resourceKeys loads call.2 (replayState (events.take (call.1 + 1)))
  messages : scan.messages = (scan.calls.filter fun call => !customizedChecker call.2).map
    fun call => safetyViolation checkerName call.1

/-! ### From the end -/

variable {loads : Text → Option Json} {log : Text} {events : List APIEvent}

theorem generateState_ok (hlog : apiEventList loads log = .ok events) :
    generateState loads log =
      .ok (events.reverse.foldl StateScan.event ⟨∅, ∅⟩).endState := by
  have hreverse : ((readlines log).reverse.filter isApiEventLine).mapM (parseApiEvent loads) =
      .ok events.reverse := by
    rw [List.filter_reverse]
    exact mapM_reverse_ok hlog
  have hfold := @foldlM_read_ok _ _ _ (StateScan.line loads) ⟨∅, ∅⟩ _ _ isApiEventLine
    (parseApiEvent loads) StateScan.event _
    (fun s x hx => by rw [StateScan.line, if_neg (by simp [hx])])
    (fun s x y hx hy => by rw [StateScan.line, if_pos hx, hy]; rfl) hreverse
  rw [generateState, hfold]
  rfl

theorem backScan_reverse (scanned : List APIEvent) :
    BackScan APIEvent.key APIEvent.object scanned
      (scanned.foldl StateScan.event ⟨∅, ∅⟩).endState.lookup
      (· ∈ (scanned.foldl StateScan.event ⟨∅, ∅⟩).deleted) := by
  induction scanned using List.reverseRecOn with
  | nil =>
    refine ⟨fun k => ?_, fun k => ?_⟩
    · rfl
    · simp
  | append_singleton scanned event ih =>
    rw [List.foldl_append]
    generalize scanned.foldl StateScan.event ⟨∅, ∅⟩ = scan at ih
    show BackScan _ _ _ (scan.event event).endState.lookup (· ∈ (scan.event event).deleted)
    refine ih.concat event (fun hsettled => ?_) fun hnew => ?_
    · rw [AList.lookup_isSome] at hsettled
      rw [StateScan.event, if_pos hsettled]
      exact ⟨rfl, fun _ => Iff.rfl⟩
    · rw [AList.lookup_isSome] at hnew
      rw [StateScan.event, if_neg hnew, APIEvent.object]
      rw [not_or, ← AList.lookup_eq_none] at hnew
      split
      · refine ⟨?_, fun k => by simp [or_comm]⟩
        rw [← hnew.2, Function.update_eq_self]
      · refine ⟨?_, fun k => by simp⟩
        funext k
        by_cases hkey : k = event.key
        · rw [hkey, AList.lookup_insert, Function.update_self]
        · rw [AList.lookup_insert_ne hkey, Function.update_of_ne hkey]

/-- **The end state is what a replay leaves.** -/
theorem generateState_eq (hlog : apiEventList loads log = .ok events) :
    ∃ endState, generateState loads log = .ok endState ∧ endState.lookup = replayState events :=
  ⟨_, generateState_ok hlog, (backScan_reverse events.reverse).eq_replay⟩

/-! ### Along the history -/

theorem length_history (events : List APIEvent) :
    (events.foldl addToHistory []).length = events.length := by
  induction events using List.reverseRecOn with
  | nil => rfl
  | append_singleton events event ih =>
    rw [List.foldl_append, List.foldl_cons, List.foldl_nil, addToHistory]
    simp [ih]

theorem history_concat (events : List APIEvent) (event : APIEvent) :
    (events ++ [event]).foldl addToHistory [] = events.foldl addToHistory [] ++
      [⟨events.length, event.etype, event.key, event.objStr⟩] := by
  rw [List.foldl_append, List.foldl_cons, List.foldl_nil, addToHistory, length_history]

theorem generateHistory_ok (hlog : apiEventList loads log = .ok events) :
    generateHistory loads log = .ok (events.foldl addToHistory []) :=
  foldlM_read_ok (fun s x hx => by rw [historyLine, if_neg (by simp [hx])])
    (fun s x y hx hy => by rw [historyLine, if_pos hx, hy]; rfl) hlog

/-- The text of an event is that of its object. -/
theorem loads_objStr (hlog : apiEventList loads log = .ok events) :
    ∀ event ∈ events, loads event.objStr = some event.objMap := by
  intro event hmem
  obtain ⟨line, -, hline⟩ := exists_of_mapM_ok hlog hmem
  rw [parseApiEvent] at hline
  simp only [bind_ok_iff] at hline
  obtain ⟨tokens, -, etype, -, originalKey, -, rtype, -, objNamespace, -, name, -, objStr, -, objMap,
    hloads, heq⟩ := hline
  rw [← Except.ok.inj heq]
  rw [jsonLoads] at hloads
  cases hvalue : loads objStr with
  | none =>
    rw [hvalue] at hloads
    cases hloads
  | some value =>
    rw [hvalue] at hloads
    rw [Except.ok.inj hloads]

section Scan

variable {resourceKeys : List Text} {checkerName : Text} {customizedChecker : CurrentState → Bool}
  {currentState : CurrentState} {objects : Text → Option Json}

theorem lookup_start (keys : List Text) (currentState : CurrentState) (key : Text) :
    (keys.foldl (fun currentState key => currentState.insert key none) currentState).lookup key =
      if key ∈ keys then some none else currentState.lookup key := by
  induction keys generalizing currentState with
  | nil => simp
  | cons first keys ih =>
    rw [List.foldl_cons, ih]
    by_cases hkey : key = first
    · rw [hkey, AList.lookup_insert]
      simp
    · rw [AList.lookup_insert_ne hkey]
      simp [hkey]

theorem Shows.start : Shows resourceKeys loads (SafetyScan.start resourceKeys).currentState
    fun _ => none := by
  refine ⟨fun key => ?_, fun key hkey => ?_⟩
  · rw [← AList.lookup_isSome, SafetyScan.start, lookup_start]
    by_cases hkey : key ∈ resourceKeys
    · simp [hkey]
    · simp [hkey]
  · rw [SafetyScan.start, lookup_start, if_pos hkey]
    exact .none

/-- An event on a watched key. -/
theorem Shows.insert (h : Shows resourceKeys loads currentState objects) {key : Text}
    (hkey : key ∈ resourceKeys) {text : Option Text} {object : Option Json}
    (hobject : Option.Rel (fun text object => loads text = some object) text object) :
    Shows resourceKeys loads (currentState.insert key text) (Function.update objects key object) := by
  refine ⟨fun key' => ?_, fun key' hkey' => ?_⟩
  · rw [AList.mem_insert, h.mem_iff]
    constructor
    · rintro (rfl | hmem)
      · exact hkey
      · exact hmem
    · exact Or.inr
  · by_cases heq : key' = key
    · rw [heq, AList.lookup_insert, Function.update_self]
      exact hobject
    · rw [AList.lookup_insert_ne heq, Function.update_of_ne heq]
      exact h.object key' hkey'

/-- An event on another key. -/
theorem Shows.other (h : Shows resourceKeys loads currentState objects) {key : Text}
    (hkey : key ∉ resourceKeys) (object : Option Json) :
    Shows resourceKeys loads currentState (Function.update objects key object) := by
  refine ⟨h.mem_iff, fun key' hkey' => ?_⟩
  have hne : key' ≠ key := fun heq => hkey (heq ▸ hkey')
  rw [Function.update_of_ne hne]
  exact h.object key' hkey'

/-- **When the checker is called**: all watched objects exist. -/
theorem Shows.allExist_iff (h : Shows resourceKeys loads currentState objects) :
    allExist currentState = true ↔ ∀ key ∈ resourceKeys, (objects key).isSome := by
  have hkey : ∀ key ∈ resourceKeys, ((currentState.lookup key).join.isSome ↔ (objects key).isSome) := by
    intro key hmem
    have hrel := h.object key hmem
    generalize (currentState.lookup key).join = text at hrel ⊢
    generalize objects key = object at hrel ⊢
    cases hrel <;> simp
  rw [allExist, beq_iff_eq, List.countP_eq_length]
  constructor
  · intro hall key hmem
    obtain ⟨text, htext⟩ := Option.isSome_iff_exists.mp
      (AList.lookup_isSome.mpr ((h.mem_iff key).mpr hmem))
    rw [← hkey key hmem, htext]
    exact hall ⟨key, text⟩ (AList.mem_lookup_iff.mp htext)
  · intro hall entry hentry
    have hlookup : currentState.lookup entry.1 = some entry.2 := AList.mem_lookup_iff.mpr hentry
    have hmem := (h.mem_iff entry.1).mp (AList.lookup_isSome.mp (by rw [hlookup]; rfl))
    have hsome := (hkey entry.1 hmem).mpr (hall entry.1 hmem)
    rw [hlookup] at hsome
    exact hsome

/-! ### One event and a whole run -/

theorem AllExistAfter.lt {i : ℕ} (h : AllExistAfter resourceKeys events i) : i < events.length := by
  obtain ⟨event, hevent, -⟩ := h.watched
  exact (List.getElem?_eq_some_iff.mp hevent).1

theorem allExistAfter_concat (event : APIEvent) (i : ℕ) :
    AllExistAfter resourceKeys (events ++ [event]) i ↔ AllExistAfter resourceKeys events i ∨
      i = events.length ∧ event.key ∈ resourceKeys ∧
        ∀ key ∈ resourceKeys, (replayState (events ++ [event]) key).isSome := by
  rcases Nat.lt_trichotomy i events.length with hlt | rfl | hgt
  · have htake : (events ++ [event]).take (i + 1) = events.take (i + 1) :=
      List.take_append_of_le_length (by omega)
    constructor
    · intro h
      obtain ⟨watched, hwatched, hkey⟩ := h.watched
      rw [List.getElem?_append_left hlt] at hwatched
      exact .inl ⟨⟨watched, hwatched, hkey⟩, htake ▸ h.exist⟩
    · rintro (h | h)
      · obtain ⟨watched, hwatched, hkey⟩ := h.watched
        refine ⟨⟨watched, ?_, hkey⟩, htake ▸ h.exist⟩
        rw [List.getElem?_append_left hlt]
        exact hwatched
      · omega
  · have htake : (events ++ [event]).take (events.length + 1) = events ++ [event] :=
      List.take_of_length_le (by simp)
    constructor
    · intro h
      obtain ⟨watched, hwatched, hkey⟩ := h.watched
      rw [List.getElem?_concat_length] at hwatched
      obtain rfl := Option.some.inj hwatched
      exact .inr ⟨rfl, hkey, htake ▸ h.exist⟩
    · rintro (h | ⟨-, hkey, hexist⟩)
      · exact absurd h.lt (Nat.lt_irrefl _)
      · exact ⟨⟨event, List.getElem?_concat_length, hkey⟩, htake.symm ▸ hexist⟩
  · constructor
    · intro h
      have hlt := h.lt
      rw [List.length_append, List.length_singleton] at hlt
      omega
    · rintro (h | h)
      · have hlt := h.lt
        omega
      · omega

/-- What has been called stays as it is after another event. -/
theorem Follows.called_concat {scan : SafetyScan}
    (h : Follows resourceKeys checkerName customizedChecker loads events scan) (event : APIEvent) :
    ∀ call ∈ scan.calls, Shows resourceKeys loads call.2
      (replayState ((events ++ [event]).take (call.1 + 1))) := by
  intro call hmem
  have hlt := ((h.called_iff call.1).mp (List.mem_map.mpr ⟨call, hmem, rfl⟩)).lt
  rw [List.take_append_of_le_length (by omega)]
  exact h.called call hmem

/-- **One event.** -/
theorem Follows.concat {scan : SafetyScan}
    (h : Follows resourceKeys checkerName customizedChecker loads events scan) {event : APIEvent}
    (hloads : loads event.objStr = some event.objMap) :
    Follows resourceKeys checkerName customizedChecker loads (events ++ [event])
      (scan.event resourceKeys checkerName customizedChecker
        ⟨events.length, event.etype, event.key, event.objStr⟩) := by
  have hreplay : replayState (events ++ [event]) =
      Function.update (replayState events) event.key event.object := replay_concat _ _ _ _
  rw [SafetyScan.event]
  by_cases hkey : event.key ∈ resourceKeys
  · have hobject : Option.Rel (fun text object => loads text = some object)
        (if event.etype = DELETED then none else some event.objStr) event.object := by
      rw [APIEvent.object]
      split
      · exact .none
      · exact .some hloads
    have hshows := h.shows.insert hkey hobject
    rw [← hreplay] at hshows
    simp only [if_pos hkey]
    by_cases hall : allExist (scan.currentState.insert event.key
        (if event.etype = DELETED then none else some event.objStr)) = true
    · have hexist := hshows.allExist_iff.mp hall
      rw [if_pos hall]
      refine ⟨hshows, fun i => ?_, ?_, ?_, ?_⟩
      · rw [List.map_append, List.mem_append, h.called_iff, allExistAfter_concat,
          and_iff_left ⟨hkey, hexist⟩]
        simp
      · rw [List.map_append, List.pairwise_append]
        refine ⟨h.once, by simp, fun i hi j hj => ?_⟩
        rw [List.map_singleton, List.mem_singleton] at hj
        rw [hj]
        exact ((h.called_iff i).mp hi).lt
      · intro call hmem
        rcases List.mem_append.mp hmem with hold | hnew
        · exact h.called_concat event call hold
        · rw [List.mem_singleton.mp hnew, List.take_of_length_le (by simp)]
          exact hshows
      · rw [List.filter_append, List.map_append, ← h.messages, List.filter_singleton]
        cases customizedChecker (scan.currentState.insert event.key
          (if event.etype = DELETED then none else some event.objStr)) <;> simp
    · have hmissing : ¬ ∀ key ∈ resourceKeys, (replayState (events ++ [event]) key).isSome :=
        fun hexist => hall (hshows.allExist_iff.mpr hexist)
      rw [if_neg hall]
      refine ⟨hshows, fun i => ?_, h.once, h.called_concat event, h.messages⟩
      rw [h.called_iff, allExistAfter_concat]
      simp [hmissing]
  · rw [if_neg hkey]
    refine ⟨?_, fun i => ?_, h.once, h.called_concat event, h.messages⟩
    · rw [hreplay]
      exact h.shows.other hkey event.object
    · rw [h.called_iff, allExistAfter_concat]
      simp [hkey]

/-- **The safety checker follows the watched objects.** -/
theorem scanHistory_follows (hloads : ∀ event ∈ events, loads event.objStr = some event.objMap) :
    Follows resourceKeys checkerName customizedChecker loads events
      (scanHistory resourceKeys checkerName customizedChecker (events.foldl addToHistory [])) := by
  induction events using List.reverseRecOn with
  | nil =>
    refine ⟨Shows.start, fun i => ?_, .nil, nofun, rfl⟩
    refine iff_of_false (by simp [scanHistory, SafetyScan.start]) fun h => ?_
    exact absurd h.lt (Nat.not_lt_zero i)
  | append_singleton events event ih =>
    rw [history_concat, scanHistory, List.foldl_append]
    exact (ih fun event hmem => hloads event (List.mem_append_left _ hmem)).concat
      (hloads event (by simp))

end Scan

/-- **The three passes agree.**  The end state is what the replay of the events leaves; the safety
checker's state has the watched keys with the same objects, and the customized checker has been called
exactly after the events on a watched key after which all watched keys existed, with what they were. -/
theorem passes_agree (loads : Text → Option Json) (log : Text) (events : List APIEvent)
    (hlog : apiEventList loads log = .ok events) :
    ∃ endState history, generateState loads log = .ok endState ∧
      generateHistory loads log = .ok history ∧ endState.lookup = replayState events ∧
      ∀ resourceKeys checkerName customizedChecker,
        Shows resourceKeys loads
          (scanHistory resourceKeys checkerName customizedChecker history).currentState
          endState.lookup ∧
        Follows resourceKeys checkerName customizedChecker loads events
          (scanHistory resourceKeys checkerName customizedChecker history) := by
  obtain ⟨endState, hstate, hreplay⟩ := generateState_eq hlog
  refine ⟨endState, _, hstate, generateHistory_ok hlog, hreplay, ?_⟩
  intro resourceKeys checkerName customizedChecker
  have hfollows := @scanHistory_follows loads events resourceKeys checkerName customizedChecker
    (loads_objStr hlog)
  rw [hreplay]
  exact ⟨hfollows.shows, hfollows⟩

/-- A volume that is made, deleted and made again, and a pod between. -/
def volumeLog : Text :=
  "[SIEVE-API-EVENT]\tADDED\tk\tpvc\tdefault\tv\ta\n".toList ++
    "[SIEVE-API-EVENT]\tDELETED\tk\tpvc\tdefault\tv\ta\n".toList ++
    "[SIEVE-API-EVENT]\tADDED\tk\tpod\tdefault\tw\tb\n".toList ++
    "[SIEVE-API-EVENT]\tADDED\tk\tpvc\tdefault\tv\tc\n".toList

def volumeEvent (etype rtype name objStr : String) : APIEvent :=
  ⟨etype.toList, "k".toList, (rtype ++ "/default/" ++ name).toList, rtype.toList, "default".toList,
    name.toList, objStr.toList, .str objStr⟩

def volumeEvents : List APIEvent :=
  [volumeEvent "ADDED" "pvc" "v" "a", volumeEvent "DELETED" "pvc" "v" "a",
    volumeEvent "ADDED" "pod" "w" "b", volumeEvent "ADDED" "pvc" "v" "c"]

/-- A checker that watches both objects is called after the last event only. -/
example : (scanHistory ["pvc/default/v".toList, "pod/default/w".toList] [] (fun _ => true)
    (volumeEvents.foldl addToHistory [])).calls.map Prod.fst = [3] := by
  decide

/-- The three passes over this log. -/
theorem passes_agree_volume : ∃ endState history,
    generateState (fun text => some (.str (String.ofList text))) volumeLog = .ok endState ∧
      generateHistory (fun text => some (.str (String.ofList text))) volumeLog = .ok history ∧
      endState.lookup = replayState volumeEvents ∧
      ∀ resourceKeys checkerName customizedChecker,
        Shows resourceKeys (fun text => some (.str (String.ofList text)))
          (scanHistory resourceKeys checkerName customizedChecker history).currentState
          endState.lookup ∧
        Follows resourceKeys checkerName customizedChecker
          (fun text => some (.str (String.ofList text))) volumeEvents
          (scanHistory resourceKeys checkerName customizedChecker history) :=
  passes_agree _ volumeLog volumeEvents rfl

end Sieve.Oracle
