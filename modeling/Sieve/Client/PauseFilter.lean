import Sieve.Client.TestClient
import Sieve.Server.PausePlan

/-!
# What the client asks and what the coordinator would hold

The client asks for a pause only where an action of the plan names the object, or an object of the
listed type.  The coordinator holds every operation while "all" is paused:

* `notifyPause`: the filter for each operation;
* `Blocks`: the coordinator would hold the operation;
* `Names`: an action that pauses has the operation in its scope, by name;
* `filter_sends_iff`: the client asks for what the coordinator would hold, unless only "all" covers it.
-/

namespace Sieve.Client

open Sieve.Library
open Sieve.Server
open Relation (ReflTransGen)

/-- The filter for the operation. -/
def notifyPause (config : TestConfig) (writeType : String) : Operation → Bool → List Request
  | .get resourceKey, true => notifyTestBeforeCacheGetPause config resourceKey
  | .get resourceKey, false => notifyTestAfterCacheGetPause config resourceKey
  | .list resourceType, true => notifyTestBeforeCacheListPause config resourceType
  | .list resourceType, false => notifyTestAfterCacheListPause config resourceType
  | .write resourceKey, true => notifyTestBeforeControllerWritePause config writeType resourceKey
  | .write resourceKey, false => notifyTestAfterControllerWritePause config writeType resourceKey

/-- The pause request of the operation. -/
def pauseRequest (writeType : String) : Operation → Bool → Request
  | .get resourceKey, before => .readPause before "Get" resourceKey ""
  | .list resourceType, before => .readPause before "List" "" resourceType
  | .write resourceKey, before => .writePause before writeType resourceKey

/-- The handler of the pause request would wait: it finds a paused scope, and its channel is open. -/
def Blocks (s : ControllerState) (operation : Operation) (before : Bool) : Prop :=
  ∃ scopes scope, ScopesWithin s.pauses (operation.pauseAt before) scopes ∧
    scopeOf s.pauses scopes operation before = some scope ∧
    (s.pauses (operation.pauseAt before, scope)).pausingCh = some .opened

/-- The scope is the key of the operation, or starts with the listed type. -/
def MatchesScope (scope : String) : Operation → Prop
  | .get resourceKey => resourceKey = scope
  | .list resourceType => hasPrefix scope resourceType = true
  | .write resourceKey => resourceKey = scope

/-- Some `pauseController` action of the plan has a `pauseScope` that matches. -/
def Names (plan : List RawAction) (operation : Operation) : Prop :=
  ∃ action ∈ plan, action.fields "actionType" = some (.str "pauseController") ∧
    ∃ scope, action.fields "pauseScope" = some (.str scope) ∧ MatchesScope scope operation

/-! ### The filter -/

/-- What the filter looks up, and whether the start of a scope will do. -/
def filterKey : Operation → String × Bool
  | .get resourceKey => (resourceKey, false)
  | .list resourceType => (resourceType, true)
  | .write resourceKey => (resourceKey, false)

/-- The six filters differ in what they look up only. -/
theorem notifyPause_eq (config : TestConfig) (writeType : String) (operation : Operation)
    (before : Bool) :
    notifyPause config writeType operation before =
      requestPause config (filterKey operation).1 (filterKey operation).2 (operation.pauseAt true)
        (operation.pauseAt false) (pauseRequest writeType operation before) := by
  cases operation <;> cases before <;> rfl

theorem matchesScope_iff {scope : String} {operation : Operation} :
    MatchesScope scope operation ↔ (filterKey operation).1 = scope ∨
      (filterKey operation).2 = true ∧ hasPrefix scope (filterKey operation).1 = true := by
  cases operation with
  | get => simp [MatchesScope, filterKey]
  | write => simp [MatchesScope, filterKey]
  | list resourceType =>
    refine ⟨fun h => .inr ⟨rfl, h⟩, fun h => ?_⟩
    obtain rfl | ⟨_, h⟩ := h
    · simp [MatchesScope, filterKey, hasPrefix]
    · exact h

variable {plan : List RawAction} {operation : Operation}

/-- **What the filter asks for**: operations that the plan names, in plans that pause around reads, or
around writes. -/
theorem notifyPause_sends_iff (hplan : Typed plan) {writeType : String} {before : Bool} :
    notifyPause (loadTestPlan .empty plan) writeType operation before =
        [pauseRequest writeType operation before] ↔
      Names plan operation ∧ ∃ action ∈ plan,
        action.fields "actionType" = some (.str "pauseController") ∧
          ∃ point, action.fields "pauseAt" = some (.str (operation.pauseAt point)) := by
  have hsends : ∀ (selected : Bool) (request : Request),
      (if selected then [request] else []) = [request] ↔ selected = true := by
    intro selected request
    cases selected <;> simp
  rw [notifyPause_eq, requestPause, hsends, selectsPause, Bool.and_eq_true, Bool.or_eq_true]
  simp only [checkKVPairInAction_iff hplan, ← matchesScope_iff]
  refine and_congr Iff.rfl ⟨fun h => ?_, fun ⟨action, hmem, htype, point, hpoint⟩ => ?_⟩
  · obtain ⟨action, hmem, htype, _, hpoint, rfl | ⟨hfalse, _⟩⟩ |
      ⟨action, hmem, htype, _, hpoint, rfl | ⟨hfalse, _⟩⟩ := h
    · exact ⟨action, hmem, htype, true, hpoint⟩
    · cases hfalse
    · exact ⟨action, hmem, htype, false, hpoint⟩
    · cases hfalse
  · cases point with
    | true => exact .inl ⟨action, hmem, htype, _, hpoint, .inl rfl⟩
    | false => exact .inr ⟨action, hmem, htype, _, hpoint, .inl rfl⟩

/-! ### The filter and the coordinator -/

/-- A scope that covers the operation, other than "all", matches it. -/
theorem matchesScope_of_covered {scope : String} (hcovered : operation.CoveredBy scope)
    (hne : scope ≠ "all") : MatchesScope scope operation := by
  obtain rfl | hcovered := hcovered
  · exact absurd rfl hne
  · cases operation with
    | get => exact hcovered.symm
    | write => exact hcovered.symm
    | list resourceType =>
      replace hcovered : ofType resourceType scope = true := hcovered
      rw [ofType, List.isPrefixOf_iff_prefix, String.toList_append] at hcovered
      show hasPrefix scope resourceType = true
      rw [hasPrefix, List.isPrefixOf_iff_prefix]
      exact (List.prefix_append _ _).trans hcovered

/-- While "all" is paused, every operation waits for it. -/
theorem scopeOf_all {pauses : Pauses} {before : Bool} (scopes : List String)
    (hall : (pauses (operation.pauseAt before, "all")).paused = true) :
    scopeOf pauses scopes operation before = some "all" := by
  cases operation <;>
    exact if_pos hall

/-- **The client asks for every pause that the coordinator would make**, in any run of the plan, if and
only if the plan names the operation whenever "all" would hold it. -/
theorem filter_sends_iff {actions : List PauseAction} (hplan : parseTestPlan plan = some actions)
    {s : ControllerState} (hrun : ReflTransGen (Unlabelled ControllerRuns) (.start actions) s)
    (writeType : String) (before : Bool) :
    (Blocks s operation before →
        notifyPause (loadTestPlan .empty plan) writeType operation before =
          [pauseRequest writeType operation before]) ↔
      ((s.pauses (operation.pauseAt before, "all")).paused = true →
        (s.pauses (operation.pauseAt before, "all")).pausingCh = some .opened →
          Names plan operation) := by
  obtain ⟨htyped, hparsed⟩ := parseTestPlan_some hplan
  obtain ⟨_, hpaused, hranges⟩ := paused_by_plan actions s hrun
  rw [notifyPause_sends_iff htyped]
  constructor
  · intro hsends hall hopened
    obtain ⟨scopes, hscopes⟩ := hranges (operation.pauseAt before)
    exact (hsends ⟨scopes, "all", hscopes, scopeOf_all scopes hall, hopened⟩).1
  · intro hnames ⟨scopes, scope, _, hscope, hopened⟩
    obtain ⟨hcovered, hscopePaused⟩ := scopeOf_some hscope
    obtain ⟨_, _, hmem⟩ := hpaused _ _ hscopePaused
    obtain ⟨action, haction, hfields⟩ := hparsed _ hmem
    obtain ⟨htype, hpoint, hown⟩ := parseActionFields_pauseController hfields
    refine ⟨?_, action, haction, htype, before, hpoint⟩
    by_cases hall : scope = "all"
    · rw [hall] at hscopePaused hopened
      exact hnames hscopePaused hopened
    · obtain hown | hdefault := hown
      · exact ⟨action, haction, htype, scope, hown, matchesScope_of_covered hcovered hall⟩
      · exact absurd hdefault hall

/-! ### A plan without a scope -/

/-- Pauses all reads: `pauseScope` is left out. -/
def pauseAllReads : RawAction where
  fields key :=
    if key = "actionType" then some (.str "pauseController")
    else if key = "pauseAt" then some (.str "beforeControllerRead")
    else none
  definitions := []

/-- The run in which the plan's only action has been executed. -/
theorem pauseAllReads_run :
    ∃ actions s, parseTestPlan [pauseAllReads] = some actions ∧
      ReflTransGen (Unlabelled ControllerRuns) (.start actions) s ∧
      s.pauses = Function.update (fun _ => .absent) (beforeControllerRead, "all")
        ⟨some true, some .opened⟩ :=
  ⟨_, _, rfl, .single ⟨.act, rfl, .pause rfl rfl⟩, rfl⟩

theorem filter_sends_iff_pauseAllReads :
    ∃ actions s, parseTestPlan [pauseAllReads] = some actions ∧
      ReflTransGen (Unlabelled ControllerRuns) (.start actions) s ∧
      ((Blocks s (.get "pod/default/a") true →
          notifyPause (loadTestPlan .empty [pauseAllReads]) "" (.get "pod/default/a") true =
            [pauseRequest "" (.get "pod/default/a") true]) ↔
        ((s.pauses (beforeControllerRead, "all")).paused = true →
          (s.pauses (beforeControllerRead, "all")).pausingCh = some .opened →
            Names [pauseAllReads] (.get "pod/default/a"))) := by
  obtain ⟨actions, s, hplan, hrun, _⟩ := pauseAllReads_run
  exact ⟨actions, s, hplan, hrun, filter_sends_iff hplan hrun "" true⟩

/-- The coordinator would hold every read, and the client asks for none. -/
theorem pauseAllReads_not_sent :
    ∃ actions s, parseTestPlan [pauseAllReads] = some actions ∧
      ReflTransGen (Unlabelled ControllerRuns) (.start actions) s ∧
      Blocks s (.get "pod/default/a") true ∧
      notifyPause (loadTestPlan .empty [pauseAllReads]) "" (.get "pod/default/a") true = [] := by
  obtain ⟨actions, s, hplan, hrun, hpauses⟩ := pauseAllReads_run
  refine ⟨actions, s, hplan, hrun, ⟨["all"], "all", fun scope hscope => ?_, ?_, ?_⟩, by decide⟩
  · by_contra hne
    rw [hpauses, Function.update_of_ne] at hscope
    · exact hscope rfl
    · exact fun heq => hne (List.mem_singleton.mpr (Prod.mk.inj heq).2)
  · rw [hpauses]
    rfl
  · rw [hpauses]
    rfl

end Sieve.Client
