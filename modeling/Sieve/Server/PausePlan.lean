import Sieve.Client.Common
import Sieve.Server.ControllerPauses

/-!
# The pauses of a test plan

The rest of `parseAction` of `test_plan.go`, after the trigger, as far as the controller's pauses are
concerned:

* `parseActionFields`, `parseTestPlan`: the actions of a plan, or `none` where a conversion panics;
* `parseActionFields_pauseController`: what the plan says of an action that pauses;
* `paused_by_plan`: in every run, what is paused is paused by an action of the plan.
-/

namespace Sieve.Server

open Sieve.Client (Yaml YamlMap RawAction Typed)
open Sieve.Library
open Relation (ReflTransGen)

variable (raw : YamlMap)

def parseStr (key : String) : Option String :=
  match raw key with
  | some (.str s) => some s
  | _ => none

/-- A field that may be missing. -/
def parseBool (key : String) : Option Bool :=
  match raw key with
  | none => some false
  | some (.bool b) => some b
  | _ => none

/-- `waitBefore` and `waitAfter`. -/
def parseWait (key : String) : Option ℤ :=
  match raw key with
  | none => some 0
  | some (.int n) => some n
  | _ => none

/-- A missing scope is "all". -/
def parsePauseScope : Option String :=
  match raw "pauseScope" with
  | none => some "all"
  | some (.str s) => some s
  | _ => none

def parseActionFields : Option PauseAction := do
  let actionType ← parseStr raw "actionType"
  let async ← parseBool raw "async"
  let _ ← parseWait raw "waitBefore"
  let _ ← parseWait raw "waitAfter"
  if actionType = "pauseController" then
    let pauseScope ← parsePauseScope raw
    let avoidOngoingRead ← parseBool raw "avoidOngoingRead"
    let pauseAt ← parseStr raw "pauseAt"
    return .pauseController pauseAt pauseScope avoidOngoingRead async
  else if actionType = "resumeController" then
    let pauseScope ← parsePauseScope raw
    let pauseAt ← parseStr raw "pauseAt"
    return .resumeController pauseAt pauseScope
  else if actionType = "pauseAPIServer" ∨ actionType = "resumeAPIServer" then
    let _ ← parseStr raw "apiServerName"
    let _ ← parseStr raw "pauseScope"
    return .other
  else if actionType = "restartController" then
    let _ ← parseStr raw "controllerLabel"
    return .other
  else if actionType = "reconnectController" then
    let _ ← parseStr raw "controllerLabel"
    let _ ← parseStr raw "reconnectAPIServer"
    return .other
  else none

def parseTestPlan : List RawAction → Option (List PauseAction)
  | [] => some []
  | action :: plan => do
    let parsed ← parseActionFields action.fields
    let rest ← parseTestPlan plan
    return parsed :: rest

variable {raw}

theorem parseStr_some {key s : String} (h : parseStr raw key = some s) : raw key = some (.str s) := by
  rw [parseStr] at h
  split at h
  · rename_i s' hfield
    rw [hfield, Option.some.inj h]
  · cases h

theorem parsePauseScope_some {s : String} (h : parsePauseScope raw = some s) :
    raw "pauseScope" = some (.str s) ∨ s = "all" := by
  rw [parsePauseScope] at h
  split at h
  · exact .inr (Option.some.inj h).symm
  · rename_i s' hfield
    rw [hfield, Option.some.inj h]
    exact .inl rfl
  · cases h

theorem parseActionFields_typed {action : PauseAction} (h : parseActionFields raw = some action) :
    ∃ actionType, raw "actionType" = some (.str actionType) := by
  rw [parseActionFields] at h
  obtain ⟨actionType, htype, _⟩ := Option.bind_eq_some_iff.mp h
  exact ⟨actionType, parseStr_some htype⟩

/-- **An action that pauses** names its point, and its scope unless that is "all". -/
theorem parseActionFields_pauseController {pauseAt pauseScope : String} {avoidOngoingRead async : Bool}
    (h : parseActionFields raw = some (.pauseController pauseAt pauseScope avoidOngoingRead async)) :
    raw "actionType" = some (.str "pauseController") ∧ raw "pauseAt" = some (.str pauseAt) ∧
      (raw "pauseScope" = some (.str pauseScope) ∨ pauseScope = "all") := by
  rw [parseActionFields] at h
  obtain ⟨actionType, htype, h⟩ := Option.bind_eq_some_iff.mp h
  obtain ⟨_, _, h⟩ := Option.bind_eq_some_iff.mp h
  obtain ⟨_, _, h⟩ := Option.bind_eq_some_iff.mp h
  obtain ⟨_, _, h⟩ := Option.bind_eq_some_iff.mp h
  split at h
  · rename_i hpause
    obtain ⟨scope, hscope, h⟩ := Option.bind_eq_some_iff.mp h
    obtain ⟨_, _, h⟩ := Option.bind_eq_some_iff.mp h
    obtain ⟨point, hpoint, h⟩ := Option.bind_eq_some_iff.mp h
    obtain ⟨rfl, rfl, _, _⟩ := PauseAction.pauseController.inj (Option.some.inj h)
    exact ⟨hpause ▸ parseStr_some htype, parseStr_some hpoint, parsePauseScope_some hscope⟩
  · -- the other types give other actions
    simp [Option.bind_eq_some_iff, ite_eq_iff] at h

/-- Every action of the plan is parsed, and nothing else is there. -/
theorem parseTestPlan_some {plan : List RawAction} {actions : List PauseAction}
    (h : parseTestPlan plan = some actions) :
    Typed plan ∧ ∀ parsed ∈ actions, ∃ action ∈ plan, parseActionFields action.fields = some parsed := by
  induction plan generalizing actions with
  | nil =>
    obtain rfl := Option.some.inj h
    exact ⟨nofun, nofun⟩
  | cons action plan ih =>
    obtain ⟨parsed, hparsed, h⟩ := Option.bind_eq_some_iff.mp h
    obtain ⟨rest, hrest, h⟩ := Option.bind_eq_some_iff.mp h
    obtain rfl := Option.some.inj h
    obtain ⟨htyped, hmem⟩ := ih hrest
    refine ⟨List.forall_mem_cons.mpr ⟨parseActionFields_typed hparsed, htyped⟩,
      List.forall_mem_cons.mpr ⟨⟨action, List.mem_cons_self, hparsed⟩, fun parsed' hrest' => ?_⟩⟩
    obtain ⟨action', haction', hparsed'⟩ := hmem parsed' hrest'
    exact ⟨action', List.mem_cons_of_mem _ haction', hparsed'⟩

/-! ### Runs of a plan -/

/-- What is paused is paused by an action of the plan, and only finitely many scopes have entries. -/
structure PausedBy (actions : List PauseAction) (s : ControllerState) : Prop where
  remaining : ∀ action ∈ s.remaining, action ∈ actions
  paused : ∀ pauseAt pauseScope, (s.pauses (pauseAt, pauseScope)).paused = true →
    ∃ avoidOngoingRead async,
      .pauseController pauseAt pauseScope avoidOngoingRead async ∈ actions
  ranges : ∀ pauseAt, ∃ scopes, ScopesWithin s.pauses pauseAt scopes

namespace PausedBy

variable {actions : List PauseAction} {s s' : ControllerState}

theorem of_same (h : PausedBy actions s) (hremaining : s'.remaining = s.remaining)
    (hpauses : s'.pauses = s.pauses) : PausedBy actions s' := by
  obtain ⟨hmem, hpaused, hranges⟩ := h
  exact ⟨by rwa [hremaining], by rwa [hpauses], by rwa [hpauses]⟩

/-- An action may pause its own scope. -/
theorem execute (h : PausedBy actions s) {rest : List PauseAction} (pauseAt pauseScope : String)
    (entry : PauseEntry) (hremaining : ∀ action ∈ rest, action ∈ s.remaining)
    (hentry : entry.paused = true → ∃ avoidOngoingRead async,
      .pauseController pauseAt pauseScope avoidOngoingRead async ∈ actions) :
    PausedBy actions (s.execute rest (pauseAt, pauseScope) entry) := by
  refine ⟨fun action hmem => h.remaining action (hremaining action hmem),
    fun point scope hpaused => ?_, fun point => ?_⟩
  · replace hpaused : (Function.update s.pauses (pauseAt, pauseScope) entry (point, scope)).paused =
      true := hpaused
    by_cases hkey : (point, scope) = (pauseAt, pauseScope)
    · rw [hkey, Function.update_self] at hpaused
      obtain ⟨rfl, rfl⟩ := Prod.mk.inj hkey
      exact hentry hpaused
    · rw [Function.update_of_ne hkey] at hpaused
      exact h.paused point scope hpaused
  · obtain ⟨scopes, hscopes⟩ := h.ranges point
    exact ⟨_, hscopes.update pauseAt pauseScope entry⟩

theorem step (h : PausedBy actions s) {label : ControllerLabel} (hstep : ControllerStep s label s') :
    PausedBy actions s' := by
  cases hstep with
  | pause hnext _ =>
    refine (h.execute _ _ _ (fun action hmem => ?_) fun _ => ?_).of_same rfl rfl
    · rw [hnext]
      exact List.mem_cons_of_mem _ hmem
    · exact ⟨_, _, h.remaining _ (hnext ▸ List.mem_cons_self)⟩
  | resume hnext _ _ =>
    refine h.execute _ _ _ (fun action hmem => ?_) fun hpaused => nomatch hpaused
    rw [hnext]
    exact List.mem_cons_of_mem _ hmem
  | other hnext _ =>
    refine ⟨fun action hmem => h.remaining action ?_, h.paused, h.ranges⟩
    rw [hnext]
    exact List.mem_cons_of_mem _ hmem
  | avoid => exact h.of_same rfl rfl
  | panic => exact h.of_same rfl rfl
  | arrive => exact h.of_same rfl rfl
  | finish => exact h.of_same rfl rfl
  | lock => exact h.of_same rfl rfl
  | unlock => exact h.of_same rfl rfl
  | enterWrite => exact h.of_same rfl rfl
  | park => exact h.of_same rfl rfl
  | pass => exact h.of_same rfl rfl
  | wake => exact h.of_same rfl rfl

end PausedBy

/-- **Only the plan pauses.** -/
theorem paused_by_plan (actions : List PauseAction) :
    Always (Unlabelled ControllerRuns) (.start actions) (PausedBy actions) :=
  .of_labelled ⟨fun _ hmem => hmem, fun _ _ hpaused => (nomatch hpaused),
    fun pauseAt => ⟨[], scopesWithin_absent pauseAt⟩⟩ fun _ _ _ hs hstep => hs.step hstep.2

end Sieve.Server
