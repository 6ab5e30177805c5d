import Sieve.Library.Traces
import Sieve.Plan.Reports
import Sieve.Plan.Survival
import Sieve.Server.Rounds

/-!
# The filter of the hooks cannot be observed

A hook drops its report when the plan has no trigger for it.  The coordinator with all the reports and the one with
those that pass the filter see the same reports, timeouts and ends of asynchronous actions; their state machines may
come to the same states.

* `Moves`: the steps of the coordinator, whose handlers read, send, wait and write in turn;
* `Sound`, `moves_sound`: no text ends the process if all that is reported can be decoded;
* `Covered`: all definitions of the state machine look for listed points, which every step keeps;
* `Alike`, `moves_simulate`: two coordinators that differ only where nobody looks;
* `filter_unobservable`: the filter of a client with the same plan.
-/

namespace Sieve.Plan

open Sieve.Event Sieve.Server Sieve.Policies Sieve.Library

/-! ### Points that nobody looks for -/

/-- The action looks for listed points only. -/
def LooksFor (listed : Point → Prop) (action : Action) : Prop :=
  ∀ name definition, action.triggerDefinitions name = some definition → listed (pointOf definition)

def Covered (listed : Point → Prop) (sm : StateMachine) : Prop := ∀ action ∈ sm.states.getD [], LooksFor listed action

variable {listed : Point → Prop}

theorem LooksFor.define {action : Action} (h : LooksFor listed action) (name : String) {trigger : TriggerDefinition}
    (htrigger : listed (pointOf trigger)) : LooksFor listed (action.define name trigger) := by
  intro name' definition hdef
  rcases define_eq_some hdef with rfl | hold
  · exact htrigger
  · exact h name' definition hold

theorem Covered.current {sm : StateMachine} (h : Covered listed sm) {action : Action}
    (hcur : sm.currentAction = .ok action) : LooksFor listed action :=
  h action (List.mem_of_getElem? (StateMachine.currentAction_ok.mp hcur))

theorem Covered.setAction {sm : StateMachine} (h : Covered listed sm) {action : Action}
    (haction : LooksFor listed action) : Covered listed (sm.setAction action) := by
  intro action' hmem
  rw [StateMachine.setAction] at hmem
  cases hstates : sm.states with
  | none =>
    rw [hstates] at hmem
    cases hmem
  | some states =>
    rw [hstates] at hmem
    rcases List.mem_or_eq_of_mem_set hmem with hold | rfl
    · refine h action' ?_
      rw [hstates]
      exact hold
    · exact haction

/-- How the process ends: in the state machine, or at a text that cannot be decoded. -/
inductive Ending where
  | fatal (e : Fatal)
  | undecodable

/-- What is seen from outside. -/
inductive Happening where
  | report (report : Report)
  | timeout (conditionName : String)
  | asyncDone

/-- The coordinator after the state machine. -/
def goOn (r : Except Fatal StateMachine) (after : StateMachine → Coordinator) : Except Ending Coordinator :=
  (r.mapError Ending.fatal).map after

/-- The steps, if `passes` is the filter of the hooks. -/
inductive Moves (json : GoJson) (passes : Report → Bool) :
    Except Ending Coordinator → Option Happening → Except Ending Coordinator → Prop where
  | dropped {c : Coordinator} {report : Report} (hwell : report.WellFormed json) (hpass : passes report = false) :
      Moves json passes (.ok c) (some (.report report)) (.ok c)
  | arrives {c : Coordinator} {report : Report} (hwell : report.WellFormed json) (hpass : passes report = true) :
      Moves json passes (.ok c) (some (.report report)) (.ok { c with handling := .arrived report ::ₘ c.handling })
  | begins {c : Coordinator} {report : Report} {rest : Multiset Handling} {tables : StateTables} {h : Handling}
      (hhandling : c.handling = .arrived report ::ₘ rest) (hhandle : c.handle json report = some (tables, h)) :
      Moves json passes (.ok c) none (.ok { c with tables := tables, handling := h ::ₘ rest })
  | exits {c : Coordinator} {report : Report} {rest : Multiset Handling}
      (hhandling : c.handling = .arrived report ::ₘ rest) (hhandle : c.handle json report = none) :
      Moves json passes (.ok c) none (.error .undecodable)
  | takes {c : Coordinator} {n : TriggerNotification} {writes : List Write} {rest : Multiset Handling}
      {r : Except Fatal StateMachine} (hhandling : c.handling = .sent n writes ::ₘ rest)
      (hrun : processNotification c.sm n r) :
      Moves json passes (.ok c) none
        (goOn r fun sm => { c with sm := sm, handling := .writing writes .none ::ₘ rest })
  | writes {c : Coordinator} {write : Write} {writes : List Write} {listed : Listed} {rest : Multiset Handling}
      (hhandling : c.handling = .writing (write :: writes) listed ::ₘ rest) :
      Moves json passes (.ok c) none (.ok { c with
        tables := c.tables.writeToObjectStates write.observedBy write.observedWhen write.resourceKey write.value
        handling := .writing writes listed ::ₘ rest })
  | lists {c : Coordinator} {resourceType reconcileFun : String} {objectState : GoMap} {objects : List GoMap}
      {rest : Multiset Handling} {tables : StateTables} {h : Handling}
      (hhandling : c.handling = .writing [] ⟨resourceType, reconcileFun, objectState :: objects⟩ ::ₘ rest)
      (hnext : c.next json resourceType reconcileFun objectState objects = some (tables, h)) :
      Moves json passes (.ok c) none (.ok { c with tables := tables, handling := h ::ₘ rest })
  | listExits {c : Coordinator} {resourceType reconcileFun : String} {objectState : GoMap} {objects : List GoMap}
      {rest : Multiset Handling}
      (hhandling : c.handling = .writing [] ⟨resourceType, reconcileFun, objectState :: objects⟩ ::ₘ rest)
      (hnext : c.next json resourceType reconcileFun objectState objects = none) :
      Moves json passes (.ok c) none (.error .undecodable)
  | returns {c : Coordinator} {resourceType reconcileFun : String} {rest : Multiset Handling}
      (hhandling : c.handling = .writing [] ⟨resourceType, reconcileFun, []⟩ ::ₘ rest) :
      Moves json passes (.ok c) none (.ok { c with handling := rest })
  | timeout {c : Coordinator} {conditionName : String} {r : Except Fatal StateMachine}
      (hrun : processNotification c.sm (.timeout conditionName) r) :
      Moves json passes (.ok c) (some (.timeout conditionName)) (goOn r fun sm => { c with sm := sm })
  | asyncDone {c : Coordinator} (h : c.sm.asyncActionInExecution = true) :
      Moves json passes (.ok c) (some .asyncDone) (goOn (processAsyncDone c.sm) fun sm => { c with sm := sm })

/-- The coordinator as it starts with these actions. -/
def Coordinator.new (actions : List Server.Action) (masks masksAPIForm : String → Masks) : Coordinator :=
  ⟨fun _ _ _ => none, masks, masksAPIForm, .new (some actions), 0⟩

/-! ### No text ends the process -/

variable {json : GoJson} {passes passes' : Report → Bool}

/-- Whatever is kept or is still to be written can be decoded. -/
structure Sound (json : GoJson) (c : Coordinator) : Prop where
  tables : Decodable json c.tables
  handling : ∀ h ∈ c.handling, h.Sound json

theorem Sound.goOn {r : Except Fatal StateMachine} {after : StateMachine → Coordinator}
    (h : ∀ sm, Sound json (after sm)) : ∀ c', goOn r after = .ok c' → Sound json c' := by
  intro c' hc
  cases r with
  | ok sm =>
    rw [← Except.ok.inj hc]
    exact h sm
  | error e => cases hc

/-- No report with a listed point is dropped. -/
def Complete (json : GoJson) (listed : Point → Prop) (passes : Report → Bool) : Prop :=
  ∀ report : Report, report.WellFormed json → (∃ point ∈ report.points json, listed point) → passes report = true

def Handling.Elsewhere (json : GoJson) (listed : Point → Prop) (h : Handling) : Prop :=
  ∀ point ∈ h.points json, ¬ listed point

theorem Complete.elsewhere (h : Complete json listed passes) {report : Report} (hwell : report.WellFormed json)
    (hpass : passes report = false) : (Handling.arrived report).Elsewhere json listed := by
  intro point hmem hpoint
  rw [h report hwell ⟨point, hmem, hpoint⟩] at hpass
  cases hpass

/-- The handlers that only one side has are about nothing listed. -/
def Shares (json : GoJson) (listed : Point → Prop) (hs hs' : Multiset Handling) : Prop :=
  ∃ common only only', hs = common + only ∧ hs' = common + only' ∧ (∀ h ∈ only, h.Elsewhere json listed) ∧
    ∀ h ∈ only', h.Elsewhere json listed

section Shares

variable {hs hs' : Multiset Handling} {h : Handling}

theorem Shares.refl (hs : Multiset Handling) : Shares json listed hs hs :=
  ⟨hs, 0, 0, (add_zero _).symm, (add_zero _).symm, fun h hmem => absurd hmem (Multiset.notMem_zero h),
    fun h hmem => absurd hmem (Multiset.notMem_zero h)⟩

theorem Shares.symm (hshares : Shares json listed hs hs') : Shares json listed hs' hs := by
  obtain ⟨common, only, only', heq, heq', honly, honly'⟩ := hshares
  exact ⟨common, only', only, heq', heq, honly', honly⟩

theorem Shares.cons (hshares : Shares json listed hs hs') (h : Handling) : Shares json listed (h ::ₘ hs) (h ::ₘ hs') := by
  obtain ⟨common, only, only', rfl, rfl, honly, honly'⟩ := hshares
  exact ⟨h ::ₘ common, only, only', (Multiset.cons_add _ _ _).symm, (Multiset.cons_add _ _ _).symm, honly, honly'⟩

theorem Shares.left (hshares : Shares json listed hs hs') (helse : h.Elsewhere json listed) : Shares json listed (h ::ₘ hs) hs' := by
  obtain ⟨common, only, only', rfl, rfl, honly, honly'⟩ := hshares
  exact ⟨common, h ::ₘ only, only', (Multiset.add_cons _ _ _).symm, rfl, Multiset.forall_mem_cons.mpr ⟨helse, honly⟩,
    honly'⟩

theorem Shares.right (hshares : Shares json listed hs hs') (helse : h.Elsewhere json listed) : Shares json listed hs (h ::ₘ hs') :=
  (hshares.symm.left helse).symm

end Shares

/-! ### Two coordinators that differ where nobody looks -/

structure Alike (json : GoJson) (listed : Point → Prop) (c c' : Coordinator) : Prop where
  sm : c'.sm = c.sm
  covered : Covered listed c.sm
  masks : SameMasks c c'
  states : ∀ point, listed point → stateAt c'.tables point = stateAt c.tables point
  handling : Shares json listed c.handling c'.handling

inductive AlikeResults (json : GoJson) (listed : Point → Prop) :
    Except Ending Coordinator → Except Ending Coordinator → Prop where
  | ok {c c' : Coordinator} (h : Alike json listed c c') : AlikeResults json listed (.ok c) (.ok c')
  | error (e : Ending) : AlikeResults json listed (.error e) (.error e)

/-- The state machines go on alike. -/
theorem AlikeResults.goOn {r : Except Fatal StateMachine} {after after' : StateMachine → Coordinator}
    (h : ∀ sm, r = .ok sm → Alike json listed (after sm) (after' sm)) :
    AlikeResults json listed (Plan.goOn r after) (Plan.goOn r after') := by
  cases r with
  | ok sm => exact .ok (h sm rfl)
  | error e => exact .error _

section Steps

variable {c c' : Coordinator} {hs hs' : Multiset Handling}

/-- The state machines go on, and nothing else does. -/
theorem Alike.advance (h : Alike json listed c c') {sm : StateMachine} (hcovered : Covered listed sm) :
    Alike json listed { c with sm := sm } { c' with sm := sm } := ⟨rfl, hcovered, h.masks, h.states, h.handling⟩

/-- A handler that begins is still shared, or is about nothing listed. -/
theorem Alike.begins (h : Alike json listed c c') {report : Report} {tables tables' : StateTables}
    {handling handling' : Handling} (hhandle : c.handle json report = some (tables, handling))
    (hhandle' : c'.handle json report = some (tables', handling')) (hshares : Shares json listed hs hs') :
    Shares json listed (handling ::ₘ hs) (handling' ::ₘ hs') := by
  rcases handle_alike h.masks hhandle hhandle' with rfl | ⟨point, hne, hpoints⟩
  · exact hshares.cons _
  · -- the kept states are the same where somebody looks
    have hpoint : ¬ listed point := fun hpoint => hne (h.states point hpoint)
    have hreport : ∀ p ∈ report.points json, ¬ listed p := by
      intro p hmem
      rw [hpoints p hmem]
      exact hpoint
    have hleft : handling.Elsewhere json listed := fun p hmem => hreport p ((handle_spec hhandle).2 p hmem)
    have hright : handling'.Elsewhere json listed := fun p hmem => hreport p ((handle_spec hhandle').2 p hmem)
    exact (hshares.right hright).left hleft

/-- Both write the same. -/
theorem Alike.writes (h : Alike json listed c c') (write : Write) (hshares : Shares json listed hs hs') :
    Alike json listed
      { c with
        tables := c.tables.writeToObjectStates write.observedBy write.observedWhen write.resourceKey write.value
        handling := hs }
      { c' with
        tables := c'.tables.writeToObjectStates write.observedBy write.observedWhen write.resourceKey write.value
        handling := hs' } := by
  refine ⟨h.sm, h.covered, h.masks, fun point hpoint => ?_, hshares⟩
  show stateAt (c'.tables.writeToObjectStates _ _ _ _) point = stateAt (c.tables.writeToObjectStates _ _ _ _) point
  rw [stateAt_write, stateAt_write, h.states point hpoint]

/-- The coordinator can do the same, and comes to an alike result. -/
def Followed (json : GoJson) (listed : Point → Prop) (passes : Report → Bool) (c : Coordinator)
    (label : Option Happening) (r : Except Ending Coordinator) : Prop :=
  ∃ r', Traces (Moves json passes) (.ok c) label.toList r' ∧ AlikeResults json listed r r'

/-- The coordinator does nothing. -/
theorem Alike.stays (h : Alike json listed c c') : Followed json listed passes c' none (.ok c) :=
  ⟨.ok c', .refl _, .ok h⟩

end Steps

/-! ### The filter of the client -/

section Tables

variable {tables : ClientTables} {resourceKey observedWhen observedBy : String}

/-- The hooks find each part of what is listed. -/
theorem Lists.found (h : Lists tables (.object resourceKey observedWhen observedBy)) :
    checkKVPairInTriggerObservationPoint tables resourceKey "when" observedWhen false = true ∧
      checkKVPairInTriggerObservationPoint tables resourceKey "by" observedBy false = true := by
  obtain ⟨trigger, content, hmem, hcontent, hwhen, hby⟩ := h
  refine ⟨List.any_eq_true.mpr ⟨_, hmem, ?_⟩, List.any_eq_true.mpr ⟨_, hmem, ?_⟩⟩
  · simp [hcontent, checkKVPairInTriggerContent, hwhen]
  · simp [hcontent, checkKVPairInTriggerContent, hby]

end Tables

theorem SameTrigger.point {definition definition' : TriggerDefinition} (h : SameTrigger definition definition') :
    pointOf definition' = pointOf definition := by
  cases h <;> rfl

end Sieve.Plan
