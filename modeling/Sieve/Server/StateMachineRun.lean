import Sieve.Server.ExpressionParse
import Sieve.Server.StateMachine
import Sieve.Server.TriggerGraphSpec

/-!
# Running the state machine on parsed actions

* `WellFormedPlan`: every action is parsed from a well-formed expression;
* `Awaits e i S action sm`: the `i`-th action is current, its graph is the one of `e` once `S` has
  fired, and `e` is incomplete;
* `Visited`, `Awaits.visited`: everything one round of the loop over `toSatisfy` can do;
* `Healthy`, `healthy_of_reachable`: what holds of all actions in every reachable state.
-/

namespace Sieve.Server

open Sieve.Library Sieve.Trigger

/-! ### Parsed actions -/

/-- The graph is the one of `e` once `S` has fired, and only trigger names are defined. -/
structure Follows (e : TriggerExpr String) (S : Finset String) (action : Action) : Prop where
  wellNamed : e.WellNamed
  reflects : Reflects e S action.triggerGraph
  names : ∀ n, action.triggerDefinitions n ≠ none → OperatorFree n

/-- Every action is parsed from a well-formed expression and from definitions under operator-free
names. -/
def WellFormedPlan (actions : Option (List Action)) : Prop :=
  ∀ action ∈ actions.getD [], ∃ exp names definitions async,
    Generates exp names ∧ names.Nodup ∧
    (∀ d ∈ definitions, OperatorFree (TriggerDefinition.getTriggerName d)) ∧
    parseAction exp definitions async = .ok action

theorem definitionTable_mem {definitions : List TriggerDefinition} {n : String}
    {definition : TriggerDefinition} (h : definitionTable definitions n = some definition) :
    definition ∈ definitions ∧ definition.getTriggerName = n := by
  have hfold : ∀ (definitions : List TriggerDefinition) (table : String → Option TriggerDefinition),
      definitions.foldl (fun (table : String → Option TriggerDefinition) d =>
        Function.update table d.getTriggerName (some d)) table n = some definition →
      table n = some definition ∨ definition ∈ definitions ∧ definition.getTriggerName = n := by
    intro definitions
    induction definitions with
    | nil => exact fun table h => Or.inl h
    | cons d definitions ih =>
      intro table h
      rcases ih _ h with h | ⟨hmem, hname⟩
      · by_cases hn : n = d.getTriggerName
        · have hd : d = definition := by
            replace h : Function.update table d.getTriggerName (some d) n = some definition := h
            rw [hn, Function.update_self] at h
            exact Option.some.inj h
          rw [← hd]
          exact Or.inr ⟨List.mem_cons_self, hn.symm⟩
        · exact Or.inl ((Function.update_of_ne hn _ _).symm.trans h)
      · exact Or.inr ⟨List.mem_cons_of_mem _ hmem, hname⟩
  rcases hfold definitions _ h with h | h
  · cases h
  · exact h

/-- **A well-formed expression is parsed**, and the action starts with nothing fired. -/
theorem parseAction_ok {exp : String} {e : TriggerExpr String} (h : Denotes 1 exp e)
    (hnd : e.literals.Nodup) (definitions : List TriggerDefinition) (async : Bool) :
    ∃ tg, Reflects e ∅ tg ∧
      parseAction exp definitions async = .ok ⟨tg, definitionTable definitions, async⟩ := by
  have hwn : e.WellNamed := ⟨fun n hn => (h.generates.operatorFree n hn).2, hnd⟩
  obtain ⟨tg, hbuild, hreflects⟩ := reflects_initial hwn
  refine ⟨tg, hreflects, ?_⟩
  rw [parseAction, expressionToBinaryTree_of_denotes h hnd]
  show (binaryTreeToTriggerGraph e.toTree >>= fun tg => _) = _
  rw [hbuild]
  rfl

theorem parseAction_follows {exp : String} {e : TriggerExpr String} (h : Denotes 1 exp e)
    (hnd : e.literals.Nodup) {definitions : List TriggerDefinition} {async : Bool}
    (hdefs : ∀ d ∈ definitions, OperatorFree (TriggerDefinition.getTriggerName d)) {action : Action}
    (hparse : parseAction exp definitions async = .ok action) : Follows e ∅ action := by
  obtain ⟨tg, hreflects, hparse'⟩ := parseAction_ok h hnd definitions async
  rw [Except.ok.inj (hparse.symm.trans hparse')]
  refine ⟨⟨fun n hn => (h.generates.operatorFree n hn).2, hnd⟩, hreflects, fun n hn => ?_⟩
  obtain ⟨definition, hdef⟩ := Option.ne_none_iff_exists'.mp hn
  obtain ⟨hmem, hname⟩ := definitionTable_mem hdef
  exact hname ▸ hdefs definition hmem

/-! ### A test changes the definitions, a firing also the graph -/

section Follows

variable {e : TriggerExpr String} {S : Finset String} {action : Action}

theorem Action.define_names {name : String} {definition : TriggerDefinition}
    (hnames : ∀ n, action.triggerDefinitions n ≠ none → OperatorFree n)
    (hdef : action.triggerDefinitions name = some definition) (trigger : TriggerDefinition)
    (n : String) (hn : (action.define name trigger).triggerDefinitions n ≠ none) :
    OperatorFree n := by
  apply hnames n
  intro hnone
  by_cases hne : n = name
  · rw [hne, hdef] at hnone
    cases hnone
  · exact hn ((Function.update_of_ne hne _ _).trans hnone)

theorem Follows.define (h : Follows e S action) {name : String} {definition : TriggerDefinition}
    (hdef : action.triggerDefinitions name = some definition) (trigger : TriggerDefinition) :
    Follows e S (action.define name trigger) :=
  ⟨h.wellNamed, h.reflects, Action.define_names h.names hdef trigger⟩

theorem Follows.fire (h : Follows e S action) {name : String} {definition : TriggerDefinition}
    (hdef : action.triggerDefinitions name = some definition) (trigger : TriggerDefinition)
    {triggerGraph : TriggerGraph} {S' : Finset String} (hreflects : Reflects e S' triggerGraph) :
    Follows e S' (action.fire name trigger triggerGraph) :=
  ⟨h.wellNamed, hreflects, Action.define_names h.names hdef trigger⟩

theorem Follows.fullyTriggered (h : Follows e S action) :
    action.triggerGraph.fullyTriggered = .ok (decide (e.Complete S)) :=
  h.reflects.fullyTriggered h.wellNamed

end Follows

/-! ### One round -/

/-- The `i`-th action is current and not all its triggers are satisfied. -/
structure Awaits (e : TriggerExpr String) (i : ℕ) (S : Finset String) (action : Action)
    (sm : StateMachine) : Prop where
  current : sm.currentAction = .ok action
  index : sm.nextState = i
  idle : sm.asyncActionInExecution = false
  follows : Follows e S action
  incomplete : ¬ e.Complete S

theorem Awaits.not_ignores {e : TriggerExpr String} {i : ℕ} {S : Finset String} {action : Action}
    {sm : StateMachine} (h : Awaits e i S action sm) : ¬ sm.Ignores := by
  have hcur := h.current
  rw [StateMachine.currentAction_ok] at hcur
  rintro (hnone | hlen | hasync)
  · rw [hnone] at hcur
    cases hcur
  · rw [List.getElem?_eq_none hlen] at hcur
    cases hcur
  · rw [h.idle] at hasync
    cases hasync

/-- What a round for `name` can do while the action waits. -/
inductive Visited (e : TriggerExpr String) (S : Finset String) (action : Action) (name : String)
    (loop : Loop) : Except Fatal (Loop × Bool) → Prop where
  | undefined (hdef : action.triggerDefinitions name = none) :
      Visited e S action name loop (.ok (loop, false))
  | testFails {definition : TriggerDefinition} {er : Fatal}
      (hdef : action.triggerDefinitions name = some definition)
      (htest : definition.satisfy loop.notification = .error er) :
      Visited e S action name loop (.error er)
  | unsatisfied {definition : TriggerDefinition} {test : Test}
      (hdef : action.triggerDefinitions name = some definition)
      (htest : definition.satisfy loop.notification = .ok test) (hanswer : test.answer = false) :
      Visited e S action name loop
        (.ok (⟨loop.sm.setAction (action.define name test.trigger), test.notification⟩, false))
  | clash {definition : TriggerDefinition} {test : Test} {n : String}
      (hdef : action.triggerDefinitions name = some definition)
      (htest : definition.satisfy loop.notification = .ok test) (hanswer : test.answer = true)
      (hclash : e.Clash (insert name S)) :
      Visited e S action name loop (.error (.inSatisfied n))
  | pending {definition : TriggerDefinition} {test : Test} {triggerGraph : TriggerGraph}
      {timeouts : Multiset (ℤ × String)}
      (hdef : action.triggerDefinitions name = some definition)
      (htest : definition.satisfy loop.notification = .ok test) (hanswer : test.answer = true)
      (htrigger : action.triggerGraph.trigger name = .ok triggerGraph)
      (hreflects : Reflects e (insert name S) triggerGraph)
      (hincomplete : ¬ e.Complete (insert name S)) :
      Visited e S action name loop
        (.ok (⟨{ loop.sm.setAction (action.fire name test.trigger triggerGraph) with
          timeouts := timeouts }, test.notification⟩, false))
  | complete {definition : TriggerDefinition} {test : Test} {triggerGraph : TriggerGraph}
      {timeouts : Multiset (ℤ × String)}
      (hdef : action.triggerDefinitions name = some definition)
      (htest : definition.satisfy loop.notification = .ok test) (hanswer : test.answer = true)
      (htrigger : action.triggerGraph.trigger name = .ok triggerGraph)
      (hreflects : Reflects e (insert name S) triggerGraph)
      (hcomplete : e.Complete (insert name S)) :
      Visited e S action name loop
        (.ok (⟨{ (loop.sm.setAction (action.fire name test.trigger triggerGraph)).afterRun
          (action.fire name test.trigger triggerGraph) with timeouts := timeouts },
          test.notification⟩, true))

section Round

variable {e : TriggerExpr String} {i : ℕ} {S : Finset String} {action : Action} {loop loop' : Loop}
  {name : String}

/-- **One round of the loop** for a present key. -/
theorem Awaits.visited (h : Awaits e i S action loop.sm)
    (hname : name ∈ action.triggerGraph.toSatisfy) :
    Visited e S action name loop (visit name loop) := by
  cases hdef : action.triggerDefinitions name with
  | none =>
    rw [visit_undefined h.current hdef]
    exact .undefined hdef
  | some definition =>
    cases htest : definition.satisfy loop.notification with
    | error er =>
      rw [visit_testFails h.current hdef htest]
      exact .testFails hdef htest
    | ok test =>
      cases hanswer : test.answer with
      | false =>
        rw [visit_unsatisfied h.current hdef htest hanswer]
        exact .unsatisfied hdef htest hanswer
      | true =>
        have hfree := h.follows.names name (by rw [hdef]; exact nofun)
        obtain ⟨hen, hfresh⟩ := h.follows.reflects.enabled h.follows.wellNamed hname hfree
        have hfire := h.follows.reflects.trigger h.follows.wellNamed hen hfresh
        by_cases hclash : e.Clash (insert name S)
        · obtain ⟨n, htrigger⟩ := hfire.1 hclash
          rw [visit_triggerFails h.current hdef htest hanswer htrigger]
          exact .clash hdef htest hanswer hclash
        · obtain ⟨tg, htrigger, hreflects, _⟩ := hfire.2 hclash
          have hfull := hreflects.fullyTriggered h.follows.wellNamed
          by_cases hc : e.Complete (insert name S)
          · rw [decide_eq_true hc] at hfull
            obtain ⟨timeouts, hvisit⟩ := visit_complete h.current hdef htest hanswer htrigger hfull
            rw [hvisit]
            exact .complete hdef htest hanswer htrigger hreflects hc
          · rw [decide_eq_false hc] at hfull
            obtain ⟨timeouts, hvisit⟩ := visit_pending h.current hdef htest hanswer htrigger hfull
            rw [hvisit]
            exact .pending hdef htest hanswer htrigger hreflects hc

/-- A round that reaches its end leaves the action waiting. -/
theorem Awaits.of_fell (h : Awaits e i S action loop.sm)
    (hvisit : Visited e S action name loop (.ok (loop', false))) :
    ∃ S' action' timeouts, Awaits e i S' action' loop'.sm ∧
      loop'.sm = { loop.sm.setAction action' with timeouts := timeouts } := by
  cases hvisit with
  | undefined hdef =>
    refine ⟨S, action, loop.sm.timeouts, h, ?_⟩
    rw [StateMachine.setAction_self h.current]
  | unsatisfied hdef htest hanswer =>
    refine ⟨S, _, loop.sm.timeouts, ⟨StateMachine.setAction_current h.current _, h.index, h.idle,
      h.follows.define hdef _, h.incomplete⟩, rfl⟩
  | pending hdef htest hanswer htrigger hreflects hincomplete =>
    exact ⟨_, _, _, ⟨StateMachine.setAction_current h.current _, h.index, h.idle,
      h.follows.fire hdef _ hreflects, hincomplete⟩, rfl⟩

/-- A round that ends at the `break` ends the action. -/
theorem Awaits.of_broke (h : Awaits e i S action loop.sm)
    (hvisit : Visited e S action name loop (.ok (loop', true))) :
    ∃ S' action' timeouts, Follows e S' action' ∧
      loop'.sm = { (loop.sm.setAction action').afterRun action' with timeouts := timeouts } := by
  cases hvisit with
  | complete hdef htest hanswer htrigger hreflects hcomplete =>
    exact ⟨_, _, _, h.follows.fire hdef _ hreflects, rfl⟩

end Round

/-! ### Reachable states -/

/-- The action in this place of the plan belongs to a well-formed expression, which is incomplete if
its turn is still to come or now. -/
def HealthyAt (sm : StateMachine) (i : ℕ) (action : Action) : Prop :=
  ∃ e S, Follows e S action ∧
    (sm.nextState < i ∨ sm.nextState = i ∧ sm.asyncActionInExecution = false → ¬ e.Complete S)

def Healthy (sm : StateMachine) : Prop :=
  ∀ i action, (sm.states.getD [])[i]? = some action → HealthyAt sm i action

theorem healthy_new {actions : Option (List Action)} (h : WellFormedPlan actions) :
    Healthy (.new actions) := by
  intro i action hi
  obtain ⟨exp, names, definitions, async, hgen, hnd, hdefs, hparse⟩ :=
    h action (List.mem_of_getElem? hi)
  obtain ⟨e, hden, hlit⟩ := hgen.denotes
  rw [← hlit] at hnd
  exact ⟨e, ∅, parseAction_follows hden hnd hdefs hparse,
    fun _ => TriggerExpr.not_complete_of_untouched fun a _ => Finset.notMem_empty a⟩

/-- A notification that is handled finds a waiting action. -/
theorem Healthy.awaits {sm : StateMachine} (h : Healthy sm) (hig : ¬ sm.Ignores) :
    ∃ e S action, Awaits e sm.nextState S action sm := by
  obtain ⟨action, hcur, hidle⟩ := StateMachine.not_ignores hig
  obtain ⟨e, S, hfollows, hinc⟩ := h _ action (StateMachine.currentAction_ok.mp hcur)
  exact ⟨e, S, action, hcur, rfl, hidle, hfollows, hinc (Or.inr ⟨rfl, hidle⟩)⟩

/-- Only the current action is replaced. -/
theorem Healthy.replace {sm sm' : StateMachine} (h : Healthy sm)
    (hnext : sm.nextState ≤ sm'.nextState)
    (hother : ∀ j, j ≠ sm.nextState → (sm'.states.getD [])[j]? = (sm.states.getD [])[j]?)
    (hhere : ∀ a, (sm'.states.getD [])[sm.nextState]? = some a → HealthyAt sm' sm.nextState a) :
    Healthy sm' := by
  intro j a hj
  by_cases hne : j = sm.nextState
  · rw [hne] at hj ⊢
    exact hhere a hj
  · rw [hother j hne] at hj
    obtain ⟨e, S, hfollows, hinc⟩ := h j a hj
    refine ⟨e, S, hfollows, fun hlater => hinc (Or.inl ?_)⟩
    omega

section Keeps

variable {e : TriggerExpr String} {i : ℕ} {S : Finset String} {action : Action} {loop loop' : Loop}
  {name : String}

theorem Healthy.of_fell (h : Healthy loop.sm) (hawaits : Awaits e i S action loop.sm)
    (hvisit : Visited e S action name loop (.ok (loop', false))) : Healthy loop'.sm := by
  obtain ⟨S', action', timeouts, hawaits', hsm⟩ := hawaits.of_fell hvisit
  refine h.replace (hawaits.index.trans hawaits'.index.symm).le ?_ ?_
  · intro j hj
    rw [hsm]
    exact StateMachine.setAction_of_ne hj
  · intro a ha
    have hcur := StateMachine.currentAction_ok.mp hawaits'.current
    rw [hawaits'.index, ← hawaits.index, ha] at hcur
    rw [Option.some.inj hcur]
    exact ⟨e, S', hawaits'.follows, fun _ => hawaits'.incomplete⟩

theorem Healthy.of_broke (h : Healthy loop.sm) (hawaits : Awaits e i S action loop.sm)
    (hvisit : Visited e S action name loop (.ok (loop', true))) : Healthy loop'.sm := by
  obtain ⟨S', action', timeouts, hfollows, hsm⟩ := hawaits.of_broke hvisit
  have hcur := StateMachine.currentAction_ok.mp (StateMachine.setAction_current hawaits.current action')
  have hnext : loop'.sm.nextState =
      if action'.async then loop.sm.nextState else loop.sm.nextState + 1 := by
    rw [hsm]
    rfl
  refine h.replace ?_ ?_ ?_
  · rw [hnext]
    split <;> omega
  · intro j hj
    rw [hsm]
    exact StateMachine.setAction_of_ne hj
  · intro a ha
    have hstates : loop'.sm.states = (loop.sm.setAction action').states := by
      rw [hsm]
      rfl
    rw [hstates] at ha
    rw [Option.some.inj (ha.symm.trans hcur)]
    refine ⟨e, S', hfollows, fun hturn => ?_⟩
    -- the action has run, so its turn is over
    cases hasync : action'.async with
    | false =>
      rw [hasync, if_neg Bool.false_ne_true] at hnext
      rcases hturn with hlt | ⟨heq, _⟩ <;> omega
    | true =>
      rw [hasync] at hnext
      rcases hturn with hlt | ⟨_, hidle⟩
      · rw [hnext] at hlt
        exact absurd hlt (lt_irrefl _)
      · have hbusy : loop'.sm.asyncActionInExecution = true := by
          rw [hsm]
          show (if action'.async then true else _) = true
          rw [hasync]
          rfl
        rw [hbusy] at hidle
        cases hidle

end Keeps

theorem processNotification_healthy {sm sm' : StateMachine} {n : TriggerNotification}
    (h : Healthy sm) (hrun : processNotification sm n (.ok sm')) : Healthy sm' := by
  have hall : ∀ r, processNotification sm n r → ∀ sm', r = .ok sm' → Healthy sm' := by
    intro r hrun
    cases hrun with
    | ignored _ => exact fun sm' hr => Except.ok.inj hr ▸ h
    | handled hig hloop =>
      obtain ⟨e, S, action, hawaits⟩ := h.awaits hig
      refine MapRange.rule
        (fun _ _ loop => Healthy loop.sm ∧ ∃ S action, Awaits e sm.nextState S action loop.sm)
        (fun r => ∀ sm', r.map Loop.sm = .ok sm' → Healthy sm') ?_ ?_ ?_ ?_ hloop
        ⟨h, S, action, hawaits⟩
      · exact fun _ _ loop h _ sm' hr => Except.ok.inj hr ▸ h.1
      · rintro _ _ loop name loop' ⟨h, S, action, hawaits⟩ hname _ hbody
        rw [Loop.toSatisfy_eq hawaits.current] at hname
        have hvisit := hawaits.visited hname
        rw [Round.ofExcept_fell.mp hbody] at hvisit
        obtain ⟨S', action', _, hawaits', _⟩ := hawaits.of_fell hvisit
        exact ⟨h.of_fell hawaits hvisit, S', action', hawaits'⟩
      · rintro _ _ loop name loop' ⟨h, S, action, hawaits⟩ hname _ hbody sm' hr
        rw [Loop.toSatisfy_eq hawaits.current] at hname
        have hvisit := hawaits.visited hname
        rw [Round.ofExcept_broke.mp hbody] at hvisit
        exact Except.ok.inj hr ▸ h.of_broke hawaits hvisit
      · exact fun _ _ loop name er _ _ _ _ sm' hr => nomatch hr
  exact hall _ hrun sm' rfl

theorem processAsyncDone_healthy {sm sm' : StateMachine} (h : Healthy sm)
    (hrun : processAsyncDone sm = .ok sm') : Healthy sm' := by
  obtain ⟨timeouts, hadvance⟩ := StateMachine.advance_ok { sm with asyncActionInExecution := false }
  rw [processAsyncDone, hadvance] at hrun
  rw [← Except.ok.inj hrun]
  refine h.replace (Nat.le_succ _) (fun _ _ => rfl) fun a ha => ?_
  obtain ⟨e, S, hfollows, _⟩ := h _ a ha
  refine ⟨e, S, hfollows, fun hturn => ?_⟩
  rcases hturn with hlt | ⟨heq, _⟩
  · exact absurd hlt (Nat.not_lt.mpr (Nat.le_succ _))
  · exact absurd heq (Nat.succ_ne_self _)

/-- **The actions of a well-formed plan stay healthy** in every run. -/
theorem healthy_of_reachable {actions : Option (List Action)} (hplan : WellFormedPlan actions)
    {sm : StateMachine} (h : Reachable (.new actions) sm) : Healthy sm := by
  induction h with
  | initial => exact healthy_new hplan
  | @step sm sm' _ hstep ih =>
    have hall : ∀ r, Step sm r → ∀ sm', r = .ok sm' → Healthy sm' := by
      intro r hstep
      cases hstep with
      | notification hrun => exact fun sm' hr => processNotification_healthy ih (hr ▸ hrun)
      | asyncDone _ => exact fun sm' hr => processAsyncDone_healthy ih hr
    exact hall _ hstep sm' rfl

/-! ### Creations -/

/-- A trigger for the first creation of an object. -/
def createTrigger (name resourceKey : String) (actualOccurrence : ℤ) : TriggerDefinition :=
  .objectCreate ⟨name, resourceKey, 1, actualOccurrence, beforeControllerRecv, "informer"⟩

def createNotification (resourceKey : String) : TriggerNotification :=
  .objectCreate ⟨resourceKey, beforeControllerRecv, "informer"⟩

theorem createTrigger_self (name resourceKey : String) :
    (createTrigger name resourceKey 0).satisfy (createNotification resourceKey) =
      .ok ⟨true, createTrigger name resourceKey 1, createNotification resourceKey⟩ := by
  simp [createTrigger, createNotification, TriggerDefinition.satisfy,
    ObjectCreateTrigger.satisfy, ObjectCreateTrigger.covers]

theorem createTrigger_other (name : String) {resourceKey created : String}
    (h : resourceKey ≠ created) (c : ℤ) :
    (createTrigger name resourceKey c).satisfy (createNotification created) =
      .ok ⟨false, createTrigger name resourceKey c, createNotification created⟩ := by
  simp [createTrigger, createNotification, TriggerDefinition.satisfy,
    ObjectCreateTrigger.satisfy, ObjectCreateTrigger.covers, Ne.symm h]

end Sieve.Server
