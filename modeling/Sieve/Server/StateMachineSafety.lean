import Sieve.Server.StateMachineRun

/-!
# When the coordinator survives its own trigger graph

`TriggerGraph.trigger` ends the process when a node is satisfied twice.

* `processNotification_awaits`: for an `OrFinal` expression every notification leaves the action
  waiting or ends it;
* `Created.fires`, `Created.crashes`: creations that match one trigger each drive the graph through
  any schedule;
* `processNotification_safe_iff`: the expressions that are safe under all definitions and all
  notifications are exactly the `OrFinal` ones.
-/

namespace Sieve.Server

open Sieve.Event Sieve.Library Sieve.Trigger

/-- The `log.Fatalf` checks of `trigger` and `triggerOrAnd`. -/
def Fatal.GraphCheck : Fatal → Prop
  | .notInToSatisfy _ => True
  | .inSatisfied _ => True
  | .notLiteral _ => True
  | .notOrNorAnd _ => True
  | _ => False

/-- The notifications are handled one after the other, each while the `i`-th action is current. -/
inductive HandledWhileCurrent (i : ℕ) :
    StateMachine → List TriggerNotification → Except Fatal StateMachine → Prop where
  | nil {sm : StateMachine} : HandledWhileCurrent i sm [] (.ok sm)
  | step {sm sm' : StateMachine} {n : TriggerNotification} {ns : List TriggerNotification}
      {r : Except Fatal StateMachine} (hcur : sm.nextState = i ∧ ¬ sm.Ignores)
      (h : processNotification sm n (.ok sm')) (hrest : HandledWhileCurrent i sm' ns r) :
      HandledWhileCurrent i sm (n :: ns) r
  | fail {sm : StateMachine} {n : TriggerNotification} {ns : List TriggerNotification} {e : Fatal}
      (hcur : sm.nextState = i ∧ ¬ sm.Ignores) (h : processNotification sm n (.error e)) :
      HandledWhileCurrent i sm (n :: ns) (.error e)

/-! ### Expressions that are safe -/

theorem canonicalizeEvent_error {event : GoMap} {masks : Masks} {e : Fatal}
    (h : canonicalizeEvent event masks = .error e) : e = .nilMapAssignment := by
  cases event with
  | none => exact (Except.error.inj h).symm
  | some event =>
    rw [canonicalizeEvent] at h
    split at h <;> cases h

theorem diffEvent_error {prevEvent curEvent : GoMap} {masks : Masks} {e : Fatal}
    (h : diffEvent prevEvent curEvent masks = .error e) : e = .nilMapAssignment := by
  rcases bind_error_iff.mp h with h | ⟨_, _, h⟩
  · exact canonicalizeEvent_error h
  · rcases bind_error_iff.mp h with h | ⟨_, _, h⟩
    · exact canonicalizeEvent_error h
    · cases h

/-- A test can only fail on a nil map. -/
theorem satisfy_error {definition : TriggerDefinition} {n : TriggerNotification} {e : Fatal}
    (h : definition.satisfy n = .error e) : e = .nilMapAssignment := by
  cases definition with
  | objectUpdate t =>
    cases n with
    | objectUpdate n =>
      rcases bind_error_iff.mp h with h | ⟨_, _, h⟩
      · rw [ObjectUpdateTrigger.satisfy] at h
        split at h
        · split at h
          · cases h
          · rcases bind_error_iff.mp h with h | ⟨⟨desired, _⟩, _, h⟩
            · rcases bind_error_iff.mp h with h | ⟨_, _, h⟩
              · exact diffEvent_error h
              · cases h
            · cases desired <;> cases h
        · cases h
      · cases h
    | _ => cases h
  | anyFieldModification t =>
    cases n with
    | objectUpdate n =>
      rcases bind_error_iff.mp h with h | ⟨_, _, h⟩
      · rw [AnyFieldModificationTrigger.satisfy] at h
        split at h
        · rcases bind_error_iff.mp h with h | ⟨⟨modified, _⟩, _, h⟩
          · rcases bind_error_iff.mp h with h | ⟨_, _, h⟩
            · exact canonicalizeEvent_error h
            · rcases bind_error_iff.mp h with h | ⟨_, _, h⟩
              · exact canonicalizeEvent_error h
              · cases h
          · cases modified <;> cases h
        · cases h
      · cases h
    | _ => cases h
  | _ => cases n <;> cases h

/-- A round hits no check of the graph when every `|` completes the expression. -/
theorem Awaits.fails_elsewhere {e : TriggerExpr String} (hof : e.OrFinal) {i : ℕ}
    {S : Finset String} {action : Action} {loop : Loop} {name : String} {er : Fatal}
    (h : Awaits e i S action loop.sm) (hvisit : Visited e S action name loop (.error er)) :
    ¬ er.GraphCheck := by
  cases hvisit with
  | testFails hdef htest =>
    rw [satisfy_error htest]
    exact id
  | clash hdef htest hanswer hclash =>
    exact absurd hclash (TriggerExpr.not_clash_insert h.follows.wellNamed.distinct hof h.incomplete
      h.follows.reflects.clear name)

/-- The action is over after a round that ends at the `break`. -/
theorem Awaits.ends {e : TriggerExpr String} {i : ℕ} {S : Finset String} {action : Action}
    {loop loop' : Loop} {name : String} (h : Awaits e i S action loop.sm)
    (hvisit : Visited e S action name loop (.ok (loop', true))) :
    loop'.sm.nextState ≠ i ∨ loop'.sm.Ignores := by
  obtain ⟨S', action', timeouts, _, hsm⟩ := h.of_broke hvisit
  rw [hsm, ← h.index]
  show (if action'.async then loop.sm.nextState else loop.sm.nextState + 1) ≠ _ ∨
    _ ∨ _ ∨ (if action'.async then true else _) = true
  cases action'.async with
  | true => exact Or.inr (Or.inr (Or.inr rfl))
  | false => exact Or.inl (Nat.succ_ne_self _)

/-- What one notification leads to: the action still waits, or it is over, or the process ends, but
not at a check of the graph. -/
def KeepsOrEnds (e : TriggerExpr String) (i : ℕ) : Except Fatal StateMachine → Prop
  | .ok sm => (∃ S action, Awaits e i S action sm) ∨ sm.nextState ≠ i ∨ sm.Ignores
  | .error er => ¬ er.GraphCheck

theorem processNotification_awaits {e : TriggerExpr String} (hof : e.OrFinal)
    {i : ℕ} {S : Finset String} {action : Action} {sm : StateMachine} {n : TriggerNotification}
    {r : Except Fatal StateMachine} (h : Awaits e i S action sm)
    (hrun : processNotification sm n r) : KeepsOrEnds e i r := by
  cases hrun with
  | ignored _ => exact Or.inl ⟨S, action, h⟩
  | handled _ hloop =>
    refine MapRange.rule (fun _ _ loop => ∃ S action, Awaits e i S action loop.sm)
      (fun r => KeepsOrEnds e i (r.map Loop.sm)) ?_ ?_ ?_ ?_ hloop ⟨S, action, h⟩
    · exact fun _ _ loop h _ => Or.inl h
    · rintro _ _ loop name loop' ⟨S, action, h⟩ hname _ hbody
      rw [Loop.toSatisfy_eq h.current] at hname
      have hvisit := h.visited hname
      rw [Round.ofExcept_fell.mp hbody] at hvisit
      obtain ⟨S', action', _, h', _⟩ := h.of_fell hvisit
      exact ⟨S', action', h'⟩
    · rintro _ _ loop name loop' ⟨S, action, h⟩ hname _ hbody
      rw [Loop.toSatisfy_eq h.current] at hname
      have hvisit := h.visited hname
      rw [Round.ofExcept_broke.mp hbody] at hvisit
      exact Or.inr (h.ends hvisit)
    · rintro _ _ loop name er ⟨S, action, h⟩ hname _ hbody
      rw [Loop.toSatisfy_eq h.current] at hname
      have hvisit := h.visited hname
      rw [Round.ofExcept_failed.mp hbody] at hvisit
      exact h.fails_elsewhere hof hvisit

/-- **Every run of notifications** during an action with an `OrFinal` expression avoids the checks
of the graph. -/
theorem handledWhileCurrent_safe {e : TriggerExpr String} (hof : e.OrFinal)
    {i : ℕ} {sm : StateMachine} {ns : List TriggerNotification} {r : Except Fatal StateMachine}
    (hrun : HandledWhileCurrent i sm ns r) :
    ∀ {S action}, Awaits e i S action sm → ∀ er, r = .error er → ¬ er.GraphCheck := by
  induction hrun with
  | nil => exact fun _ er h => nomatch h
  | @step sm sm' n ns r _ hproc hrest ih =>
    intro S action h er hr
    rcases processNotification_awaits hof h hproc with ⟨S', action', h'⟩ | hne
    · exact ih h' er hr
    · -- the action is over, so no further notification is handled
      cases hrest with
      | nil => cases hr
      | step hcur _ _ => exact hne.elim (absurd hcur.1) fun h => absurd h hcur.2
      | fail hcur _ => exact hne.elim (absurd hcur.1) fun h => absurd h hcur.2
  | fail _ hproc =>
    intro S action h er hr
    rw [← Except.error.inj hr]
    exact processNotification_awaits hof h hproc

/-! ### Expressions that are not -/

/-- Each trigger is for the creation of the object of its own name; those of the objects in `S` have
been notified. -/
def createDefinitions (names : List String) (S : Finset String) (n : String) :
    Option TriggerDefinition :=
  if n ∈ names then some (createTrigger n n (if n ∈ S then 1 else 0)) else none

theorem createDefinitions_mem {names : List String} {S : Finset String} {n : String}
    (h : createDefinitions names S n ≠ none) : n ∈ names := by
  rw [createDefinitions] at h
  split at h
  · assumption
  · exact absurd rfl h

theorem createDefinitions_insert {names : List String} {S : Finset String} {x : String}
    (hx : x ∈ names) : Function.update (createDefinitions names S) x (some (createTrigger x x 1)) =
      createDefinitions names (insert x S) := by
  funext n
  by_cases hn : n = x
  · rw [hn, Function.update_self, createDefinitions, if_pos hx,
      if_pos (Finset.mem_insert_self x S)]
  · rw [Function.update_of_ne hn, createDefinitions, createDefinitions]
    simp only [Finset.mem_insert, hn, false_or]

theorem definitionTable_create (names : List String) :
    definitionTable (names.map fun n => createTrigger n n 0) = createDefinitions names ∅ := by
  have hfold : ∀ (names done : List String),
      (names.map fun n => createTrigger n n 0).foldl
        (fun (table : String → Option TriggerDefinition) d =>
          Function.update table d.getTriggerName (some d)) (createDefinitions done ∅) =
        createDefinitions (done ++ names) ∅ := by
    intro names
    induction names with
    | nil => exact fun done => by rw [List.append_nil]; rfl
    | cons n names ih =>
      intro done
      have hstep : Function.update (createDefinitions done ∅) n (some (createTrigger n n 0)) =
          createDefinitions (done ++ [n]) ∅ := by
        funext m
        by_cases hm : m = n
        · rw [hm, Function.update_self, createDefinitions, if_pos (by simp)]
          rfl
        · rw [Function.update_of_ne hm, createDefinitions, createDefinitions]
          simp [hm]
      show List.foldl _ (Function.update (createDefinitions done ∅) n _) _ = _
      rw [hstep, ih, List.append_assoc, List.singleton_append]
  have hempty : createDefinitions [] ∅ = fun _ => none := by
    funext n
    rfl
  rw [definitionTable, ← hempty, hfold, List.nil_append]

/-- The creations of the objects in `S` have been notified, and the action still waits. -/
structure Created (e : TriggerExpr String) (i : ℕ) (S : Finset String) (action : Action)
    (sm : StateMachine) : Prop extends Awaits e i S action sm where
  definitions : action.triggerDefinitions = createDefinitions e.literals S

theorem Created.test {e : TriggerExpr String} {i : ℕ} {S : Finset String} {action : Action}
    {sm : StateMachine} (h : Created e i S action sm) {x : String} (hx : x ∈ e.literals)
    (hxS : x ∉ S) : action.triggerDefinitions x = some (createTrigger x x 0) := by
  rw [h.definitions, createDefinitions, if_pos hx, if_neg hxS]

/-- **A creation that matches one pending trigger** fires it and nothing else. -/
theorem Created.fires {e : TriggerExpr String} {i : ℕ} {S : Finset String}
    {action : Action} {sm : StateMachine} (h : Created e i S action sm) {x : String}
    (hx : x ∈ e.enabled S) (hxS : x ∉ S) (hclear : ¬ e.Clash (insert x S))
    (hinc : ¬ e.Complete (insert x S)) :
    ∃ sm' action', processNotification sm (createNotification x) (.ok sm') ∧
      Created e i (insert x S) action' sm' := by
  have hlit := TriggerExpr.enabled_subset_literals S e x hx
  obtain ⟨tg, htrigger, hreflects, _⟩ := (h.follows.reflects.trigger h.follows.wellNamed hx hxS).2 hclear
  have hfull := hreflects.fullyTriggered h.follows.wellNamed
  rw [decide_eq_false hinc] at hfull
  have hcur : (Loop.mk sm (createNotification x)).sm.currentAction = .ok action := h.current
  obtain ⟨timeouts, hvisit⟩ := visit_pending hcur (h.test hlit hxS) (createTrigger_self x x) rfl
    htrigger hfull
  generalize haction' : action.fire x (createTrigger x x 1) tg = action' at hvisit
  generalize hsm' : ({ sm.setAction action' with timeouts := timeouts } : StateMachine) = sm'
    at hvisit
  have hcur' : sm'.currentAction = .ok action' := by
    rw [← hsm']
    exact StateMachine.setAction_current h.current action'
  have hdefs : action'.triggerDefinitions = createDefinitions e.literals (insert x S) := by
    rw [← haction', ← createDefinitions_insert hlit, ← h.definitions]
    rfl
  refine ⟨sm', action', ?_, ⟨⟨hcur', ?_, ?_, ?_, hinc⟩, hdefs⟩⟩
  · have hloop : LoopEnds ⟨sm, createNotification x⟩ (.ok ⟨sm', createNotification x⟩) := by
      refine rangesOver_first ?_ (Round.ofExcept_fell.mpr hvisit) fun k _ hk => ?_
      · rw [Loop.toSatisfy_eq h.current]
        exact ((h.follows.reflects.pending_iff h.follows.wellNamed x).mpr ⟨hx, hxS⟩).1
      · rw [Round.ofExcept_fell]
        cases hdef : action'.triggerDefinitions k with
        | none => exact visit_undefined hcur' hdef
        | some definition =>
          obtain ⟨c, hc⟩ : ∃ c, definition = createTrigger k k c := by
            rw [hdefs, createDefinitions] at hdef
            split at hdef
            · exact ⟨_, (Option.some.inj hdef).symm⟩
            · cases hdef
          rw [hc] at hdef
          have hself : action'.define k (createTrigger k k c) = action' := by
            rw [Action.define, ← hdef, Function.update_eq_self]
          rw [visit_unsatisfied hcur' hdef (createTrigger_other k hk c) rfl]
          show Except.ok (Loop.mk (sm'.setAction (action'.define k (createTrigger k k c))) _, false) = _
          rw [hself, StateMachine.setAction_self hcur']
    exact .handled h.not_ignores hloop
  · rw [← hsm']
    exact h.index
  · rw [← hsm']
    exact h.idle
  · rw [← haction']
    exact h.follows.fire (h.test hlit hxS) _ hreflects

/-- A creation whose trigger makes both sides of a `|` complete ends the process. -/
theorem Created.crashes {e : TriggerExpr String} {i : ℕ} {S : Finset String}
    {action : Action} {sm : StateMachine} (h : Created e i S action sm) {x : String}
    (hx : x ∈ e.enabled S) (hxS : x ∉ S) (hclash : e.Clash (insert x S)) :
    ∃ n, processNotification sm (createNotification x) (.error (.inSatisfied n)) := by
  have hlit := TriggerExpr.enabled_subset_literals S e x hx
  obtain ⟨n, htrigger⟩ := (h.follows.reflects.trigger h.follows.wellNamed hx hxS).1 hclash
  refine ⟨n, ?_⟩
  have hloop : LoopEnds ⟨sm, createNotification x⟩ (.error (.inSatisfied n)) := by
    refine .fail (k := x) ?_ (Finset.notMem_empty x) (Round.ofExcept_failed.mpr ?_)
    · rw [Loop.toSatisfy_eq h.current]
      exact ((h.follows.reflects.pending_iff h.follows.wellNamed x).mpr ⟨hx, hxS⟩).1
    · exact visit_triggerFails h.current (h.test hlit hxS) (createTrigger_self x x) rfl htrigger
  exact .handled h.not_ignores hloop

/-- The creations of a whole schedule, the last of which clashes. -/
theorem Created.run {e : TriggerExpr String} {i : ℕ} {xs : List String}
    {x : String} :
    ∀ {S : Finset String} {action : Action} {sm : StateMachine}, Created e i S action sm →
      e.Schedule S (xs ++ [x]) → ¬ e.Clash (S ∪ xs.toFinset) → ¬ e.Complete (S ∪ xs.toFinset) →
      e.Clash (insert x (S ∪ xs.toFinset)) →
      ∃ n, HandledWhileCurrent i sm ((xs ++ [x]).map createNotification)
        (.error (.inSatisfied n)) := by
  induction xs with
  | nil =>
    intro S action sm h hschedule _ _ hclash
    rw [List.toFinset_nil, Finset.union_empty] at hclash
    obtain ⟨n, hrun⟩ := h.crashes hschedule.1 hschedule.2.1 hclash
    exact ⟨n, .fail ⟨h.index, h.not_ignores⟩ hrun⟩
  | cons y xs ih =>
    intro S action sm h hschedule hclear hinc hclash
    obtain ⟨hy, hyS, hrest⟩ := hschedule
    rw [List.toFinset_cons, Finset.union_insert, ← Finset.insert_union] at hclear hinc hclash
    have hsub : insert y S ⊆ insert y S ∪ xs.toFinset := Finset.subset_union_left
    obtain ⟨sm', action', hrun, h'⟩ := h.fires hy hyS
      (fun hc => hclear (TriggerExpr.clash_mono hsub hc))
      fun hc => hinc (TriggerExpr.complete_mono hsub hc)
    obtain ⟨n, hruns⟩ := ih h' hrest hclear hinc hclash
    exact ⟨n, .step ⟨h.index, h.not_ignores⟩ hrun hruns⟩

/-! ### The exact condition -/

/-- The trigger graph is safe for an expression: whatever the action's definitions are (under names
without operator characters) and whichever notifications are handled while it is current, no check
of the graph ends the process. -/
def SafeExpression (exp : String) : Prop :=
  ∀ definitions async action sm ns r,
    (∀ d ∈ definitions, OperatorFree (TriggerDefinition.getTriggerName d)) →
    parseAction exp definitions async = .ok action →
    sm.currentAction = .ok action → sm.asyncActionInExecution = false →
    HandledWhileCurrent sm.nextState sm ns r → ∀ er, r = .error er → ¬ er.GraphCheck

theorem safeExpression_iff {exp : String} {e : TriggerExpr String} (hden : Denotes 1 exp e)
    (hnd : e.literals.Nodup) : SafeExpression exp ↔ e.OrFinal := by
  have hwn : e.WellNamed := ⟨fun n hn => (hden.generates.operatorFree n hn).2, hnd⟩
  have huntouched : ∀ a ∈ e.literals, a ∉ (∅ : Finset String) := fun a _ => Finset.notMem_empty a
  constructor
  · intro hsafe
    by_contra hof
    obtain ⟨xs, x, hcrash, hinc⟩ := TriggerExpr.exists_crash_of_not_orFinal e hnd hof
    obtain ⟨tg, hreflects, hparse⟩ := parseAction_ok hden hnd
      (e.literals.map fun n => createTrigger n n 0) false
    rw [definitionTable_create] at hparse
    have hcreated : Created e 0 ∅ ⟨tg, createDefinitions e.literals ∅, false⟩
        (.new (some [⟨tg, createDefinitions e.literals ∅, false⟩])) :=
      ⟨⟨rfl, rfl, rfl, ⟨hwn, hreflects,
        fun n hn => hwn.operatorFree n (createDefinitions_mem hn)⟩,
        TriggerExpr.not_complete_of_untouched huntouched⟩, rfl⟩
    have hlast : insert x (∅ ∪ xs.toFinset) = (xs ++ [x]).toFinset := by
      rw [Finset.empty_union, List.toFinset_append, List.toFinset_cons, List.toFinset_nil,
        Finset.union_insert, Finset.union_empty]
    obtain ⟨n, hrun⟩ := hcreated.run hcrash.schedule
      (by rw [Finset.empty_union]; exact hcrash.before) (by rw [Finset.empty_union]; exact hinc)
      (by rw [hlast]; exact hcrash.clash)
    refine hsafe _ false _ (.new (some [⟨tg, createDefinitions e.literals ∅, false⟩]))
      ((xs ++ [x]).map createNotification) (.error (.inSatisfied n)) ?_ hparse rfl rfl hrun
      (.inSatisfied n) rfl trivial
    intro d hd
    obtain ⟨n, hn, rfl⟩ := List.mem_map.mp hd
    exact hwn.operatorFree n hn
  · intro hof definitions async action sm ns r hdefs hparse hcur hidle hrun
    exact handledWhileCurrent_safe hof hrun ⟨hcur, rfl, hidle,
      parseAction_follows hden hnd hdefs hparse, TriggerExpr.not_complete_of_untouched huntouched⟩

/-- **The trigger graph is safe exactly for the expressions all of whose `|` complete the whole
expression.** -/
theorem processNotification_safe_iff {exp : String} {names : List String}
    (h : Generates exp names) (hnd : names.Nodup) :
    ∃ e, Denotes 1 exp e ∧ (SafeExpression exp ↔ e.OrFinal) := by
  obtain ⟨e, hden, hlit⟩ := h.denotes
  rw [← hlit] at hnd
  exact ⟨e, hden, safeExpression_iff hden hnd⟩

/-- `a;(b|c)` is safe and `(a|b);c` is not. -/
theorem processNotification_safe_iff_witness :
    (∃ e, Denotes 1 "a;(b|c)" e ∧ (SafeExpression "a;(b|c)" ↔ e.OrFinal)) ∧
      ∃ e, Denotes 1 "(a|b);c" e ∧ (SafeExpression "(a|b);c" ↔ e.OrFinal) :=
  ⟨processNotification_safe_iff (.binary .seq (.name (n := "a") (by decide) (by decide))
      (.paren (.binary .or (.name (n := "b") (by decide) (by decide))
        (.name (n := "c") (by decide) (by decide))))) (by decide),
    processNotification_safe_iff (.binary .seq (.paren (.binary .or
      (.name (n := "a") (by decide) (by decide)) (.name (n := "b") (by decide) (by decide))))
      (.name (n := "c") (by decide) (by decide))) (by decide)⟩

/-- In `(a|b);c` the second of `a` and `b` ends the process. -/
theorem not_safeExpression_or_seq : ¬ SafeExpression "(a|b);c" := by
  have hname : ∀ n, n ≠ "" ∧ OperatorFree n → Denotes 4 n (.literal n) := fun n h => .name h.1 h.2
  have hor : Denotes 2 "a|b" (.node .or (.literal "a") (.literal "b")) :=
    .binary .or ((hname "a" (by decide)).of_le (by decide)) ((hname "b" (by decide)).of_le (by decide))
  have hden : Denotes 1 "(a|b);c" (.node .seq (.node .or (.literal "a") (.literal "b"))
      (.literal "c")) :=
    .binary .seq ((Denotes.paren hor.looser).of_le (by decide))
      ((hname "c" (by decide)).of_le (by decide))
  rw [safeExpression_iff hden (by decide)]
  decide

end Sieve.Server
