import Sieve.Analyzer.Analyze
import Sieve.Library.FoldExcept

/-!
# What the learner makes of a run

A run of the reconcilers is a list of steps; the learner logs it and reads the log again.

* `logFrom`: the lines that are logged for a run, with the rounds of each reconciler numbered;
* `newRound`, `readInRound`, `lastRead`: what has happened, told from the past alone, newest first;
* `Parsed`: what holds of the variables of `parse_reconciler_events` after a run;
* `parsed_step`, `parsed_run`: each step keeps it, so every run does.
-/

namespace Sieve.Analyzer

open Sieve.Event Sieve.Library

/-! ### Runs and their logs -/

/-- What a reconciler does. -/
inductive Step where
  | beginRound (reconcileFun : String)
  | endRound (reconcileFun : String)
  | restRead (read : ControllerRead)
  | cacheRead (read : ControllerRead)
  | write (write : ControllerWrite)

namespace Step

def begins (reconcileFun : String) : Step → Bool
  | .beginRound f => f == reconcileFun
  | _ => false

def isWrite : Step → Bool
  | .write _ => true
  | _ => false

/-- The object of the key that the reconciler reads in the step. -/
def readObj (reconcileFun key : String) : Step → Option Fields
  | .restRead read | .cacheRead read =>
    if read.reconcileFun = reconcileFun then read.keyToObj.lookup key else none
  | _ => none

end Step

/-- How many rounds the reconciler has begun. -/
def rounds (reconcileFun : String) (past : List Step) : ℕ := past.countP (Step.begins reconcileFun)

/-- The learner numbers the rounds of a reconciler from 0. -/
def stepLines (past : List Step) : Step → List LogLine
  | .beginRound f => [.beforeReconcile f (rounds f past)]
  | .endRound f => [.afterReconcile f (rounds f past - 1)]
  | .restRead read => [.afterRestRead read]
  | .cacheRead read => [.afterCacheRead read]
  | .write write => [.beforeRestWrite write.id, .afterRestWrite write]

/-- The log of the steps, after the past. -/
def logFrom : List Step → List Step → List LogLine
  | _, [] => []
  | past, step :: steps => stepLines past step ++ logFrom (step :: past) steps

theorem logFrom_append (past steps steps' : List Step) :
    logFrom past (steps ++ steps') = logFrom past steps ++ logFrom (steps.reverse ++ past) steps' := by
  induction steps generalizing past with
  | nil => rfl
  | cons step steps ih =>
    rw [List.cons_append, logFrom, logFrom, ih, List.append_assoc, List.reverse_cons,
      List.append_assoc, List.singleton_append]

/-! ### The past of a step -/

/-- Nothing has been written since the last round of the reconciler began. -/
def quiet (reconcileFun : String) : List Step → Bool
  | [] => true
  | step :: past => step.begins reconcileFun || (!step.isWrite && quiet reconcileFun past)

/-- A round that begins now is not counted with the one before it. -/
def newRound (compress : Bool) (reconcileFun : String) (past : List Step) : Bool :=
  rounds reconcileFun past == 0 || !compress || !quiet reconcileFun past

/-- The reconciler has read the key in the round that it is in. -/
def readInRound (compress : Bool) (reconcileFun key : String) : List Step → Bool
  | [] => false
  | step :: past =>
    if (step.readObj reconcileFun key).isSome && 0 < rounds reconcileFun past then true
    else if step.begins reconcileFun && newRound compress reconcileFun past then false
    else readInRound compress reconcileFun key past

/-- What the reconciler has read of the key last. -/
def lastRead (reconcileFun key : String) (past : List Step) : Option Fields :=
  past.findSome? (Step.readObj reconcileFun key)

/-! ### The variables of the learner -/

/-- The objects of the key that the reconciler has read in the round. -/
def roundObjs (reconcileFun : String) (reconcileId : ℤ) (key : String)
    (events : List ReconcilerEvent) : List Fields :=
  events.filterMap fun event =>
    match event with
    | .read read =>
      if read.reconcileFun = reconcileFun ∧ read.reconcileId = reconcileId then
        read.keyToObj.lookup key
      else none
    | _ => none

/-- After a run, with `p` lines logged and the events found in them. -/
structure Parsed (config : ReconcilerConfig) (past : List Step) (p : ℕ) (st : ParseState)
    (events : List ReconcilerEvent) : Prop where
  events_eq : (List.range p).filterMap st.tsToEventMap = events
  fresh : ∀ t, p ≤ t → st.tsToEventMap t = none
  begun : ∀ f, (st.curReconcilePerType f).isNone = (rounds f past == 0)
  trivial : ∀ f, 0 < rounds f past → st.curReconcileIsTrivial f = quiet f past
  curId : ∀ f cur, st.curReconcilePerType f = some cur →
    0 ≤ cur.reconcileId ∧ cur.reconcileId < rounds f past
  read : ∀ read, ReconcilerEvent.read read ∈ events → read.endTimestamp < p ∧
    0 ≤ read.reconcileId ∧ read.reconcileId < rounds read.reconcileFun past
  write : ∀ write, ReconcilerEvent.write write ∈ events → write.startTimestamp < p
  round : ∀ f cur key, st.curReconcilePerType f = some cur →
    (roundObjs f cur.reconcileId key events).getLast? =
      if readInRound config.compressTrivialReconcileEnabled f key past then lastRead f key past
      else none

/-- The events of a step are not older than the step. -/
def NotBefore (p : ℕ) (new : List ReconcilerEvent) : Prop :=
  (∀ read, ReconcilerEvent.read read ∈ new → (p : ℤ) ≤ read.endTimestamp) ∧
    ∀ write, ReconcilerEvent.write write ∈ new → (p : ℤ) ≤ write.startTimestamp

theorem parsed_init (config : ReconcilerConfig) : Parsed config [] 0 .init [] where
  events_eq := rfl
  fresh := fun _ _ => rfl
  begun := fun _ => rfl
  trivial := fun _ h => absurd h (Nat.lt_irrefl 0)
  curId := fun _ _ h => absurd h (Option.some_ne_none _).symm
  read := fun _ h => absurd h List.not_mem_nil
  write := fun _ h => absurd h List.not_mem_nil
  round := fun _ _ _ h => absurd h (Option.some_ne_none _).symm

/-! ### One step -/

section Timestamps

variable {m : ℕ → Option ReconcilerEvent} {p : ℕ}

theorem filterMap_range_add (m : ℕ → Option ReconcilerEvent) (p : ℕ) (event : ReconcilerEvent) :
    (List.range (p + 1)).filterMap (Function.update m p (some event)) =
      (List.range p).filterMap m ++ [event] := by
  have hold : (List.range p).filterMap (Function.update m p (some event)) =
      (List.range p).filterMap m := by
    apply List.filterMap_congr
    intro t ht
    rw [List.mem_range] at ht
    exact Function.update_of_ne (Nat.ne_of_lt ht) _ _
  rw [List.range_succ, List.filterMap_append, hold]
  simp

theorem filterMap_range_skip (h : m p = none) :
    (List.range (p + 1)).filterMap m = (List.range p).filterMap m := by
  rw [List.range_succ, List.filterMap_append]
  simp [h]

theorem fresh_add {event : ReconcilerEvent} (h : ∀ t, p ≤ t → m t = none) :
    ∀ t, p + 1 ≤ t → Function.update m p (some event) t = none := by
  intro t ht
  rw [Function.update_of_ne (by omega)]
  exact h t (by omega)

end Timestamps

theorem roundObjs_append (f : String) (id : ℤ) (key : String) (events new : List ReconcilerEvent) :
    roundObjs f id key (events ++ new) = roundObjs f id key events ++ roundObjs f id key new := by
  rw [roundObjs, List.filterMap_append]
  rfl

section Step

variable {config : ReconcilerConfig} {past : List Step} {p p' : ℕ} {st st' : ParseState}
  {events new : List ReconcilerEvent} {step : Step}

/-- Which steps keep the rounds: those that begin none. -/
theorem Parsed.within (h : Parsed config past p st events) (hbegins : ∀ f, step.begins f = false)
    (hp : p ≤ p') (hcur : st'.curReconcilePerType = st.curReconcilePerType)
    (htrivial : ∀ f, 0 < rounds f past → st'.curReconcileIsTrivial f = quiet f (step :: past))
    (hevents : (List.range p').filterMap st'.tsToEventMap = events ++ new)
    (hfresh : ∀ t, p' ≤ t → st'.tsToEventMap t = none)
    (hread : ∀ read, ReconcilerEvent.read read ∈ new → read.endTimestamp < p' ∧
      ∃ cur, st.curReconcilePerType read.reconcileFun = some cur ∧
        read.reconcileId = cur.reconcileId)
    (hwrite : ∀ write, ReconcilerEvent.write write ∈ new → write.startTimestamp < p')
    (hround : ∀ f cur key, st.curReconcilePerType f = some cur →
      roundObjs f cur.reconcileId key new = (step.readObj f key).toList) :
    Parsed config (step :: past) p' st' (events ++ new) := by
  have hrounds : ∀ f, rounds f (step :: past) = rounds f past := by
    intro f
    rw [rounds, List.countP_cons_of_neg (by simp [hbegins f]), rounds]
  refine ⟨hevents, hfresh, ?_, ?_, ?_, ?_, ?_, ?_⟩
  · intro f
    rw [hcur, hrounds]
    exact h.begun f
  · intro f hf
    rw [hrounds] at hf
    exact htrivial f hf
  · intro f cur hf
    rw [hcur] at hf
    rw [hrounds]
    exact h.curId f cur hf
  · intro read hmem
    rw [hrounds]
    obtain hmem | hmem := List.mem_append.mp hmem
    · have := h.read read hmem
      omega
    · obtain ⟨hend, cur, hf, hid⟩ := hread read hmem
      have := h.curId _ cur hf
      omega
  · intro write hmem
    obtain hmem | hmem := List.mem_append.mp hmem
    · have := h.write write hmem
      omega
    · exact hwrite write hmem
  · intro f cur key hf
    rw [hcur] at hf
    have hbegan : 0 < rounds f past := by
      have := h.begun f
      rw [hf, Option.isNone_some, eq_comm, beq_eq_false_iff_ne] at this
      omega
    rw [roundObjs_append, hround f cur key hf, readInRound, lastRead, List.findSome?_cons, hbegins]
    cases hobj : step.readObj f key with
    | none =>
      simp only [Option.toList_none, List.append_nil, Option.isSome_none, Bool.false_and,
        Bool.false_eq_true, if_false]
      exact h.round f cur key hf
    | some obj => simp [hbegan]

theorem parsed_endRound {f : String} {id : ℤ} (h : Parsed config past p st events)
    (hparse : parseAfterReconcile p st f id = .ok st') :
    Parsed config (.endRound f :: past) (p + 1) st' (events ++ [.reconcileEnd ⟨f, id, p⟩]) := by
  rw [parseAfterReconcile] at hparse
  split at hparse
  · have hst := Except.ok.inj hparse
    have hcur : st'.curReconcilePerType = st.curReconcilePerType := by
      rw [← hst]
      split <;> rfl
    have htrivial : st'.curReconcileIsTrivial = st.curReconcileIsTrivial := by
      rw [← hst]
      split <;> rfl
    have hts : st'.tsToEventMap =
        Function.update st.tsToEventMap p (some (.reconcileEnd ⟨f, id, p⟩)) := by
      rw [← hst]
      split <;> rfl
    refine h.within (fun _ => rfl) (Nat.le_succ p) hcur ?_ ?_ ?_ (fun _ hmem => ?_)
      (fun _ hmem => ?_) ?_
    · intro g hg
      rw [htrivial]
      exact h.trivial g hg
    · rw [hts, filterMap_range_add, h.events_eq]
    · rw [hts]
      exact fresh_add h.fresh
    · simp at hmem
    · simp at hmem
    · intro _ _ _ _
      rfl
  · cases hparse

/-- A read is an event once its reconciler has begun a round. -/
theorem parsed_read {read : ControllerRead} (h : Parsed config past p st events)
    (hobj : ∀ f key, step.readObj f key =
      if read.reconcileFun = f then read.keyToObj.lookup key else none)
    (hbegins : ∀ f, step.begins f = false) (hisWrite : step.isWrite = false)
    (hcur : st'.curReconcilePerType = st.curReconcilePerType)
    (htrivial : st'.curReconcileIsTrivial = st.curReconcileIsTrivial)
    (hts : st'.tsToEventMap = (parseAfterRestRead p st read).tsToEventMap) :
    ∃ new, Parsed config (step :: past) (p + 1) st' (events ++ new) ∧ NotBefore p new := by
  have hquiet : ∀ f, 0 < rounds f past → st'.curReconcileIsTrivial f = quiet f (step :: past) := by
    intro f hf
    rw [htrivial, h.trivial f hf, quiet, hbegins, hisWrite]
    rfl
  rw [parseAfterRestRead] at hts
  cases hread : st.curReconcilePerType read.reconcileFun with
  | none =>
    rw [hread] at hts
    refine ⟨[], h.within hbegins (Nat.le_succ p) hcur hquiet ?_ ?_
      (fun _ hmem => absurd hmem List.not_mem_nil) (fun _ hmem => absurd hmem List.not_mem_nil) ?_,
      fun _ hmem => absurd hmem List.not_mem_nil, fun _ hmem => absurd hmem List.not_mem_nil⟩
    · rw [hts, filterMap_range_skip (h.fresh p (Nat.le_refl p)), h.events_eq, List.append_nil]
    · intro t ht
      rw [hts]
      exact h.fresh t (by omega)
    · intro f cur key hf
      have hne : read.reconcileFun ≠ f := by
        intro heq
        rw [heq, hf] at hread
        cases hread
      rw [hobj, if_neg hne]
      rfl
  | some cur =>
    rw [hread] at hts
    have hts : st'.tsToEventMap = Function.update st.tsToEventMap p
        (some (.read { read with endTimestamp := p, reconcileId := cur.reconcileId })) := hts
    have hp : (p : ℤ) < ((p + 1 : ℕ) : ℤ) := by omega
    refine ⟨[.read { read with endTimestamp := p, reconcileId := cur.reconcileId }],
      h.within hbegins (Nat.le_succ p) hcur hquiet ?_ ?_ ?_ (fun _ hmem => ?_) ?_, ?_,
      fun _ hmem => ?_⟩
    · rw [hts, filterMap_range_add, h.events_eq]
    · rw [hts]
      exact fresh_add h.fresh
    · intro read' hmem
      rw [List.mem_singleton, ReconcilerEvent.read.injEq] at hmem
      rw [hmem]
      exact ⟨hp, cur, hread, rfl⟩
    · simp at hmem
    · intro f cur' key hf
      rw [hobj, roundObjs]
      by_cases heq : read.reconcileFun = f
      · have hid : cur.reconcileId = cur'.reconcileId := by
          rw [← heq, hread] at hf
          rw [Option.some.inj hf]
        cases hlookup : read.keyToObj.lookup key <;> simp [heq, hid, hlookup]
      · simp [heq]
    · intro read' hmem
      rw [List.mem_singleton, ReconcilerEvent.read.injEq] at hmem
      rw [hmem]
    · simp at hmem

theorem newRound_eq (h : Parsed config past p st events) (f : String) :
    ((st.curReconcilePerType f).isNone || !config.compressTrivialReconcileEnabled ||
      !st.curReconcileIsTrivial f) = newRound config.compressTrivialReconcileEnabled f past := by
  rw [newRound, h.begun]
  by_cases hrounds : rounds f past = 0
  · simp [hrounds]
  · rw [h.trivial f (by omega)]

/-- A round that has not begun has no reads. -/
theorem roundObjs_eq_nil (h : Parsed config past p st events) {f : String} {id : ℤ} (key : String)
    (hid : 0 ≤ id → rounds f past ≤ id) : roundObjs f id key events = [] := by
  rw [roundObjs, List.filterMap_eq_nil_iff]
  intro event hmem
  cases event with
  | read read =>
    have hread := (h.read read hmem).2
    have hne : ¬ (read.reconcileFun = f ∧ read.reconcileId = id) := by
      intro heq
      rw [heq.1, heq.2] at hread
      have := hid hread.1
      omega
    exact if_neg hne
  | _ => rfl

theorem parsed_beginRound {f : String} (h : Parsed config past p st events)
    (hparse : parseBeforeReconcile config p st f (rounds f past) = .ok st') :
    Parsed config (.beginRound f :: past) (p + 1) st'
      (events ++ [.reconcileBegin ⟨f, rounds f past, p⟩]) := by
  have hself : rounds f (.beginRound f :: past) = rounds f past + 1 := by
    simp [rounds, Step.begins]
  have hother : ∀ g, g ≠ f → rounds g (.beginRound f :: past) = rounds g past := by
    intro g hg
    simp [rounds, Step.begins, Ne.symm hg]
  rw [parseBeforeReconcile] at hparse
  split at hparse
  · cases hparse
  · have hst := Except.ok.inj hparse
    have hcurOther : ∀ g, g ≠ f → st'.curReconcilePerType g = st.curReconcilePerType g := by
      intro g hg
      rw [← hst]
      simp only
      split
      · exact Function.update_of_ne hg _ _
      · rfl
    have hcurSelf : st'.curReconcilePerType f =
        if newRound config.compressTrivialReconcileEnabled f past then
          some ⟨f, rounds f past, p⟩ else st.curReconcilePerType f := by
      rw [← newRound_eq h, ← hst]
      simp only [ParseState.addEvent]
      by_cases hnew : ((st.curReconcilePerType f).isNone ||
        !config.compressTrivialReconcileEnabled || !st.curReconcileIsTrivial f) = true
      · simp only [hnew, if_true, Function.update_self]
      · simp only [hnew, if_false, Bool.false_eq_true]
    have htrivial : st'.curReconcileIsTrivial = Function.update st.curReconcileIsTrivial f true := by
      rw [← hst]
      simp only
      split <;> rfl
    have hts : st'.tsToEventMap = Function.update st.tsToEventMap p
        (some (.reconcileBegin ⟨f, rounds f past, p⟩)) := by
      rw [← hst]
      simp only
      split <;> rfl
    have hroundObjs : ∀ g id key, roundObjs g id key
        (events ++ [.reconcileBegin ⟨f, rounds f past, p⟩]) = roundObjs g id key events := by
      intro g id key
      rw [roundObjs_append]
      exact List.append_nil _
    refine ⟨?_, ?_, ?_, ?_, ?_, ?_, ?_, ?_⟩
    · rw [hts, filterMap_range_add, h.events_eq]
    · rw [hts]
      exact fresh_add h.fresh
    · intro g
      by_cases hg : g = f
      · rw [hg, hself, hcurSelf]
        cases hnew : newRound config.compressTrivialReconcileEnabled f past with
        | true => simp
        | false =>
          rw [newRound, Bool.or_eq_false_iff, Bool.or_eq_false_iff] at hnew
          simp only [Bool.false_eq_true, if_false]
          rw [h.begun, hnew.1.1]
          simp
      · rw [hother g hg, hcurOther g hg]
        exact h.begun g
    · intro g hrounds
      rw [htrivial, quiet]
      by_cases hg : g = f
      · simp [hg, Step.begins]
      · rw [hother g hg] at hrounds
        rw [Function.update_of_ne hg, h.trivial g hrounds]
        simp [Step.begins, Step.isWrite, Ne.symm hg]
    · intro g cur hcur
      by_cases hg : g = f
      · rw [hg, hcurSelf] at hcur
        rw [hg, hself]
        split at hcur
        · rw [← Option.some.inj hcur]
          simp only
          omega
        · have := h.curId f cur hcur
          omega
      · rw [hcurOther g hg] at hcur
        rw [hother g hg]
        exact h.curId g cur hcur
    · intro read hmem
      have hmem : ReconcilerEvent.read read ∈ events := by simpa using hmem
      have hread := h.read read hmem
      have hle : rounds read.reconcileFun past ≤ rounds read.reconcileFun (.beginRound f :: past) :=
        (List.sublist_cons_self _ _).countP_le
      omega
    · intro write hmem
      have hmem : ReconcilerEvent.write write ∈ events := by simpa using hmem
      have := h.write write hmem
      omega
    · intro g cur key hcur
      rw [hroundObjs, readInRound, lastRead, List.findSome?_cons]
      simp only [Step.readObj, Option.isSome_none, Bool.false_and, Bool.false_eq_true, if_false]
      by_cases hg : g = f
      · rw [hg, hcurSelf] at hcur
        rw [hg]
        cases hnew : newRound config.compressTrivialReconcileEnabled f past with
        | true =>
          rw [hnew, if_pos rfl] at hcur
          rw [← Option.some.inj hcur, roundObjs_eq_nil h key fun _ => Int.le_refl _]
          simp [Step.begins]
        | false =>
          rw [hnew, if_neg Bool.false_ne_true] at hcur
          simp only [Bool.and_false, Bool.false_eq_true, if_false]
          exact h.round f cur key hcur
      · rw [hcurOther g hg] at hcur
        simp only [Step.begins, beq_eq_false_iff_ne.mpr (Ne.symm hg), Bool.false_and,
          Bool.false_eq_true, if_false]
        exact h.round g cur key hcur

theorem setRange_ok {write write' : ControllerWrite} {a b : ℤ}
    (h : write.setRange a b = .ok write') :
    write' = { write with rangeStartTimestamp := a, rangeEndTimestamp := b } := by
  rw [ControllerWrite.setRange] at h
  split at h
  · exact (Except.ok.inj h).symm
  · cases h

/-- The event of a write. -/
structure WriteEvent (p : ℕ) (st : ParseState) (write write' : ControllerWrite) : Prop where
  start : write'.startTimestamp = p
  reconcileFun : write'.reconcileFun = write.reconcileFun
  key : write'.key = write.key
  round : ∀ cur, st.curReconcilePerType write.reconcileFun = some cur →
    write'.reconcileId = cur.reconcileId

/-- What the two lines of a write do. -/
theorem parse_write {write : ControllerWrite}
    (hparse : parseLines config p st (stepLines past (.write write)) = .ok st') :
    st'.curReconcilePerType = st.curReconcilePerType ∧
      (∀ f, st'.curReconcileIsTrivial f = false) ∧
      (st'.tsToEventMap = st.tsToEventMap ∨ ∃ write', WriteEvent p st write write' ∧
        st'.tsToEventMap = Function.update st.tsToEventMap p (some (.write write'))) := by
  rw [stepLines, parseLines, parseLine] at hparse
  obtain ⟨st₁, hst₁, hparse⟩ := bind_ok_iff.mp hparse
  rw [parseLines, parseLine] at hparse
  obtain ⟨st₂, hst₂, hparse⟩ := bind_ok_iff.mp hparse
  rw [← Except.ok.inj hparse]
  rw [← Except.ok.inj hst₁, parseAfterRestWrite] at hst₂
  simp only [Function.update_self] at hst₂
  split at hst₂
  · rw [← Except.ok.inj hst₂]
    exact ⟨rfl, fun _ => rfl, .inl rfl⟩
  · cases hcur : st.curReconcilePerType write.reconcileFun with
    | none =>
      rw [hcur] at hst₂
      rw [← Except.ok.inj hst₂]
      refine ⟨rfl, fun _ => rfl, .inr ⟨_, ?_, rfl⟩⟩
      refine ⟨rfl, rfl, rfl, fun cur h => ?_⟩
      rw [hcur] at h
      cases h
    | some cur =>
      rw [hcur] at hst₂
      obtain ⟨write₁, hrange, hst₂⟩ := bind_ok_iff.mp hst₂
      rw [← Except.ok.inj hst₂]
      have hwrite := setRange_ok hrange
      refine ⟨rfl, fun _ => rfl, .inr ⟨_, ?_, rfl⟩⟩
      refine ⟨?_, ?_, ?_, ?_⟩
      · rw [hwrite]
      · rw [hwrite]
      · rw [hwrite]
        rfl
      · intro cur' h
        rw [hcur] at h
        rw [Option.some.inj h]

theorem parsed_write {write : ControllerWrite} (h : Parsed config past p st events)
    (hparse : parseLines config p st (stepLines past (.write write)) = .ok st') :
    ∃ new, Parsed config (.write write :: past) (p + 2) st' (events ++ new) ∧ NotBefore p new ∧
      ∀ event ∈ new, ∃ write', event = .write write' ∧ WriteEvent p st write write' := by
  obtain ⟨hcur, htrivial, hts⟩ := parse_write hparse
  have hquiet : ∀ f, 0 < rounds f past →
      st'.curReconcileIsTrivial f = quiet f (.write write :: past) := by
    intro f _
    rw [htrivial]
    rfl
  obtain hts | ⟨write', hevent, hts⟩ := hts
  · refine ⟨[], h.within (fun _ => rfl) (by omega) hcur hquiet ?_ ?_
      (fun _ hmem => absurd hmem List.not_mem_nil) (fun _ hmem => absurd hmem List.not_mem_nil)
      (fun _ _ _ _ => rfl), ⟨fun _ hmem => absurd hmem List.not_mem_nil,
      fun _ hmem => absurd hmem List.not_mem_nil⟩, fun _ hmem => absurd hmem List.not_mem_nil⟩
    · rw [hts, filterMap_range_skip (h.fresh (p + 1) (by omega)),
        filterMap_range_skip (h.fresh p (Nat.le_refl p)), h.events_eq, List.append_nil]
    · intro t ht
      rw [hts]
      exact h.fresh t (by omega)
  · have hp : (p : ℤ) < ((p + 2 : ℕ) : ℤ) := by omega
    refine ⟨[.write write'], h.within (fun _ => rfl) (by omega) hcur hquiet ?_ ?_
      (fun _ hmem => ?_) (fun _ hmem => ?_) (fun _ _ _ _ => rfl), ⟨fun _ hmem => ?_,
      fun _ hmem => ?_⟩, fun event hmem => ⟨write', List.mem_singleton.mp hmem, hevent⟩⟩
    · rw [hts, filterMap_range_skip (fresh_add h.fresh (p + 1) (Nat.le_refl _)),
        filterMap_range_add, h.events_eq]
    · intro t ht
      rw [hts]
      exact fresh_add h.fresh t (by omega)
    · simp at hmem
    · rw [List.mem_singleton, ReconcilerEvent.write.injEq] at hmem
      rw [hmem, hevent.start]
      exact hp
    · simp at hmem
    · rw [List.mem_singleton, ReconcilerEvent.write.injEq] at hmem
      rw [hmem, hevent.start]

theorem parsed_step (h : Parsed config past p st events)
    (hparse : parseLines config p st (stepLines past step) = .ok st') :
    ∃ new, Parsed config (step :: past) (p + (stepLines past step).length) st' (events ++ new) ∧
      NotBefore p new := by
  cases step with
  | beginRound f =>
    obtain ⟨st₁, hst₁, hparse⟩ := bind_ok_iff.mp hparse
    rw [← Except.ok.inj hparse]
    refine ⟨_, parsed_beginRound h hst₁, ?_, ?_⟩ <;> intro _ hmem <;> simp at hmem
  | endRound f =>
    obtain ⟨st₁, hst₁, hparse⟩ := bind_ok_iff.mp hparse
    rw [← Except.ok.inj hparse]
    refine ⟨_, parsed_endRound h hst₁, ?_, ?_⟩ <;> intro _ hmem <;> simp at hmem
  | restRead read =>
    obtain ⟨st₁, hst₁, hparse⟩ := bind_ok_iff.mp hparse
    rw [← Except.ok.inj hparse, ← Except.ok.inj hst₁]
    refine parsed_read h (fun _ _ => rfl) (fun _ => rfl) rfl ?_ ?_ rfl
    · rw [parseAfterRestRead]
      split <;> rfl
    · rw [parseAfterRestRead]
      split <;> rfl
  | cacheRead read =>
    obtain ⟨st₁, hst₁, hparse⟩ := bind_ok_iff.mp hparse
    rw [← Except.ok.inj hparse, ← Except.ok.inj hst₁]
    refine parsed_read h (fun _ _ => rfl) (fun _ => rfl) rfl ?_ ?_ ?_
    all_goals
      rw [parseAfterCacheRead]
      try rw [parseAfterRestRead]
      cases st.curReconcilePerType read.reconcileFun with
      | none => rfl
      | some cur => cases read.etype <;> rfl
  | write write =>
    obtain ⟨new, hparsed, hnew, _⟩ := parsed_write h hparse
    exact ⟨new, hparsed, hnew⟩

end Step

/-! ### Whole runs -/

theorem parseLines_append {config : ReconcilerConfig} {p : ℕ} {st st' : ParseState}
    {lines lines' : List LogLine} : parseLines config p st (lines ++ lines') = .ok st' ↔
      ∃ st₁, parseLines config p st lines = .ok st₁ ∧
        parseLines config (p + lines.length) st₁ lines' = .ok st' := by
  induction lines generalizing p st with
  | nil => exact ⟨fun h => ⟨st, rfl, h⟩, fun ⟨_, h, h'⟩ => Except.ok.inj h ▸ h'⟩
  | cons line lines ih =>
    rw [List.cons_append, parseLines, parseLines, bind_ok_iff]
    simp only [bind_ok_iff, ih, List.length_cons, Nat.add_assoc, Nat.add_comm 1]
    constructor
    · intro h
      obtain ⟨st₁, hline, st₂, hst₂, hst'⟩ := h
      exact ⟨st₂, ⟨st₁, hline, hst₂⟩, hst'⟩
    · intro h
      obtain ⟨st₂, ⟨st₁, hline, hst₂⟩, hst'⟩ := h
      exact ⟨st₁, hline, st₂, hst₂, hst'⟩

/-- **What holds after a run**, whatever ran before. -/
theorem parsed_run {config : ReconcilerConfig} {past steps : List Step} {p : ℕ}
    {st st' : ParseState} {events : List ReconcilerEvent} (h : Parsed config past p st events)
    (hparse : parseLines config p st (logFrom past steps) = .ok st') :
    ∃ later, Parsed config (steps.reverse ++ past) (p + (logFrom past steps).length) st'
      (events ++ later) ∧ NotBefore p later := by
  induction steps generalizing past p st events with
  | nil =>
    rw [← Except.ok.inj hparse]
    exact ⟨[], by rw [List.append_nil]; exact h, by simp [NotBefore]⟩
  | cons step steps ih =>
    rw [logFrom, parseLines_append] at hparse
    obtain ⟨st₁, hstep, hrest⟩ := hparse
    obtain ⟨new, hnew, hold⟩ := parsed_step h hstep
    obtain ⟨later, hlater, hold'⟩ := ih hnew hrest
    refine ⟨new ++ later, ?_, fun read hmem => ?_, fun write hmem => ?_⟩
    · rw [logFrom, List.length_append, ← Nat.add_assoc, List.reverse_cons, List.append_assoc,
        List.singleton_append, ← List.append_assoc]
      exact hlater
    · obtain hmem | hmem := List.mem_append.mp hmem
      · exact hold.1 read hmem
      · have := hold'.1 read hmem
        omega
    · obtain hmem | hmem := List.mem_append.mp hmem
      · exact hold.2 write hmem
      · have := hold'.2 write hmem
        omega

end Sieve.Analyzer
