import Sieve.Analyzer.AnalyzeLog
import Sieve.Analyzer.AnalyzeRun

/-!
# Logs that are accepted

What `parse_reconciler_events` knows in the middle of a log that it goes through, sane or not:

* `reads_of_ok`, `reads_of_run`: the variables say the same about the past as in a sane log;
* `StoredWrite`: the write that the loop enters for a line;
* `stored_of_begun`: it enters one for every write of a reconciler that has begun a round;
* `write_mem_stored`: every write that is returned has been entered so.
-/

namespace Sieve.Analyzer

open Sieve.Library

variable {config : ReconcilerConfig} {past lines : List LogLine} {st st' : ParseState}

/-! ### One line -/

/-- A write changes the events and the rounds that count as trivial. -/
theorem parseAfterRestWrite_ok {write : ControllerWrite} {i : ℕ}
    (h : parseAfterRestWrite config i st write = .ok st') :
    ∃ m, st' = { st with curReconcileIsTrivial := fun _ => false, tsToEventMap := m } := by
  rw [parseAfterRestWrite] at h
  split at h
  · exact ⟨_, (Except.ok.inj h).symm⟩
  · split at h
    · cases h
    · split at h
      · exact ⟨_, (Except.ok.inj h).symm⟩
      · obtain ⟨learned, -, h⟩ := bind_ok_iff.mp h
        exact ⟨_, (Except.ok.inj h).symm⟩

theorem parseAfterAnnotatedAPIInvocation_ok {call : ControllerNonK8sWrite} {i : ℕ}
    (h : parseAfterAnnotatedAPIInvocation config i st call = .ok st') :
    ∃ m, st' = { st with curReconcileIsTrivial := fun _ => false, tsToEventMap := m } := by
  rw [parseAfterAnnotatedAPIInvocation] at h
  split at h
  · exact ⟨_, (Except.ok.inj h).symm⟩
  · split at h
    · cases h
    · split at h
      · exact ⟨_, (Except.ok.inj h).symm⟩
      · cases h

/-- **A line that is gone through** keeps what the variables say about the past. -/
theorem reads_of_ok {line : LogLine} (h : Reads config past st)
    (hparse : parseLine config past.length st line = .ok st') : Reads config (line :: past) st' := by
  cases line with
  | beforeRestWrite id =>
    rw [← Except.ok.inj hparse]
    refine ⟨h.cur, h.prev, h.trivial, h.ongoing, fun id' => ?_, h.calls⟩
    exact lastLine_update h.writes id id' (by
      rw [isBeforeRestWrite_iff, LogLine.beforeRestWrite.injEq, eq_comm])
  | beforeAnnotatedAPIInvocation id =>
    rw [← Except.ok.inj hparse]
    refine ⟨h.cur, h.prev, h.trivial, h.ongoing, h.writes, fun id' => ?_⟩
    exact lastLine_update h.calls id id' (by
      rw [isBeforeAnnotatedAPIInvocation_iff, LogLine.beforeAnnotatedAPIInvocation.injEq, eq_comm])
  | afterRestWrite write =>
    obtain ⟨m, hst⟩ := parseAfterRestWrite_ok hparse
    rw [hst]
    exact ⟨h.cur, h.prev, fun _ _ => rfl, h.ongoing, h.writes, h.calls⟩
  | afterAnnotatedAPIInvocation call =>
    obtain ⟨m, hst⟩ := parseAfterAnnotatedAPIInvocation_ok hparse
    rw [hst]
    exact ⟨h.cur, h.prev, fun _ _ => rfl, h.ongoing, h.writes, h.calls⟩
  | afterRestRead read =>
    rw [← Except.ok.inj hparse, parseAfterRestRead_eq]
    exact ⟨h.cur, h.prev, h.trivial, h.ongoing, h.writes, h.calls⟩
  | afterCacheRead read =>
    obtain ⟨keys, types, hst⟩ := parseAfterCacheRead_eq past.length st read
    rw [← Except.ok.inj hparse, hst, parseAfterRestRead_eq]
    exact ⟨h.cur, h.prev, h.trivial, h.ongoing, h.writes, h.calls⟩
  | beforeReconcile f id =>
    have hidle : Ongoing f (past.map LogLine.status) = false := by
      rw [← Bool.not_eq_true, ← h.ongoing f]
      intro hmem
      rw [parseLine, parseBeforeReconcile, if_pos hmem] at hparse
      cases hparse
    obtain ⟨st₁, hst₁, hreads, -⟩ := @reads_beforeReconcile config f past st id h hidle
    rw [parseLine, hst₁] at hparse
    exact Except.ok.inj hparse ▸ hreads
  | afterReconcile f id =>
    have hongoing : Ongoing f (past.map LogLine.status) = true := by
      rw [← h.ongoing f]
      by_contra hmem
      rw [parseLine, parseAfterReconcile, if_neg hmem] at hparse
      cases hparse
    obtain ⟨st₁, hst₁, hreads, -⟩ := @reads_afterReconcile config f past st id h hongoing
    rw [parseLine, hst₁] at hparse
    exact Except.ok.inj hparse ▸ hreads
  | other =>
    rw [← Except.ok.inj hparse]
    exact ⟨h.cur, h.prev, h.trivial, h.ongoing, h.writes, h.calls⟩

/-! ### Prefixes of the log -/

theorem parseLines_snoc {line : LogLine} {p : ℕ} : parseLines config p st (lines ++ [line]) = .ok st' ↔
    ∃ st₁, parseLines config p st lines = .ok st₁ ∧
      parseLine config (p + lines.length) st₁ line = .ok st' := by
  rw [parseLines_append]
  refine exists_congr fun st₁ => and_congr_right fun _ => ?_
  rw [parseLines, bind_ok_iff]
  constructor
  · intro h
    obtain ⟨st₂, hline, hst₂⟩ := h
    rw [hline, ← Except.ok.inj hst₂]
  · exact fun h => ⟨st', h, rfl⟩

/-- **What the variables say** in the middle of a log that is gone through. -/
theorem reads_of_run (hparse : parseLines config 0 .init lines = .ok st) :
    Reads config lines.reverse st := by
  induction lines using List.reverseRecOn generalizing st with
  | nil => exact Except.ok.inj hparse ▸ reads_init config
  | append_singleton lines line ih =>
    obtain ⟨st₁, hrun, hline⟩ := parseLines_snoc.mp hparse
    rw [List.reverse_append, List.reverse_singleton, List.singleton_append]
    refine reads_of_ok (ih hrun) ?_
    rw [List.length_reverse]
    rwa [Nat.zero_add] at hline

/-! ### The writes that are entered -/

/-- For this line, after those before it, the loop enters the write. -/
def StoredWrite (config : ReconcilerConfig) (before : List LogLine) (write learned : ControllerWrite) :
    Prop :=
  ∃ st st' start, parseLines config 0 .init before = .ok st ∧
    parseLine config before.length st (.afterRestWrite write) = .ok st' ∧
    st.writeStartTimestampMap write.id = some start ∧
    st'.tsToEventMap start = some (.write learned)

/-- The write in a round, as the loop completes it. -/
def completeWrite (st : ParseState) (cur : ReconcileMark) (start i : ℕ) (write : ControllerWrite) :
    ControllerWrite :=
  { write with
    readKeys := st.readKeysThisReconcile
    readTypes := st.readTypesThisReconcile
    startTimestamp := start
    endTimestamp := i
    rangeStartTimestamp := st.earliestTimestamp write.reconcileFun
    rangeEndTimestamp := i
    reconcileId := cur.reconcileId }

/-- A write of a reconciler that has begun a round. -/
theorem parseAfterRestWrite_inRound {write : ControllerWrite} {cur : ReconcileMark} {i : ℕ}
    (hcur : st.curReconcilePerType write.reconcileFun = some cur)
    (h : parseAfterRestWrite config i st write = .ok st') :
    ∃ start, st.writeStartTimestampMap write.id = some start ∧
      st'.tsToEventMap = Function.update st.tsToEventMap start
        (some (.write (completeWrite st cur start i write))) := by
  rw [parseAfterRestWrite] at h
  simp only [hcur, Option.isNone_some, Bool.false_and, Bool.false_eq_true, if_false] at h
  cases hstart : st.writeStartTimestampMap write.id with
  | none =>
    rw [hstart] at h
    cases h
  | some start =>
    rw [hstart] at h
    obtain ⟨learned, hrange, hst⟩ := bind_ok_iff.mp h
    refine ⟨start, rfl, ?_⟩
    rw [← Except.ok.inj hst, setRange_ok hrange]
    rfl

/-- **A write is entered** for every line of a reconciler that has begun a round. -/
theorem stored_of_begun {before after : List LogLine} {write : ControllerWrite}
    (hparse : parseLines config 0 .init (before ++ .afterRestWrite write :: after) = .ok st')
    (hbegun : HasBegun write.reconcileFun before) :
    ∃ st cur marks start, parseLines config 0 .init before = .ok st ∧
      roundMarks config.compressTrivialReconcileEnabled write.reconcileFun before.reverse =
        cur :: marks ∧
      StoredWrite config before write (completeWrite st cur start before.length write) := by
  obtain ⟨st, hbefore, hrest⟩ := parseLines_append.mp hparse
  rw [parseLines, bind_ok_iff, Nat.zero_add] at hrest
  obtain ⟨st₁, hline, -⟩ := hrest
  have hreads := reads_of_run hbefore
  have hbegun' : HasBegun write.reconcileFun before.reverse := by
    obtain ⟨id, hmem⟩ := hbegun
    exact ⟨id, List.mem_reverse.mpr hmem⟩
  obtain ⟨cur, marks, hmarks⟩ := List.exists_cons_of_ne_nil
    ((@roundMarks_ne_nil config.compressTrivialReconcileEnabled _ _).mpr hbegun')
  have hcur : st.curReconcilePerType write.reconcileFun = some cur := by
    rw [hreads.cur, hmarks]
    rfl
  obtain ⟨start, hstart, hm⟩ := parseAfterRestWrite_inRound hcur hline
  refine ⟨st, cur, marks, start, hbefore, hmarks, st, st₁, start, hbefore, hline, hstart, ?_⟩
  rw [hm, Function.update_self]

/-- Only the line of a write enters a write. -/
theorem parseLine_write_entry {line : LogLine} {i t : ℕ} {learned : ControllerWrite}
    (hparse : parseLine config i st line = .ok st')
    (hentry : st'.tsToEventMap t = some (.write learned)) :
    st.tsToEventMap t = some (.write learned) ∨
      ∃ write, line = .afterRestWrite write ∧ st.writeStartTimestampMap write.id = some t := by
  have hupdate : ∀ {start : ℕ} {event : ReconcilerEvent},
      Function.update st.tsToEventMap start (some event) t = some (.write learned) →
      event = .write learned ∧ t = start ∨ st.tsToEventMap t = some (.write learned) := by
    intro start event h
    by_cases heq : t = start
    · rw [heq, Function.update_self] at h
      exact .inl ⟨Option.some.inj h, heq⟩
    · rw [Function.update_of_ne heq] at h
      exact .inr h
  cases line with
  | afterRestWrite write =>
    rw [parseLine, parseAfterRestWrite] at hparse
    split at hparse
    · rw [← Except.ok.inj hparse] at hentry
      exact .inl hentry
    · split at hparse
      · cases hparse
      · rename_i start hstart
        split at hparse
        · rw [← Except.ok.inj hparse] at hentry
          obtain ⟨-, rfl⟩ | hold := hupdate hentry
          · exact .inr ⟨write, rfl, hstart⟩
          · exact .inl hold
        · obtain ⟨w, -, hst⟩ := bind_ok_iff.mp hparse
          rw [← Except.ok.inj hst] at hentry
          obtain ⟨-, rfl⟩ | hold := hupdate hentry
          · exact .inr ⟨write, rfl, hstart⟩
          · exact .inl hold
  | afterAnnotatedAPIInvocation call =>
    rw [parseLine, parseAfterAnnotatedAPIInvocation] at hparse
    split at hparse
    · rw [← Except.ok.inj hparse] at hentry
      exact .inl hentry
    · split at hparse
      · cases hparse
      · split at hparse
        · rw [← Except.ok.inj hparse] at hentry
          obtain ⟨hevent, -⟩ | hold := hupdate hentry
          · cases hevent
          · exact .inl hold
        · cases hparse
  | afterRestRead read =>
    rw [← Except.ok.inj hparse, parseAfterRestRead] at hentry
    split at hentry
    · exact .inl hentry
    · obtain ⟨hevent, -⟩ | hold := hupdate hentry
      · cases hevent
      · exact .inl hold
  | afterCacheRead read =>
    obtain ⟨keys, types, hst⟩ := parseAfterCacheRead_eq i st read
    rw [← Except.ok.inj hparse, hst, parseAfterRestRead] at hentry
    split at hentry
    · exact .inl hentry
    · obtain ⟨hevent, -⟩ | hold := hupdate hentry
      · cases hevent
      · exact .inl hold
  | beforeReconcile f id =>
    rw [parseLine, parseBeforeReconcile] at hparse
    split at hparse
    · cases hparse
    · have hm : st'.tsToEventMap = Function.update st.tsToEventMap i
          (some (.reconcileBegin ⟨f, id, i⟩)) := by
        rw [← Except.ok.inj hparse]
        simp only
        split <;> rfl
      rw [hm] at hentry
      obtain ⟨hevent, -⟩ | hold := hupdate hentry
      · cases hevent
      · exact .inl hold
  | afterReconcile f id =>
    rw [parseLine, parseAfterReconcile] at hparse
    split at hparse
    · have hm : st'.tsToEventMap = Function.update st.tsToEventMap i
          (some (.reconcileEnd ⟨f, id, i⟩)) := by
        rw [← Except.ok.inj hparse]
        split <;> rfl
      rw [hm] at hentry
      obtain ⟨hevent, -⟩ | hold := hupdate hentry
      · cases hevent
      · exact .inl hold
    · cases hparse
  | _ =>
    rw [← Except.ok.inj hparse] at hentry
    exact .inl hentry

theorem entry_stored (hparse : parseLines config 0 .init lines = .ok st) {t : ℕ}
    {learned : ControllerWrite} (hentry : st.tsToEventMap t = some (.write learned)) :
    ∃ before write after, lines = before ++ .afterRestWrite write :: after ∧
      StoredWrite config before write learned := by
  induction lines using List.reverseRecOn generalizing st with
  | nil =>
    rw [← Except.ok.inj hparse] at hentry
    cases hentry
  | append_singleton lines line ih =>
    obtain ⟨st₁, hrun, hline⟩ := parseLines_snoc.mp hparse
    rw [Nat.zero_add] at hline
    obtain hold | ⟨write, rfl, hstart⟩ := parseLine_write_entry hline hentry
    · obtain ⟨before, write, after, rfl, hstored⟩ := ih hrun hold
      exact ⟨before, write, after ++ [line], by simp, hstored⟩
    · exact ⟨lines, write, [], rfl, st₁, st, t, hrun, hline, hstart, hentry⟩

/-- **Every write that is returned** has been entered for one of the lines. -/
theorem write_mem_stored {events : List ReconcilerEvent} {learned : ControllerWrite}
    (hparse : parseReconcilerEvents config lines = .ok events) (hmem : .write learned ∈ events) :
    ∃ before write after, lines = before ++ .afterRestWrite write :: after ∧
      StoredWrite config before write learned := by
  obtain ⟨st, hrun, hevents⟩ := bind_ok_iff.mp hparse
  rw [← Except.ok.inj hevents, List.mem_filterMap] at hmem
  obtain ⟨t, -, hentry⟩ := hmem
  exact entry_stored hrun hentry

end Sieve.Analyzer
