import Sieve.Analyzer.Analyze
import Sieve.Analyzer.SanityCheck
import Mathlib.Data.List.Infix

/-!
# The events of a sane log

What `parse_reconciler_events` makes of any log that the sanity check accepts, with the lines told
newest first.

* `roundMarks`: the rounds of a reconciler, trivial ones counted with the one before;
* `Reported`: the event of a line, and its timestamp;
* `Reads`: what the variables of the loop say about the lines read so far;
* `reads_step`: a line keeps that, or is an annotated API call in a round and ends the analysis.
-/

namespace Sieve.Analyzer

open Sieve.Library

/-! ### What has been logged before a line -/

/-- What the sanity check sees of a line. -/
def LogLine.status : LogLine → StatusLine
  | .beforeRestWrite id => .beforeRestWrite id
  | .afterRestWrite write => .afterRestWrite write.id
  | .beforeReconcile f _ => .beforeReconcile f
  | .afterReconcile f _ => .afterReconcile f
  | _ => .other

/-- Nothing has been written or called since the last round of the reconciler began. -/
def quietSince (f : String) : List LogLine → Bool
  | [] => true
  | .beforeReconcile g _ :: past => g == f || quietSince f past
  | .afterRestWrite _ :: _ => false
  | .afterAnnotatedAPIInvocation _ :: _ => false
  | _ :: past => quietSince f past

/-- The rounds of the reconciler, newest first.  With compression a round that follows a quiet one
is counted with it. -/
def roundMarks (compress : Bool) (f : String) : List LogLine → List ReconcileMark
  | [] => []
  | .beforeReconcile g id :: past =>
    let marks := roundMarks compress f past
    if g = f ∧ (marks.isEmpty || !compress || !quietSince f past) then
      ⟨f, id, past.length⟩ :: marks
    else marks
  | _ :: past => roundMarks compress f past

/-- The reconciler has begun a round. -/
def HasBegun (f : String) (past : List LogLine) : Prop := ∃ id, .beforeReconcile f id ∈ past

/-- Where the range of a write begins: at the round before the current one. -/
def rangeStart : List ReconcileMark → ℤ
  | _ :: prev :: _ => prev.endTimestamp
  | _ => -1

/-- The number of the last line of the past that the predicate holds of. -/
def lastLine (p : LogLine → Bool) : List LogLine → Option ℕ
  | [] => none
  | line :: past => if p line then some past.length else lastLine p past

def LogLine.isBeforeRestWrite (id : ℤ) : LogLine → Bool
  | .beforeRestWrite id' => id' == id
  | _ => false

def LogLine.isBeforeAnnotatedAPIInvocation (id : ℤ) : LogLine → Bool
  | .beforeAnnotatedAPIInvocation id' => id' == id
  | _ => false

/-! ### The events of the lines -/

/-- The line is a reconcile boundary, or a read, a write or a call in a round. -/
def InRound (past : List LogLine) : LogLine → Prop
  | .beforeReconcile _ _ | .afterReconcile _ _ => True
  | .afterRestRead read | .afterCacheRead read => HasBegun read.reconcileFun past
  | .afterRestWrite write => HasBegun write.reconcileFun past
  | .afterAnnotatedAPIInvocation call => HasBegun call.reconcileFun past
  | _ => False

/-- The line is reported by the event at the timestamp.  Writes and calls outside of all rounds are
reported when the boundary is loosened. -/
inductive Reported (config : ReconcilerConfig) (past : List LogLine) :
    LogLine → ℕ → ReconcilerEvent → Prop
  | reconcileBegin {f : String} {id : ℤ} :
    Reported config past (.beforeReconcile f id) past.length (.reconcileBegin ⟨f, id, past.length⟩)
  | reconcileEnd {f : String} {id : ℤ} :
    Reported config past (.afterReconcile f id) past.length (.reconcileEnd ⟨f, id, past.length⟩)
  | restRead {read : ControllerRead} {cur : ReconcileMark} {marks : List ReconcileMark}
    (hmarks : roundMarks config.compressTrivialReconcileEnabled read.reconcileFun past =
      cur :: marks) :
    Reported config past (.afterRestRead read) past.length
      (.read { read with endTimestamp := past.length, reconcileId := cur.reconcileId })
  | cacheRead {read : ControllerRead} {cur : ReconcileMark} {marks : List ReconcileMark}
    (hmarks : roundMarks config.compressTrivialReconcileEnabled read.reconcileFun past =
      cur :: marks) :
    Reported config past (.afterCacheRead read) past.length
      (.read { read with endTimestamp := past.length, reconcileId := cur.reconcileId })
  | write {write : ControllerWrite} {cur : ReconcileMark} {marks : List ReconcileMark} {start : ℕ}
    {readKeys readTypes : Finset String}
    (hmarks : roundMarks config.compressTrivialReconcileEnabled write.reconcileFun past =
      cur :: marks)
    (hstart : lastLine (LogLine.isBeforeRestWrite write.id) past = some start) :
    Reported config past (.afterRestWrite write) start
      (.write { write with
        readKeys := readKeys
        readTypes := readTypes
        startTimestamp := start
        endTimestamp := past.length
        rangeStartTimestamp := rangeStart (cur :: marks)
        rangeEndTimestamp := past.length
        reconcileId := cur.reconcileId })
  | call {call : ControllerNonK8sWrite} {cur : ReconcileMark} {marks : List ReconcileMark}
    {start : ℕ}
    (hmarks : roundMarks config.compressTrivialReconcileEnabled call.reconcileFun past =
      cur :: marks)
    (hstart : lastLine (LogLine.isBeforeAnnotatedAPIInvocation call.id) past = some start) :
    Reported config past (.afterAnnotatedAPIInvocation call) start
      (.nonK8sWrite { call with
        startTimestamp := start
        endTimestamp := past.length
        rangeStartTimestamp := rangeStart (cur :: marks)
        rangeEndTimestamp := past.length
        reconcileId := cur.reconcileId })
  | looseWrite {write : ControllerWrite} {start : ℕ} {readKeys readTypes : Finset String}
    (hloose : config.loosenReconcilerBoundary = true) (hbegun : ¬ HasBegun write.reconcileFun past)
    (hstart : lastLine (LogLine.isBeforeRestWrite write.id) past = some start) :
    Reported config past (.afterRestWrite write) start
      (.write { write with
        readKeys := readKeys
        readTypes := readTypes
        startTimestamp := start
        endTimestamp := past.length })
  | looseCall {call : ControllerNonK8sWrite} {start : ℕ}
    (hloose : config.loosenReconcilerBoundary = true) (hbegun : ¬ HasBegun call.reconcileFun past)
    (hstart : lastLine (LogLine.isBeforeAnnotatedAPIInvocation call.id) past = some start) :
    Reported config past (.afterAnnotatedAPIInvocation call) start
      (.nonK8sWrite { call with startTimestamp := start, endTimestamp := past.length })

/-- The analysis returns the events in the order of their timestamps, one for each line in a round,
and no event that is not of a line. -/
def ReportsAll (config : ReconcilerConfig) (lines : List LogLine) : Prop :=
  ∃ timed : List (ℕ × ReconcilerEvent),
    parseReconcilerEvents config lines = .ok (timed.map Prod.snd) ∧
    timed.Pairwise (fun earlier later => earlier.1 < later.1) ∧
    (∀ line past, line :: past <:+ lines.reverse → InRound past line →
      ∃! event, event ∈ timed ∧ Reported config past line event.1 event.2) ∧
    ∀ event ∈ timed, ∃! past,
      ∃ line, line :: past <:+ lines.reverse ∧ Reported config past line event.1 event.2

/-- An annotated API call has begun when it ends. -/
def CallsBegun (lines : List LogLine) : Prop :=
  ∀ call past, .afterAnnotatedAPIInvocation call :: past <:+ lines.reverse →
    .beforeAnnotatedAPIInvocation call.id ∈ past

/-! ### Timestamps -/

section Timestamps

variable {config : ReconcilerConfig} {past : List LogLine} {line : LogLine} {t t' : ℕ}
  {event : ReconcilerEvent}

/-- The event of a line stands at the number of this line. -/
def LogLine.start : LogLine → LogLine
  | .afterRestWrite write => .beforeRestWrite write.id
  | .afterAnnotatedAPIInvocation call => .beforeAnnotatedAPIInvocation call.id
  | line => line

def slot (past : List LogLine) : LogLine → Option ℕ
  | .afterRestWrite write => lastLine (LogLine.isBeforeRestWrite write.id) past
  | .afterAnnotatedAPIInvocation call =>
    lastLine (LogLine.isBeforeAnnotatedAPIInvocation call.id) past
  | _ => some past.length

def ReconcilerEvent.endTimestamp : ReconcilerEvent → ℤ
  | .write w => w.endTimestamp
  | .nonK8sWrite c => c.endTimestamp
  | .read r => r.endTimestamp
  | .reconcileBegin mark | .reconcileEnd mark => mark.endTimestamp

theorem Reported.slot_eq (h : Reported config past line t event) : slot past line = some t := by
  cases h <;> first | rfl | assumption

theorem Reported.endTimestamp_eq (h : Reported config past line t event) :
    event.endTimestamp = past.length := by
  cases h <;> rfl

theorem isBeforeRestWrite_iff {id : ℤ} :
    line.isBeforeRestWrite id = true ↔ line = .beforeRestWrite id := by
  cases line <;> simp [LogLine.isBeforeRestWrite]

theorem isBeforeAnnotatedAPIInvocation_iff {id : ℤ} :
    line.isBeforeAnnotatedAPIInvocation id = true ↔ line = .beforeAnnotatedAPIInvocation id := by
  cases line <;> simp [LogLine.isBeforeAnnotatedAPIInvocation]

theorem lastLine_spec {p : LogLine → Bool} (h : lastLine p past = some t) :
    ∃ line older, p line = true ∧ line :: older <:+ past ∧ t = older.length := by
  induction past with
  | nil => cases h
  | cons line past ih =>
    rw [lastLine] at h
    split at h
    · rename_i hp
      exact ⟨line, past, hp, List.suffix_refl _, (Option.some.inj h).symm⟩
    · obtain ⟨line', older, hp, hsuffix, ht⟩ := ih h
      exact ⟨line', older, hp, hsuffix.trans (List.suffix_cons _ _), ht⟩

theorem lastLine_isSome {p : LogLine → Bool} (hmem : line ∈ past) (hp : p line = true) :
    ∃ t, lastLine p past = some t := by
  induction past with
  | nil => exact absurd hmem List.not_mem_nil
  | cons line' past ih =>
    rw [lastLine]
    by_cases hp' : p line' = true
    · exact ⟨past.length, if_pos hp'⟩
    · rw [if_neg hp']
      obtain heq | hpast := List.mem_cons.mp hmem
      · exact absurd (heq ▸ hp) hp'
      · exact ih hpast

/-- The number of a line that begins an operation is remembered by its id. -/
theorem lastLine_update {isBefore : ℤ → LogLine → Bool} {starts : ℤ → Option ℕ}
    (h : ∀ id, starts id = lastLine (isBefore id) past) (id id' : ℤ)
    (hline : isBefore id' line = true ↔ id' = id) :
    Function.update starts id (some past.length) id' = lastLine (isBefore id') (line :: past) := by
  rw [lastLine]
  by_cases hid : id' = id
  · rw [if_pos (hline.mpr hid), hid, Function.update_self]
  · rw [if_neg fun hbefore => hid (hline.mp hbefore), Function.update_of_ne hid, h id']

theorem slot_spec (h : slot past line = some t) :
    ∃ older, line.start :: older <:+ line :: past ∧ t = older.length := by
  cases line with
  | afterRestWrite write =>
    obtain ⟨line, older, hline, hsuffix, ht⟩ := lastLine_spec h
    rw [isBeforeRestWrite_iff.mp hline] at hsuffix
    exact ⟨older, hsuffix.trans (List.suffix_cons _ _), ht⟩
  | afterAnnotatedAPIInvocation call =>
    obtain ⟨line, older, hline, hsuffix, ht⟩ := lastLine_spec h
    rw [isBeforeAnnotatedAPIInvocation_iff.mp hline] at hsuffix
    exact ⟨older, hsuffix.trans (List.suffix_cons _ _), ht⟩
  | _ => exact ⟨past, List.suffix_refl _, (Option.some.inj h).symm⟩

theorem eq_of_suffix_length {log : List LogLine} {line' : LogLine} {past' : List LogLine}
    (h : line :: past <:+ log) (h' : line' :: past' <:+ log) (hlength : past.length = past'.length) :
    line = line' ∧ past = past' := by
  have heq := (List.suffix_of_suffix_length_le h h' (by simp [hlength])).eq_of_length
    (by simp [hlength])
  exact ⟨(List.cons.inj heq).1, (List.cons.inj heq).2⟩

/-- Two lines at one timestamp start at one line. -/
theorem start_eq_of_slot {line' : LogLine} {past' : List LogLine} (hsuffix : line :: past <:+ past')
    (h : slot past line = some t) (h' : slot past' line' = some t) : line.start = line'.start := by
  obtain ⟨older, hstart, hlength⟩ := slot_spec h
  obtain ⟨older', hstart', hlength'⟩ := slot_spec h'
  have hlater := hstart.trans (hsuffix.trans (List.suffix_cons line' past'))
  exact (eq_of_suffix_length hlater hstart' (by omega)).1

end Timestamps

/-! ### The events -/

/-- The events of the lines of the past. -/
structure Events (config : ReconcilerConfig) (past : List LogLine)
    (tsToEventMap : ℕ → Option ReconcilerEvent) : Prop where
  reported : ∀ line older, line :: older <:+ past → InRound older line →
    ∃ t event, Reported config older line t event ∧ tsToEventMap t = some event
  entries : ∀ t event, tsToEventMap t = some event →
    ∃ line older, line :: older <:+ past ∧ Reported config older line t event

/-- The line adds its event, if it has one. -/
def Adds (config : ReconcilerConfig) (past : List LogLine) (line : LogLine)
    (m m' : ℕ → Option ReconcilerEvent) : Prop :=
  (¬ InRound past line ∧ m' = m) ∨
    ∃ t event, Reported config past line t event ∧ m' = Function.update m t (some event)

/-- The events of the lines in the past stand elsewhere. -/
def Apart (past : List LogLine) (line : LogLine) : Prop :=
  ∀ line' older t, line' :: older <:+ past → InRound older line' → slot older line' = some t →
    slot past line ≠ some t

theorem Events.step {config : ReconcilerConfig} {past : List LogLine} {line : LogLine}
    {m m' : ℕ → Option ReconcilerEvent} (h : Events config past m) (hapart : Apart past line)
    (hadds : Adds config past line m m') : Events config (line :: past) m' := by
  obtain ⟨hround, rfl⟩ | ⟨t, event, hreported, rfl⟩ := hadds
  · constructor
    · intro line' older hsuffix hround'
      obtain heq | hpast := List.suffix_cons_iff.mp hsuffix
      · obtain ⟨rfl, rfl⟩ := List.cons.inj heq
        exact absurd hround' hround
      · exact h.reported line' older hpast hround'
    · intro t event hm
      obtain ⟨line', older, hsuffix, hreported⟩ := h.entries t event hm
      exact ⟨line', older, hsuffix.trans (List.suffix_cons _ _), hreported⟩
  · constructor
    · intro line' older hsuffix hround'
      obtain heq | hpast := List.suffix_cons_iff.mp hsuffix
      · obtain ⟨rfl, rfl⟩ := List.cons.inj heq
        exact ⟨t, event, hreported, Function.update_self _ _ _⟩
      · obtain ⟨t', event', hreported', hm⟩ := h.reported line' older hpast hround'
        have hne : t' ≠ t := by
          intro heq
          rw [heq] at hreported'
          exact hapart line' older t hpast hround' hreported'.slot_eq hreported.slot_eq
        exact ⟨t', event', hreported', by rw [Function.update_of_ne hne, hm]⟩
    · intro t' event' hm
      by_cases heq : t' = t
      · rw [heq, Function.update_self] at hm
        rw [heq, ← Option.some.inj hm]
        exact ⟨line, past, List.suffix_refl _, hreported⟩
      · rw [Function.update_of_ne heq] at hm
        obtain ⟨line', older, hsuffix, hreported'⟩ := h.entries t' event' hm
        exact ⟨line', older, hsuffix.trans (List.suffix_cons _ _), hreported'⟩

/-- No annotated API call of the past is in a round. -/
def NoCallInRound (past : List LogLine) : Prop :=
  ∀ call older, .afterAnnotatedAPIInvocation call :: older <:+ past →
    ¬ HasBegun call.reconcileFun older

theorem apart_of_fits {past : List LogLine} {line : LogLine}
    (hfits : Fits (past.map LogLine.status) line.status) (hcalls : NoCallInRound past) :
    Apart past line := by
  intro line' older t hsuffix hround hslot hslot'
  have hstart := start_eq_of_slot hsuffix hslot hslot'
  obtain ⟨older', hstart', hlength⟩ := slot_spec hslot
  have hearlier : t < past.length := by
    have := (hstart'.trans hsuffix).length_le
    simp only [List.length_cons] at this
    omega
  cases line with
  | afterRestWrite write =>
    cases line' with
    | afterRestWrite write' =>
      have hid : write'.id = write.id := LogLine.beforeRestWrite.inj hstart
      have hmem := List.mem_map_of_mem (f := LogLine.status) (hsuffix.mem List.mem_cons_self)
      rw [LogLine.status, hid] at hmem
      exact hfits.2 hmem
    | beforeRestWrite _ => exact hround
    | _ => cases hstart
  | afterAnnotatedAPIInvocation call =>
    cases line' with
    | afterAnnotatedAPIInvocation call' => exact hcalls call' older hsuffix hround
    | beforeAnnotatedAPIInvocation _ => exact hround
    | _ => cases hstart
  | _ =>
    rw [← Option.some.inj hslot'] at hearlier
    exact Nat.lt_irrefl _ hearlier

/-! ### The variables of the loop -/

/-- What the variables say about the past, those for the read sets apart. -/
structure Reads (config : ReconcilerConfig) (past : List LogLine) (st : ParseState) : Prop where
  cur : ∀ f, st.curReconcilePerType f =
    (roundMarks config.compressTrivialReconcileEnabled f past).head?
  prev : ∀ f, st.prevReconcilePerType f =
    (roundMarks config.compressTrivialReconcileEnabled f past).tail.head?
  trivial : ∀ f, roundMarks config.compressTrivialReconcileEnabled f past ≠ [] →
    st.curReconcileIsTrivial f = quietSince f past
  ongoing : ∀ f, f ∈ st.ongoingReconciles ↔ Ongoing f (past.map LogLine.status) = true
  writes : ∀ id, st.writeStartTimestampMap id = lastLine (LogLine.isBeforeRestWrite id) past
  calls : ∀ id, st.nkWriteStartTimestampMap id =
    lastLine (LogLine.isBeforeAnnotatedAPIInvocation id) past

theorem reads_init (config : ReconcilerConfig) : Reads config [] .init where
  cur := fun _ => rfl
  prev := fun _ => rfl
  trivial := fun _ h => absurd rfl h
  ongoing := fun _ => by simp [ParseState.init, Ongoing]
  writes := fun _ => rfl
  calls := fun _ => rfl

section Parse

variable {config : ReconcilerConfig} {compress : Bool} {f : String} {past : List LogLine}
  {st : ParseState}

theorem roundMarks_ne_nil : roundMarks compress f past ≠ [] ↔ HasBegun f past := by
  induction past with
  | nil => simp [roundMarks, HasBegun]
  | cons line past ih =>
    cases line with
    | beforeReconcile g id =>
      rw [roundMarks]
      by_cases hg : g = f
      · have hbegun : HasBegun f (.beforeReconcile g id :: past) := ⟨id, by simp [hg]⟩
        refine iff_of_true ?_ hbegun
        cases hmarks : roundMarks compress f past with
        | nil => simp [hg]
        | cons cur marks => split <;> simp
      · rw [if_neg fun h => hg h.1, ih]
        simp [HasBegun, Ne.symm hg]
    | _ =>
      show roundMarks compress f past ≠ [] ↔ _
      rw [ih]
      simp [HasBegun]

theorem roundMarks_lt {mark : ReconcileMark} (h : mark ∈ roundMarks compress f past) :
    mark.endTimestamp < past.length := by
  induction past with
  | nil => cases h
  | cons line past ih =>
    have hlength : (past.length : ℤ) < ((past.length + 1 : ℕ) : ℤ) := by omega
    rw [List.length_cons]
    cases line with
    | beforeReconcile g id =>
      rw [roundMarks] at h
      split at h
      · obtain rfl | hold := List.mem_cons.mp h
        · exact hlength
        · exact (ih hold).trans hlength
      · exact (ih h).trans hlength
    | _ => exact (ih h).trans hlength

theorem Reads.isNone_iff (h : Reads config past st) :
    (st.curReconcilePerType f).isNone = true ↔ ¬ HasBegun f past := by
  rw [h.cur f, ← @roundMarks_ne_nil config.compressTrivialReconcileEnabled]
  cases roundMarks config.compressTrivialReconcileEnabled f past <;> simp

/-- A read is an event once its reconciler has begun a round. -/
theorem adds_read {read : ControllerRead} {line : LogLine} (h : Reads config past st)
    (hround : InRound past line ↔ HasBegun read.reconcileFun past)
    (hreported : ∀ cur marks,
      roundMarks config.compressTrivialReconcileEnabled read.reconcileFun past = cur :: marks →
      Reported config past line past.length
        (.read { read with endTimestamp := past.length, reconcileId := cur.reconcileId })) :
    Adds config past line st.tsToEventMap (parseAfterRestRead past.length st read).tsToEventMap := by
  rw [parseAfterRestRead]
  cases hcur : st.curReconcilePerType read.reconcileFun with
  | none =>
    left
    rw [hround]
    exact ⟨h.isNone_iff.mp (by rw [hcur]; rfl), rfl⟩
  | some cur =>
    right
    rw [h.cur, List.head?_eq_some_iff] at hcur
    obtain ⟨marks, hmarks⟩ := hcur
    exact ⟨past.length, _, hreported cur marks hmarks, rfl⟩

theorem parseAfterRestRead_eq (i : ℕ) (st : ParseState) (read : ControllerRead) :
    parseAfterRestRead i st read =
      { st with tsToEventMap := (parseAfterRestRead i st read).tsToEventMap } := by
  rw [parseAfterRestRead]
  cases st.curReconcilePerType read.reconcileFun <;> rfl

/-- The sets of keys and types read are not looked at. -/
theorem parseAfterCacheRead_eq (i : ℕ) (st : ParseState) (read : ControllerRead) :
    ∃ keys types, parseAfterCacheRead i st read = { parseAfterRestRead i st read with
      readKeysThisReconcile := keys
      readTypesThisReconcile := types } := by
  rw [parseAfterCacheRead, parseAfterRestRead]
  cases st.curReconcilePerType read.reconcileFun with
  | none => exact ⟨_, _, rfl⟩
  | some cur => cases read.etype <;> exact ⟨_, _, rfl⟩

theorem earliestTimestamp_eq {cur : ReconcileMark} {marks : List ReconcileMark}
    (h : Reads config past st)
    (hmarks : roundMarks config.compressTrivialReconcileEnabled f past = cur :: marks) :
    st.earliestTimestamp f = rangeStart (cur :: marks) := by
  rw [ParseState.earliestTimestamp, h.prev f, hmarks]
  cases marks <;> rfl

theorem rangeStart_lt {cur : ReconcileMark} {marks : List ReconcileMark}
    (hmarks : roundMarks compress f past = cur :: marks) :
    rangeStart (cur :: marks) < past.length := by
  cases marks with
  | nil =>
    show (-1 : ℤ) < past.length
    omega
  | cons prev marks =>
    have hmem : prev ∈ roundMarks compress f past := by simp [hmarks]
    exact roundMarks_lt hmem

/-- A write that has begun is an event in a round, and outside of all rounds when the boundary is
loosened. -/
theorem adds_write {write : ControllerWrite} (h : Reads config past st)
    (hbegun : .beforeRestWrite write.id ∈ past) :
    ∃ m, parseAfterRestWrite config past.length st write =
        .ok { st with curReconcileIsTrivial := fun _ => false, tsToEventMap := m } ∧
      Adds config past (.afterRestWrite write) st.tsToEventMap m := by
  obtain ⟨start, hstart⟩ := lastLine_isSome hbegun (isBeforeRestWrite_iff.mpr rfl)
  have hnone := @Reads.isNone_iff config write.reconcileFun past st h
  rw [parseAfterRestWrite]
  simp only [h.writes, hstart]
  cases hmarks : roundMarks config.compressTrivialReconcileEnabled write.reconcileFun past with
  | nil =>
    have hcur : st.curReconcilePerType write.reconcileFun = none := by
      rw [h.cur, hmarks]
      rfl
    have houtside := hnone.mp (by rw [hcur]; rfl)
    rw [hcur]
    cases hloose : config.loosenReconcilerBoundary with
    | false => exact ⟨_, rfl, Or.inl ⟨houtside, rfl⟩⟩
    | true => exact ⟨_, rfl, Or.inr ⟨start, _, .looseWrite hloose houtside hstart, rfl⟩⟩
  | cons cur marks =>
    have hcur : st.curReconcilePerType write.reconcileFun = some cur := by
      rw [h.cur, hmarks]
      rfl
    have hrange : rangeStart (cur :: marks) < past.length := rangeStart_lt hmarks
    rw [hcur]
    refine ⟨_, ?_, Or.inr ⟨start, _, @Reported.write config past write cur marks start
      st.readKeysThisReconcile st.readTypesThisReconcile hmarks hstart, rfl⟩⟩
    have hearliest := earliestTimestamp_eq h hmarks
    rw [ParseState.earliestTimestamp] at hearliest
    simp [ParseState.earliestTimestamp, hearliest, ControllerWrite.setRange, hrange,
      ParseState.addEvent, bind, Except.bind]

/-- An annotated API call outside of all rounds. -/
theorem adds_call {call : ControllerNonK8sWrite} (h : Reads config past st)
    (hbegun : .beforeAnnotatedAPIInvocation call.id ∈ past)
    (houtside : ¬ HasBegun call.reconcileFun past) :
    ∃ m, parseAfterAnnotatedAPIInvocation config past.length st call =
        .ok { st with curReconcileIsTrivial := fun _ => false, tsToEventMap := m } ∧
      Adds config past (.afterAnnotatedAPIInvocation call) st.tsToEventMap m := by
  obtain ⟨start, hstart⟩ := lastLine_isSome hbegun (isBeforeAnnotatedAPIInvocation_iff.mpr rfl)
  have hcur := Option.isNone_iff_eq_none.mp (h.isNone_iff.mpr houtside)
  rw [parseAfterAnnotatedAPIInvocation]
  simp only [h.calls, hstart, hcur]
  cases hloose : config.loosenReconcilerBoundary with
  | false => exact ⟨_, rfl, Or.inl ⟨houtside, rfl⟩⟩
  | true => exact ⟨_, rfl, Or.inr ⟨start, _, .looseCall hloose houtside hstart, rfl⟩⟩

/-- An annotated API call in a round ends the analysis. -/
theorem call_inRound_error {call : ControllerNonK8sWrite} (h : Reads config past st)
    (hbegun : .beforeAnnotatedAPIInvocation call.id ∈ past)
    (hround : HasBegun call.reconcileFun past) :
    parseAfterAnnotatedAPIInvocation config past.length st call = .error .attributeError := by
  obtain ⟨start, hstart⟩ := lastLine_isSome hbegun (isBeforeAnnotatedAPIInvocation_iff.mpr rfl)
  rw [parseAfterAnnotatedAPIInvocation]
  simp only [h.calls, hstart]
  cases hcur : st.curReconcilePerType call.reconcileFun with
  | none => exact absurd hround (h.isNone_iff.mp (by rw [hcur]; rfl))
  | some cur => rfl

theorem reads_beforeReconcile {id : ℤ} (h : Reads config past st)
    (hfits : Ongoing f (past.map LogLine.status) = false) :
    ∃ st', parseBeforeReconcile config past.length st f id = .ok st' ∧
      Reads config (.beforeReconcile f id :: past) st' ∧
      st'.tsToEventMap =
        Function.update st.tsToEventMap past.length (some (.reconcileBegin ⟨f, id, past.length⟩)) := by
  have hidle : f ∉ st.ongoingReconciles := by
    rw [h.ongoing, hfits]
    exact Bool.false_ne_true
  have hnew : ((st.curReconcilePerType f).isNone || !config.compressTrivialReconcileEnabled ||
      !st.curReconcileIsTrivial f) =
      ((roundMarks config.compressTrivialReconcileEnabled f past).isEmpty ||
        !config.compressTrivialReconcileEnabled || !quietSince f past) := by
    rw [h.cur f]
    cases hmarks : roundMarks config.compressTrivialReconcileEnabled f past with
    | nil => rfl
    | cons cur marks => rw [h.trivial f (by simp [hmarks])]; rfl
  have htrivial : ∀ g, roundMarks config.compressTrivialReconcileEnabled g
      (.beforeReconcile f id :: past) ≠ [] →
      Function.update st.curReconcileIsTrivial f true g =
        quietSince g (.beforeReconcile f id :: past) := by
    intro g hmarks
    by_cases hg : g = f
    · simp [hg, quietSince]
    · rw [roundMarks, if_neg fun hand => hg hand.1.symm] at hmarks
      rw [Function.update_of_ne hg, h.trivial g hmarks]
      simp [quietSince, Ne.symm hg]
  have hongoing : ∀ g, g ∈ insert f st.ongoingReconciles ↔
      Ongoing g (.beforeReconcile f :: past.map LogLine.status) = true := by
    intro g
    rw [Finset.mem_insert, h.ongoing g, Ongoing, Bool.or_eq_true, beq_iff_eq, eq_comm]
  rw [parseBeforeReconcile, if_neg hidle]
  simp only [ParseState.addEvent, hnew]
  split
  · rename_i hfresh
    refine ⟨_, rfl, ⟨fun g => ?_, fun g => ?_, htrivial, hongoing, h.writes, h.calls⟩, rfl⟩
    · by_cases hg : g = f
      · simp [hg, roundMarks, hfresh]
      · rw [roundMarks, if_neg fun hand => hg hand.1.symm, ← h.cur g]
        exact Function.update_of_ne hg _ _
    · by_cases hg : g = f
      · simp [hg, roundMarks, hfresh, h.cur f]
      · rw [roundMarks, if_neg fun hand => hg hand.1.symm, ← h.prev g]
        exact Function.update_of_ne hg _ _
  · rename_i hfresh
    have hold : ∀ g, roundMarks config.compressTrivialReconcileEnabled g
        (.beforeReconcile f id :: past) =
        roundMarks config.compressTrivialReconcileEnabled g past := by
      intro g
      rw [roundMarks, if_neg]
      rintro ⟨rfl, hand⟩
      exact hfresh hand
    refine ⟨_, rfl, ⟨fun g => ?_, fun g => ?_, htrivial, hongoing, h.writes, h.calls⟩, rfl⟩
    · rw [hold g]
      exact h.cur g
    · rw [hold g]
      exact h.prev g

theorem reads_afterReconcile {id : ℤ} (h : Reads config past st)
    (hfits : Ongoing f (past.map LogLine.status) = true) :
    ∃ st', parseAfterReconcile past.length st f id = .ok st' ∧
      Reads config (.afterReconcile f id :: past) st' ∧
      st'.tsToEventMap =
        Function.update st.tsToEventMap past.length (some (.reconcileEnd ⟨f, id, past.length⟩)) := by
  have hongoing : ∀ g, g ∈ st.ongoingReconciles.erase f ↔
      Ongoing g (.afterReconcile f :: past.map LogLine.status) = true := by
    intro g
    rw [Finset.mem_erase, h.ongoing g, Ongoing, Bool.and_eq_true, bne_iff_ne, ne_comm]
  rw [parseAfterReconcile, if_pos ((h.ongoing f).mpr hfits)]
  simp only [ParseState.addEvent]
  refine ⟨_, rfl, ?_⟩
  split <;> exact ⟨⟨h.cur, h.prev, h.trivial, hongoing, h.writes, h.calls⟩, rfl⟩

/-- The line ends an annotated API call in a round. -/
def EndsCallInRound (past : List LogLine) : LogLine → Prop
  | .afterAnnotatedAPIInvocation call => HasBegun call.reconcileFun past
  | _ => False

/-- When the line ends an annotated API call, the call has begun. -/
def CallBegun (past : List LogLine) : LogLine → Prop
  | .afterAnnotatedAPIInvocation call => .beforeAnnotatedAPIInvocation call.id ∈ past
  | _ => True

theorem reads_step {line : LogLine} (h : Reads config past st)
    (hfits : Fits (past.map LogLine.status) line.status) (hcall : CallBegun past line)
    (hround : ¬ EndsCallInRound past line) :
    ∃ st', parseLine config past.length st line = .ok st' ∧ Reads config (line :: past) st' ∧
      Adds config past line st.tsToEventMap st'.tsToEventMap := by
  cases line with
  | beforeRestWrite id =>
    refine ⟨_, rfl, ⟨h.cur, h.prev, h.trivial, h.ongoing, fun id' => ?_, h.calls⟩,
      Or.inl ⟨fun hround => hround, rfl⟩⟩
    exact lastLine_update h.writes id id' (by
      rw [isBeforeRestWrite_iff, LogLine.beforeRestWrite.injEq, eq_comm])
  | afterRestWrite write =>
    have hbegun : LogLine.beforeRestWrite write.id ∈ past := by
      obtain ⟨line, hmem, hstatus⟩ := List.mem_map.mp hfits.1
      cases line <;> simp [LogLine.status] at hstatus
      rwa [hstatus] at hmem
    obtain ⟨m, hparse, hadds⟩ := adds_write h hbegun
    exact ⟨_, hparse, ⟨h.cur, h.prev, fun _ _ => rfl, h.ongoing, h.writes, h.calls⟩, hadds⟩
  | beforeAnnotatedAPIInvocation id =>
    refine ⟨_, rfl, ⟨h.cur, h.prev, h.trivial, h.ongoing, h.writes, fun id' => ?_⟩,
      Or.inl ⟨fun hround => hround, rfl⟩⟩
    exact lastLine_update h.calls id id' (by
      rw [isBeforeAnnotatedAPIInvocation_iff, LogLine.beforeAnnotatedAPIInvocation.injEq, eq_comm])
  | afterAnnotatedAPIInvocation call =>
    obtain ⟨m, hparse, hadds⟩ := adds_call h hcall hround
    exact ⟨_, hparse, ⟨h.cur, h.prev, fun _ _ => rfl, h.ongoing, h.writes, h.calls⟩, hadds⟩
  | afterRestRead read =>
    refine ⟨_, rfl, ?_, adds_read h Iff.rfl fun _ _ hmarks => .restRead hmarks⟩
    rw [parseAfterRestRead_eq]
    exact ⟨h.cur, h.prev, h.trivial, h.ongoing, h.writes, h.calls⟩
  | afterCacheRead read =>
    obtain ⟨keys, types, hparse⟩ := parseAfterCacheRead_eq past.length st read
    refine ⟨_, rfl, ?_, ?_⟩
    · rw [hparse, parseAfterRestRead_eq]
      exact ⟨h.cur, h.prev, h.trivial, h.ongoing, h.writes, h.calls⟩
    · rw [hparse]
      exact adds_read h Iff.rfl fun _ _ hmarks => .cacheRead hmarks
  | beforeReconcile f id =>
    obtain ⟨st', hparse, hreads, hm⟩ := reads_beforeReconcile h hfits
    exact ⟨st', hparse, hreads, Or.inr ⟨_, _, .reconcileBegin, hm⟩⟩
  | afterReconcile f id =>
    obtain ⟨st', hparse, hreads, hm⟩ := reads_afterReconcile h hfits
    exact ⟨st', hparse, hreads, Or.inr ⟨_, _, .reconcileEnd, hm⟩⟩
  | other =>
    exact ⟨st, rfl, ⟨h.cur, h.prev, h.trivial, h.ongoing, h.writes, h.calls⟩,
      Or.inl ⟨fun hround => hround, rfl⟩⟩

end Parse

/-! ### The whole log -/

/-- What the analysis has found in the past. -/
structure Found (config : ReconcilerConfig) (past : List LogLine) (st : ParseState) : Prop where
  reads : Reads config past st
  events : Events config past st.tsToEventMap
  noCall : NoCallInRound past

/-- Each line of the log, newest first, fits those before it. -/
def Legal (log : List LogLine) : Prop :=
  ∀ line past, line :: past <:+ log →
    Fits (past.map LogLine.status) line.status ∧ CallBegun past line

theorem fits_of_sane {log : List LogLine} (h : Sane (log.map LogLine.status)) {line : LogLine}
    {past : List LogLine} (hsuffix : line :: past <:+ log) :
    Fits (past.map LogLine.status) line.status := by
  induction log with
  | nil => simp at hsuffix
  | cons line' log ih =>
    obtain heq | hlater := List.suffix_cons_iff.mp hsuffix
    · obtain ⟨rfl, rfl⟩ := List.cons.inj heq
      exact h.1
    · exact ih h.2 hlater

theorem legal_of_sane {lines : List LogLine}
    (hsane : sanityCheck (lines.map LogLine.status) = .ok ()) (hcalls : CallsBegun lines) :
    Legal lines.reverse := by
  rw [sanityCheck_iff, ← List.map_reverse] at hsane
  intro line past hsuffix
  refine ⟨fits_of_sane hsane hsuffix, ?_⟩
  cases line with
  | afterAnnotatedAPIInvocation call => exact hcalls call past hsuffix
  | _ => trivial

theorem found_init (config : ReconcilerConfig) : Found config [] .init where
  reads := reads_init config
  events := ⟨fun line older hsuffix => by simp at hsuffix, fun t event hm => by cases hm⟩
  noCall := fun call older hsuffix => by simp at hsuffix

section Run

variable {config : ReconcilerConfig} {past lines : List LogLine} {st st' : ParseState}

theorem NoCallInRound.cons {line : LogLine} (h : NoCallInRound past)
    (hline : ¬ EndsCallInRound past line) : NoCallInRound (line :: past) := by
  intro call older hsuffix
  obtain heq | hpast := List.suffix_cons_iff.mp hsuffix
  · obtain ⟨rfl, rfl⟩ := List.cons.inj heq
    exact hline
  · exact h call older hpast

theorem found_step {line : LogLine} (h : Found config past st) (hlegal : Legal (line :: past))
    (hround : ¬ EndsCallInRound past line) :
    ∃ st', parseLine config past.length st line = .ok st' ∧ Found config (line :: past) st' := by
  obtain ⟨hfits, hcall⟩ := hlegal line past (List.suffix_refl _)
  obtain ⟨st', hparse, hreads, hadds⟩ := reads_step h.reads hfits hcall hround
  exact ⟨st', hparse, hreads, h.events.step (apart_of_fits hfits h.noCall) hadds,
    h.noCall.cons hround⟩

theorem endsCallInRound_error {line : LogLine} (h : Reads config past st)
    (hcall : CallBegun past line) (hround : EndsCallInRound past line) :
    parseLine config past.length st line = .error .attributeError := by
  cases line with
  | afterAnnotatedAPIInvocation call => exact call_inRound_error h hcall hround
  | _ => exact hround.elim

theorem Legal.of_suffix {log log' : List LogLine} (h : Legal log') (hsuffix : log <:+ log') :
    Legal log := fun line past hline => h line past (hline.trans hsuffix)

/-- Without a call in a round the analysis goes through. -/
theorem found_run (h : Found config past st) (hlegal : Legal (lines.reverse ++ past))
    (hcalls : NoCallInRound (lines.reverse ++ past)) :
    ∃ st', parseLines config past.length st lines = .ok st' ∧
      Found config (lines.reverse ++ past) st' := by
  induction lines generalizing past st with
  | nil => exact ⟨st, rfl, h⟩
  | cons line lines ih =>
    rw [List.reverse_cons, List.append_assoc, List.singleton_append] at hlegal hcalls ⊢
    have hsuffix : line :: past <:+ lines.reverse ++ line :: past := List.suffix_append _ _
    have hround : ¬ EndsCallInRound past line := by
      intro hround
      cases line with
      | afterAnnotatedAPIInvocation call => exact hcalls call past hsuffix hround
      | _ => exact hround
    obtain ⟨st1, hparse, hfound⟩ := found_step h (hlegal.of_suffix hsuffix) hround
    obtain ⟨st', hrest, hfound'⟩ := ih hfound hlegal hcalls
    exact ⟨st', bind_ok_iff.mpr ⟨st1, hparse, hrest⟩, hfound'⟩

/-- When the analysis goes through there is no call in a round. -/
theorem noCall_of_parse (h : Found config past st) (hlegal : Legal (lines.reverse ++ past))
    (hparse : parseLines config past.length st lines = .ok st') :
    NoCallInRound (lines.reverse ++ past) := by
  induction lines generalizing past st with
  | nil => exact h.noCall
  | cons line lines ih =>
    rw [List.reverse_cons, List.append_assoc, List.singleton_append] at hlegal ⊢
    have hline : Legal (line :: past) := hlegal.of_suffix (List.suffix_append _ _)
    obtain ⟨st1, hparse1, hrest⟩ := bind_ok_iff.mp hparse
    by_cases hround : EndsCallInRound past line
    · have hcall := (hline line past (List.suffix_refl _)).2
      rw [endsCallInRound_error h.reads hcall hround] at hparse1
      cases hparse1
    · obtain ⟨st2, hparse2, hfound⟩ := found_step h hline hround
      rw [hparse2] at hparse1
      rw [Except.ok.inj hparse1] at hfound
      exact ih hfound hlegal hrest

end Run

/-- The events with their timestamps. -/
def timedEvents (n : ℕ) (tsToEventMap : ℕ → Option ReconcilerEvent) : List (ℕ × ReconcilerEvent) :=
  (List.range n).filterMap fun t => (tsToEventMap t).map (Prod.mk t)

theorem map_snd_timedEvents (n : ℕ) (m : ℕ → Option ReconcilerEvent) :
    (timedEvents n m).map Prod.snd = (List.range n).filterMap m := by
  rw [timedEvents, List.map_filterMap]
  apply List.filterMap_congr
  intro t _
  cases m t <;> rfl

theorem timedEvents_sorted (n : ℕ) (m : ℕ → Option ReconcilerEvent) :
    (timedEvents n m).Pairwise (fun earlier later => earlier.1 < later.1) := by
  refine List.Pairwise.filterMap _ ?_ List.pairwise_lt_range
  intro t t' hlt event hevent event' hevent'
  obtain ⟨_, _, rfl⟩ := Option.map_eq_some_iff.mp hevent
  obtain ⟨_, _, rfl⟩ := Option.map_eq_some_iff.mp hevent'
  exact hlt

theorem mem_timedEvents {n : ℕ} {m : ℕ → Option ReconcilerEvent} {event : ℕ × ReconcilerEvent} :
    event ∈ timedEvents n m ↔ event.1 < n ∧ m event.1 = some event.2 := by
  obtain ⟨t, event⟩ := event
  simp only [timedEvents, List.mem_filterMap, List.mem_range, Option.map_eq_some_iff, Prod.mk.injEq]
  constructor
  · rintro ⟨t', hlt, event', hm, rfl, rfl⟩
    exact ⟨hlt, hm⟩
  · rintro ⟨hlt, hm⟩
    exact ⟨t, hlt, event, hm, rfl, rfl⟩

theorem reportsAll_of_found {config : ReconcilerConfig} {lines : List LogLine} {st : ParseState}
    (hparse : parseLines config 0 .init lines = .ok st) (h : Events config lines.reverse st.tsToEventMap) :
    ReportsAll config lines := by
  refine ⟨timedEvents lines.length st.tsToEventMap, ?_, timedEvents_sorted _ _, ?_, ?_⟩
  · rw [map_snd_timedEvents, parseReconcilerEvents, hparse]
    rfl
  · intro line past hsuffix hround
    obtain ⟨t, event, hreported, hm⟩ := h.reported line past hsuffix hround
    obtain ⟨older, hstart, ht⟩ := slot_spec hreported.slot_eq
    have hlength := (hstart.trans hsuffix).length_le
    rw [List.length_cons, List.length_reverse] at hlength
    refine ⟨(t, event), ⟨mem_timedEvents.mpr ⟨by omega, hm⟩, hreported⟩, ?_⟩
    rintro ⟨t', event'⟩ ⟨hmem', hreported'⟩
    have ht' : t' = t := Option.some.inj (hreported'.slot_eq.symm.trans hreported.slot_eq)
    have hm' := (mem_timedEvents.mp hmem').2
    rw [ht', hm] at hm'
    rw [ht', Option.some.inj hm']
  · intro event hmem
    obtain ⟨line, past, hsuffix, hreported⟩ := h.entries _ _ (mem_timedEvents.mp hmem).2
    refine ⟨past, ⟨line, hsuffix, hreported⟩, ?_⟩
    rintro past' ⟨line', hsuffix', hreported'⟩
    have hend := hreported.endTimestamp_eq.symm.trans hreported'.endTimestamp_eq
    exact (eq_of_suffix_length hsuffix hsuffix' (by omega)).2.symm

/-- **Every line in a round has its event, in time order, exactly when no annotated API call is
in a round.** -/
theorem parseReconcilerEvents_iff (config : ReconcilerConfig) (lines : List LogLine)
    (hsane : sanityCheck (lines.map LogLine.status) = .ok ()) (hcalls : CallsBegun lines) :
    ReportsAll config lines ↔
      ∀ call past, .afterAnnotatedAPIInvocation call :: past <:+ lines.reverse →
        ¬ HasBegun call.reconcileFun past := by
  have hlegal : Legal (lines.reverse ++ []) := by
    rw [List.append_nil]
    exact legal_of_sane hsane hcalls
  constructor
  · rintro ⟨timed, hparse, _⟩
    obtain ⟨st, hrun, _⟩ := bind_ok_iff.mp hparse
    have hnone := noCall_of_parse (found_init config) hlegal hrun
    rwa [List.append_nil] at hnone
  · intro hnone
    obtain ⟨st, hrun, hfound⟩ := found_run (found_init config) hlegal (by rwa [List.append_nil])
    have hevents := hfound.events
    rw [List.append_nil] at hevents
    exact reportsAll_of_found hrun hevents

/-- A round that reads an object and writes it back. -/
def roundLines : List LogLine :=
  [.beforeReconcile "f" 0,
    .afterCacheRead { etype := .get, rtype := "pod", reconcileFun := "f", error := "NoError",
                      keyToObj := [("pod/default/a", [])], nodup := by simp },
    .beforeRestWrite 1,
    .afterRestWrite { id := 1, etype := .update, rtype := "pod", objNamespace := "default", name := "a",
                      reconcileFun := "f", error := "NoError", objMap := [] },
    .afterReconcile "f" 0]

theorem roundLines_calls {call : ControllerNonK8sWrite} {past : List LogLine} :
    ¬ .afterAnnotatedAPIInvocation call :: past <:+ roundLines.reverse := by
  intro hsuffix
  have hmem := hsuffix.mem List.mem_cons_self
  simp [roundLines] at hmem

theorem parseReconcilerEvents_iff_round : ReportsAll ⟨true, false⟩ roundLines :=
  (parseReconcilerEvents_iff ⟨true, false⟩ roundLines rfl
    fun _ _ hsuffix => absurd hsuffix roundLines_calls).mpr
    fun _ _ hsuffix => absurd hsuffix roundLines_calls

/-- A round that makes an annotated API call. -/
def callLines : List LogLine :=
  [.beforeReconcile "f" 0, .beforeAnnotatedAPIInvocation 1,
    .afterAnnotatedAPIInvocation { id := 1, module := "m", filePath := "p.go", recvType := "T",
                                   funName := "call", reconcileFun := "f" },
    .afterReconcile "f" 0]

/-- The call has no `set_range`. -/
theorem parseReconcilerEvents_call : sanityCheck (callLines.map LogLine.status) = .ok () ∧
    CallsBegun callLines ∧ ¬ ReportsAll ⟨true, false⟩ callLines := by
  refine ⟨rfl, ?_, ?_⟩
  · intro call past hsuffix
    rw [callLines] at hsuffix
    simp [List.suffix_cons_iff] at hsuffix
    obtain ⟨rfl, rfl⟩ := hsuffix
    simp
  · rintro ⟨timed, hparse, _⟩
    have herror : parseReconcilerEvents ⟨true, false⟩ callLines = .error .attributeError := rfl
    rw [herror] at hparse
    cases hparse

end Sieve.Analyzer
