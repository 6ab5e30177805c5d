import Sieve.Analyzer.AcceptedLog

/-!
# What has been read before a write

The reconcilers share the sets of keys and types read, which are copied at a write and cleared when no
round goes on.  On a log in which the cache is read in rounds only:

* `Running`, `Idle`: a round of the reconciler goes on after so many lines, or no round at all;
* `FindsAt`: a key or a type is read from the cache in a line;
* `hasRead_step`: what a line does to the two sets;
* `found_since_round`, `found_since_idle`: what they contain, and what they do not;
* `writes_read_sets`: so do the sets of every write in a round.
-/

namespace Sieve.Analyzer

open Sieve.Library

/-- A key in the one set, or a type in the other. -/
inductive ReadItem where
  | key (key : String)
  | rtype (rtype : String)

/-- A read of the cache gets the key, or lists the type. -/
def ControllerRead.Finds (read : ControllerRead) : ReadItem → Prop
  | .key key => read.etype = .get ∧ key ∈ read.keySet
  | .rtype rtype => read.etype = .list ∧ read.rtype = rtype

def ParseState.HasRead (st : ParseState) : ReadItem → Prop
  | .key key => key ∈ st.readKeysThisReconcile
  | .rtype rtype => rtype ∈ st.readTypesThisReconcile

def ControllerWrite.HasRead (write : ControllerWrite) : ReadItem → Prop
  | .key key => key ∈ write.readKeys
  | .rtype rtype => rtype ∈ write.readTypes

/-- A round of the reconciler goes on after the first `i` lines. -/
def Running (f : String) (lines : List LogLine) (i : ℕ) : Prop :=
  Ongoing f ((lines.take i).reverse.map LogLine.status) = true

/-- No round goes on after the first `i` lines. -/
def Idle (lines : List LogLine) (i : ℕ) : Prop := ∀ f, ¬ Running f lines i

/-- The reconciler reads the key or the type from the cache in this line. -/
def FindsAt (f : String) (lines : List LogLine) (item : ReadItem) (k : ℕ) : Prop :=
  ∃ read, lines[k]? = some (.afterCacheRead read) ∧ read.reconcileFun = f ∧ read.Finds item

/-- Every read of the cache is in a round of its reconciler. -/
def ReadsInRounds (lines : List LogLine) : Prop :=
  ∀ (k : ℕ) (read : ControllerRead), lines[k]? = some (.afterCacheRead read) →
    Running read.reconcileFun lines k

/-- The line `t` is in the round of the reconciler that begins in the line `b`. -/
def InRoundOf (f : String) (lines : List LogLine) (b t : ℕ) : Prop :=
  b < t ∧ (∃ id, lines[b]? = some (.beforeReconcile f id)) ∧
    ∀ m, b < m → m < t → ∀ id, lines[m]? ≠ some (.beforeReconcile f id) ∧
      lines[m]? ≠ some (.afterReconcile f id)

section

variable {config : ReconcilerConfig} {past lines : List LogLine} {line : LogLine} {st st' : ParseState}
  {f : String}

/-! ### One line -/

theorem hasRead_cacheRead (i : ℕ) (read : ControllerRead) (item : ReadItem) :
    (parseAfterCacheRead i st read).HasRead item ↔ st.HasRead item ∨
      ((st.curReconcilePerType read.reconcileFun).isSome ∧ read.Finds item) := by
  rw [parseAfterCacheRead]
  cases hcur : st.curReconcilePerType read.reconcileFun with
  | none => simp
  | some cur =>
    cases hetype : read.etype with
    | get =>
      cases item with
      | key key => simp [ParseState.HasRead, ParseState.addEvent, ControllerRead.Finds, hetype]
      | rtype rtype => simp [ParseState.HasRead, ParseState.addEvent, ControllerRead.Finds, hetype]
    | list =>
      cases item with
      | key key => simp [ParseState.HasRead, ParseState.addEvent, ControllerRead.Finds, hetype]
      | rtype rtype =>
        simp [ParseState.HasRead, ParseState.addEvent, ControllerRead.Finds, hetype, or_comm, eq_comm]

/-- **What a line does to the sets**: a read of the cache in a round adds to them, the last end of a
round clears them. -/
theorem hasRead_step (hparse : parseLine config past.length st line = .ok st') (item : ReadItem) :
    st'.HasRead item ↔ (st.HasRead item ∨ ∃ read, line = .afterCacheRead read ∧
        (st.curReconcilePerType read.reconcileFun).isSome ∧ read.Finds item) ∧
      ¬ (st'.ongoingReconciles = ∅ ∧ ∃ g id, line = .afterReconcile g id) := by
  cases line with
  | afterCacheRead read =>
    rw [← Except.ok.inj hparse, hasRead_cacheRead]
    simp
  | afterRestWrite write =>
    obtain ⟨m, hst⟩ := parseAfterRestWrite_ok hparse
    rw [hst]
    cases item <;> simp [ParseState.HasRead]
  | afterAnnotatedAPIInvocation call =>
    obtain ⟨m, hst⟩ := parseAfterAnnotatedAPIInvocation_ok hparse
    rw [hst]
    cases item <;> simp [ParseState.HasRead]
  | afterRestRead read =>
    rw [← Except.ok.inj hparse, parseAfterRestRead_eq]
    cases item <;> simp [ParseState.HasRead]
  | beforeReconcile g id =>
    rw [parseLine, parseBeforeReconcile] at hparse
    split at hparse
    · cases hparse
    · have hsets : st'.readKeysThisReconcile = st.readKeysThisReconcile ∧
          st'.readTypesThisReconcile = st.readTypesThisReconcile := by
        rw [← Except.ok.inj hparse]
        simp only
        split <;> exact ⟨rfl, rfl⟩
      cases item with
      | key key => simp [ParseState.HasRead, hsets.1]
      | rtype rtype => simp [ParseState.HasRead, hsets.2]
  | afterReconcile g id =>
    rw [parseLine, parseAfterReconcile] at hparse
    split at hparse
    · rw [← Except.ok.inj hparse]
      split
      · rename_i hempty
        cases item <;> simp_all [ParseState.HasRead, ParseState.addEvent]
      · rename_i hongoing
        cases item <;> simp_all [ParseState.HasRead, ParseState.addEvent]
    · cases hparse
  | _ =>
    rw [← Except.ok.inj hparse]
    cases item <;> simp [ParseState.HasRead]

/-! ### Rounds that go on -/

theorem running_self : Running f lines lines.length ↔
    Ongoing f (lines.reverse.map LogLine.status) = true := by
  rw [Running, List.take_length]

theorem running_initial {after : List LogLine} {i : ℕ} (h : i ≤ lines.length) :
    Running f (lines ++ after) i ↔ Running f lines i := by
  rw [Running, Running, List.take_append_of_le_length h]

theorem readsInRounds_initial {after : List LogLine} (h : ReadsInRounds (lines ++ after)) :
    ReadsInRounds lines := by
  intro k read hread
  have hk := (List.getElem?_eq_some_iff.mp hread).1
  exact (running_initial (Nat.le_of_lt hk)).mp (h k read (by rw [List.getElem?_append_left hk, hread]))

theorem running_iff_ongoing (h : Reads config lines.reverse st) :
    Running f lines lines.length ↔ f ∈ st.ongoingReconciles := by
  rw [running_self, h.ongoing]

theorem running_begun (h : Running f lines lines.length) : HasBegun f lines.reverse := by
  rw [running_self] at h
  generalize lines.reverse = past at h ⊢
  induction past with
  | nil => simp [Ongoing] at h
  | cons line past ih =>
    have hold : HasBegun f past → HasBegun f (line :: past) := by
      intro hbegun
      obtain ⟨id, hmem⟩ := hbegun
      exact ⟨id, List.mem_cons_of_mem line hmem⟩
    cases line with
    | beforeReconcile g id =>
      by_cases hg : g = f
      · exact ⟨id, by simp [hg]⟩
      · exact hold (ih (by simpa [LogLine.status, Ongoing, hg] using h))
    | afterReconcile g id =>
      rw [List.map_cons, LogLine.status, Ongoing, Bool.and_eq_true] at h
      exact hold (ih h.2)
    | _ => exact hold (ih h)

/-- In a round the reconciler runs. -/
theorem running_of_inRoundOf {b t : ℕ} (h : InRoundOf f lines b t) {m : ℕ} (hbm : b < m) (hmt : m ≤ t)
    (hlength : t ≤ lines.length) : Running f lines m := by
  obtain ⟨-, ⟨id, hbegin⟩, hnone⟩ := h
  induction m with
  | zero => omega
  | succ m ih =>
    have hm : m < lines.length := by omega
    rw [Running, List.take_succ_eq_append_getElem hm, List.reverse_append, List.reverse_singleton,
      List.singleton_append, List.map_cons]
    by_cases heq : b = m
    · have hline : lines[m] = .beforeReconcile f id := by
        rw [heq, List.getElem?_eq_getElem hm] at hbegin
        exact Option.some.inj hbegin
      rw [hline]
      simp [LogLine.status, Ongoing]
    · have hrunning := ih (by omega) (by omega)
      rw [Running] at hrunning
      have hline := hnone m (by omega) (by omega)
      rw [List.getElem?_eq_getElem hm] at hline
      cases hlm : lines[m] with
      | beforeReconcile g id' =>
        show (g == f || Ongoing f _) = true
        rw [hrunning, Bool.or_true]
      | afterReconcile g id' =>
        have hne : g ≠ f := by
          intro hg
          exact (hline id').2 (by rw [hlm, hg])
        show (g != f && Ongoing f _) = true
        rw [hrunning, Bool.and_true, bne_iff_ne]
        exact hne
      | _ => exact hrunning

/-! ### What the sets contain -/

/-- **What has been read since the round began** is in the sets. -/
theorem found_since_round (hparse : parseLines config 0 .init lines = .ok st) {item : ReadItem} {k : ℕ}
    (hfinds : FindsAt f lines item k) (hrunning : ∀ m, k ≤ m → m ≤ lines.length → Running f lines m) :
    st.HasRead item := by
  induction lines using List.reverseRecOn generalizing st with
  | nil =>
    obtain ⟨read, hread, -⟩ := hfinds
    simp at hread
  | append_singleton lines line ih =>
    obtain ⟨st₁, hrun, hline⟩ := parseLines_snoc.mp hparse
    have hreads := reads_of_run hrun
    rw [Nat.zero_add, ← List.length_reverse] at hline
    have hlast : f ∈ st.ongoingReconciles :=
      (running_iff_ongoing (reads_of_run hparse)).mp (hrunning _ (by
        obtain ⟨read, hread, -⟩ := hfinds
        exact Nat.le_of_lt (List.getElem?_eq_some_iff.mp hread).1) (Nat.le_refl _))
    rw [hasRead_step hline]
    refine ⟨?_, fun hclear => ?_⟩
    · by_cases hk : k < lines.length
      · left
        refine ih hrun ?_ fun m hm hm' => ?_
        · obtain ⟨read, hread, hfun⟩ := hfinds
          exact ⟨read, List.getElem?_append_left hk ▸ hread, hfun⟩
        · exact (running_initial hm').mp (hrunning m hm (by simp; omega))
      · right
        obtain ⟨read, hread, hfun, hitem⟩ := hfinds
        have hlt := (List.getElem?_eq_some_iff.mp hread).1
        rw [List.length_append, List.length_singleton] at hlt
        have heq : k = lines.length := by omega
        rw [heq] at hread hrunning
        rw [List.getElem?_append_right (Nat.le_refl _), Nat.sub_self, List.getElem?_cons_zero] at hread
        refine ⟨read, Option.some.inj hread, ?_, hitem⟩
        have hbegun := running_begun ((running_initial (Nat.le_refl _)).mp
          (hrunning lines.length (Nat.le_refl _) (by simp)))
        rw [hfun, ← Option.not_isNone, Bool.not_eq_true', ← Bool.not_eq_true, hreads.isNone_iff, not_not]
        exact hbegun
    · rw [hclear.1] at hlast
      simp at hlast

/-- When no round goes on, nothing is in the sets. -/
theorem none_when_idle (hparse : parseLines config 0 .init lines = .ok st) (hin : ReadsInRounds lines)
    (hidle : st.ongoingReconciles = ∅) (item : ReadItem) : ¬ st.HasRead item := by
  induction lines using List.reverseRecOn generalizing st with
  | nil =>
    rw [← Except.ok.inj hparse]
    cases item <;> simp [ParseState.HasRead, ParseState.init]
  | append_singleton lines line ih =>
    obtain ⟨st₁, hrun, hline⟩ := parseLines_snoc.mp hparse
    have hreads := reads_of_run hrun
    have hreads' := reads_of_run hparse
    rw [List.reverse_append, List.reverse_singleton, List.singleton_append] at hreads'
    rw [Nat.zero_add, ← List.length_reverse] at hline
    have hin' := readsInRounds_initial hin
    intro hhas
    rw [hasRead_step hline] at hhas
    obtain ⟨hhas, hclear⟩ := hhas
    -- the line is no end of a round, so no round went on before it
    have hidle₁ : st₁.ongoingReconciles = ∅ := by
      rw [Finset.eq_empty_iff_forall_notMem] at hidle ⊢
      intro g hg
      rw [hreads.ongoing] at hg
      refine hidle g ((hreads'.ongoing g).mpr ?_)
      rw [List.map_cons]
      cases line with
      | beforeReconcile g' id =>
        show (g' == g || Ongoing g _) = true
        rw [hg, Bool.or_true]
      | afterReconcile g' id =>
        exact absurd ⟨Finset.eq_empty_iff_forall_notMem.mpr hidle, g', id, rfl⟩ hclear
      | _ => exact hg
    obtain hold | ⟨read, rfl, -, -⟩ := hhas
    · exact ih hrun hin' hidle₁ hold
    · have hrunning := (running_initial (Nat.le_refl _)).mp
        (hin lines.length read (by rw [List.getElem?_append_right (Nat.le_refl _)]; simp))
      rw [running_iff_ongoing hreads, hidle₁] at hrunning
      simp at hrunning

/-- **What is in the sets has been read** since no round went on. -/
theorem found_since_idle (hparse : parseLines config 0 .init lines = .ok st) (hin : ReadsInRounds lines)
    {q : ℕ} (hq : q ≤ lines.length) (hidle : Idle lines q) {item : ReadItem} (hhas : st.HasRead item) :
    ∃ g k, q ≤ k ∧ k < lines.length ∧ FindsAt g lines item k := by
  by_cases heq : q = lines.length
  · refine absurd hhas (none_when_idle hparse hin ?_ item)
    rw [Finset.eq_empty_iff_forall_notMem]
    intro g hg
    exact hidle g (heq ▸ (running_iff_ongoing (reads_of_run hparse)).mpr hg)
  · induction lines using List.reverseRecOn generalizing st with
    | nil => simp at hq heq; omega
    | append_singleton lines line ih =>
      obtain ⟨st₁, hrun, hline⟩ := parseLines_snoc.mp hparse
      rw [Nat.zero_add, ← List.length_reverse] at hline
      rw [List.length_append, List.length_singleton] at hq heq ⊢
      have hin' := readsInRounds_initial hin
      have hidle' : Idle lines q := fun g hg => hidle g ((running_initial (by omega)).mpr hg)
      obtain hold | ⟨read, rfl, -, hitem⟩ := ((hasRead_step hline item).mp hhas).1
      · by_cases heq' : q = lines.length
        · refine absurd hold (none_when_idle hrun hin' ?_ item)
          rw [Finset.eq_empty_iff_forall_notMem]
          intro g hg
          exact hidle' g (heq' ▸ (running_iff_ongoing (reads_of_run hrun)).mpr hg)
        · obtain ⟨g, k, hqk, hk, read, hread, hfinds⟩ := ih hrun hin' (by omega) hidle' hold heq'
          exact ⟨g, k, hqk, by omega, read, by rw [List.getElem?_append_left hk, hread], hfinds⟩
      · refine ⟨read.reconcileFun, lines.length, by omega, by omega, read, ?_, rfl, hitem⟩
        rw [List.getElem?_append_right (Nat.le_refl _), Nat.sub_self, List.getElem?_cons_zero]

end

/-- **The read sets of a write** in a round contain what its reconciler has read since the round began,
and nothing that has not been read since the last moment at which no round went on. -/
theorem writes_read_sets {config : ReconcilerConfig} {lines : List LogLine}
    {events : List ReconcilerEvent} (hin : ReadsInRounds lines)
    (hparse : parseReconcilerEvents config lines = .ok events) :
    (∀ before write after b, lines = before ++ .afterRestWrite write :: after →
      InRoundOf write.reconcileFun lines b before.length →
      ∃ learned, StoredWrite config before write learned ∧
        (∀ item k, b < k → k < before.length → FindsAt write.reconcileFun lines item k →
          learned.HasRead item) ∧
        ∀ q ≤ before.length, Idle lines q → ∀ item, learned.HasRead item →
          ∃ g k, q ≤ k ∧ k < before.length ∧ FindsAt g lines item k) ∧
    ∀ learned, .write learned ∈ events → ∃ before write after,
      lines = before ++ .afterRestWrite write :: after ∧ StoredWrite config before write learned := by
  obtain ⟨st', hrun, -⟩ := bind_ok_iff.mp hparse
  refine ⟨fun before write after b hlines hround => ?_, fun learned hmem => write_mem_stored hparse hmem⟩
  rw [hlines] at hrun hin hround ⊢
  have hbegun : HasBegun write.reconcileFun before := by
    obtain ⟨hb, ⟨id, hid⟩, -⟩ := hround
    rw [List.getElem?_append_left hb] at hid
    exact ⟨id, List.mem_of_getElem? hid⟩
  obtain ⟨st, cur, marks, start, hbefore, -, hstored⟩ := stored_of_begun hrun hbegun
  have hitems : ∀ item, (completeWrite st cur start before.length write).HasRead item ↔
      st.HasRead item := by
    intro item
    cases item <;> rfl
  have hfinds : ∀ {g : String} {item : ReadItem} {k : ℕ}, k < before.length →
      (FindsAt g (before ++ .afterRestWrite write :: after) item k ↔ FindsAt g before item k) := by
    intro g item k hk
    rw [FindsAt, FindsAt, List.getElem?_append_left hk]
  refine ⟨_, hstored, fun item k hbk hk hfound => ?_, fun q hq hidle item hhas => ?_⟩
  · rw [hitems]
    refine found_since_round hbefore ((hfinds hk).mp hfound) fun m hm hm' => ?_
    exact (running_initial hm').mp (running_of_inRoundOf hround (by omega) hm' (by simp))
  · rw [hitems] at hhas
    have hidle' : Idle before q := fun g hg => hidle g ((running_initial hq).mpr hg)
    obtain ⟨g, k, hqk, hk, hfound⟩ := found_since_idle hbefore (readsInRounds_initial hin) hq hidle' hhas
    exact ⟨g, k, hqk, hk, (hfinds hk).mpr hfound⟩

theorem roundLines_reads : ReadsInRounds roundLines := by
  intro k read hread
  have hlt := (List.getElem?_eq_some_iff.mp hread).1
  simp only [roundLines, List.length_cons, List.length_nil] at hlt
  obtain rfl | rfl | rfl | rfl | rfl : k = 0 ∨ k = 1 ∨ k = 2 ∨ k = 3 ∨ k = 4 := by omega
  · cases hread
  · cases hread
    rfl
  · cases hread
  · cases hread
  · cases hread

theorem writes_read_sets_round : ∃ events, parseReconcilerEvents ⟨true, false⟩ roundLines = .ok events ∧
    (∀ before write after b, roundLines = before ++ .afterRestWrite write :: after →
      InRoundOf write.reconcileFun roundLines b before.length →
      ∃ learned, StoredWrite ⟨true, false⟩ before write learned ∧
        (∀ item k, b < k → k < before.length → FindsAt write.reconcileFun roundLines item k →
          learned.HasRead item) ∧
        ∀ q ≤ before.length, Idle roundLines q → ∀ item, learned.HasRead item →
          ∃ g k, q ≤ k ∧ k < before.length ∧ FindsAt g roundLines item k) ∧
    ∀ learned, .write learned ∈ events → ∃ before write after,
      roundLines = before ++ .afterRestWrite write :: after ∧
        StoredWrite ⟨true, false⟩ before write learned :=
  ⟨_, rfl, writes_read_sets roundLines_reads rfl⟩

end Sieve.Analyzer
