import Sieve.Analyzer.AcceptedLog

/-!
# Rounds that are counted together

With compression, `parse_reconciler_events` counts a round with the one before when nothing has been
written in between.  On a log without annotated API calls:

* `GroupStart`: the round is the first, or something has been written since the one before;
* `InGroup`: the write has the id of the last such round, and its range begins at the one before;
* `mem_roundMarks_iff`: the rounds that are counted are the group starts;
* `writes_in_groups`: every write is in its group.
-/

namespace Sieve.Analyzer

open Sieve.Library

/-- The line with this number is a round of the reconciler that begins. -/
def IsRound (f : String) (lines : List LogLine) (i : ℕ) : Prop :=
  ∃ id, lines[i]? = some (.beforeReconcile f id)

/-- The line with this number ends a write of some reconciler. -/
def IsWrite (lines : List LogLine) (i : ℕ) : Prop := ∃ write, lines[i]? = some (.afterRestWrite write)

/-- A round begins here, and since the round before, if there is one, something has been written. -/
def GroupStart (f : String) (lines : List LogLine) (i : ℕ) : Prop :=
  IsRound f lines i ∧ ∀ j < i, IsRound f lines j → (∀ m, j < m → m < i → ¬ IsRound f lines m) →
    ∃ k, j < k ∧ k < i ∧ IsWrite lines k

/-- The last group start before the line. -/
def LastStart (f : String) (lines : List LogLine) (t i : ℕ) : Prop :=
  GroupStart f lines i ∧ i < t ∧ ∀ j < t, GroupStart f lines j → j ≤ i

/-- The write, which ends at the line `t`, belongs to the last group, and its range begins with the
group before. -/
def InGroup (f : String) (lines : List LogLine) (t : ℕ) (learned : ControllerWrite) : Prop :=
  learned.rangeEndTimestamp = t ∧ ∃ i id, LastStart f lines t i ∧
    lines[i]? = some (.beforeReconcile f id) ∧ learned.reconcileId = id ∧
    ((∃ j, LastStart f lines i j ∧ learned.rangeStartTimestamp = j) ∨
      ((∀ j < i, ¬ GroupStart f lines j) ∧ learned.rangeStartTimestamp = -1))

def NoCalls (lines : List LogLine) : Prop :=
  ∀ call, LogLine.afterAnnotatedAPIInvocation call ∉ lines

section

variable {f : String} {lines : List LogLine} {line : LogLine}

/-! ### Prefixes -/

theorem getElem?_of_initial {before after : List LogLine} {i : ℕ} (h : i < before.length) :
    (before ++ after)[i]? = before[i]? := List.getElem?_append_left h

theorem isRound_lt {i : ℕ} (h : IsRound f lines i) : i < lines.length := by
  obtain ⟨id, hid⟩ := h
  exact (List.getElem?_eq_some_iff.mp hid).1

theorem isWrite_lt {i : ℕ} (h : IsWrite lines i) : i < lines.length := by
  obtain ⟨write, hwrite⟩ := h
  exact (List.getElem?_eq_some_iff.mp hwrite).1

theorem isRound_initial {before after : List LogLine} {i : ℕ} (h : i < before.length) :
    IsRound f (before ++ after) i ↔ IsRound f before i := by
  rw [IsRound, IsRound, getElem?_of_initial h]

theorem isWrite_initial {before after : List LogLine} {i : ℕ} (h : i < before.length) :
    IsWrite (before ++ after) i ↔ IsWrite before i := by
  rw [IsWrite, IsWrite, getElem?_of_initial h]

/-- What comes later does not matter for a group start. -/
theorem groupStart_initial {before after : List LogLine} {i : ℕ} (h : i < before.length) :
    GroupStart f (before ++ after) i ↔ GroupStart f before i := by
  rw [GroupStart, GroupStart, isRound_initial h]
  refine and_congr_right fun _ => forall₂_congr fun j hj => ?_
  rw [isRound_initial (hj.trans h)]
  refine imp_congr Iff.rfl (imp_congr ?_ ?_)
  · exact forall_congr' fun m => imp_congr Iff.rfl
      (forall_congr' fun hm => not_congr (isRound_initial (hm.trans h)))
  · refine exists_congr fun k => and_congr_right fun _ => and_congr_right fun hk => ?_
    exact isWrite_initial (hk.trans h)

theorem getElem?_snoc_self : (lines ++ [line])[lines.length]? = some line := by
  simp

/-- The last of the lines with a property. -/
theorem exists_last {p : ℕ → Prop} {n : ℕ} (h : ∃ i < n, p i) :
    ∃ i < n, p i ∧ ∀ m, i < m → m < n → ¬ p m := by
  induction n with
  | zero =>
    obtain ⟨i, hi, -⟩ := h
    omega
  | succ n ih =>
    by_cases hn : p n
    · exact ⟨n, by omega, hn, fun m hm hm' => by omega⟩
    · obtain ⟨i, hi, hpi⟩ := h
      have hne : i ≠ n := by
        intro heq
        exact hn (heq ▸ hpi)
      obtain ⟨j, hj, hpj, hlast⟩ := ih ⟨i, by omega, hpi⟩
      refine ⟨j, by omega, hpj, fun m hm hm' => ?_⟩
      by_cases heq : m = n
      · rw [heq]
        exact hn
      · exact hlast m hm (by omega)

/-! ### What the loop remembers -/

/-- Something has been written since the last round of the reconciler began. -/
theorem quietSince_false_iff (hcalls : NoCalls lines) : quietSince f lines.reverse = false ↔
    ∃ k, IsWrite lines k ∧ ∀ m, k < m → ¬ IsRound f lines m := by
  induction lines using List.reverseRecOn with
  | nil => simp [quietSince, IsWrite]
  | append_singleton lines line ih =>
    replace ih := ih fun call hmem => hcalls call (by simp [hmem])
    -- a line that is no write and no round of this reconciler changes nothing
    have hskip : ¬ IsWrite (lines ++ [line]) lines.length →
        ¬ IsRound f (lines ++ [line]) lines.length →
        ((∃ k, IsWrite (lines ++ [line]) k ∧ ∀ m, k < m → ¬ IsRound f (lines ++ [line]) m) ↔
          ∃ k, IsWrite lines k ∧ ∀ m, k < m → ¬ IsRound f lines m) := by
      intro hwrite hround
      constructor
      · intro h
        obtain ⟨k, hk, hlast⟩ := h
        have hlt := isWrite_lt hk
        rw [List.length_append, List.length_singleton] at hlt
        have hne : k ≠ lines.length := fun heq => hwrite (heq ▸ hk)
        refine ⟨k, (isWrite_initial (by omega)).mp hk, fun m hm hmr => hlast m hm ?_⟩
        exact (isRound_initial (isRound_lt hmr)).mpr hmr
      · intro h
        obtain ⟨k, hk, hlast⟩ := h
        refine ⟨k, (isWrite_initial (isWrite_lt hk)).mpr hk, fun m hm hmr => ?_⟩
        have hlt := isRound_lt hmr
        rw [List.length_append, List.length_singleton] at hlt
        have hne : m ≠ lines.length := fun heq => hround (heq ▸ hmr)
        exact hlast m hm ((isRound_initial (by omega)).mp hmr)
    rw [List.reverse_append, List.reverse_singleton, List.singleton_append]
    cases line with
    | afterRestWrite write =>
      rw [quietSince]
      refine iff_of_true rfl ⟨lines.length, ⟨write, getElem?_snoc_self⟩, fun m hm hmr => ?_⟩
      have hlt := isRound_lt hmr
      rw [List.length_append, List.length_singleton] at hlt
      omega
    | afterAnnotatedAPIInvocation call => exact absurd (by simp) (hcalls call)
    | beforeReconcile g id =>
      rw [quietSince]
      by_cases hg : g = f
      · refine iff_of_false (by simp [hg]) fun h => ?_
        obtain ⟨k, hk, hlast⟩ := h
        have hlt := isWrite_lt hk
        rw [List.length_append, List.length_singleton] at hlt
        have hround : IsRound f (lines ++ [.beforeReconcile g id]) lines.length :=
          ⟨id, by rw [getElem?_snoc_self, hg]⟩
        by_cases heq : k = lines.length
        · obtain ⟨write, hwrite⟩ := heq ▸ hk
          rw [getElem?_snoc_self] at hwrite
          cases hwrite
        · exact hlast lines.length (by omega) hround
      · rw [hskip (fun h => by simp [IsWrite] at h) (fun h => by simp [IsRound, hg] at h), ← ih]
        simp [hg]
    | _ =>
      rw [hskip (fun h => by simp [IsWrite] at h) (fun h => by simp [IsRound] at h), ← ih]
      rfl

theorem hasBegun_iff : HasBegun f lines ↔ ∃ i < lines.length, IsRound f lines i := by
  constructor
  · intro h
    obtain ⟨id, hmem⟩ := h
    obtain ⟨i, hi⟩ := List.mem_iff_getElem?.mp hmem
    exact ⟨i, (List.getElem?_eq_some_iff.mp hi).1, id, hi⟩
  · intro h
    obtain ⟨i, -, id, hi⟩ := h
    exact ⟨id, List.mem_of_getElem? hi⟩

/-- A round that begins now starts a group when it is the first or something has been written since
the last. -/
theorem groupStart_snoc_iff (hcalls : NoCalls lines) {id : ℤ} :
    GroupStart f (lines ++ [.beforeReconcile f id]) lines.length ↔
      ¬ HasBegun f lines ∨ quietSince f lines.reverse = false := by
  rw [quietSince_false_iff hcalls]
  constructor
  · intro h
    by_cases hbegun : HasBegun f lines
    · right
      obtain ⟨j, hj, hround, hlast⟩ := exists_last (hasBegun_iff.mp hbegun)
      obtain ⟨k, hjk, hk, hwrite⟩ := h.2 j hj ((isRound_initial hj).mpr hround)
        fun m hm hm' hmr => hlast m hm hm' ((isRound_initial hm').mp hmr)
      refine ⟨k, (isWrite_initial hk).mp hwrite, fun m hm hmr => ?_⟩
      exact hlast m (by omega) (isRound_lt hmr) hmr
    · exact .inl hbegun
  · intro h
    refine ⟨⟨id, getElem?_snoc_self⟩, fun j hj hround hnext => ?_⟩
    have hround := (isRound_initial hj).mp hround
    obtain hnone | ⟨k, hwrite, hlast⟩ := h
    · exact absurd (hasBegun_iff.mpr ⟨j, hj, hround⟩) hnone
    · have hk := isWrite_lt hwrite
      refine ⟨k, ?_, hk, (isWrite_initial hk).mpr hwrite⟩
      have hle : ¬ k < j := fun hlt => hlast j hlt hround
      have hne : k ≠ j := by
        intro heq
        obtain ⟨write, hw⟩ := hwrite
        obtain ⟨id', hid'⟩ := hround
        rw [heq, hid'] at hw
        cases hw
      omega

/-- **The rounds that are counted are the group starts.** -/
theorem mem_roundMarks_iff (hcalls : NoCalls lines) {mark : ReconcileMark} :
    mark ∈ roundMarks true f lines.reverse ↔ ∃ (i : ℕ) (id : ℤ), mark = ⟨f, id, i⟩ ∧
      lines[i]? = some (.beforeReconcile f id) ∧ GroupStart f lines i := by
  induction lines using List.reverseRecOn with
  | nil => simp [roundMarks]
  | append_singleton lines line ih =>
    have hcalls' : NoCalls lines := fun call hmem => hcalls call (by simp [hmem])
    replace ih := ih hcalls'
    -- group starts of the longer log that are not the new line
    have hold : (∃ (i : ℕ) (id : ℤ), mark = ⟨f, id, i⟩ ∧ i < lines.length ∧
        (lines ++ [line])[i]? = some (.beforeReconcile f id) ∧ GroupStart f (lines ++ [line]) i) ↔
        mark ∈ roundMarks true f lines.reverse := by
      rw [ih]
      refine exists_congr fun i => exists_congr fun id => and_congr_right fun _ => ?_
      constructor
      · intro h
        obtain ⟨hi, hget, hstart⟩ := h
        exact ⟨getElem?_of_initial hi ▸ hget, (groupStart_initial hi).mp hstart⟩
      · intro h
        obtain ⟨hget, hstart⟩ := h
        have hi := isRound_lt hstart.1
        exact ⟨hi, getElem?_of_initial hi ▸ hget, (groupStart_initial hi).mpr hstart⟩
    have hsplit : (∃ (i : ℕ) (id : ℤ), mark = ⟨f, id, i⟩ ∧
        (lines ++ [line])[i]? = some (.beforeReconcile f id) ∧ GroupStart f (lines ++ [line]) i) ↔
        mark ∈ roundMarks true f lines.reverse ∨ ∃ id, mark = ⟨f, id, lines.length⟩ ∧
          line = .beforeReconcile f id ∧ GroupStart f (lines ++ [line]) lines.length := by
      rw [← hold]
      constructor
      · intro h
        obtain ⟨i, id, hmark, hget, hstart⟩ := h
        have hi := isRound_lt hstart.1
        rw [List.length_append, List.length_singleton] at hi
        by_cases heq : i = lines.length
        · rw [heq, getElem?_snoc_self] at hget
          exact .inr ⟨id, heq ▸ hmark, Option.some.inj hget, heq ▸ hstart⟩
        · exact .inl ⟨i, id, hmark, by omega, hget, hstart⟩
      · intro h
        obtain ⟨i, id, hmark, -, hget, hstart⟩ | ⟨id, hmark, hline, hstart⟩ := h
        · exact ⟨i, id, hmark, hget, hstart⟩
        · exact ⟨_, id, hmark, by rw [getElem?_snoc_self, hline], hstart⟩
    rw [hsplit, List.reverse_append, List.reverse_singleton, List.singleton_append]
    cases line with
    | beforeReconcile g id =>
      rw [roundMarks, List.length_reverse]
      by_cases hg : g = f
      · have hbegun : HasBegun f lines.reverse ↔ HasBegun f lines := by
          simp [HasBegun]
        have hnew : (g = f ∧ ((roundMarks true f lines.reverse).isEmpty || !true ||
            !quietSince f lines.reverse) = true) ↔
            GroupStart f (lines ++ [.beforeReconcile g id]) lines.length := by
          rw [hg, groupStart_snoc_iff hcalls', ← hbegun, ← @roundMarks_ne_nil true, not_not]
          simp
        by_cases hstart : GroupStart f (lines ++ [.beforeReconcile g id]) lines.length
        · rw [if_pos (hnew.mpr hstart), List.mem_cons, or_comm]
          rw [hg] at hstart ⊢
          simp [hstart]
        · rw [if_neg fun h => hstart (hnew.mp h)]
          simp [hstart]
      · rw [if_neg fun h => hg h.1]
        simp [hg]
    | _ =>
      rw [roundMarks]
      · simp
      all_goals
        intros
        contradiction

theorem roundMarks_descending (past : List LogLine) : (roundMarks true f past).Pairwise
    fun later earlier => earlier.endTimestamp < later.endTimestamp := by
  induction past with
  | nil => exact .nil
  | cons line past ih =>
    cases line with
    | beforeReconcile g id =>
      rw [roundMarks]
      split
      · exact List.pairwise_cons.mpr ⟨fun mark hmem => roundMarks_lt hmem, ih⟩
      · exact ih
    | _ =>
      rw [roundMarks]
      · exact ih
      all_goals
        intros
        contradiction

/-- The first of the marks is the last group start, the second is the one before. -/
theorem lastStart_of_marks (hcalls : NoCalls lines) {cur : ReconcileMark} {marks : List ReconcileMark}
    (hmarks : roundMarks true f lines.reverse = cur :: marks) :
    ∃ (i : ℕ) (id : ℤ), cur = ⟨f, id, i⟩ ∧ lines[i]? = some (.beforeReconcile f id) ∧
      LastStart f lines lines.length i ∧
      ((∃ j : ℕ, LastStart f lines i j ∧ rangeStart (cur :: marks) = j) ∨
        ((∀ j < i, ¬ GroupStart f lines j) ∧ rangeStart (cur :: marks) = -1)) := by
  have hdescending := @roundMarks_descending f lines.reverse
  have hmem := fun mark => @mem_roundMarks_iff f lines hcalls mark
  rw [hmarks] at hdescending
  simp only [hmarks] at hmem
  obtain ⟨hcur, hrest⟩ := List.pairwise_cons.mp hdescending
  obtain ⟨i, id, rfl, hget, hstart⟩ := (hmem cur).mp List.mem_cons_self
  refine ⟨i, id, rfl, hget, ⟨hstart, isRound_lt hstart.1, fun j _ hj => ?_⟩, ?_⟩
  · obtain ⟨id', hid'⟩ := hj.1
    obtain heq | hold := List.mem_cons.mp ((hmem ⟨f, id', j⟩).mpr ⟨j, id', rfl, hid', hj⟩)
    · have := congrArg ReconcileMark.endTimestamp heq
      dsimp only at this
      omega
    · have := hcur _ hold
      dsimp only at this
      omega
  · -- the group starts before the last one are the other marks
    have hother : ∀ j < i, GroupStart f lines j → ∃ mark ∈ marks, mark.endTimestamp = j := by
      intro j hj hstart'
      obtain ⟨id', hid'⟩ := hstart'.1
      obtain heq | hold := List.mem_cons.mp ((hmem ⟨f, id', j⟩).mpr ⟨j, id', rfl, hid', hstart'⟩)
      · have := congrArg ReconcileMark.endTimestamp heq
        dsimp only at this
        omega
      · exact ⟨_, hold, rfl⟩
    cases marks with
    | nil =>
      refine .inr ⟨fun j hj hstart' => ?_, rfl⟩
      obtain ⟨mark, hmark, -⟩ := hother j hj hstart'
      cases hmark
    | cons prev marks =>
      obtain ⟨j, id', rfl, hget', hstart'⟩ := (hmem prev).mp (by simp)
      have hlt := hcur ⟨f, id', j⟩ List.mem_cons_self
      have hlt : j < i := by
        dsimp only at hlt
        omega
      refine .inl ⟨j, ⟨hstart', hlt, fun j' hj' hstart'' => ?_⟩, rfl⟩
      obtain ⟨mark, hmark, hend⟩ := hother j' hj' hstart''
      obtain rfl | hold := List.mem_cons.mp hmark
      · dsimp only at hend
        omega
      · have := (List.pairwise_cons.mp hrest).1 mark hold
        dsimp only at this
        omega

/-- What comes after the write does not matter. -/
theorem inGroup_initial {before after : List LogLine} {learned : ControllerWrite}
    (h : InGroup f before before.length learned) :
    InGroup f (before ++ after) before.length learned := by
  have hlast : ∀ {t i : ℕ}, t ≤ before.length → LastStart f before t i →
      LastStart f (before ++ after) t i := by
    intro t i ht h
    obtain ⟨hstart, hi, hmax⟩ := h
    refine ⟨(groupStart_initial (by omega)).mpr hstart, hi, fun j hj hstart' => ?_⟩
    exact hmax j hj ((groupStart_initial (by omega)).mp hstart')
  obtain ⟨hend, i, id, hi, hget, hid, hrange⟩ := h
  have hlt := hi.2.1
  refine ⟨hend, i, id, hlast (Nat.le_refl _) hi, getElem?_of_initial hlt ▸ hget, hid, ?_⟩
  obtain ⟨j, hj, heq⟩ | ⟨hnone, heq⟩ := hrange
  · exact .inl ⟨j, hlast (by omega) hj, heq⟩
  · refine .inr ⟨fun j hj hstart => hnone j hj ?_, heq⟩
    exact (groupStart_initial (by omega)).mp hstart

end

/-- **Every write is in its group**: the loop enters one for every line of a reconciler that has begun
a round, with the id and the range of its group, and returns no others. -/
theorem writes_in_groups {config : ReconcilerConfig} {lines : List LogLine}
    {events : List ReconcilerEvent} (hcompress : config.compressTrivialReconcileEnabled = true)
    (hcalls : NoCalls lines) (hparse : parseReconcilerEvents config lines = .ok events) :
    (∀ before write after, lines = before ++ .afterRestWrite write :: after →
      HasBegun write.reconcileFun before → ∃ learned, StoredWrite config before write learned ∧
        InGroup write.reconcileFun lines before.length learned) ∧
    ∀ learned, .write learned ∈ events → ∃ before write after,
      lines = before ++ .afterRestWrite write :: after ∧ StoredWrite config before write learned := by
  obtain ⟨st', hrun, -⟩ := bind_ok_iff.mp hparse
  refine ⟨fun before write after hlines hbegun => ?_, fun learned hmem => write_mem_stored hparse hmem⟩
  rw [hlines] at hrun hcalls ⊢
  obtain ⟨st, cur, marks, start, hbefore, hmarks, hstored⟩ := stored_of_begun hrun hbegun
  refine ⟨_, hstored, inGroup_initial ?_⟩
  have hcalls' : NoCalls before := fun call hmem => hcalls call (by simp [hmem])
  have hearliest := earliestTimestamp_eq (reads_of_run hbefore) hmarks
  rw [hcompress] at hmarks
  obtain ⟨i, id, rfl, hget, hlast, hrange⟩ := lastStart_of_marks hcalls' hmarks
  refine ⟨rfl, i, id, hlast, hget, rfl, ?_⟩
  rw [← hearliest] at hrange
  exact hrange

/-- Three rounds: a write, nothing, and a write in the group that the second round begins. -/
def groupedLines : List LogLine :=
  [.beforeReconcile "f" 0, .beforeRestWrite 1,
    .afterRestWrite { id := 1, etype := .update, rtype := "pod", objNamespace := "default", name := "a",
                      reconcileFun := "f", error := "NoError", objMap := [] },
    .afterReconcile "f" 0, .beforeReconcile "f" 1, .afterReconcile "f" 1, .beforeReconcile "f" 2,
    .beforeRestWrite 2,
    .afterRestWrite { id := 2, etype := .delete, rtype := "pod", objNamespace := "default", name := "a",
                      reconcileFun := "f", error := "NoError", objMap := [] },
    .afterReconcile "f" 2]

theorem groupedLines_noCalls : NoCalls groupedLines := fun call hmem => by simp [groupedLines] at hmem

theorem writes_in_groups_rounds : ∃ events, parseReconcilerEvents ⟨true, false⟩ groupedLines = .ok events ∧
    (∀ before write after, groupedLines = before ++ .afterRestWrite write :: after →
      HasBegun write.reconcileFun before → ∃ learned, StoredWrite ⟨true, false⟩ before write learned ∧
        InGroup write.reconcileFun groupedLines before.length learned) ∧
    ∀ learned, .write learned ∈ events → ∃ before write after,
      groupedLines = before ++ .afterRestWrite write :: after ∧
        StoredWrite ⟨true, false⟩ before write learned :=
  ⟨_, rfl, writes_in_groups rfl groupedLines_noCalls rfl⟩

end Sieve.Analyzer
