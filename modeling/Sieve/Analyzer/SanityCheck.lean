import Sieve.Analyzer.K8sEvent
import Sieve.Library.FoldExcept

/-!
# The sanity check of the learner's log

`sanity_check_sieve_server_log` of `analyze.py`, on lines of which the mark and the id or the
reconciler have been found:

* `sanityCheck`: the check, line by line, with the three loops at the end;
* `Fits`: a line fits what has been logged before it;
* `sanityCheck_iff`: the check accepts a log exactly when every line fits.
-/

namespace Sieve.Analyzer

open Sieve.Library

/-- What the check sees of a line. -/
inductive StatusLine where
  | beforeRestWrite (id : ℤ)
  | afterRestWrite (id : ℤ)
  | beforeHear (id : ℤ)
  | afterHear (id : ℤ)
  | beforeReconcile (reconcileFun : String)
  | afterReconcile (reconcileFun : String)
  | other
  deriving DecidableEq

/-- `reconcileFun` is the variable of that name, which outlives the loop. -/
structure SanityState where
  reconcileStatus : String → Option ℤ
  controllerWriteStatus : ℤ → Option ℕ
  controllerHearStatus : ℤ → Option ℕ
  reconcileFun : Option String

def SanityState.init : SanityState := ⟨fun _ => none, fun _ => none, fun _ => none, none⟩

/-- An id is met in a BEFORE line. -/
def idBegins (status : ℤ → Option ℕ) (id : ℤ) : Except AnalysisError (ℤ → Option ℕ) :=
  if (status id).isSome then .error .assertion else .ok (Function.update status id (some 1))

/-- An id is met in an AFTER line. -/
def idEnds (status : ℤ → Option ℕ) (id : ℤ) : Except AnalysisError (ℤ → Option ℕ) :=
  match status id with
  | none => .error .assertion
  | some n => .ok (Function.update status id (some (n + 1)))

/-- The last assertion about an id. -/
def idEnded (status : ℤ → Option ℕ) (id : ℤ) : Bool := status id == some 1 || status id == some 2

def sanityLine (st : SanityState) : StatusLine → Except AnalysisError SanityState
  | .beforeRestWrite id => do
    .ok { st with controllerWriteStatus := ← idBegins st.controllerWriteStatus id }
  | .afterRestWrite id => do
    .ok { st with controllerWriteStatus := ← idEnds st.controllerWriteStatus id }
  | .beforeHear id => do
    .ok { st with controllerHearStatus := ← idBegins st.controllerHearStatus id }
  | .afterHear id => do
    .ok { st with controllerHearStatus := ← idEnds st.controllerHearStatus id }
  | .beforeReconcile f =>
    let status := (st.reconcileStatus f).getD 0 + 1
    if status = 1 then
      .ok { st with
        reconcileStatus := Function.update st.reconcileStatus f (some status)
        reconcileFun := some f }
    else .error .assertion
  | .afterReconcile f =>
    match st.reconcileStatus f with
    | none => .error .assertion
    | some status =>
      if status - 1 = 0 then
        .ok { st with
          reconcileStatus := Function.update st.reconcileStatus f (some (status - 1))
          reconcileFun := some f }
      else .error .assertion
  | .other => .ok st

/-- The loops at the end.  The last one looks at the reconciler of the last boundary again and
again. -/
def sanityEnd (st : SanityState) (lines : List StatusLine) : Bool :=
  lines.all fun line =>
    match line with
    | .beforeRestWrite id => idEnded st.controllerWriteStatus id
    | .beforeHear id => idEnded st.controllerHearStatus id
    | .beforeReconcile _ =>
      match st.reconcileFun with
      | some f => st.reconcileStatus f == some 0 || st.reconcileStatus f == some 1
      | none => false
    | _ => true

def sanityCheck (lines : List StatusLine) : Except AnalysisError Unit := do
  let st ← lines.foldlM sanityLine .init
  if sanityEnd st lines then .ok () else .error .assertion

/-! ### What is accepted -/

/-- The last boundary of the reconciler, in a log newest first, is the beginning of a round. -/
def Ongoing (f : String) : List StatusLine → Bool
  | [] => false
  | .beforeReconcile g :: past => g == f || Ongoing f past
  | .afterReconcile g :: past => g != f && Ongoing f past
  | _ :: past => Ongoing f past

/-- The line may be logged after the past. -/
def Fits (past : List StatusLine) : StatusLine → Prop
  | .beforeRestWrite id => .beforeRestWrite id ∉ past
  | .afterRestWrite id => .beforeRestWrite id ∈ past ∧ .afterRestWrite id ∉ past
  | .beforeHear id => .beforeHear id ∉ past
  | .afterHear id => .beforeHear id ∈ past ∧ .afterHear id ∉ past
  | .beforeReconcile f => Ongoing f past = false
  | .afterReconcile f => Ongoing f past = true
  | .other => True

/-- Every line of the log, newest first, fits those before it. -/
def Sane : List StatusLine → Prop
  | [] => True
  | line :: past => Fits past line ∧ Sane past

/-! ### One line -/

/-- `Fits`, as far as a line is looked at when it is met. -/
def Accepted (past : List StatusLine) : StatusLine → Prop
  | .beforeRestWrite id => .beforeRestWrite id ∉ past
  | .afterRestWrite id => .beforeRestWrite id ∈ past
  | .beforeHear id => .beforeHear id ∉ past
  | .afterHear id => .beforeHear id ∈ past
  | .beforeReconcile f => Ongoing f past = false
  | .afterReconcile f => Ongoing f past = true
  | .other => True

/-- What the statuses of one kind of ids say about the past. -/
def Tracks (begins ends : ℤ → StatusLine) (past : List StatusLine) (status : ℤ → Option ℕ) : Prop :=
  ∀ id, status id = if begins id ∈ past then some (1 + past.count (ends id)) else none

theorem Tracks.skip {begins ends : ℤ → StatusLine} {past : List StatusLine} {status : ℤ → Option ℕ}
    (h : Tracks begins ends past status) {line : StatusLine} (hbegins : ∀ id, begins id ≠ line)
    (hends : ∀ id, ends id ≠ line) : Tracks begins ends (line :: past) status := by
  intro id
  rw [h id, List.count_cons_of_ne (hends id).symm]
  simp [hbegins id]

theorem idBegins_iff {begins ends : ℤ → StatusLine} {past : List StatusLine}
    {status : ℤ → Option ℕ} (h : Tracks begins ends past status) {id : ℤ} :
    (∃ status', idBegins status id = .ok status') ↔ begins id ∉ past := by
  rw [idBegins, h id]
  by_cases hmem : begins id ∈ past <;> simp [hmem]

theorem idEnds_iff {begins ends : ℤ → StatusLine} {past : List StatusLine}
    {status : ℤ → Option ℕ} (h : Tracks begins ends past status) {id : ℤ} :
    (∃ status', idEnds status id = .ok status') ↔ begins id ∈ past := by
  rw [idEnds, h id]
  by_cases hmem : begins id ∈ past <;> simp [hmem]

/-- An id that ends has begun before. -/
def EndsBegun (begins ends : ℤ → StatusLine) (past : List StatusLine) : Prop :=
  ∀ id, ends id ∈ past → begins id ∈ past

theorem Tracks.begins {begins ends : ℤ → StatusLine} {past : List StatusLine}
    {status status' : ℤ → Option ℕ} (h : Tracks begins ends past status) {id : ℤ}
    (hinjective : Function.Injective begins) (hends : ∀ id', ends id' ≠ begins id)
    (hbegun : EndsBegun begins ends past) (hstep : idBegins status id = .ok status') :
    Tracks begins ends (begins id :: past) status' := by
  have hnew := (idBegins_iff h).mp ⟨_, hstep⟩
  rw [idBegins, h id, if_neg hnew] at hstep
  rw [← Except.ok.inj hstep]
  intro id'
  rw [List.count_cons_of_ne (hends id').symm]
  by_cases hid : id' = id
  · rw [hid, Function.update_self, if_pos List.mem_cons_self,
      List.count_eq_zero_of_not_mem fun hend => hnew (hbegun id hend)]
  · rw [Function.update_of_ne hid, h id']
    simp [hinjective.ne hid]

theorem Tracks.ends {begins ends : ℤ → StatusLine} {past : List StatusLine}
    {status status' : ℤ → Option ℕ} (h : Tracks begins ends past status) {id : ℤ}
    (hinjective : Function.Injective ends) (hbegins : ∀ id', begins id' ≠ ends id)
    (hstep : idEnds status id = .ok status') : Tracks begins ends (ends id :: past) status' := by
  have hmem := (idEnds_iff h).mp ⟨_, hstep⟩
  rw [idEnds, h id, if_pos hmem] at hstep
  rw [← Except.ok.inj hstep]
  intro id'
  by_cases hid : id' = id
  · rw [hid, Function.update_self, if_pos (List.mem_cons_of_mem _ hmem), List.count_cons_self,
      Nat.add_assoc]
  · rw [Function.update_of_ne hid, h id', List.count_cons_of_ne fun heq => hid (hinjective heq).symm]
    simp [hbegins id']

/-- What the variables of the loop say about the past. -/
structure SanityInv (past : List StatusLine) (st : SanityState) : Prop where
  writes : Tracks .beforeRestWrite .afterRestWrite past st.controllerWriteStatus
  hears : Tracks .beforeHear .afterHear past st.controllerHearStatus
  writesBegun : EndsBegun .beforeRestWrite .afterRestWrite past
  hearsBegun : EndsBegun .beforeHear .afterHear past
  rounds : ∀ f, (st.reconcileStatus f = some 1 ↔ Ongoing f past = true) ∧
    ∀ status, st.reconcileStatus f = some status → status = 0 ∨ status = 1
  last : ∀ f, .beforeReconcile f ∈ past →
    ∃ g, st.reconcileFun = some g ∧ (st.reconcileStatus g).isSome

theorem sanityInv_init : SanityInv [] .init where
  writes := fun _ => rfl
  hears := fun _ => rfl
  writesBegun := fun _ h => absurd h List.not_mem_nil
  hearsBegun := fun _ h => absurd h List.not_mem_nil
  rounds := fun _ => ⟨by simp [SanityState.init, Ongoing], fun _ h => by cases h⟩
  last := fun _ h => absurd h List.not_mem_nil

theorem accepted_iff {past : List StatusLine} {st : SanityState} (h : SanityInv past st)
    (line : StatusLine) : (∃ st', sanityLine st line = .ok st') ↔ Accepted past line := by
  cases line with
  | beforeRestWrite id =>
    rw [Accepted, ← idBegins_iff h.writes, sanityLine]
    cases idBegins st.controllerWriteStatus id <;> simp [bind, Except.bind]
  | afterRestWrite id =>
    rw [Accepted, ← idEnds_iff h.writes, sanityLine]
    cases idEnds st.controllerWriteStatus id <;> simp [bind, Except.bind]
  | beforeHear id =>
    rw [Accepted, ← idBegins_iff h.hears, sanityLine]
    cases idBegins st.controllerHearStatus id <;> simp [bind, Except.bind]
  | afterHear id =>
    rw [Accepted, ← idEnds_iff h.hears, sanityLine]
    cases idEnds st.controllerHearStatus id <;> simp [bind, Except.bind]
  | beforeReconcile f =>
    obtain ⟨hongoing, hstatus⟩ := h.rounds f
    rw [Accepted, ← Bool.not_eq_true, ← hongoing, sanityLine]
    cases hf : st.reconcileStatus f with
    | none => simp
    | some status => obtain rfl | rfl := hstatus status hf <;> simp
  | afterReconcile f =>
    obtain ⟨hongoing, hstatus⟩ := h.rounds f
    rw [Accepted, ← hongoing, sanityLine]
    cases hf : st.reconcileStatus f with
    | none => simp
    | some status => obtain rfl | rfl := hstatus status hf <;> simp
  | other => simp [sanityLine, Accepted]

theorem EndsBegun.cons {begins ends : ℤ → StatusLine} {past : List StatusLine}
    (h : EndsBegun begins ends past) {line : StatusLine}
    (hline : ∀ id, ends id = line → begins id ∈ past) : EndsBegun begins ends (line :: past) := by
  intro id hmem
  obtain heq | hpast := List.mem_cons.mp hmem
  · exact List.mem_cons_of_mem _ (hline id heq)
  · exact List.mem_cons_of_mem _ (h id hpast)

theorem sanity_step {past : List StatusLine} {st st' : SanityState} {line : StatusLine}
    (h : SanityInv past st) (hstep : sanityLine st line = .ok st') :
    SanityInv (line :: past) st' := by
  have haccepted := (accepted_iff h line).mp ⟨st', hstep⟩
  obtain ⟨hwrites, hhears, hwritesBegun, hhearsBegun, hrounds, hlast⟩ := h
  cases line with
  | beforeRestWrite id =>
    obtain ⟨status, hstatus, hst⟩ := bind_ok_iff.mp hstep
    rw [← Except.ok.inj hst]
    exact ⟨hwrites.begins (fun _ _ => StatusLine.beforeRestWrite.inj) (by simp) hwritesBegun hstatus,
      hhears.skip (by simp) (by simp), hwritesBegun.cons (by simp), hhearsBegun.cons (by simp),
      hrounds, by simpa using hlast⟩
  | afterRestWrite id =>
    obtain ⟨status, hstatus, hst⟩ := bind_ok_iff.mp hstep
    rw [← Except.ok.inj hst]
    refine ⟨hwrites.ends (fun _ _ => StatusLine.afterRestWrite.inj) (by simp) hstatus,
      hhears.skip (by simp) (by simp), hwritesBegun.cons fun id' heq => ?_,
      hhearsBegun.cons (by simp), hrounds, by simpa using hlast⟩
    rw [StatusLine.afterRestWrite.inj heq]
    exact haccepted
  | beforeHear id =>
    obtain ⟨status, hstatus, hst⟩ := bind_ok_iff.mp hstep
    rw [← Except.ok.inj hst]
    exact ⟨hwrites.skip (by simp) (by simp),
      hhears.begins (fun _ _ => StatusLine.beforeHear.inj) (by simp) hhearsBegun hstatus,
      hwritesBegun.cons (by simp), hhearsBegun.cons (by simp), hrounds, by simpa using hlast⟩
  | afterHear id =>
    obtain ⟨status, hstatus, hst⟩ := bind_ok_iff.mp hstep
    rw [← Except.ok.inj hst]
    refine ⟨hwrites.skip (by simp) (by simp),
      hhears.ends (fun _ _ => StatusLine.afterHear.inj) (by simp) hstatus,
      hwritesBegun.cons (by simp), hhearsBegun.cons fun id' heq => ?_, hrounds,
      by simpa using hlast⟩
    rw [StatusLine.afterHear.inj heq]
    exact haccepted
  | beforeReconcile f =>
    rw [sanityLine] at hstep
    split at hstep
    · rename_i hone
      rw [hone] at hstep
      rw [← Except.ok.inj hstep]
      refine ⟨hwrites.skip (by simp) (by simp), hhears.skip (by simp) (by simp),
        hwritesBegun.cons (by simp), hhearsBegun.cons (by simp), fun g => ?_,
        fun g _ => ⟨f, rfl, by simp⟩⟩
      show (Function.update st.reconcileStatus f (some 1) g = some 1 ↔ _) ∧ _
      by_cases hg : g = f
      · simp [hg, Ongoing]
      · simpa [Function.update_of_ne hg, Ongoing, Ne.symm hg] using hrounds g
    · cases hstep
  | afterReconcile f =>
    rw [sanityLine] at hstep
    split at hstep
    · cases hstep
    · split at hstep
      · rename_i hzero
        rw [hzero] at hstep
        rw [← Except.ok.inj hstep]
        refine ⟨hwrites.skip (by simp) (by simp), hhears.skip (by simp) (by simp),
          hwritesBegun.cons (by simp), hhearsBegun.cons (by simp), fun g => ?_,
          fun g _ => ⟨f, rfl, by simp⟩⟩
        show (Function.update st.reconcileStatus f (some 0) g = some 1 ↔ _) ∧ _
        by_cases hg : g = f
        · simp [hg, Ongoing]
        · simpa [Function.update_of_ne hg, Ongoing, Ne.symm hg] using hrounds g
      · cases hstep
  | other =>
    rw [← Except.ok.inj hstep]
    exact ⟨hwrites.skip (by simp) (by simp), hhears.skip (by simp) (by simp),
      hwritesBegun.cons (by simp), hhearsBegun.cons (by simp), hrounds, by simpa using hlast⟩

/-! ### The whole log -/

/-- Every line of the log, newest first, is accepted after those before it. -/
def AllAccepted : List StatusLine → Prop
  | [] => True
  | line :: past => Accepted past line ∧ AllAccepted past

theorem sanity_run {lines : List StatusLine} {st : SanityState}
    (h : lines.foldlM sanityLine .init = .ok st) : SanityInv lines.reverse st :=
  foldlM_invariant (fun past st => SanityInv past.reverse st) sanityInv_init
    (fun past line st st' hinv hstep => by
      rw [List.reverse_append]
      exact sanity_step hinv hstep) h

theorem allAccepted_iff (lines : List StatusLine) :
    (∃ st, lines.foldlM sanityLine .init = .ok st) ↔ AllAccepted lines.reverse := by
  induction lines using List.reverseRecOn with
  | nil => exact iff_of_true ⟨_, rfl⟩ trivial
  | append_singleton lines line ih =>
    rw [List.reverse_append]
    show _ ↔ Accepted lines.reverse line ∧ AllAccepted lines.reverse
    rw [← ih]
    simp only [foldlM_snoc_ok_iff]
    constructor
    · rintro ⟨st', st, hrun, hstep⟩
      exact ⟨(accepted_iff (sanity_run hrun) line).mp ⟨st', hstep⟩, st, hrun⟩
    · rintro ⟨haccepted, st, hrun⟩
      obtain ⟨st', hstep⟩ := (accepted_iff (sanity_run hrun) line).mpr haccepted
      exact ⟨st', st, hrun, hstep⟩

/-- No id ends twice. -/
def EndsOnce (past : List StatusLine) : Prop :=
  ∀ id, past.count (.afterRestWrite id) ≤ 1 ∧ past.count (.afterHear id) ≤ 1

theorem EndsOnce.of_cons {past : List StatusLine} {line : StatusLine}
    (h : EndsOnce (line :: past)) : EndsOnce past := fun id =>
  ⟨List.count_le_count_cons.trans (h id).1, List.count_le_count_cons.trans (h id).2⟩

theorem fits_iff {past : List StatusLine} {line : StatusLine} (h : EndsOnce past) :
    Fits past line ↔ Accepted past line ∧ EndsOnce (line :: past) := by
  cases line with
  | afterRestWrite id =>
    apply and_congr_right
    intro _
    rw [← List.count_eq_zero]
    constructor
    · intro hzero id'
      refine ⟨?_, by simpa using (h id').2⟩
      by_cases hid : id' = id
      · rw [hid, List.count_cons_self, hzero]
      · rw [List.count_cons_of_ne (by simpa using Ne.symm hid)]
        exact (h id').1
    · intro honce
      have hid := (honce id).1
      rw [List.count_cons_self] at hid
      omega
  | afterHear id =>
    apply and_congr_right
    intro _
    rw [← List.count_eq_zero]
    constructor
    · intro hzero id'
      refine ⟨by simpa using (h id').1, ?_⟩
      by_cases hid : id' = id
      · rw [hid, List.count_cons_self, hzero]
      · rw [List.count_cons_of_ne (by simpa using Ne.symm hid)]
        exact (h id').2
    · intro honce
      have hid := (honce id).2
      rw [List.count_cons_self] at hid
      omega
  | _ => exact (and_iff_left fun id => by simpa using h id).symm

/-- An accepted log is sane when no id ends twice. -/
theorem sane_iff (past : List StatusLine) : Sane past ↔ AllAccepted past ∧ EndsOnce past := by
  induction past with
  | nil => exact iff_of_true trivial ⟨trivial, fun id => by simp⟩
  | cons line past ih =>
    rw [Sane, ih, AllAccepted]
    constructor
    · rintro ⟨hfits, haccepted, honce⟩
      obtain ⟨hline, hcons⟩ := (fits_iff honce).mp hfits
      exact ⟨⟨hline, haccepted⟩, hcons⟩
    · rintro ⟨⟨hline, haccepted⟩, hcons⟩
      exact ⟨(fits_iff hcons.of_cons).mpr ⟨hline, hcons⟩, haccepted, hcons.of_cons⟩

/-- The last assertion about the ids of one kind. -/
theorem idEnded_iff {begins ends : ℤ → StatusLine} {past : List StatusLine}
    {status : ℤ → Option ℕ} (h : Tracks begins ends past status)
    (hbegun : EndsBegun begins ends past) :
    (∀ id, begins id ∈ past → idEnded status id = true) ↔ ∀ id, past.count (ends id) ≤ 1 := by
  apply forall_congr'
  intro id
  by_cases hmem : begins id ∈ past
  · rw [idEnded, h id, if_pos hmem]
    simp only [hmem, forall_const, Bool.or_eq_true, beq_iff_eq, Option.some.injEq]
    omega
  · rw [List.count_eq_zero_of_not_mem fun hend => hmem (hbegun id hend)]
    simp [hmem]

theorem sanityEnd_iff {lines : List StatusLine} {st : SanityState}
    (h : SanityInv lines.reverse st) : sanityEnd st lines = true ↔ EndsOnce lines.reverse := by
  have hwrites := idEnded_iff h.writes h.writesBegun
  have hhears := idEnded_iff h.hears h.hearsBegun
  rw [EndsOnce, forall_and, ← hwrites, ← hhears, sanityEnd, List.all_eq_true]
  simp only [List.mem_reverse]
  constructor
  · exact fun hall => ⟨fun id hmem => hall _ hmem, fun id hmem => hall _ hmem⟩
  · rintro ⟨hw, hh⟩ line hmem
    cases line with
    | beforeRestWrite id => exact hw id hmem
    | beforeHear id => exact hh id hmem
    | beforeReconcile f =>
      obtain ⟨g, hg, hsome⟩ := h.last f (List.mem_reverse.mpr hmem)
      obtain ⟨status, hstatus⟩ := Option.isSome_iff_exists.mp hsome
      obtain rfl | rfl := (h.rounds g).2 status hstatus <;> simp [hg, hstatus]
    | _ => rfl

/-- **The check accepts exactly the sane logs.** -/
theorem sanityCheck_iff (lines : List StatusLine) :
    sanityCheck lines = .ok () ↔ Sane lines.reverse := by
  rw [sane_iff, ← allAccepted_iff, sanityCheck, bind_ok_iff, ← exists_and_right]
  apply exists_congr
  intro st
  apply and_congr_right
  intro hrun
  rw [← sanityEnd_iff (sanity_run hrun)]
  cases sanityEnd st lines <;> simp

end Sieve.Analyzer
