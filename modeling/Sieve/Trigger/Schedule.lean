import Sieve.Trigger.TriggerExpr

/-!
# Schedules of firings, and the expressions that never clash

A schedule fires literals one by one, each enabled and not yet fired.  This file settles which
expressions have a schedule that completes both sides of some `|` while the expression is still
incomplete:

* `OrFinal e`: every `|` of `e` completes `e` as soon as it completes itself, because above it
  stand only other `|`s and `;`s of which it is in the right side;
* `not_clash_insert`: from an incomplete state without a clash, one more firing of an `OrFinal`
  expression does not clash;
* `exists_crash_of_not_orFinal`: every other expression has a schedule whose last firing clashes
  while the expression was incomplete before it.
-/

namespace Sieve.Trigger.TriggerExpr

variable {α : Type}

/-- No `|` occurs. -/
def OrFree : TriggerExpr α → Prop
  | .literal _ => True
  | .node .or _ _ => False
  | .node _ l r => OrFree l ∧ OrFree r

/-- Every `|` completes the whole expression as soon as it completes. -/
def OrFinal : TriggerExpr α → Prop
  | .literal _ => True
  | .node .seq l r => OrFree l ∧ OrFinal r
  | .node .and l r => OrFree l ∧ OrFree r
  | .node .or l r => OrFinal l ∧ OrFinal r

instance decidableOrFree : (e : TriggerExpr α) → Decidable e.OrFree
  | .literal _ => isTrue trivial
  | .node .or _ _ => isFalse id
  | .node .seq l r =>
    have := decidableOrFree l
    have := decidableOrFree r
    inferInstanceAs (Decidable (_ ∧ _))
  | .node .and l r =>
    have := decidableOrFree l
    have := decidableOrFree r
    inferInstanceAs (Decidable (_ ∧ _))

instance decidableOrFinal : (e : TriggerExpr α) → Decidable e.OrFinal
  | .literal _ => isTrue trivial
  | .node .seq _ r =>
    have := decidableOrFinal r
    inferInstanceAs (Decidable (_ ∧ _))
  | .node .and _ _ => inferInstanceAs (Decidable (_ ∧ _))
  | .node .or l r =>
    have := decidableOrFinal l
    have := decidableOrFinal r
    inferInstanceAs (Decidable (_ ∧ _))

theorem OrFree.not_clash {e : TriggerExpr α} (h : e.OrFree) (S : Finset α) : ¬ e.Clash S := by
  induction e with
  | literal a => exact id
  | node op l r ihl ihr =>
    cases op with
    | seq => exact fun hc => hc.elim (ihl h.1) (ihr h.2)
    | and => exact fun hc => hc.elim (ihl h.1) (ihr h.2)
    | or => exact h.elim

variable [DecidableEq α]

/-- **One more firing of an `OrFinal` expression does not clash** as long as the expression was
incomplete: a `|` with one side complete would have completed the whole expression. -/
theorem not_clash_insert {S : Finset α} {e : TriggerExpr α} (hnd : e.literals.Nodup)
    (hof : e.OrFinal) (hinc : ¬ e.Complete S) (hcl : ¬ e.Clash S) (x : α) :
    ¬ e.Clash (insert x S) := by
  induction e with
  | literal a => exact id
  | node op l r ihl ihr =>
    obtain ⟨hndl, hndr, hdisj⟩ := List.nodup_append.mp hnd
    cases op with
    | seq =>
      have hr := ihr hndr hof.2 hinc fun hc => hcl (Or.inr hc)
      exact fun hc => hc.elim (hof.1.not_clash _) hr
    | and => exact fun hc => hc.elim (hof.1.not_clash _) (hof.2.not_clash _)
    | or =>
      have hincl : ¬ l.Complete S := fun hc => hinc (Or.inl hc)
      have hincr : ¬ r.Complete S := fun hc => hinc (Or.inr hc)
      have hl := ihl hndl hof.1 hincl fun hc => hcl (Or.inl hc)
      have hr := ihr hndr hof.2 hincr fun hc => hcl (Or.inr (Or.inl hc))
      rintro (hc | hc | ⟨hcl', hcr'⟩)
      · exact hl hc
      · exact hr hc
      -- `x` lies in one side only, so the other side stays incomplete
      · by_cases hxl : x ∈ l.literals
        · have hxr : x ∉ r.literals := fun hxr => hdisj x hxl x hxr rfl
          exact hincr ((complete_congr (agree_insert hxr)).mpr hcr')
        · exact hincl ((complete_congr (agree_insert hxl)).mpr hcl')

/-! ### Schedules -/

/-- The literals of `xs` can be fired one after the other from `S`. -/
def Schedule (e : TriggerExpr α) : Finset α → List α → Prop
  | _, [] => True
  | S, x :: xs => x ∈ e.enabled S ∧ x ∉ S ∧ Schedule e (insert x S) xs

theorem schedule_append {e : TriggerExpr α} {S : Finset α} {xs ys : List α} :
    e.Schedule S (xs ++ ys) ↔ e.Schedule S xs ∧ e.Schedule (S ∪ xs.toFinset) ys := by
  induction xs generalizing S with
  | nil => simp [Schedule]
  | cons x xs ih =>
    have hS : insert x S ∪ xs.toFinset = S ∪ (x :: xs).toFinset := by
      rw [List.toFinset_cons, Finset.insert_union, Finset.union_insert]
    simp only [List.cons_append, Schedule, ih, hS, and_assoc]

theorem schedule_mem_literals {e : TriggerExpr α} {S : Finset α} {xs : List α}
    (h : e.Schedule S xs) : ∀ x ∈ xs, x ∈ e.literals := by
  induction xs generalizing S with
  | nil => simp
  | cons x xs ih =>
    intro y hy
    rcases List.mem_cons.mp hy with rfl | hy
    · exact enabled_subset_literals S e _ h.1
    · exact ih h.2.2 y hy

/-- A schedule of a subexpression `e'` is a schedule of `e`, provided `e` enables whatever `e'`
enables as long as it contains the literals fired so far. -/
theorem schedule_of_enabled {e e' : TriggerExpr α} {S S₀ : Finset α} {xs : List α}
    (hsub : ∀ T, S₀ ⊆ T → e'.enabled T ⊆ e.enabled T) (hS : S₀ ⊆ S)
    (h : e'.Schedule S xs) : e.Schedule S xs := by
  induction xs generalizing S with
  | nil => trivial
  | cons x xs ih =>
    exact ⟨hsub S hS h.1, h.2.1, ih (hS.trans (Finset.subset_insert x S)) h.2.2⟩

/-- A schedule only depends on the expression's own literals that have already fired. -/
theorem schedule_congr {e : TriggerExpr α} {S T : Finset α} {xs : List α} (h : Agree S T e) :
    e.Schedule S xs ↔ e.Schedule T xs := by
  induction xs generalizing S T with
  | nil => exact Iff.rfl
  | cons x xs ih =>
    have hstep : Agree (insert x S) (insert x T) e := fun a ha => by
      simp only [Finset.mem_insert, h a ha]
    simp only [Schedule, enabled_congr h, ih hstep]
    constructor
    · rintro ⟨hx, hS, hxs⟩
      exact ⟨hx, fun hT => hS ((h x (enabled_subset_literals T e x hx)).mpr hT), hxs⟩
    · rintro ⟨hx, hT, hxs⟩
      exact ⟨hx, fun hS => hT ((h x (enabled_subset_literals T e x hx)).mp hS), hxs⟩

theorem enabled_left (op : Connective) (l r : TriggerExpr α) (T : Finset α) :
    l.enabled T ⊆ (TriggerExpr.node op l r).enabled T := by
  cases op <;> exact Finset.subset_union_left

theorem enabled_right {op : Connective} (l r : TriggerExpr α) {T : Finset α}
    (h : op = .seq → l.Complete T) : r.enabled T ⊆ (TriggerExpr.node op l r).enabled T := by
  cases op with
  | seq =>
    simp only [enabled, if_pos (h rfl)]
    exact Finset.subset_union_right
  | and => exact Finset.subset_union_right
  | or => exact Finset.subset_union_right

theorem schedule_left {op : Connective} {l r : TriggerExpr α} {S : Finset α} {xs : List α}
    (h : l.Schedule S xs) : (TriggerExpr.node op l r).Schedule S xs :=
  schedule_of_enabled (fun T _ => enabled_left op l r T) (Finset.Subset.refl S) h

theorem schedule_right {op : Connective} {l r : TriggerExpr α} {S : Finset α} {xs : List α}
    (hl : op = .seq → l.Complete S) (h : r.Schedule S xs) :
    (TriggerExpr.node op l r).Schedule S xs :=
  schedule_of_enabled (fun _ hT => enabled_right l r fun ho => complete_mono hT (hl ho))
    (Finset.Subset.refl S) h

/-! ### Completing an expression, and crashing one -/

/-- Firing `xs` and then `x` from nothing completes `e` for the first time, without a clash. -/
structure Completes (e : TriggerExpr α) (xs : List α) (x : α) : Prop where
  schedule : e.Schedule ∅ (xs ++ [x])
  before : ¬ e.Complete xs.toFinset
  complete : e.Complete (xs ++ [x]).toFinset
  clear : ¬ e.Clash (xs ++ [x]).toFinset

/-- Firing `xs` and then `x` from nothing clashes for the first time. -/
structure Crashes (e : TriggerExpr α) (xs : List α) (x : α) : Prop where
  schedule : e.Schedule ∅ (xs ++ [x])
  before : ¬ e.Clash xs.toFinset
  clash : e.Clash (xs ++ [x]).toFinset

/-- Firing literals of the left side leaves the right side untouched. -/
theorem untouched_of_disjoint {l r : TriggerExpr α}
    (hdisj : ∀ a ∈ l.literals, ∀ b ∈ r.literals, a ≠ b) {xs : List α}
    (h : ∀ x ∈ xs, x ∈ l.literals) : ∀ a ∈ r.literals, a ∉ xs.toFinset :=
  fun a ha hx => hdisj a (h a (List.mem_toFinset.mp hx)) a ha rfl

/-- Firing literals of the right side leaves the left side untouched. -/
theorem untouched_of_disjoint' {l r : TriggerExpr α}
    (hdisj : ∀ a ∈ l.literals, ∀ b ∈ r.literals, a ≠ b) {xs : List α}
    (h : ∀ x ∈ xs, x ∈ r.literals) : ∀ a ∈ l.literals, a ∉ xs.toFinset :=
  fun a ha hx => hdisj a ha a (h a (List.mem_toFinset.mp hx)) rfl

theorem agree_of_disjoint {l r : TriggerExpr α}
    (hdisj : ∀ a ∈ l.literals, ∀ b ∈ r.literals, a ≠ b) {xs ys : List α}
    (h : ∀ x ∈ xs, x ∈ l.literals) : Agree (xs ++ ys).toFinset ys.toFinset r := by
  intro a ha
  have hxs : a ∉ xs := fun hx => hdisj a (h a hx) a ha rfl
  simp [hxs]

theorem agree_of_disjoint' {l r : TriggerExpr α}
    (hdisj : ∀ a ∈ l.literals, ∀ b ∈ r.literals, a ≠ b) {xs ys : List α}
    (h : ∀ y ∈ ys, y ∈ r.literals) : Agree (xs ++ ys).toFinset xs.toFinset l := by
  intro a ha
  have hys : a ∉ ys := fun hy => hdisj a ha a (h a hy) rfl
  simp [hys]

/-- A schedule of the left side followed by one of the right side. -/
theorem schedule_both {op : Connective} {l r : TriggerExpr α}
    (hdisj : ∀ a ∈ l.literals, ∀ b ∈ r.literals, a ≠ b) {xs ys : List α}
    (hl : l.Schedule ∅ xs) (hc : op = .seq → l.Complete xs.toFinset) (hr : r.Schedule ∅ ys) :
    (TriggerExpr.node op l r).Schedule ∅ (xs ++ ys) := by
  rw [schedule_append, Finset.empty_union]
  refine ⟨schedule_left hl, schedule_right hc ?_⟩
  have huntouched := untouched_of_disjoint hdisj (schedule_mem_literals hl)
  exact (schedule_congr fun a ha => by simp [huntouched a ha]).mpr hr

/-- Every expression can be completed without a clash: in a `|` only the left side fires. -/
theorem exists_completes (e : TriggerExpr α) (hnd : e.literals.Nodup) :
    ∃ xs x, e.Completes xs x := by
  induction e with
  | literal a => exact ⟨[], a, by simp [Schedule, enabled], by simp [Complete], by simp [Complete], id⟩
  | node op l r ihl ihr =>
    obtain ⟨hndl, hndr, hdisj⟩ := List.nodup_append.mp hnd
    obtain ⟨xs, x, hl⟩ := ihl hndl
    obtain ⟨ys, y, hr⟩ := ihr hndr
    have hxs := schedule_mem_literals hl.schedule
    have hys := schedule_mem_literals hr.schedule
    -- what holds of the right side after `xs ++ [x]` and then a prefix of `ys ++ [y]`
    have hright : ∀ zs : List α, Agree (xs ++ [x] ++ zs).toFinset zs.toFinset r :=
      fun zs => agree_of_disjoint hdisj hxs
    have hleft : Agree (xs ++ [x] ++ (ys ++ [y])).toFinset (xs ++ [x]).toFinset l :=
      agree_of_disjoint' hdisj hys
    have hassoc : xs ++ [x] ++ ys ++ [y] = xs ++ [x] ++ (ys ++ [y]) := by simp
    cases op with
    | seq =>
      refine ⟨xs ++ [x] ++ ys, y, ?_, ?_, ?_, ?_⟩
      · rw [hassoc]
        exact schedule_both hdisj hl.schedule (fun _ => hl.complete) hr.schedule
      · exact fun hc => hr.before ((complete_congr (hright ys)).mp hc)
      · rw [hassoc]
        exact (complete_congr (hright (ys ++ [y]))).mpr hr.complete
      · rw [hassoc]
        exact fun hc => hc.elim (fun hc => hl.clear ((clash_congr hleft).mp hc))
          fun hc => hr.clear ((clash_congr (hright _)).mp hc)
    | and =>
      refine ⟨xs ++ [x] ++ ys, y, ?_, ?_, ?_, ?_⟩
      · rw [hassoc]
        exact schedule_both hdisj hl.schedule (fun h => by cases h) hr.schedule
      · exact fun hc => hr.before ((complete_congr (hright ys)).mp hc.2)
      · rw [hassoc]
        exact ⟨(complete_congr hleft).mpr hl.complete,
          (complete_congr (hright (ys ++ [y]))).mpr hr.complete⟩
      · rw [hassoc]
        exact fun hc => hc.elim (fun hc => hl.clear ((clash_congr hleft).mp hc))
          fun hc => hr.clear ((clash_congr (hright _)).mp hc)
    | or =>
      have huntouched := untouched_of_disjoint hdisj hxs
      have huntouched' : ∀ a ∈ r.literals, a ∉ xs.toFinset := fun a ha hx =>
        huntouched a ha (List.mem_toFinset.mpr (List.mem_append_left _ (List.mem_toFinset.mp hx)))
      refine ⟨xs, x, schedule_left hl.schedule, ?_, Or.inl hl.complete, ?_⟩
      · exact fun hc => hc.elim hl.before (not_complete_of_untouched huntouched')
      · exact fun hc => hc.elim hl.clear fun hc =>
          hc.elim (not_clash_of_untouched huntouched) fun hc =>
            not_complete_of_untouched huntouched hc.2

/-- A crash of the left side is a crash of the whole, with the right side untouched. -/
theorem Crashes.left (op : Connective) {l r : TriggerExpr α} {xs : List α} {x : α}
    (hdisj : ∀ a ∈ l.literals, ∀ b ∈ r.literals, a ≠ b) (h : l.Crashes xs x) :
    (TriggerExpr.node op l r).Crashes xs x ∧ ∀ a ∈ r.literals, a ∉ xs.toFinset := by
  have hmem := schedule_mem_literals h.schedule
  have huntouched : ∀ a ∈ r.literals, a ∉ xs.toFinset :=
    untouched_of_disjoint hdisj fun y hy => hmem y (List.mem_append_left _ hy)
  refine ⟨⟨schedule_left h.schedule, ?_, ?_⟩, huntouched⟩
  · have hr := not_clash_of_untouched huntouched
    have hcr := not_complete_of_untouched huntouched
    cases op with
    | seq => exact fun hc => hc.elim h.before hr
    | and => exact fun hc => hc.elim h.before hr
    | or => exact fun hc => hc.elim h.before fun hc => hc.elim hr fun hc => hcr hc.2
  · cases op <;> exact Or.inl h.clash

/-- A crash of the right side, after the left side has been completed where it has to be. -/
theorem Crashes.right {op : Connective} {l r : TriggerExpr α} {xs : List α} {x : α}
    (ws : List α) (hdisj : ∀ a ∈ l.literals, ∀ b ∈ r.literals, a ≠ b)
    (hl : l.Schedule ∅ ws) (hcl : ¬ l.Clash ws.toFinset)
    (hc : op = .seq → l.Complete ws.toFinset) (hor : op = .or → ¬ l.Complete ws.toFinset)
    (h : r.Crashes xs x) : (TriggerExpr.node op l r).Crashes (ws ++ xs) x := by
  have hws := schedule_mem_literals hl
  have hxs := schedule_mem_literals h.schedule
  have hright : ∀ zs : List α, Agree (ws ++ zs).toFinset zs.toFinset r :=
    fun zs => agree_of_disjoint hdisj hws
  have hleft : Agree (ws ++ xs).toFinset ws.toFinset l :=
    agree_of_disjoint' hdisj fun y hy => hxs y (List.mem_append_left _ hy)
  have hl' : ¬ l.Clash (ws ++ xs).toFinset := fun hc => hcl ((clash_congr hleft).mp hc)
  have hr' : ¬ r.Clash (ws ++ xs).toFinset := fun hc => h.before ((clash_congr (hright xs)).mp hc)
  refine ⟨?_, ?_, ?_⟩
  · rw [List.append_assoc]
    exact schedule_both hdisj hl hc h.schedule
  · cases op with
    | seq => exact fun hc => hc.elim hl' hr'
    | and => exact fun hc => hc.elim hl' hr'
    | or =>
      exact fun hc => hc.elim hl' fun hc => hc.elim hr' fun hc =>
        hor rfl ((complete_congr hleft).mp hc.1)
  · rw [List.append_assoc]
    have hclash := (clash_congr (hright (xs ++ [x]))).mpr h.clash
    cases op with
    | seq => exact Or.inr hclash
    | and => exact Or.inr hclash
    | or => exact Or.inr (Or.inl hclash)

/-- An expression with a `|` can be driven into a clash, if one may go on after completion. -/
theorem exists_crash_of_not_orFree (e : TriggerExpr α) (hnd : e.literals.Nodup)
    (h : ¬ e.OrFree) : ∃ xs x, e.Crashes xs x := by
  induction e with
  | literal a => exact absurd trivial h
  | node op l r ihl ihr =>
    obtain ⟨hndl, hndr, hdisj⟩ := List.nodup_append.mp hnd
    by_cases hl : l.OrFree
    · cases op with
      | seq =>
        obtain ⟨ws, w, hw⟩ := exists_completes l hndl
        obtain ⟨xs, x, hx⟩ := ihr hndr fun hr => h ⟨hl, hr⟩
        exact ⟨_, _, hx.right _ hdisj hw.schedule hw.clear (fun _ => hw.complete) nofun⟩
      | and =>
        obtain ⟨xs, x, hx⟩ := ihr hndr fun hr => h ⟨hl, hr⟩
        exact ⟨_, _, hx.right [] hdisj trivial (hl.not_clash _) nofun nofun⟩
      | or =>
        by_cases hr : r.OrFree
        -- both sides are free of `|`: complete the left one, then the right one
        · obtain ⟨ws, w, hw⟩ := exists_completes l hndl
          obtain ⟨ys, y, hy⟩ := exists_completes r hndr
          have hws := schedule_mem_literals hw.schedule
          have hys := schedule_mem_literals hy.schedule
          have hassoc : ws ++ [w] ++ ys ++ [y] = ws ++ [w] ++ (ys ++ [y]) := by simp
          refine ⟨ws ++ [w] ++ ys, y, ?_, ?_, ?_⟩
          · rw [hassoc]
            exact schedule_both hdisj hw.schedule nofun hy.schedule
          · rintro (hc | hc | hc)
            · exact hl.not_clash _ hc
            · exact hr.not_clash _ hc
            · exact hy.before ((complete_congr (agree_of_disjoint hdisj hws)).mp hc.2)
          · rw [hassoc]
            exact Or.inr (Or.inr ⟨(complete_congr (agree_of_disjoint' hdisj hys)).mpr hw.complete,
              (complete_congr (agree_of_disjoint hdisj hws)).mpr hy.complete⟩)
        · obtain ⟨xs, x, hx⟩ := ihr hndr hr
          have hinc : ¬ l.Complete ([] : List α).toFinset :=
            not_complete_of_untouched fun a _ => by simp
          exact ⟨_, _, hx.right [] hdisj trivial (hl.not_clash _) nofun fun _ => hinc⟩
    · obtain ⟨xs, x, hx⟩ := ihl hndl hl
      exact ⟨xs, x, (hx.left op hdisj).1⟩

/-- **Every expression that is not `OrFinal` can be driven into a clash while it is still
incomplete.** -/
theorem exists_crash_of_not_orFinal (e : TriggerExpr α) (hnd : e.literals.Nodup)
    (h : ¬ e.OrFinal) : ∃ xs x, e.Crashes xs x ∧ ¬ e.Complete xs.toFinset := by
  induction e with
  | literal a => exact absurd trivial h
  | node op l r ihl ihr =>
    obtain ⟨hndl, hndr, hdisj⟩ := List.nodup_append.mp hnd
    cases op with
    | seq =>
      by_cases hl : l.OrFree
      · obtain ⟨ws, w, hw⟩ := exists_completes l hndl
        obtain ⟨xs, x, hx, hinc⟩ := ihr hndr fun hr => h ⟨hl, hr⟩
        refine ⟨_, _, hx.right _ hdisj hw.schedule hw.clear (fun _ => hw.complete) nofun, ?_⟩
        exact fun hc => hinc ((complete_congr
          (agree_of_disjoint hdisj (schedule_mem_literals hw.schedule))).mp hc)
      · obtain ⟨xs, x, hx⟩ := exists_crash_of_not_orFree l hndl hl
        obtain ⟨hx', huntouched⟩ := hx.left .seq hdisj
        exact ⟨xs, x, hx', not_complete_of_untouched (e := r) huntouched⟩
    | and =>
      by_cases hl : l.OrFree
      · obtain ⟨xs, x, hx⟩ := exists_crash_of_not_orFree r hndr fun hr => h ⟨hl, hr⟩
        refine ⟨_, _, hx.right [] hdisj trivial (hl.not_clash _) nofun nofun, ?_⟩
        -- only literals of the right side have fired
        have hxs := schedule_mem_literals hx.schedule
        have huntouched := untouched_of_disjoint' hdisj
          fun y hy => hxs y (List.mem_append_left _ hy)
        exact fun hc => not_complete_of_untouched huntouched hc.1
      · obtain ⟨xs, x, hx⟩ := exists_crash_of_not_orFree l hndl hl
        obtain ⟨hx', huntouched⟩ := hx.left .and hdisj
        exact ⟨xs, x, hx', fun hc => not_complete_of_untouched huntouched hc.2⟩
    | or =>
      by_cases hl : l.OrFinal
      · obtain ⟨xs, x, hx, hinc⟩ := ihr hndr fun hr => h ⟨hl, hr⟩
        have hxs := schedule_mem_literals hx.schedule
        have huntouched := untouched_of_disjoint' hdisj
          fun y hy => hxs y (List.mem_append_left _ hy)
        have hempty : ∀ a ∈ l.literals, a ∉ ([] : List α).toFinset := fun a _ => by simp
        refine ⟨_, _, hx.right [] hdisj trivial (not_clash_of_untouched hempty) nofun
          fun _ => not_complete_of_untouched hempty, ?_⟩
        exact fun hc => hc.elim (not_complete_of_untouched huntouched) hinc
      · obtain ⟨xs, x, hx, hinc⟩ := ihl hndl hl
        obtain ⟨hx', huntouched⟩ := hx.left .or hdisj
        exact ⟨xs, x, hx', fun hc => hc.elim hinc (not_complete_of_untouched huntouched)⟩

end Sieve.Trigger.TriggerExpr
