import Sieve.Event.Decoding

/-!
# Updates that make the same change

Two updates of one object make the same change when they put the same values in the place of the same
values and leave everything else alone, whatever that is.

* `SameChange`: the relation on the states before and after two updates;
* `sameChange_iff`: it holds exactly when the two differences are the same.

Each of the two updates is seen in a dialect of its own, and what they change is compared in a third.
-/

namespace Sieve.Event

section Changes

variable (d d' e : Dialect)

mutual

/-- The update from `p` to `c` and the one from `p'` to `c'`. -/
inductive SameChange : Json → Json → Json → Json → Prop where
  /-- Neither of the two changes anything. -/
  | unchanged {p c p' c' : Json} (h : Json.Equal d.scalarEqual p c)
    (h' : Json.Equal d'.scalarEqual p' c') : SameChange p c p' c'
  /-- A value that is not changed inside. -/
  | replaced {p c p' c' : Json} (hapart : ¬ Together p c) (hapart' : ¬ Together p' c')
    (hne : ¬ Json.Equal d.scalarEqual p c) (hne' : ¬ Json.Equal d'.scalarEqual p' c')
    (hprev : Json.Equal e.scalarEqual p p') (hcur : Json.Equal e.scalarEqual c c') :
    SameChange p c p' c'
  | items {prev cur prev' cur' : List Json} (hprev : prev.length = prev'.length)
    (hcur : cur.length = cur'.length)
    (h : ∀ i : ℕ, SameEntry prev[i]? cur[i]? prev'[i]? cur'[i]?) :
    SameChange (.arr prev) (.arr cur) (.arr prev') (.arr cur')
  | fields {prev cur prev' cur' : Fields}
    (h : ∀ key, SameEntry (prev.lookup key) (cur.lookup key) (prev'.lookup key) (cur'.lookup key)) :
    SameChange (.obj prev) (.obj cur) (.obj prev') (.obj cur')

/-- What the two do under one key or at one index. -/
inductive SameEntry : Option Json → Option Json → Option Json → Option Json → Prop where
  | absent : SameEntry none none none none
  | removed {p p' : Json} (h : Json.Equal e.scalarEqual p p') : SameEntry (some p) none (some p') none
  | added {c c' : Json} (h : Json.Equal e.scalarEqual c c') : SameEntry none (some c) none (some c')
  | both {p c p' c' : Json} (h : SameChange p c p' c') :
    SameEntry (some p) (some c) (some p') (some c')
  /-- What one update leaves alone need not be there for the other. -/
  | kept {p c : Json} (h : Json.Equal d.scalarEqual p c) : SameEntry (some p) (some c) none none
  | kept' {p' c' : Json} (h : Json.Equal d'.scalarEqual p' c') :
    SameEntry none none (some p') (some c')

end

/-- The two differences are the same. -/
def SameDifference : Option (Json × Json) → Option (Json × Json) → Prop :=
  Option.Rel fun diff diff' => Json.Equal e.scalarEqual diff.1 diff'.1 ∧
    Json.Equal e.scalarEqual diff.2 diff'.2

end Changes

variable {d d' e : Dialect}

theorem sameEntry_both_iff {p c p' c' : Json} :
    SameEntry d d' e (some p) (some c) (some p') (some c') ↔ SameChange d d' e p c p' c' := by
  constructor
  · intro h
    cases h with
    | both h => exact h
  · exact .both

theorem sameEntry_removed_iff {p p' : Json} :
    SameEntry d d' e (some p) none (some p') none ↔ Json.Equal e.scalarEqual p p' := by
  constructor
  · intro h
    cases h with
    | removed h => exact h
  · exact .removed

theorem sameEntry_added_iff {c c' : Json} :
    SameEntry d d' e none (some c) none (some c') ↔ Json.Equal e.scalarEqual c c' := by
  constructor
  · intro h
    cases h with
    | added h => exact h
  · exact .added

theorem sameEntry_kept_iff {p c : Json} :
    SameEntry d d' e (some p) (some c) none none ↔ Json.Equal d.scalarEqual p c := by
  constructor
  · intro h
    cases h with
    | kept h => exact h
  · exact .kept

theorem sameEntry_kept'_iff {p' c' : Json} :
    SameEntry d d' e none none (some p') (some c') ↔ Json.Equal d'.scalarEqual p' c' := by
  constructor
  · intro h
    cases h with
    | kept' h => exact h
  · exact .kept'

/-- Values that are compared inside equal such values only. -/
theorem together_left_of_equal (hlaw : LawfulScalars e.scalarEqual) {p c p' c' : Json}
    (hprev : Json.Equal e.scalarEqual p p') (hcur : Json.Equal e.scalarEqual c c')
    (h : Together p' c') : Together p c := by
  have hscalar : ∀ {x y : Json}, Json.Equal e.scalarEqual x y → ¬ y.IsScalar → ¬ x.IsScalar :=
    fun hequal hy hx => hy (hequal.scalar hlaw hx)
  cases h with
  | obj prev' cur' =>
    have hp := hscalar hprev id
    have hc := hscalar hcur id
    cases p <;> cases c <;> first | exact .obj _ _ | cases hprev | cases hcur | exact absurd trivial hp |
      exact absurd trivial hc
  | arr prev' cur' =>
    have hp := hscalar hprev id
    have hc := hscalar hcur id
    cases p <;> cases c <;> first | exact .arr _ _ | cases hprev | cases hcur | exact absurd trivial hp |
      exact absurd trivial hc

theorem together_right_of_equal {p c p' c' : Json}
    (hprev : Json.Equal e.scalarEqual p p') (hcur : Json.Equal e.scalarEqual c c')
    (h : Together p c) : Together p' c' := by
  cases h with
  | obj prev cur =>
    obtain ⟨_, rfl⟩ := hprev.obj
    obtain ⟨_, rfl⟩ := hcur.obj
    exact .obj _ _
  | arr prev cur =>
    obtain ⟨_, rfl⟩ := hprev.arr
    obtain ⟨_, rfl⟩ := hcur.arr
    exact .arr _ _

/-! ### Item by item -/

theorem diffItems_length (prev cur : List Json) :
    (diffItems d prev cur).1.length = prev.length ∧ (diffItems d prev cur).2.length = cur.length := by
  induction prev generalizing cur with
  | nil =>
    rw [diffItems_nil_left]
    exact ⟨rfl, rfl⟩
  | cons p prev ih =>
    cases cur with
    | nil =>
      rw [diffItems_nil_right]
      exact ⟨rfl, rfl⟩
    | cons c cur =>
      obtain ⟨hprev, hcur⟩ := ih cur
      rw [diffItems_cons]
      exact ⟨congrArg Nat.succ hprev, congrArg Nat.succ hcur⟩

theorem added_iff {cur cur' : List Json} : List.Forall₂ (Json.Equal e.scalarEqual) cur cur' ↔
    cur.length = cur'.length ∧ ∀ i : ℕ, SameEntry d d' e none cur[i]? none cur'[i]? := by
  induction cur generalizing cur' with
  | nil =>
    cases cur' with
    | nil => exact iff_of_true .nil ⟨rfl, fun _ => .absent⟩
    | cons c' cur' => exact iff_of_false nofun fun h => nomatch h.1
  | cons c cur ih =>
    cases cur' with
    | nil => exact iff_of_false nofun fun h => nomatch h.1
    | cons c' cur' =>
      rw [← Nat.and_forall_add_one, List.forall₂_cons, ih]
      simp only [List.length_cons, Nat.add_right_cancel_iff, List.getElem?_cons_zero,
        List.getElem?_cons_succ, sameEntry_added_iff]
      tauto

theorem removed_iff {prev prev' : List Json} : List.Forall₂ (Json.Equal e.scalarEqual) prev prev' ↔
    prev.length = prev'.length ∧ ∀ i : ℕ, SameEntry d d' e prev[i]? none prev'[i]? none := by
  induction prev generalizing prev' with
  | nil =>
    cases prev' with
    | nil => exact iff_of_true .nil ⟨rfl, fun _ => .absent⟩
    | cons p' prev' => exact iff_of_false nofun fun h => nomatch h.1
  | cons p prev ih =>
    cases prev' with
    | nil => exact iff_of_false nofun fun h => nomatch h.1
    | cons p' prev' =>
      rw [← Nat.and_forall_add_one, List.forall₂_cons, ih]
      simp only [List.length_cons, Nat.add_right_cancel_iff, List.getElem?_cons_zero,
        List.getElem?_cons_succ, sameEntry_removed_iff]
      tauto

/-- A skipped item is the same as a skipped item only. -/
theorem itemSides_same_iff (hlaw : LawfulScalars d.scalarEqual) (hlaw' : LawfulScalars d'.scalarEqual)
    (hlawe : LawfulScalars e.scalarEqual) {p c p' c' : Json} (hp : p.Distinct) (hc : c.Distinct)
    (hp' : p'.Distinct) (hc' : c'.Distinct) :
    Json.Equal e.scalarEqual (itemSides d p c).1 (itemSides d' p' c').1 ∧
        Json.Equal e.scalarEqual (itemSides d p c).2 (itemSides d' p' c').2 ↔
      SameDifference e (diffValue d p c) (diffValue d' p' c') := by
  have hskip : Json.Equal e.scalarEqual (.str SIEVE_IDX_SKIP) (.str SIEVE_IDX_SKIP) :=
    .refl hlawe skip_distinct
  rw [itemSides, itemSides]
  cases hdiff : diffValue d p c with
  | none =>
    cases hdiff' : diffValue d' p' c' with
    | none => exact iff_of_true ⟨hskip, hskip⟩ .none
    | some sides =>
      refine iff_of_false (fun hequal => ?_) (fun hrel => by cases hrel)
      obtain ⟨hfst, hsnd⟩ := hequal
      refine (apart hlaw' hp' hc').2 _ _ hdiff' ?_
      rw [Option.getD_none, Option.getD_some] at hfst hsnd
      rw [eq_skip_of_equal hlawe hfst, eq_skip_of_equal hlawe hsnd]
      exact .refl hlaw' skip_distinct
  | some sides =>
    cases hdiff' : diffValue d' p' c' with
    | none =>
      obtain ⟨hx, hy⟩ := diffValue_distinct hp hc hdiff
      refine iff_of_false (fun hequal => ?_) (fun hrel => by cases hrel)
      obtain ⟨hfst, hsnd⟩ := hequal
      refine (apart hlaw hp hc).2 _ _ hdiff ?_
      rw [Option.getD_none, Option.getD_some] at hfst hsnd
      rw [eq_skip_of_equal hlawe (hfst.symm hlawe hx skip_distinct),
        eq_skip_of_equal hlawe (hsnd.symm hlawe hy skip_distinct)]
      exact .refl hlaw skip_distinct
    | some sides' =>
      constructor
      · intro h
        exact Option.Rel.some h
      · intro h
        cases h with
        | some h => exact h

theorem diffItems_same_iff {prev cur prev' cur' : List Json}
    (h : ∀ p ∈ prev, ∀ c ∈ cur, ∀ p' ∈ prev', ∀ c' ∈ cur',
      Json.Equal e.scalarEqual (itemSides d p c).1 (itemSides d' p' c').1 ∧
        Json.Equal e.scalarEqual (itemSides d p c).2 (itemSides d' p' c').2 ↔
      SameChange d d' e p c p' c') :
    List.Forall₂ (Json.Equal e.scalarEqual) (diffItems d prev cur).1 (diffItems d' prev' cur').1 ∧
        List.Forall₂ (Json.Equal e.scalarEqual) (diffItems d prev cur).2 (diffItems d' prev' cur').2 ↔
      prev.length = prev'.length ∧ cur.length = cur'.length ∧
        ∀ i : ℕ, SameEntry d d' e prev[i]? cur[i]? prev'[i]? cur'[i]? := by
  by_cases hlen : prev.length = prev'.length ∧ cur.length = cur'.length
  · simp only [hlen, true_and]
    induction prev generalizing cur prev' cur' with
    | nil =>
      obtain rfl := List.eq_nil_of_length_eq_zero hlen.1.symm
      rw [diffItems_nil_left, diffItems_nil_left]
      simp only [List.forall₂_nil_left_iff, true_and, List.getElem?_nil]
      rw [@added_iff d d' e, and_iff_right hlen.2]
    | cons p prev ih =>
      obtain ⟨p', prev', rfl⟩ := List.exists_cons_of_length_eq_add_one hlen.1.symm
      cases cur with
      | nil =>
        obtain rfl := List.eq_nil_of_length_eq_zero hlen.2.symm
        rw [diffItems_nil_right, diffItems_nil_right]
        simp only [List.forall₂_nil_left_iff, and_true, List.getElem?_nil]
        rw [@removed_iff d d' e, and_iff_right hlen.1]
      | cons c cur =>
        obtain ⟨c', cur', rfl⟩ := List.exists_cons_of_length_eq_add_one hlen.2.symm
        simp only [List.length_cons, Nat.add_right_cancel_iff] at hlen
        have hhead := h p List.mem_cons_self c List.mem_cons_self p' List.mem_cons_self c'
          List.mem_cons_self
        have hrest := @ih cur prev' cur' (fun q hq r hr q' hq' r' hr' => h q (List.mem_cons_of_mem _ hq) r
          (List.mem_cons_of_mem _ hr) q' (List.mem_cons_of_mem _ hq') r' (List.mem_cons_of_mem _ hr')) hlen
        rw [diffItems_cons, diffItems_cons, List.forall₂_cons, List.forall₂_cons,
          ← Nat.and_forall_add_one]
        simp only [List.getElem?_cons_zero, List.getElem?_cons_succ, sameEntry_both_iff]
        rw [← hhead, ← hrest]
        tauto
  · refine iff_of_false (fun hboth => hlen ?_) fun hall => hlen ⟨hall.1, hall.2.1⟩
    have hfst := hboth.1.length_eq
    have hsnd := hboth.2.length_eq
    rw [(diffItems_length _ _).1, (diffItems_length _ _).1] at hfst
    rw [(diffItems_length _ _).2, (diffItems_length _ _).2] at hsnd
    exact ⟨hfst, hsnd⟩

theorem all_skip_congr (hlaw : LawfulScalars d.scalarEqual) (hlaw' : LawfulScalars d'.scalarEqual)
    (hlawe : LawfulScalars e.scalarEqual) {xs ys : List Json}
    (h : List.Forall₂ (Json.Equal e.scalarEqual) xs ys) : xs.all (isSkip d) = ys.all (isSkip d') := by
  induction h with
  | nil => rfl
  | @cons x y xs ys hxy _ ih =>
    have hskip : isSkip d x = isSkip d' y := by
      rw [Bool.eq_iff_iff, isSkip_iff hlaw, isSkip_iff hlaw']
      constructor
      · intro hx
        exact eq_skip_of_equal hlawe (hx ▸ hxy)
      · intro hy
        rw [hy] at hxy
        cases x with
        | arr items => cases hxy
        | obj fields => cases hxy
        | _ => exact hlawe.str _ _ ((equal_scalar_iff (by trivial)).mp hxy)
    rw [List.all_cons, List.all_cons, hskip, ih]

/-- The same sides, where the lengths of the lists say the same. -/
theorem finishList_same (hlaw : LawfulScalars d.scalarEqual) (hlaw' : LawfulScalars d'.scalarEqual)
    (hlawe : LawfulScalars e.scalarEqual) (sameLength : Bool) {diff diff' : List Json × List Json}
    (hprev : List.Forall₂ (Json.Equal e.scalarEqual) diff.1 diff'.1)
    (hcur : List.Forall₂ (Json.Equal e.scalarEqual) diff.2 diff'.2) :
    SameDifference e ((finishList d sameLength diff).map fun diff => (.arr diff.1, .arr diff.2))
      ((finishList d' sameLength diff').map fun diff => (.arr diff.1, .arr diff.2)) := by
  rw [finishList, finishList, all_skip_congr hlaw hlaw' hlawe hprev,
    all_skip_congr hlaw hlaw' hlawe hcur]
  split
  · exact Option.Rel.none
  · exact Option.Rel.some ⟨equal_arr_iff.mpr hprev, equal_arr_iff.mpr hcur⟩

/-! ### Key by key -/

theorem rel_isSome {R : Json → Json → Prop} {o o' : Option Json} (h : Option.Rel R o o') :
    o.isSome = o'.isSome := by
  cases h <;> rfl

theorem rel_none_left_iff {R : Json → Json → Prop} {o : Option Json} : Option.Rel R none o ↔ o = none := by
  cases o <;> simp

theorem rel_none_right_iff {R : Json → Json → Prop} {o : Option Json} : Option.Rel R o none ↔ o = none := by
  cases o <;> simp

theorem sides_kept_iff (hlaw : LawfulScalars d.scalarEqual) {p c : Json} (hp : p.Distinct)
    (hc : c.Distinct) : prevSide d (some p) (some c) = none ∧ curSide d (some p) (some c) = none ↔
      Json.Equal d.scalarEqual p c := by
  rw [← (apart hlaw hp hc).1, prevSide, curSide, Option.map_eq_none_iff, Option.map_eq_none_iff,
    and_self]

theorem rel_sides_iff {p c p' c' : Json} :
    Option.Rel (Json.Equal e.scalarEqual) (prevSide d (some p) (some c))
          (prevSide d' (some p') (some c')) ∧
        Option.Rel (Json.Equal e.scalarEqual) (curSide d (some p) (some c))
          (curSide d' (some p') (some c')) ↔
      SameDifference e (diffValue d p c) (diffValue d' p' c') := by
  simp only [prevSide, curSide]
  constructor
  · rintro ⟨hprev, hcur⟩
    cases hdiff : diffValue d p c with
    | none =>
      rw [hdiff] at hprev
      rw [Option.map_eq_none_iff.mp (rel_none hprev)]
      exact Option.Rel.none
    | some sides =>
      rw [hdiff] at hprev hcur
      obtain ⟨x, hx, hprev⟩ := rel_some hprev
      obtain ⟨sides', hdiff', rfl⟩ := Option.map_eq_some_iff.mp hx
      rw [hdiff'] at hcur ⊢
      cases hcur with
      | some hcur => exact Option.Rel.some ⟨hprev, hcur⟩
  · intro h
    cases hdiff : diffValue d p c with
    | none =>
      rw [hdiff] at h
      rw [rel_none h]
      exact ⟨.none, .none⟩
    | some sides =>
      rw [hdiff] at h
      obtain ⟨sides', hdiff', hprev, hcur⟩ := rel_some h
      rw [hdiff']
      exact ⟨.some hprev, .some hcur⟩

theorem sides_same_iff (hlaw : LawfulScalars d.scalarEqual) (hlaw' : LawfulScalars d'.scalarEqual)
    {p c p' c' : Option Json} (hp : ∀ x, p = some x → x.Distinct) (hc : ∀ x, c = some x → x.Distinct)
    (hp' : ∀ x, p' = some x → x.Distinct) (hc' : ∀ x, c' = some x → x.Distinct)
    (h : ∀ x y x' y', p = some x → c = some y → p' = some x' → c' = some y' →
      (SameChange d d' e x y x' y' ↔ SameDifference e (diffValue d x y) (diffValue d' x' y'))) :
    SameEntry d d' e p c p' c' ↔
      Option.Rel (Json.Equal e.scalarEqual) (prevSide d p c) (prevSide d' p' c') ∧
        Option.Rel (Json.Equal e.scalarEqual) (curSide d p c) (curSide d' p' c') := by
  cases p <;> cases c <;> cases p' <;> cases c'
  case none.none.none.none => exact iff_of_true .absent ⟨.none, .none⟩
  case some.some.some.some x y x' y' =>
    rw [sameEntry_both_iff, rel_sides_iff, h x y x' y' rfl rfl rfl rfl]
  case some.none.some.none p p' =>
    rw [sameEntry_removed_iff]
    exact ((and_iff_left .none).trans Option.rel_some_some).symm
  case none.some.none.some c c' =>
    rw [sameEntry_added_iff]
    exact ((and_iff_right .none).trans Option.rel_some_some).symm
  case some.some.none.none p c =>
    rw [sameEntry_kept_iff, ← sides_kept_iff hlaw (hp p rfl) (hc c rfl)]
    exact and_congr rel_none_right_iff.symm rel_none_right_iff.symm
  case none.none.some.some p' c' =>
    rw [sameEntry_kept'_iff, ← sides_kept_iff hlaw' (hp' p' rfl) (hc' c' rfl)]
    exact and_congr rel_none_left_iff.symm rel_none_left_iff.symm
  -- in the other cases one update shows on one side only, where the other cannot
  all_goals
    refine iff_of_false (fun hentry => by cases hentry) fun hrel => ?_
    obtain ⟨hprev, hcur⟩ := hrel
    replace hprev := rel_isSome hprev
    replace hcur := rel_isSome hcur
    simp_all [prevSide, curSide]

theorem fields_same_iff (hlaw : LawfulScalars d.scalarEqual) (hlaw' : LawfulScalars d'.scalarEqual)
    {prev cur prev' cur' : Fields} (hp : Json.Distinct (.obj prev)) (hc : Json.Distinct (.obj cur))
    (hp' : Json.Distinct (.obj prev')) (hc' : Json.Distinct (.obj cur'))
    (h : ∀ key p c p' c', prev.lookup key = some p → cur.lookup key = some c →
      prev'.lookup key = some p' → cur'.lookup key = some c' →
      (SameChange d d' e p c p' c' ↔ SameDifference e (diffValue d p c) (diffValue d' p' c'))) :
    (∀ key, SameEntry d d' e (prev.lookup key) (cur.lookup key) (prev'.lookup key) (cur'.lookup key)) ↔
      Json.Equal e.scalarEqual (.obj (mapDiff d prev cur).1) (.obj (mapDiff d' prev' cur').1) ∧
        Json.Equal e.scalarEqual (.obj (mapDiff d prev cur).2) (.obj (mapDiff d' prev' cur').2) := by
  obtain ⟨hkeys₁, hkeys₂⟩ := mapDiff_keys (d := d) hp.keys hc.keys
  obtain ⟨hkeys₁', hkeys₂'⟩ := mapDiff_keys (d := d') hp'.keys hc'.keys
  rw [equal_obj_iff hkeys₁ hkeys₁', equal_obj_iff hkeys₂ hkeys₂', ← forall_and]
  refine forall_congr' fun key => ?_
  rw [mapDiff_fst_lookup hp.keys, mapDiff_fst_lookup hp'.keys, mapDiff_snd_lookup hp.keys,
    mapDiff_snd_lookup hp'.keys]
  exact sides_same_iff hlaw hlaw' (fun _ => lookup_distinct hp) (fun _ => lookup_distinct hc)
    (fun _ => lookup_distinct hp') (fun _ => lookup_distinct hc') (h key)

theorem equal_empty_iff {xs ys : Fields} (h : Json.Equal e.scalarEqual (.obj xs) (.obj ys)) :
    xs = [] ↔ ys = [] := by
  rw [Json.Equal, Json.equal, Bool.and_eq_true, beq_iff_eq] at h
  rw [← List.length_eq_zero_iff, ← List.length_eq_zero_iff, h.1]

theorem finishMap_same {diff diff' : Fields × Fields}
    (hprev : Json.Equal e.scalarEqual (.obj diff.1) (.obj diff'.1))
    (hcur : Json.Equal e.scalarEqual (.obj diff.2) (.obj diff'.2)) :
    SameDifference e ((finishMap diff).map fun diff => (.obj diff.1, .obj diff.2))
      ((finishMap diff').map fun diff => (.obj diff.1, .obj diff.2)) := by
  have hnone : finishMap diff = none ↔ finishMap diff' = none := by
    rw [finishMap_none_iff, finishMap_none_iff, equal_empty_iff hprev, equal_empty_iff hcur]
  cases hfinish : finishMap diff with
  | none =>
    rw [hnone.mp hfinish]
    exact Option.Rel.none
  | some sides =>
    obtain ⟨sides', hfinish'⟩ := Option.ne_none_iff_exists'.mp fun h =>
      Option.some_ne_none sides (hfinish.symm.trans (hnone.mpr h))
    obtain ⟨rfl, _⟩ := finishMap_some hfinish
    obtain ⟨rfl, _⟩ := finishMap_some hfinish'
    rw [hfinish']
    exact Option.Rel.some ⟨hprev, hcur⟩

/-! ### Updates and differences -/

/-- The sides of a difference are compared inside where the values are. -/
theorem together_diff_iff {p c x y : Json} (h : diffValue d p c = some (x, y)) :
    Together x y ↔ Together p c := by
  by_cases htogether : Together p c
  · refine iff_of_true ?_ htogether
    cases htogether with
    | obj prev cur =>
      obtain ⟨rfl, rfl, _⟩ := diffValue_obj_some h
      exact .obj _ _
    | arr prev cur =>
      obtain ⟨rfl, rfl, _⟩ := diffValue_arr_some h
      exact .arr _ _
  · obtain ⟨rfl, rfl, _⟩ := diffValue_apart_some htogether h
    rfl

theorem together_same_iff (hlawe : LawfulScalars e.scalarEqual) {p c p' c' x y x' y' : Json}
    (h : diffValue d p c = some (x, y)) (h' : diffValue d' p' c' = some (x', y'))
    (hprev : Json.Equal e.scalarEqual x x') (hcur : Json.Equal e.scalarEqual y y') :
    Together p c ↔ Together p' c' := by
  rw [← together_diff_iff h, ← together_diff_iff h']
  exact ⟨together_right_of_equal hprev hcur, together_left_of_equal hlawe hprev hcur⟩

theorem sameDiff_of_unchanged (hlaw : LawfulScalars d.scalarEqual)
    (hlaw' : LawfulScalars d'.scalarEqual) {p c p' c' : Json} (hp : p.Distinct) (hc : c.Distinct)
    (hp' : p'.Distinct) (hc' : c'.Distinct) (h : Json.Equal d.scalarEqual p c)
    (h' : Json.Equal d'.scalarEqual p' c') : SameDifference e (diffValue d p c) (diffValue d' p' c') := by
  rw [(apart hlaw hp hc).1.mpr h, (apart hlaw' hp' hc').1.mpr h']
  exact Option.Rel.none

/-- The same difference, unless there is none. -/
theorem sameDiff_cases (hlaw : LawfulScalars d.scalarEqual)
    (hlaw' : LawfulScalars d'.scalarEqual) {p c p' c' : Json} (hp : p.Distinct) (hc : c.Distinct)
    (hp' : p'.Distinct) (hc' : c'.Distinct) (h : SameDifference e (diffValue d p c) (diffValue d' p' c')) :
    (Json.Equal d.scalarEqual p c ∧ Json.Equal d'.scalarEqual p' c') ∨
      ∃ x y x' y', diffValue d p c = some (x, y) ∧ diffValue d' p' c' = some (x', y') ∧
        Json.Equal e.scalarEqual x x' ∧ Json.Equal e.scalarEqual y y' := by
  cases hdiff : diffValue d p c with
  | none =>
    rw [hdiff] at h
    exact .inl ⟨(apart hlaw hp hc).1.mp hdiff, (apart hlaw' hp' hc').1.mp (rel_none h)⟩
  | some sides =>
    rw [hdiff] at h
    obtain ⟨sides', hdiff', hprev, hcur⟩ := rel_some h
    exact .inr ⟨_, _, _, _, rfl, hdiff', hprev, hcur⟩

section Updates

variable (hlaw : LawfulScalars d.scalarEqual) (hlaw' : LawfulScalars d'.scalarEqual)
  (hlawe : LawfulScalars e.scalarEqual)

include hlaw hlaw' hlawe

/-- Values that are not compared inside. -/
theorem sameChange_apart_iff {p c p' c' : Json} (hapart : ¬ Together p c) (hp : p.Distinct)
    (hc : c.Distinct) (hp' : p'.Distinct) (hc' : c'.Distinct) :
    SameChange d d' e p c p' c' ↔ SameDifference e (diffValue d p c) (diffValue d' p' c') := by
  constructor
  · intro h
    cases h with
    | unchanged h h' => exact sameDiff_of_unchanged hlaw hlaw' hp hc hp' hc' h h'
    | replaced _ hapart' hne hne' hprev hcur =>
      rw [Json.Equal] at hne hne'
      rw [diffValue_apart hapart, diffValue_apart hapart', if_neg hne, if_neg hne']
      exact Option.Rel.some ⟨hprev, hcur⟩
    | items _ _ _ => exact absurd (.arr _ _) hapart
    | fields _ => exact absurd (.obj _ _) hapart
  · intro h
    obtain ⟨h, h'⟩ | ⟨x, y, x', y', hdiff, hdiff', hprev, hcur⟩ :=
      sameDiff_cases hlaw hlaw' hp hc hp' hc' h
    · exact .unchanged h h'
    · have hapart' : ¬ Together p' c' := fun htogether =>
        hapart ((together_same_iff hlawe hdiff hdiff' hprev hcur).mpr htogether)
      obtain ⟨rfl, rfl, hne⟩ := diffValue_apart_some hapart hdiff
      obtain ⟨rfl, rfl, hne'⟩ := diffValue_apart_some hapart' hdiff'
      exact .replaced hapart hapart' hne hne' hprev hcur

/-- Lists, where it is so for their items. -/
theorem sameChange_arr_iff {prev cur : List Json} {p' c' : Json} (hp : Json.Distinct (.arr prev))
    (hc : Json.Distinct (.arr cur)) (hp' : p'.Distinct) (hc' : c'.Distinct)
    (h : ∀ p ∈ prev, ∀ c ∈ cur, ∀ p' c' : Json, p'.Distinct → c'.Distinct →
      (SameChange d d' e p c p' c' ↔ SameDifference e (diffValue d p c) (diffValue d' p' c'))) :
    SameChange d d' e (.arr prev) (.arr cur) p' c' ↔
      SameDifference e (diffValue d (.arr prev) (.arr cur)) (diffValue d' p' c') := by
  have hitems : ∀ prev' cur' : List Json, (∀ p' ∈ prev', p'.Distinct) → (∀ c' ∈ cur', c'.Distinct) →
      (List.Forall₂ (Json.Equal e.scalarEqual) (diffItems d prev cur).1 (diffItems d' prev' cur').1 ∧
        List.Forall₂ (Json.Equal e.scalarEqual) (diffItems d prev cur).2 (diffItems d' prev' cur').2 ↔
      prev.length = prev'.length ∧ cur.length = cur'.length ∧
        ∀ i : ℕ, SameEntry d d' e prev[i]? cur[i]? prev'[i]? cur'[i]?) := by
    intro prev' cur' hprev' hcur'
    refine diffItems_same_iff fun p hmem c hmem' p' hmem'' c' hmem''' => ?_
    rw [h p hmem c hmem' p' c' (hprev' p' hmem'') (hcur' c' hmem''')]
    exact itemSides_same_iff hlaw hlaw' hlawe (hp.items p hmem) (hc.items c hmem') (hprev' p' hmem'')
      (hcur' c' hmem''')
  constructor
  · intro h
    cases h with
    | unchanged h h' => exact sameDiff_of_unchanged hlaw hlaw' hp hc hp' hc' h h'
    | replaced hapart _ _ _ _ _ => exact absurd (.arr _ _) hapart
    | @items _ _ prev' cur' hprev hcur h =>
      obtain ⟨hfst, hsnd⟩ := (hitems prev' cur' hp'.items hc'.items).mpr ⟨hprev, hcur, h⟩
      rw [diffValue_arr, diffValue_arr, hprev, hcur]
      exact finishList_same hlaw hlaw' hlawe _ hfst hsnd
  · intro h
    obtain ⟨h, h'⟩ | ⟨x, y, x', y', hdiff, hdiff', hprev, hcur⟩ :=
      sameDiff_cases hlaw hlaw' hp hc hp' hc' h
    · exact .unchanged h h'
    · have htogether := (together_same_iff hlawe hdiff hdiff' hprev hcur).mp (.arr _ _)
      obtain ⟨rfl, rfl, _⟩ := diffValue_arr_some hdiff
      cases htogether with
      | obj prev' cur' =>
        obtain ⟨rfl, _, _⟩ := diffValue_obj_some hdiff'
        cases hprev
      | arr prev' cur' =>
        obtain ⟨rfl, rfl, _⟩ := diffValue_arr_some hdiff'
        rw [equal_arr_iff] at hprev hcur
        obtain ⟨hprev, hcur, h⟩ := (hitems prev' cur' hp'.items hc'.items).mp ⟨hprev, hcur⟩
        exact .items hprev hcur h

/-- Objects, where it is so for what they have under the same keys. -/
theorem sameChange_obj_iff {prev cur : Fields} {p' c' : Json} (hp : Json.Distinct (.obj prev))
    (hc : Json.Distinct (.obj cur)) (hp' : p'.Distinct) (hc' : c'.Distinct)
    (h : ∀ key p c, prev.lookup key = some p → cur.lookup key = some c →
      ∀ p' c' : Json, p'.Distinct → c'.Distinct →
      (SameChange d d' e p c p' c' ↔ SameDifference e (diffValue d p c) (diffValue d' p' c'))) :
    SameChange d d' e (.obj prev) (.obj cur) p' c' ↔
      SameDifference e (diffValue d (.obj prev) (.obj cur)) (diffValue d' p' c') := by
  have hfields : ∀ prev' cur' : Fields, Json.Distinct (.obj prev') → Json.Distinct (.obj cur') →
      ((∀ key, SameEntry d d' e (prev.lookup key) (cur.lookup key) (prev'.lookup key)
        (cur'.lookup key)) ↔
      Json.Equal e.scalarEqual (.obj (mapDiff d prev cur).1) (.obj (mapDiff d' prev' cur').1) ∧
        Json.Equal e.scalarEqual (.obj (mapDiff d prev cur).2) (.obj (mapDiff d' prev' cur').2)) := by
    intro prev' cur' hprev' hcur'
    refine fields_same_iff hlaw hlaw' hp hc hprev' hcur' fun key p c p' c' hlp hlc hlp' hlc' => ?_
    exact h key p c hlp hlc p' c' (lookup_distinct hprev' hlp') (lookup_distinct hcur' hlc')
  constructor
  · intro h
    cases h with
    | unchanged h h' => exact sameDiff_of_unchanged hlaw hlaw' hp hc hp' hc' h h'
    | replaced hapart _ _ _ _ _ => exact absurd (.obj _ _) hapart
    | @fields _ _ prev' cur' h =>
      obtain ⟨hfst, hsnd⟩ := (hfields prev' cur' hp' hc').mp h
      rw [diffValue_obj, diffValue_obj, diffEventAsMap_eq, diffEventAsMap_eq]
      exact finishMap_same hfst hsnd
  · intro h
    obtain ⟨h, h'⟩ | ⟨x, y, x', y', hdiff, hdiff', hprev, hcur⟩ :=
      sameDiff_cases hlaw hlaw' hp hc hp' hc' h
    · exact .unchanged h h'
    · have htogether := (together_same_iff hlawe hdiff hdiff' hprev hcur).mp (.obj _ _)
      obtain ⟨rfl, rfl, _⟩ := diffValue_obj_some hdiff
      cases htogether with
      | obj prev' cur' =>
        obtain ⟨rfl, rfl, _⟩ := diffValue_obj_some hdiff'
        exact .fields ((hfields prev' cur' hp' hc').mpr ⟨hprev, hcur⟩)
      | arr prev' cur' =>
        obtain ⟨rfl, _, _⟩ := diffValue_arr_some hdiff'
        cases hprev

/-- **Updates make the same change exactly when their differences are the same.** -/
theorem sameChange_iff {p c p' c' : Json} (hp : p.Distinct) (hc : c.Distinct) (hp' : p'.Distinct)
    (hc' : c'.Distinct) :
    SameChange d d' e p c p' c' ↔ SameDifference e (diffValue d p c) (diffValue d' p' c') := by
  induction p, c using together_induct generalizing p' c' with
  | apart p c hapart => exact sameChange_apart_iff hlaw hlaw' hlawe hapart hp hc hp' hc'
  | arr prev cur ih =>
    exact sameChange_arr_iff hlaw hlaw' hlawe hp hc hp' hc' fun p hmem c hmem' p' c' =>
      ih p hmem c hmem' (hp.items p hmem) (hc.items c hmem')
  | obj prev cur ih =>
    exact sameChange_obj_iff hlaw hlaw' hlawe hp hc hp' hc' fun key p c hlp hlc p' c' =>
      ih key p c hlp hlc (lookup_distinct hp hlp) (lookup_distinct hc hlc)

end Updates

end Sieve.Event
