import Sieve.Event.DeepEqual
import Sieve.Event.EventDelta

/-!
# What a difference says

The two sides of a difference, key by key and item by item, and when there is none:

* `go_lawful`, `python_lawful`: both equalities of scalars are equivalences;
* `mapDiff_fst_lookup`, `mapDiff_snd_lookup`: the two sides under one key;
* `diffValue_distinct`: both sides have distinct keys;
* `apart`: two values have no difference exactly when they are equal, and the two sides of a
  difference are never equal to each other.
-/

namespace Sieve.Event

/-! ### The equalities of the two languages -/

theorem go_lawful : LawfulScalars goScalarEqual where
  refl x hx := by cases x <;> simp_all [goScalarEqual, Json.IsScalar]
  symm x y h := by cases x <;> cases y <;> simp_all [goScalarEqual]
  trans x y z h h' := by cases x <;> cases y <;> cases z <;> simp_all [goScalarEqual]
  scalar x y h := by cases x <;> cases y <;> simp_all [goScalarEqual, Json.IsScalar]
  str x s h := by cases x <;> simp_all [goScalarEqual]

/-- In Python a truth value is the number 0 or 1. -/
def Json.asNumber : Json → Json
  | .bool b => .num (if b then 1 else 0)
  | x => x

theorem pythonScalarEqual_eq (x y : Json) :
    pythonScalarEqual x y = goScalarEqual x.asNumber y.asNumber := by
  cases x <;> cases y <;> simp only [pythonScalarEqual, Json.asNumber, goScalarEqual]
  case bool.bool a b => cases a <;> cases b <;> rfl

theorem Json.asNumber_scalar {x : Json} : x.asNumber.IsScalar ↔ x.IsScalar := by
  cases x <;> exact Iff.rfl

theorem python_lawful : LawfulScalars pythonScalarEqual where
  refl x hx := by
    rw [pythonScalarEqual_eq]
    exact go_lawful.refl _ (Json.asNumber_scalar.mpr hx)
  symm x y h := by
    rw [pythonScalarEqual_eq] at h ⊢
    exact go_lawful.symm _ _ h
  trans x y z h h' := by
    rw [pythonScalarEqual_eq] at h h' ⊢
    exact go_lawful.trans _ _ _ h h'
  scalar x y h := by
    rw [pythonScalarEqual_eq] at h
    exact Json.asNumber_scalar.mp (go_lawful.scalar _ _ h)
  str x s h := by
    rw [pythonScalarEqual_eq] at h
    have hx := go_lawful.str _ _ h
    cases x with
    | bool b => cases hx
    | _ => exact hx

variable {d : Dialect}

/-- Only the marker itself is taken for it. -/
theorem isSkip_iff (hlaw : LawfulScalars d.scalarEqual) {x : Json} :
    isSkip d x = true ↔ x = .str SIEVE_IDX_SKIP := by
  constructor
  · intro h
    replace h : Json.Equal d.scalarEqual x (.str SIEVE_IDX_SKIP) := h
    cases x with
    | arr items => cases h
    | obj fields => cases h
    | _ => exact hlaw.str _ _ ((equal_scalar_iff (by trivial)).mp h)
  · intro h
    rw [h]
    show Json.Equal d.scalarEqual _ _
    exact (equal_scalar_iff (by trivial)).mpr (hlaw.refl _ trivial)

theorem eq_skip_of_equal (hlaw : LawfulScalars d.scalarEqual) {x : Json}
    (h : Json.Equal d.scalarEqual (.str SIEVE_IDX_SKIP) x) : x = .str SIEVE_IDX_SKIP :=
  hlaw.str _ _ (hlaw.symm _ _ ((equal_scalar_iff (by trivial)).mp h))

/-! ### Key by key -/

/-- Both values are objects, or both are arrays: they are compared inside. -/
inductive Together : Json → Json → Prop where
  | obj (prev cur : Fields) : Together (.obj prev) (.obj cur)
  | arr (prev cur : List Json) : Together (.arr prev) (.arr cur)

/-- **Induction over two values compared inside each other.** -/
theorem together_induct {P : Json → Json → Prop} (apart : ∀ p c, ¬ Together p c → P p c)
    (arr : ∀ prev cur, (∀ p ∈ prev, ∀ c ∈ cur, P p c) → P (.arr prev) (.arr cur))
    (obj : ∀ prev cur : Fields, (∀ key p c, prev.lookup key = some p → cur.lookup key = some c →
      P p c) → P (.obj prev) (.obj cur)) (p c : Json) : P p c := by
  induction p using Json.induct generalizing c with
  | scalar p hscalar =>
    refine apart p c fun htogether => ?_
    cases htogether <;> exact hscalar
  | arr prev ih =>
    by_cases htogether : Together (.arr prev) c
    · cases htogether with
      | arr _ cur => exact arr prev cur fun p hp c _ => ih p hp c
    · exact apart _ c htogether
  | obj prev ih =>
    by_cases htogether : Together (.obj prev) c
    · cases htogether with
      | obj _ cur => exact obj prev cur fun key p c hp _ => ih _ (lookup_mem hp) c
    · exact apart _ c htogether

theorem diffValue_apart {p c : Json} (h : ¬ Together p c) :
    diffValue d p c = if p.equal d.scalarEqual c then none else some (p, c) := by
  cases p with
  | obj prev =>
    cases c with
    | obj cur => exact absurd (.obj prev cur) h
    | _ => rw [diffValue] <;> exact nofun
  | arr prev =>
    cases c with
    | arr cur => exact absurd (.arr prev cur) h
    | _ => rw [diffValue] <;> exact nofun
  | _ => rw [diffValue] <;> exact nofun

/-- The two sides, before it is asked whether they are empty. -/
def mapDiff (d : Dialect) (prev cur : Fields) : Fields × Fields :=
  ((diffCommonFields d prev cur).1, (diffCommonFields d prev cur).2 ++ newFields prev cur)

theorem diffEventAsMap_eq (prev cur : Fields) :
    diffEventAsMap d prev cur = finishMap (mapDiff d prev cur) := rfl

theorem diffValue_obj (prev cur : Fields) : diffValue d (.obj prev) (.obj cur) =
    (diffEventAsMap d prev cur).map fun diff => (.obj diff.1, .obj diff.2) := by
  rw [diffValue]
  rfl

theorem diffValue_arr (prev cur : List Json) : diffValue d (.arr prev) (.arr cur) =
    (finishList d (prev.length == cur.length) (diffItems d prev cur)).map
      fun diff => (.arr diff.1, .arr diff.2) := by
  rw [diffValue]

/-- The previous side under a key with these two values. -/
def prevSide (d : Dialect) : Option Json → Option Json → Option Json
  | none, _ => none
  | some p, none => some p
  | some p, some c => (diffValue d p c).map Prod.fst

/-- The current side under a key with these two values. -/
def curSide (d : Dialect) : Option Json → Option Json → Option Json
  | _, none => none
  | none, some c => some c
  | some p, some c => (diffValue d p c).map Prod.snd

theorem newFields_lookup (prev cur : Fields) (key : String) :
    (newFields prev cur).lookup key = if (prev.lookup key).isNone then cur.lookup key else none := by
  induction cur with
  | nil => simp [newFields]
  | cons field cur ih =>
    obtain ⟨k, c⟩ := field
    rw [newFields, List.filter_cons, List.lookup_cons]
    by_cases hkey : key = k
    · subst hkey
      cases hp : prev.lookup key with
      | none => simp
      | some p =>
        rw [hp] at ih
        simpa [newFields] using ih
    · have hne : (key == k) = false := beq_eq_false_iff_ne.mpr hkey
      rw [hne]
      split
      · rw [List.lookup_cons, hne]
        exact ih
      · exact ih

theorem diffCommonFields_lookup {prev : Fields} (hkeys : (prev.map Prod.fst).Nodup) (cur : Fields)
    (key : String) :
    (diffCommonFields d prev cur).1.lookup key = prevSide d (prev.lookup key) (cur.lookup key) ∧
      (diffCommonFields d prev cur).2.lookup key =
        if (prev.lookup key).isNone then none else curSide d (prev.lookup key) (cur.lookup key) := by
  induction prev with
  | nil => simp [diffCommonFields, prevSide]
  | cons field prev ih =>
    obtain ⟨k, p⟩ := field
    rw [List.map_cons, List.nodup_cons] at hkeys
    obtain ⟨ih₁, ih₂⟩ := ih hkeys.2
    rw [diffCommonFields, List.lookup_cons]
    by_cases hkey : key = k
    · subst hkey
      have hnone : prev.lookup key = none := lookup_none_iff.mpr hkeys.1
      rw [hnone] at ih₁ ih₂
      rw [beq_self_eq_true]
      cases hc : cur.lookup key with
      | none =>
        rw [hc] at ih₁ ih₂
        simp [ih₂, prevSide, curSide]
      | some c =>
        rw [hc] at ih₁ ih₂
        cases hdiff : diffValue d p c with
        | none =>
          simp only [hdiff]
          rw [ih₁, ih₂]
          simp [hdiff, prevSide, curSide]
        | some sides => simp [hdiff, prevSide, curSide]
    · have hne : (key == k) = false := beq_eq_false_iff_ne.mpr hkey
      rw [hne]
      cases cur.lookup k with
      | none =>
        rw [List.lookup_cons, hne]
        exact ⟨ih₁, ih₂⟩
      | some c =>
        cases hdiff : diffValue d p c with
        | none =>
          simp only [hdiff]
          exact ⟨ih₁, ih₂⟩
        | some sides =>
          simp only [hdiff, List.lookup_cons, hne]
          exact ⟨ih₁, ih₂⟩

theorem mapDiff_fst_lookup {prev : Fields} (hkeys : (prev.map Prod.fst).Nodup) (cur : Fields)
    (key : String) :
    (mapDiff d prev cur).1.lookup key = prevSide d (prev.lookup key) (cur.lookup key) :=
  (diffCommonFields_lookup hkeys cur key).1

theorem mapDiff_snd_lookup {prev : Fields} (hkeys : (prev.map Prod.fst).Nodup) (cur : Fields)
    (key : String) :
    (mapDiff d prev cur).2.lookup key = curSide d (prev.lookup key) (cur.lookup key) := by
  rw [mapDiff, List.lookup_append, (diffCommonFields_lookup hkeys cur key).2, newFields_lookup]
  cases hp : prev.lookup key with
  | none => cases cur.lookup key <;> simp [curSide]
  | some p => simp

/-! ### Distinct keys -/

theorem diffCommonFields_keys (prev cur : Fields) :
    ((diffCommonFields d prev cur).1.map Prod.fst).Sublist (prev.map Prod.fst) ∧
      ((diffCommonFields d prev cur).2.map Prod.fst).Sublist (prev.map Prod.fst) := by
  induction prev with
  | nil => exact ⟨.slnil, .slnil⟩
  | cons field prev ih =>
    obtain ⟨key, p⟩ := field
    rw [diffCommonFields]
    cases cur.lookup key with
    | none => exact ⟨ih.1.cons_cons key, ih.2.cons key⟩
    | some c =>
      cases hdiff : diffValue d p c with
      | none =>
        simp only [hdiff]
        exact ⟨ih.1.cons key, ih.2.cons key⟩
      | some sides =>
        simp only [hdiff]
        exact ⟨ih.1.cons_cons key, ih.2.cons_cons key⟩

theorem mapDiff_keys {prev cur : Fields} (hprev : (prev.map Prod.fst).Nodup)
    (hcur : (cur.map Prod.fst).Nodup) :
    ((mapDiff d prev cur).1.map Prod.fst).Nodup ∧ ((mapDiff d prev cur).2.map Prod.fst).Nodup := by
  obtain ⟨hsub₁, hsub₂⟩ := diffCommonFields_keys (d := d) prev cur
  refine ⟨hprev.sublist hsub₁, ?_⟩
  rw [mapDiff, List.map_append, List.nodup_append]
  refine ⟨hprev.sublist hsub₂, hcur.sublist (List.filter_sublist.map Prod.fst), ?_⟩
  intro key hkey key' hkey' heq
  obtain ⟨field, hmem, rfl⟩ := List.mem_map.mp hkey'
  have hnone : prev.lookup field.1 = none := by
    simpa using (List.mem_filter.mp hmem).2
  rw [lookup_none_iff] at hnone
  exact hnone (heq ▸ hsub₂.subset hkey)

theorem skip_distinct : Json.Distinct (.str SIEVE_IDX_SKIP) := .scalar trivial

theorem finishMap_some {diff diff' : Fields × Fields} (h : finishMap diff = some diff') :
    diff' = diff ∧ ¬ (diff.1 = [] ∧ diff.2 = []) := by
  rw [finishMap] at h
  split at h
  · cases h
  · rename_i hne
    refine ⟨(Option.some.inj h).symm, fun hempty => hne ?_⟩
    rw [hempty.1, hempty.2]
    rfl

theorem finishMap_none_iff {diff : Fields × Fields} :
    finishMap diff = none ↔ diff.1 = [] ∧ diff.2 = [] := by
  rw [finishMap]
  split
  · rename_i h
    simpa using h
  · rename_i h
    refine iff_of_false nofun fun hempty => h ?_
    rw [hempty.1, hempty.2]
    rfl

theorem diffValue_apart_some {p c x y : Json} (h : ¬ Together p c)
    (hdiff : diffValue d p c = some (x, y)) :
    x = p ∧ y = c ∧ ¬ Json.Equal d.scalarEqual p c := by
  rw [diffValue_apart h] at hdiff
  split at hdiff
  · cases hdiff
  · rename_i hne
    obtain ⟨rfl, rfl⟩ := Prod.mk.inj (Option.some.inj hdiff)
    exact ⟨rfl, rfl, hne⟩

theorem diffValue_arr_some {prev cur : List Json} {x y : Json}
    (hdiff : diffValue d (.arr prev) (.arr cur) = some (x, y)) :
    x = .arr (diffItems d prev cur).1 ∧ y = .arr (diffItems d prev cur).2 ∧
      finishList d (prev.length == cur.length) (diffItems d prev cur) ≠ none := by
  rw [diffValue_arr] at hdiff
  obtain ⟨diff, hfinish, hsides⟩ := Option.map_eq_some_iff.mp hdiff
  obtain ⟨rfl, rfl⟩ := Prod.mk.inj hsides
  rw [hfinish]
  rw [finishList] at hfinish
  split at hfinish
  · cases hfinish
  · rw [← Option.some.inj hfinish]
    exact ⟨rfl, rfl, nofun⟩

theorem diffValue_obj_some {prev cur : Fields} {x y : Json}
    (hdiff : diffValue d (.obj prev) (.obj cur) = some (x, y)) :
    x = .obj (mapDiff d prev cur).1 ∧ y = .obj (mapDiff d prev cur).2 ∧
      ¬ ((mapDiff d prev cur).1 = [] ∧ (mapDiff d prev cur).2 = []) := by
  rw [diffValue_obj, diffEventAsMap_eq] at hdiff
  obtain ⟨diff, hfinish, hsides⟩ := Option.map_eq_some_iff.mp hdiff
  obtain ⟨rfl, rfl⟩ := Prod.mk.inj hsides
  obtain ⟨rfl, hne⟩ := finishMap_some hfinish
  exact ⟨rfl, rfl, hne⟩

/-! ### Item by item -/

/-- The two sides under one index. -/
def itemSides (d : Dialect) (p c : Json) : Json × Json :=
  (diffValue d p c).getD (.str SIEVE_IDX_SKIP, .str SIEVE_IDX_SKIP)

theorem diffItems_cons (p c : Json) (prev cur : List Json) :
    diffItems d (p :: prev) (c :: cur) =
      ((itemSides d p c).1 :: (diffItems d prev cur).1,
        (itemSides d p c).2 :: (diffItems d prev cur).2) := by
  rw [diffItems, itemSides]
  cases diffValue d p c <;> rfl

theorem diffItems_nil_left (cur : List Json) : diffItems d [] cur = ([], cur) := by
  rw [diffItems]

theorem diffItems_nil_right (prev : List Json) : diffItems d prev [] = (prev, []) := by
  cases prev <;> rw [diffItems]
  exact nofun

/-- **Both sides of a difference have distinct keys.** -/
theorem diffValue_distinct {p c x y : Json} (hp : p.Distinct) (hc : c.Distinct)
    (h : diffValue d p c = some (x, y)) : x.Distinct ∧ y.Distinct := by
  induction p, c using together_induct generalizing x y with
  | apart p c hapart =>
    obtain ⟨rfl, rfl, _⟩ := diffValue_apart_some hapart h
    exact ⟨hp, hc⟩
  | arr prev cur ih =>
    obtain ⟨rfl, rfl, -⟩ := diffValue_arr_some h
    have hall : (∀ x ∈ (diffItems d prev cur).1, x.Distinct) ∧
        ∀ y ∈ (diffItems d prev cur).2, y.Distinct := by
      replace hp := hp.items
      replace hc := hc.items
      clear h
      induction prev generalizing cur with
      | nil =>
        rw [diffItems_nil_left]
        exact ⟨nofun, hc⟩
      | cons p prev ih' =>
        cases cur with
        | nil =>
          rw [diffItems_nil_right]
          exact ⟨hp, nofun⟩
        | cons c cur =>
          obtain ⟨hpx, hprev⟩ := List.forall_mem_cons.mp hp
          obtain ⟨hcx, hcur⟩ := List.forall_mem_cons.mp hc
          obtain ⟨h₁, h₂⟩ := ih' cur (fun q hq c hc => ih q (List.mem_cons_of_mem _ hq) c
            (List.mem_cons_of_mem _ hc)) hprev hcur
          have hsides : (itemSides d p c).1.Distinct ∧ (itemSides d p c).2.Distinct := by
            rw [itemSides]
            cases hdiff : diffValue d p c with
            | none => exact ⟨skip_distinct, skip_distinct⟩
            | some sides => exact ih p (by simp) c (by simp) hpx hcx hdiff
          rw [diffItems_cons]
          exact ⟨List.forall_mem_cons.mpr ⟨hsides.1, h₁⟩, List.forall_mem_cons.mpr ⟨hsides.2, h₂⟩⟩
    exact ⟨.arr hall.1, .arr hall.2⟩
  | obj prev cur ih =>
    obtain ⟨rfl, rfl, _⟩ := diffValue_obj_some h
    obtain ⟨hkeys₁, hkeys₂⟩ := mapDiff_keys (d := d) hp.keys hc.keys
    have hsides : ∀ key, (∀ x, prevSide d (prev.lookup key) (cur.lookup key) = some x →
        x.Distinct) ∧ ∀ y, curSide d (prev.lookup key) (cur.lookup key) = some y →
        y.Distinct := by
      intro key
      cases hlp : prev.lookup key with
      | none =>
        cases hlc : cur.lookup key with
        | none => exact ⟨nofun, nofun⟩
        | some c =>
          refine ⟨nofun, fun y hy => ?_⟩
          rw [← Option.some.inj hy]
          exact lookup_distinct hc hlc
      | some p =>
        have hpx := lookup_distinct hp hlp
        cases hlc : cur.lookup key with
        | none =>
          refine ⟨fun x hx => ?_, nofun⟩
          rw [← Option.some.inj hx]
          exact hpx
        | some c =>
          cases hdiff : diffValue d p c with
          | none => simp [prevSide, curSide, hdiff]
          | some sides =>
            have hboth := ih key p c hlp hlc hpx (lookup_distinct hc hlc) hdiff
            simpa [prevSide, curSide, hdiff] using hboth
    refine ⟨.obj hkeys₁ fun field hfield => ?_, .obj hkeys₂ fun field hfield => ?_⟩
    · have hlookup := mem_lookup hkeys₁ hfield
      rw [mapDiff_fst_lookup hp.keys] at hlookup
      exact (hsides field.1).1 _ hlookup
    · have hlookup := mem_lookup hkeys₂ hfield
      rw [mapDiff_snd_lookup hp.keys] at hlookup
      exact (hsides field.1).2 _ hlookup

/-! ### When there is no difference -/

/-- The two values are told apart: there is no difference exactly when they are equal, and the two
sides of a difference are not equal to each other. -/
def Apart (d : Dialect) (p c : Json) : Prop :=
  (diffValue d p c = none ↔ Json.Equal d.scalarEqual p c) ∧
    ∀ x y, diffValue d p c = some (x, y) → ¬ Json.Equal d.scalarEqual x y

theorem Apart.itemSides (hlaw : LawfulScalars d.scalarEqual) {p c : Json} (h : Apart d p c) :
    (Json.Equal d.scalarEqual (itemSides d p c).1 (itemSides d p c).2 →
      Json.Equal d.scalarEqual p c) ∧
    ((isSkip d (Event.itemSides d p c).1 && isSkip d (Event.itemSides d p c).2) = true ↔
      Json.Equal d.scalarEqual p c) := by
  rw [Event.itemSides]
  cases hdiff : diffValue d p c with
  | none =>
    have hequal := h.1.mp hdiff
    refine ⟨fun _ => hequal, iff_of_true ?_ hequal⟩
    rw [Option.getD_none, Bool.and_self]
    exact (isSkip_iff hlaw).mpr rfl
  | some sides =>
    have hne := h.2 _ _ hdiff
    have hnot : ¬ Json.Equal d.scalarEqual p c := by
      intro hequal
      rw [h.1.mpr hequal] at hdiff
      cases hdiff
    refine ⟨fun hsides => absurd hsides hne, iff_of_false ?_ hnot⟩
    rw [Option.getD_some, Bool.and_eq_true, isSkip_iff hlaw, isSkip_iff hlaw]
    intro hskip
    refine hne ?_
    rw [hskip.1, hskip.2]
    exact .refl hlaw skip_distinct

theorem diffItems_equal (hlaw : LawfulScalars d.scalarEqual) {prev cur : List Json}
    (h : ∀ p ∈ prev, ∀ c ∈ cur, Apart d p c)
    (hequal : List.Forall₂ (Json.Equal d.scalarEqual) (diffItems d prev cur).1
      (diffItems d prev cur).2) : List.Forall₂ (Json.Equal d.scalarEqual) prev cur := by
  induction prev generalizing cur with
  | nil =>
    rw [diffItems_nil_left] at hequal
    exact hequal
  | cons p prev ih =>
    cases cur with
    | nil =>
      rw [diffItems_nil_right] at hequal
      exact hequal
    | cons c cur =>
      rw [diffItems_cons, List.forall₂_cons] at hequal
      exact .cons (((h p (by simp) c (by simp)).itemSides hlaw).1 hequal.1)
        (ih (fun q hq c hc => h q (List.mem_cons_of_mem _ hq) c (List.mem_cons_of_mem _ hc))
          hequal.2)

theorem finishList_none_iff (hlaw : LawfulScalars d.scalarEqual) {prev cur : List Json}
    (h : ∀ p ∈ prev, ∀ c ∈ cur, Apart d p c) :
    finishList d (prev.length == cur.length) (diffItems d prev cur) = none ↔
      List.Forall₂ (Json.Equal d.scalarEqual) prev cur := by
  have hkeep : ∀ b diff, finishList d b diff = none ↔
      (b && diff.1.all (isSkip d) && diff.2.all (isSkip d)) = true := by
    intro b diff
    rw [finishList]
    split
    · rename_i hall
      exact iff_of_true rfl hall
    · rename_i hall
      exact iff_of_false nofun hall
  rw [hkeep]
  induction prev generalizing cur with
  | nil => cases cur <;> simp [diffItems_nil_left]
  | cons p prev ih =>
    cases cur with
    | nil => simp
    | cons c cur =>
      have hrest := @ih cur fun q hq c hc =>
        h q (List.mem_cons_of_mem _ hq) c (List.mem_cons_of_mem _ hc)
      have hhead := ((h p (by simp) c (by simp)).itemSides hlaw).2
      simp only [diffItems_cons, List.forall₂_cons, List.length_cons, List.all_cons,
        Bool.and_eq_true, beq_iff_eq, Nat.add_right_cancel_iff] at hrest hhead ⊢
      tauto

/-- **Values without a difference are the equal ones**, and the two sides of a difference are never
equal to each other. -/
theorem apart (hlaw : LawfulScalars d.scalarEqual) {p c : Json} (hp : p.Distinct)
    (hc : c.Distinct) : Apart d p c := by
  induction p, c using together_induct with
  | apart p c hapart =>
    refine ⟨?_, fun x y hdiff => ?_⟩
    · rw [diffValue_apart hapart]
      split
      · rename_i hequal
        exact iff_of_true rfl hequal
      · rename_i hne
        exact iff_of_false nofun hne
    · obtain ⟨rfl, rfl, hne⟩ := diffValue_apart_some hapart hdiff
      exact hne
  | arr prev cur ih =>
    have hitems : ∀ p ∈ prev, ∀ c ∈ cur, Apart d p c :=
      fun p hmem c hmem' => ih p hmem c hmem' (hp.items p hmem) (hc.items c hmem')
    have hnone := finishList_none_iff hlaw hitems
    refine ⟨?_, fun x y hdiff hequal => ?_⟩
    · rw [diffValue_arr, Option.map_eq_none_iff, hnone, equal_arr_iff]
    · obtain ⟨rfl, rfl, hkeep⟩ := diffValue_arr_some hdiff
      rw [equal_arr_iff] at hequal
      exact hkeep (hnone.mpr (diffItems_equal hlaw hitems hequal))
  | obj prev cur ih =>
    obtain ⟨hkeys₁, hkeys₂⟩ := mapDiff_keys (d := d) hp.keys hc.keys
    have hfields : ∀ key p c, prev.lookup key = some p → cur.lookup key = some c → Apart d p c :=
      fun key p c hlp hlc => ih key p c hlp hlc (lookup_distinct hp hlp) (lookup_distinct hc hlc)
    -- under one key: nothing on both sides exactly when the values are equal
    have hkey : ∀ key, (prevSide d (prev.lookup key) (cur.lookup key) = none ∧
        curSide d (prev.lookup key) (cur.lookup key) = none ↔
          Option.Rel (Json.Equal d.scalarEqual) (prev.lookup key) (cur.lookup key)) ∧
        (Option.Rel (Json.Equal d.scalarEqual) (prevSide d (prev.lookup key) (cur.lookup key))
          (curSide d (prev.lookup key) (cur.lookup key)) →
          prevSide d (prev.lookup key) (cur.lookup key) = none) := by
      intro key
      cases hlp : prev.lookup key with
      | none =>
        cases hlc : cur.lookup key with
        | none => exact ⟨iff_of_true ⟨rfl, rfl⟩ .none, fun _ => rfl⟩
        | some c => exact ⟨iff_of_false nofun nofun, fun _ => rfl⟩
      | some p =>
        cases hlc : cur.lookup key with
        | none => exact ⟨iff_of_false nofun nofun, fun h => nomatch h⟩
        | some c =>
          have hapart := hfields key p c hlp hlc
          cases hdiff : diffValue d p c with
          | none =>
            simp only [prevSide, curSide, hdiff, Option.map_none, and_self, true_iff, implies_true,
              and_true]
            exact .some (hapart.1.mp hdiff)
          | some sides =>
            have hne := hapart.2 _ _ hdiff
            simp only [prevSide, curSide, hdiff, Option.map_some]
            refine ⟨iff_of_false nofun fun hrel => ?_, fun hrel => ?_⟩
            · cases hrel with
              | some hequal =>
                rw [hapart.1.mpr hequal] at hdiff
                cases hdiff
            · cases hrel with
              | some hequal => exact absurd hequal hne
    have hempty : (mapDiff d prev cur).1 = [] ∧ (mapDiff d prev cur).2 = [] ↔
        ∀ key, prevSide d (prev.lookup key) (cur.lookup key) = none ∧
          curSide d (prev.lookup key) (cur.lookup key) = none := by
      constructor
      · intro hnil key
        rw [← mapDiff_fst_lookup hp.keys, ← mapDiff_snd_lookup hp.keys, hnil.1, hnil.2]
        exact ⟨rfl, rfl⟩
      · intro hnone
        refine ⟨eq_nil_of_lookup fun key => ?_, eq_nil_of_lookup fun key => ?_⟩
        · rw [mapDiff_fst_lookup hp.keys]
          exact (hnone key).1
        · rw [mapDiff_snd_lookup hp.keys]
          exact (hnone key).2
    refine ⟨?_, fun x y hdiff hequal => ?_⟩
    · rw [diffValue_obj, Option.map_eq_none_iff, diffEventAsMap_eq, finishMap_none_iff, hempty,
        equal_obj_iff hp.keys hc.keys]
      exact forall_congr' fun key => (hkey key).1
    · obtain ⟨rfl, rfl, hne⟩ := diffValue_obj_some hdiff
      rw [equal_obj_iff hkeys₁ hkeys₂] at hequal
      refine hne (hempty.mpr fun key => ?_)
      have hrel := hequal key
      rw [mapDiff_fst_lookup hp.keys, mapDiff_snd_lookup hp.keys] at hrel
      have hnone := (hkey key).2 hrel
      rw [hnone] at hrel
      exact ⟨hnone, rel_none hrel⟩

end Sieve.Event
