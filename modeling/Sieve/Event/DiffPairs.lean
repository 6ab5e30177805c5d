import Sieve.Event.DiffDetermines
import Sieve.Event.SameChange

/-!
# Two differences

Two differences, each of its own values and in its own language, compared index by index and key by
key:

* `SameDiffs`: they are the same;
* `sameDiffs_arr_iff`, `sameDiffs_obj_iff`: so they are when what stands at each place is.
-/

namespace Sieve.Event

variable {d d' : Dialect}

def SameDiffs (d d' : Dialect) (p c p' c' : Json) : Prop :=
  Option.Rel (SameSides go) (diffValue d p c) (diffValue d' p' c')

/-! ### Item by item -/

theorem itemSides_same (hlaw : LawfulScalars d.scalarEqual) (hlaw' : LawfulScalars d'.scalarEqual)
    {p c p' c' : Json} (hp : p.Distinct) (hc : c.Distinct) (hp' : p'.Distinct) (hc' : c'.Distinct) :
    SameSides go (itemSides d p c) (itemSides d' p' c') ↔ SameDiffs d d' p c p' c' :=
  itemSides_same_iff (e := go) hlaw hlaw' go_lawful hp hc hp' hc'

/-- Equal lists of items, one for each difference. -/
abbrev SameItems : List Json → List Json → Prop := List.Forall₂ (Json.Equal goScalarEqual)

theorem sameItems_self {items : List Json} (h : ∀ x ∈ items, x.Distinct) : SameItems items items :=
  List.forall₂_same.mpr fun x hmem => .refl go_lawful (h x hmem)

theorem sameItems_skip (hlaw : LawfulScalars d.scalarEqual) (hlaw' : LawfulScalars d'.scalarEqual)
    {xs ys : List Json} (h : SameItems xs ys) : xs.all (isSkip d) = ys.all (isSkip d') :=
  all_skip_congr (e := go) hlaw hlaw' go_lawful h

theorem sameItems_of_skip (hlaw : LawfulScalars d.scalarEqual) (hlaw' : LawfulScalars d'.scalarEqual)
    {xs ys : List Json} (hlen : xs.length = ys.length) (hxs : xs.all (isSkip d) = true)
    (hys : ys.all (isSkip d') = true) : SameItems xs ys := by
  induction xs generalizing ys with
  | nil =>
    rw [List.length_nil, eq_comm, List.length_eq_zero_iff] at hlen
    rw [hlen]
    exact .nil
  | cons x xs ih =>
    cases ys with
    | nil => cases hlen
    | cons y ys =>
      rw [List.all_cons, Bool.and_eq_true] at hxs hys
      rw [(isSkip_iff hlaw).mp hxs.1, (isSkip_iff hlaw').mp hys.1]
      exact .cons (.refl go_lawful skip_distinct) (ih (Nat.succ.inj hlen) hxs.2 hys.2)

/-- Lists of the same lengths: their differences are the same when the items of the differences are. -/
theorem sameDiffs_arr_iff (hlaw : LawfulScalars d.scalarEqual) (hlaw' : LawfulScalars d'.scalarEqual)
    {prev cur prev' cur' : List Json} (hprev : prev.length = prev'.length)
    (hcur : cur.length = cur'.length) :
    SameDiffs d d' (.arr prev) (.arr cur) (.arr prev') (.arr cur') ↔
      SameItems (diffItems d prev cur).1 (diffItems d' prev' cur').1 ∧
        SameItems (diffItems d prev cur).2 (diffItems d' prev' cur').2 := by
  rw [SameDiffs, diffValue_arr, diffValue_arr, finishList, finishList, hprev, hcur]
  obtain ⟨hlen₁, hlen₂⟩ := @diffItems_length d prev cur
  obtain ⟨hlen₁', hlen₂'⟩ := @diffItems_length d' prev' cur'
  constructor
  · intro hrel
    split at hrel
    · rename_i hleft
      split at hrel
      · rename_i hright
        simp only [Bool.and_eq_true] at hleft hright
        exact ⟨sameItems_of_skip hlaw hlaw' (by omega) hleft.1.2 hright.1.2,
          sameItems_of_skip hlaw hlaw' (by omega) hleft.2 hright.2⟩
      · cases hrel
    · split at hrel
      · cases hrel
      · cases hrel with
        | some hsame => exact ⟨equal_arr_iff.mp hsame.1, equal_arr_iff.mp hsame.2⟩
  · rintro ⟨hfst, hsnd⟩
    rw [sameItems_skip hlaw hlaw' hfst, sameItems_skip hlaw hlaw' hsnd]
    split
    · exact .none
    · exact .some ⟨equal_arr_iff.mpr hfst, equal_arr_iff.mpr hsnd⟩

/-! ### Key by key -/

/-- What stands under one key of two states, and of two others. -/
inductive SameKey (d d' : Dialect) : Option Json → Option Json → Option Json → Option Json → Prop where
  | missing : SameKey d d' none none none none
  | prev {p p' : Json} (h : Json.Equal goScalarEqual p p') : SameKey d d' (some p) none (some p') none
  | cur {c c' : Json} (h : Json.Equal goScalarEqual c c') : SameKey d d' none (some c) none (some c')
  | both {p c p' c' : Json} (h : SameDiffs d d' p c p' c') :
    SameKey d d' (some p) (some c) (some p') (some c')

theorem sameKey_prev_iff {p p' : Json} :
    SameKey d d' (some p) none (some p') none ↔ Json.Equal goScalarEqual p p' := by
  constructor
  · intro h
    cases h with
    | prev h => exact h
  · exact .prev

theorem sameKey_cur_iff {c c' : Json} :
    SameKey d d' none (some c) none (some c') ↔ Json.Equal goScalarEqual c c' := by
  constructor
  · intro h
    cases h with
    | cur h => exact h
  · exact .cur

theorem sameKey_both_iff {p c p' c' : Json} :
    SameKey d d' (some p) (some c) (some p') (some c') ↔ SameDiffs d d' p c p' c' := by
  constructor
  · intro h
    cases h with
    | both h => exact h
  · exact .both

/-- States that have the same keys: the sides under a key are the same when what stands there is. -/
theorem keySides_same {o c o' c' : Option Json} (ho : o.isSome = o'.isSome)
    (hc : c.isSome = c'.isSome) :
    Option.Rel (Json.Equal goScalarEqual) (prevSide d o c) (prevSide d' o' c') ∧
      Option.Rel (Json.Equal goScalarEqual) (curSide d o c) (curSide d' o' c') ↔
    SameKey d d' o c o' c' := by
  cases o with
  | none =>
    obtain rfl : o' = none := by simpa using ho.symm
    cases c with
    | none =>
      obtain rfl : c' = none := by simpa using hc.symm
      exact iff_of_true ⟨.none, .none⟩ .missing
    | some x =>
      obtain ⟨x', rfl⟩ := Option.isSome_iff_exists.mp hc.symm
      rw [sameKey_cur_iff]
      simp [prevSide, curSide]
  | some p =>
    obtain ⟨p', rfl⟩ := Option.isSome_iff_exists.mp ho.symm
    cases c with
    | none =>
      obtain rfl : c' = none := by simpa using hc.symm
      rw [sameKey_prev_iff]
      simp [prevSide, curSide]
    | some x =>
      obtain ⟨x', rfl⟩ := Option.isSome_iff_exists.mp hc.symm
      rw [sameKey_both_iff]
      exact rel_sides_iff (e := go)

theorem isEmpty_of_equal {xs ys : Fields} (h : Json.Equal goScalarEqual (.obj xs) (.obj ys)) :
    xs.isEmpty = ys.isEmpty := by
  rw [Bool.eq_iff_iff, List.isEmpty_iff, List.isEmpty_iff]
  exact equal_empty_iff (e := go) h

/-- **States that have the same keys**: their differences are the same when what stands under each key
is. -/
theorem sameDiffs_obj_iff {prev cur prev' cur' : Fields} (hp : Json.Distinct (.obj prev))
    (hc : Json.Distinct (.obj cur)) (hp' : Json.Distinct (.obj prev'))
    (hc' : Json.Distinct (.obj cur'))
    (hprev : ∀ key, (prev.lookup key).isSome = (prev'.lookup key).isSome)
    (hcur : ∀ key, (cur.lookup key).isSome = (cur'.lookup key).isSome) :
    SameDiffs d d' (.obj prev) (.obj cur) (.obj prev') (.obj cur') ↔
      ∀ key, SameKey d d' (prev.lookup key) (cur.lookup key) (prev'.lookup key) (cur'.lookup key) := by
  have hkeys := mapDiff_keys (d := d) hp.keys hc.keys
  have hkeys' := mapDiff_keys (d := d') hp'.keys hc'.keys
  have hsides : Json.Equal goScalarEqual (.obj (mapDiff d prev cur).1)
        (.obj (mapDiff d' prev' cur').1) ∧
      Json.Equal goScalarEqual (.obj (mapDiff d prev cur).2)
        (.obj (mapDiff d' prev' cur').2) ↔
      ∀ key, SameKey d d' (prev.lookup key) (cur.lookup key) (prev'.lookup key)
        (cur'.lookup key) := by
    rw [equal_obj_iff hkeys.1 hkeys'.1, equal_obj_iff hkeys.2 hkeys'.2, ← forall_and]
    refine forall_congr' fun key => ?_
    rw [mapDiff_fst_lookup hp.keys, mapDiff_fst_lookup hp'.keys, mapDiff_snd_lookup hp.keys,
      mapDiff_snd_lookup hp'.keys]
    exact keySides_same (hprev key) (hcur key)
  rw [← hsides, SameDiffs, diffValue_obj, diffValue_obj, diffEventAsMap_eq, diffEventAsMap_eq,
    finishMap, finishMap]
  constructor
  · intro hrel
    split at hrel
    · rename_i hnil
      split at hrel
      · rename_i hnil'
        simp only [Bool.and_eq_true, List.isEmpty_iff] at hnil hnil'
        rw [hnil.1, hnil.2, hnil'.1, hnil'.2]
        exact ⟨rfl, rfl⟩
      · cases hrel
    · split at hrel
      · cases hrel
      · cases hrel with
        | some hsame => exact hsame
  · rintro ⟨hfst, hsnd⟩
    rw [isEmpty_of_equal hfst, isEmpty_of_equal hsnd]
    split
    · exact .none
    · exact .some ⟨hfst, hsnd⟩

end Sieve.Event
