import Sieve.Event.CanonicalAgree

/-!
# Readings of states

A state is read in a language and with masks, from a path on:

* `Reading.value`: the canonical value, with `Reading.under` and `Reading.item` for one field and one item;
* `Unlike`: two values, each read in its own way, differ somewhere;
* `value_equal_iff`: the canonical values are the same exactly when they are not unlike.
-/

namespace Sieve.Event

/-- A way to read what stands at a path. -/
structure Reading where
  d : Dialect
  masks : Masks
  path : String

/-- What stands below a key, or for `"*"` below an index. -/
def Reading.below (r : Reading) (key : String) : Reading := { r with path := r.d.joinPath r.path key }

/-- The field is masked as a whole. -/
def Reading.Hides (r : Reading) (key : String) : Prop := MaskedAt r.d r.masks r.path key

/-- The items are masked as a whole. -/
def Reading.HidesItems (r : Reading) : Prop := ItemsMasked r.d r.masks r.path

/-- The canonical value. -/
def Reading.value (r : Reading) (x : Json) : Json := canonicalValue r.d r.masks r.path x

/-- The canonical fields. -/
def Reading.fields (r : Reading) (event : Fields) : Fields :=
  canonicalizeEventAsMap r.d r.masks.fieldKeyMask r.masks.fieldPathMask r.path event

/-- What becomes of the value under a key. -/
def Reading.under (r : Reading) (key : String) (x : Json) : Json :=
  canonicalizeUnder r.d r.masks.fieldKeyMask r.masks.fieldPathMask r.path key x

/-- What becomes of an item. -/
def Reading.item (r : Reading) (x : Json) : Json :=
  canonicalizeItem r.d r.masks.fieldKeyMask r.masks.fieldPathMask r.path x

variable {r r' : Reading}

theorem value_obj (r : Reading) (event : Fields) : r.value (.obj event) = .obj (r.fields event) := by
  rw [Reading.value, canonicalValue, canonicalizeField_obj]
  rfl

theorem value_arr (r : Reading) (items : List Json) : r.value (.arr items) = .arr (items.map r.item) := by
  rw [Reading.value, canonicalValue, canonicalizeField_arr]
  rfl

theorem fields_lookup (r : Reading) (event : Fields) (key : String) :
    (r.fields event).lookup key = (event.lookup key).map (r.under key) :=
  canonicalizeEventAsMap_lookup r.path event key

theorem under_of_hides {key : String} (h : r.Hides key) (x : Json) : r.under key x = .str SIEVE_VALUE_MASK :=
  if_pos h

theorem under_of_not_hides {key : String} (h : ¬ r.Hides key) (x : Json) :
    r.under key x = (r.below key).value x := if_neg h

theorem item_of_hides (h : r.HidesItems) (x : Json) : r.item x = .str SIEVE_VALUE_MASK := if_pos h

theorem item_of_not_hides (h : ¬ r.HidesItems) (x : Json) : r.item x = (r.below "*").value x := if_neg h

/-! ### Distinct keys -/

theorem mask_distinct : Json.Distinct (.str SIEVE_VALUE_MASK) := .scalar trivial

theorem value_distinct (r : Reading) {x : Json} (hx : x.Distinct) : (r.value x).Distinct :=
  canonicalizeField_distinct r.path hx

theorem fields_distinct (r : Reading) {event : Fields} (h : Json.Distinct (.obj event)) :
    Json.Distinct (.obj (r.fields event)) := canonicalizeEventAsMap_distinct r.path h

theorem under_distinct (r : Reading) (key : String) {x : Json} (hx : x.Distinct) :
    (r.under key x).Distinct := by
  by_cases h : r.Hides key
  · rw [under_of_hides h]
    exact mask_distinct
  · rw [under_of_not_hides h]
    exact value_distinct _ hx

theorem item_distinct (r : Reading) {x : Json} (hx : x.Distinct) : (r.item x).Distinct := by
  by_cases h : r.HidesItems
  · rw [item_of_hides h]
    exact mask_distinct
  · rw [item_of_not_hides h]
    exact value_distinct _ hx

/-! ### Scalars -/

/-- A scalar becomes the mask or stays what it is. -/
theorem value_of_scalar (r : Reading) {x : Json} (hx : x.IsScalar) :
    BecomesMask r.d x ∧ r.value x = .str SIEVE_VALUE_MASK ∨ ¬ BecomesMask r.d x ∧ r.value x = x := by
  by_cases hmask : BecomesMask r.d x
  · exact .inl ⟨hmask, canonicalValue_eq_mask_iff.mpr hmask⟩
  · refine .inr ⟨hmask, ?_⟩
    cases x with
    | arr items => exact hx.elim
    | obj fields => exact hx.elim
    | str s =>
      have hs : ¬ r.d.isMasked s = true := fun hs => hmask ⟨s, rfl, .inl hs⟩
      rw [Reading.value, canonicalValue, canonicalizeField_str, if_neg hs]
    | _ => exact canonicalizeField_scalar r.path hx fun s hs => by cases hs

theorem value_isScalar (r : Reading) {x : Json} : (r.value x).IsScalar ↔ x.IsScalar := by
  by_cases hx : x.IsScalar
  · refine iff_of_true ?_ hx
    obtain ⟨-, heq⟩ | ⟨-, heq⟩ := value_of_scalar r hx
    · rw [heq]
      trivial
    · rw [heq]
      exact hx
  · cases x with
    | arr items =>
      rw [value_arr]
      exact Iff.rfl
    | obj fields =>
      rw [value_obj]
      exact Iff.rfl
    | _ => exact absurd trivial hx

theorem not_together_of_scalar {x y : Json} (h : x.IsScalar ∨ y.IsScalar) : ¬ Together x y := by
  intro htogether
  cases htogether <;> exact h.elim id id

theorem together_value_iff {p c : Json} : Together (r.value p) (r'.value c) ↔ Together p c := by
  by_cases hp : p.IsScalar
  · exact iff_of_false (not_together_of_scalar (.inl ((value_isScalar r).mpr hp)))
      (not_together_of_scalar (.inl hp))
  by_cases hc : c.IsScalar
  · exact iff_of_false (not_together_of_scalar (.inr ((value_isScalar r').mpr hc)))
      (not_together_of_scalar (.inr hc))
  cases p with
  | obj prev =>
    cases c with
    | obj cur =>
      rw [value_obj, value_obj]
      exact iff_of_true (.obj _ _) (.obj _ _)
    | arr cur =>
      rw [value_obj, value_arr]
      exact iff_of_false nofun nofun
    | _ => exact absurd trivial hc
  | arr prev =>
    cases c with
    | obj cur =>
      rw [value_arr, value_obj]
      exact iff_of_false nofun nofun
    | arr cur =>
      rw [value_arr, value_arr]
      exact iff_of_true (.arr _ _) (.arr _ _)
    | _ => exact absurd trivial hc
  | _ => exact absurd trivial hp

/-- Equal values that are not compared inside are scalars. -/
theorem scalar_of_equal {p c : Json} (hapart : ¬ Together p c) (h : Json.Equal goScalarEqual p c) :
    p.IsScalar ∧ c.IsScalar := by
  cases p with
  | arr items =>
    obtain ⟨ys, rfl⟩ := h.arr
    exact absurd (.arr items ys) hapart
  | obj fields =>
    obtain ⟨ys, rfl⟩ := h.obj
    exact absurd (.obj fields ys) hapart
  | _ => exact ⟨trivial, h.scalar go_lawful (by trivial)⟩

theorem BecomesMask.isScalar {d : Dialect} {x : Json} (h : BecomesMask d x) : x.IsScalar := by
  obtain ⟨s, rfl, -⟩ := h
  trivial

theorem becomesMask_mask (d : Dialect) : BecomesMask d (.str SIEVE_VALUE_MASK) := ⟨_, rfl, .inr rfl⟩

/-- Both become the mask, or neither does and they are equal. -/
def LookAlike (r r' : Reading) (p c : Json) : Prop :=
  BecomesMask r.d p ∧ BecomesMask r'.d c ∨
    ¬ BecomesMask r.d p ∧ ¬ BecomesMask r'.d c ∧ Json.Equal goScalarEqual p c

theorem value_equal_apart {p c : Json} (hapart : ¬ Together p c) :
    Json.Equal goScalarEqual (r.value p) (r'.value c) ↔ LookAlike r r' p c := by
  by_cases hscalar : p.IsScalar ∧ c.IsScalar
  · rw [LookAlike]
    obtain ⟨hpm, hp⟩ | ⟨hpm, hp⟩ := value_of_scalar r hscalar.1
    · obtain ⟨hcm, hc⟩ | ⟨hcm, hc⟩ := value_of_scalar r' hscalar.2
      · rw [hp, hc]
        exact iff_of_true (.refl go_lawful mask_distinct) (.inl ⟨hpm, hcm⟩)
      · rw [hp, hc, mask_equal_iff]
        refine iff_of_false (fun heq => hcm ?_) fun h => h.elim (fun h => hcm h.2) fun h => h.1 hpm
        rw [heq]
        exact becomesMask_mask r'.d
    · obtain ⟨hcm, hc⟩ | ⟨hcm, hc⟩ := value_of_scalar r' hscalar.2
      · rw [hp, hc, equal_mask_iff]
        refine iff_of_false (fun heq => hpm ?_) fun h => h.elim (fun h => hpm h.1) fun h => h.2.1 hcm
        rw [heq]
        exact becomesMask_mask r.d
      · rw [hp, hc]
        exact ⟨fun h => .inr ⟨hpm, hcm, h⟩, fun h => h.elim (fun h => absurd h.1 hpm) fun h => h.2.2⟩
  · refine iff_of_false (fun hequal => hscalar ?_) fun h => hscalar ?_
    · obtain ⟨hp, hc⟩ := scalar_of_equal (together_value_iff.not.mpr hapart) hequal
      exact ⟨(value_isScalar r).mp hp, (value_isScalar r').mp hc⟩
    · obtain ⟨hp, hc⟩ | ⟨-, -, hequal⟩ := h
      · exact ⟨hp.isScalar, hc.isScalar⟩
      · exact scalar_of_equal hapart hequal

/-! ### Two values -/

/-- Two values, each read in its own way, differ somewhere. -/
inductive Unlike : Reading → Reading → Json → Json → Prop where
  | apart {r r' : Reading} {p c : Json} (hapart : ¬ Together p c) (h : ¬ LookAlike r r' p c) :
      Unlike r r' p c
  | prevField {r r' : Reading} {key : String} {prev cur : Fields} {p : Json}
      (hp : prev.lookup key = some p) (hc : cur.lookup key = none) : Unlike r r' (.obj prev) (.obj cur)
  | curField {r r' : Reading} {key : String} {prev cur : Fields} {c : Json}
      (hp : prev.lookup key = none) (hc : cur.lookup key = some c) : Unlike r r' (.obj prev) (.obj cur)
  | fieldLeft {r r' : Reading} {key : String} {prev cur : Fields} {p c : Json}
      (hp : prev.lookup key = some p) (hc : cur.lookup key = some c) (hM : r.Hides key)
      (hM' : ¬ r'.Hides key) (hne : ¬ BecomesMask r'.d c) : Unlike r r' (.obj prev) (.obj cur)
  | fieldRight {r r' : Reading} {key : String} {prev cur : Fields} {p c : Json}
      (hp : prev.lookup key = some p) (hc : cur.lookup key = some c) (hM : ¬ r.Hides key)
      (hM' : r'.Hides key) (hne : ¬ BecomesMask r.d p) : Unlike r r' (.obj prev) (.obj cur)
  | field {r r' : Reading} {key : String} {prev cur : Fields} {p c : Json}
      (hp : prev.lookup key = some p) (hc : cur.lookup key = some c) (hM : ¬ r.Hides key)
      (hM' : ¬ r'.Hides key) (h : Unlike (r.below key) (r'.below key) p c) :
      Unlike r r' (.obj prev) (.obj cur)
  | length {r r' : Reading} {prev cur : List Json} (h : prev.length ≠ cur.length) :
      Unlike r r' (.arr prev) (.arr cur)
  | itemLeft {r r' : Reading} {prev cur : List Json} {p c : Json} (hmem : (p, c) ∈ prev.zip cur)
      (hM : r.HidesItems) (hM' : ¬ r'.HidesItems) (hne : ¬ BecomesMask r'.d c) :
      Unlike r r' (.arr prev) (.arr cur)
  | itemRight {r r' : Reading} {prev cur : List Json} {p c : Json} (hmem : (p, c) ∈ prev.zip cur)
      (hM : ¬ r.HidesItems) (hM' : r'.HidesItems) (hne : ¬ BecomesMask r.d p) :
      Unlike r r' (.arr prev) (.arr cur)
  | item {r r' : Reading} {prev cur : List Json} {p c : Json} (hmem : (p, c) ∈ prev.zip cur)
      (hM : ¬ r.HidesItems) (hM' : ¬ r'.HidesItems) (h : Unlike (r.below "*") (r'.below "*") p c) :
      Unlike r r' (.arr prev) (.arr cur)

/-- What `Unlike` leaves out at one place, which each of the readings may mask as a whole. -/
def PlaceAlike (r r' : Reading) (M M' : Prop) (p c : Json) : Prop :=
  (M → ¬ M' → BecomesMask r'.d c) ∧ (¬ M → M' → BecomesMask r.d p) ∧ (¬ M → ¬ M' → ¬ Unlike r r' p c)

theorem not_unlike_obj_iff {prev cur : Fields} : ¬ Unlike r r' (.obj prev) (.obj cur) ↔
    ∀ key, Option.Rel (PlaceAlike (r.below key) (r'.below key) (r.Hides key) (r'.Hides key))
      (prev.lookup key) (cur.lookup key) := by
  constructor
  · intro hnot key
    cases hp : prev.lookup key with
    | none =>
      cases hc : cur.lookup key with
      | none => exact .none
      | some c => exact absurd (.curField hp hc) hnot
    | some p =>
      cases hc : cur.lookup key with
      | none => exact absurd (.prevField hp hc) hnot
      | some c =>
        refine .some ⟨fun hM hM' => ?_, fun hM hM' => ?_, fun hM hM' h => hnot (.field hp hc hM hM' h)⟩
        · by_contra hne
          exact hnot (.fieldLeft hp hc hM hM' hne)
        · by_contra hne
          exact hnot (.fieldRight hp hc hM hM' hne)
  · intro hall h
    have hplace : ∀ {key : String} {p c : Json}, prev.lookup key = some p → cur.lookup key = some c →
        PlaceAlike (r.below key) (r'.below key) (r.Hides key) (r'.Hides key) p c := by
      intro key p c hp hc
      have hkey := hall key
      rw [hp, hc, Option.rel_some_some] at hkey
      exact hkey
    cases h with
    | apart hapart _ => exact hapart (.obj prev cur)
    | @prevField _ _ key _ _ _ hp hc =>
      have hkey := hall key
      rw [hp, hc] at hkey
      cases hkey
    | @curField _ _ key _ _ _ hp hc =>
      have hkey := hall key
      rw [hp, hc] at hkey
      cases hkey
    | fieldLeft hp hc hM hM' hne => exact hne ((hplace hp hc).1 hM hM')
    | fieldRight hp hc hM hM' hne => exact hne ((hplace hp hc).2.1 hM hM')
    | field hp hc hM hM' h => exact (hplace hp hc).2.2 hM hM' h

theorem not_unlike_arr_iff {prev cur : List Json} : ¬ Unlike r r' (.arr prev) (.arr cur) ↔
    List.Forall₂ (PlaceAlike (r.below "*") (r'.below "*") r.HidesItems r'.HidesItems) prev cur := by
  rw [List.forall₂_iff_zip]
  constructor
  · intro hnot
    refine ⟨?_, fun {p c} hmem => ⟨fun hM hM' => ?_, fun hM hM' => ?_,
      fun hM hM' h => hnot (.item hmem hM hM' h)⟩⟩
    · by_contra hlength
      exact hnot (.length hlength)
    · by_contra hne
      exact hnot (.itemLeft hmem hM hM' hne)
    · by_contra hne
      exact hnot (.itemRight hmem hM hM' hne)
  · rintro ⟨hlength, hitems⟩ h
    cases h with
    | apart hapart _ => exact hapart (.arr prev cur)
    | length hne => exact hne hlength
    | itemLeft hmem hM hM' hne => exact hne ((hitems hmem).1 hM hM')
    | itemRight hmem hM hM' hne => exact hne ((hitems hmem).2.1 hM hM')
    | item hmem hM hM' h => exact (hitems hmem).2.2 hM hM' h

/-- Two values at one place. -/
theorem place_equal_iff {M M' : Prop} {p c x y : Json} (hx : M → x = .str SIEVE_VALUE_MASK)
    (hx' : ¬ M → x = r.value p) (hy : M' → y = .str SIEVE_VALUE_MASK) (hy' : ¬ M' → y = r'.value c)
    (ih : Json.Equal goScalarEqual (r.value p) (r'.value c) ↔ ¬ Unlike r r' p c) :
    Json.Equal goScalarEqual x y ↔ PlaceAlike r r' M M' p c := by
  rw [PlaceAlike]
  by_cases hM : M
  · by_cases hM' : M'
    · rw [hx hM, hy hM']
      exact iff_of_true (.refl go_lawful mask_distinct) ⟨fun _ h => absurd hM' h, fun h => absurd hM h,
        fun h => absurd hM h⟩
    · rw [hx hM, hy' hM', mask_equal_iff, Reading.value, canonicalValue_eq_mask_iff]
      tauto
  · by_cases hM' : M'
    · rw [hx' hM, hy hM', equal_mask_iff, Reading.value, canonicalValue_eq_mask_iff]
      tauto
    · rw [hx' hM, hy' hM', ih]
      tauto

/-- **Two values are read the same** exactly when they are not unlike. -/
theorem value_equal_iff {p c : Json} (hp : p.Distinct) (hc : c.Distinct) :
    Json.Equal goScalarEqual (r.value p) (r'.value c) ↔ ¬ Unlike r r' p c := by
  induction p, c using together_induct generalizing r r' with
  | apart p c hapart =>
    rw [value_equal_apart hapart]
    constructor
    · intro hsame h
      cases h with
      | apart _ h => exact h hsame
      | prevField | curField | fieldLeft | fieldRight | field => exact hapart (.obj _ _)
      | length | itemLeft | itemRight | item => exact hapart (.arr _ _)
    · intro hnot
      by_contra hsame
      exact hnot (.apart hapart hsame)
  | arr prev cur ih =>
    have hitem : ∀ p ∈ prev, ∀ c ∈ cur, Json.Equal goScalarEqual (r.item p) (r'.item c) ↔
        PlaceAlike (r.below "*") (r'.below "*") r.HidesItems r'.HidesItems p c := fun p hmem c hmem' =>
      place_equal_iff (fun h => item_of_hides h p) (fun h => item_of_not_hides h p)
        (fun h => item_of_hides h c) (fun h => item_of_not_hides h c)
        (ih p hmem c hmem' (hp.items p hmem) (hc.items c hmem'))
    rw [value_arr, value_arr, equal_arr_iff, List.forall₂_map_left_iff, List.forall₂_map_right_iff,
      not_unlike_arr_iff, List.forall₂_iff_zip, List.forall₂_iff_zip]
    refine and_congr_right fun _ => ?_
    constructor
    · intro h x y hmem
      exact (hitem x (List.of_mem_zip hmem).1 y (List.of_mem_zip hmem).2).mp (h hmem)
    · intro h x y hmem
      exact (hitem x (List.of_mem_zip hmem).1 y (List.of_mem_zip hmem).2).mpr (h hmem)
  | obj prev cur ih =>
    rw [value_obj, value_obj, equal_obj_iff (fields_distinct r hp).keys (fields_distinct r' hc).keys,
      not_unlike_obj_iff]
    refine forall_congr' fun key => ?_
    rw [fields_lookup, fields_lookup]
    cases hlp : prev.lookup key with
    | none =>
      cases hlc : cur.lookup key with
      | none => exact iff_of_true .none .none
      | some c => exact iff_of_false (fun h => by cases h) fun h => by cases h
    | some p =>
      cases hlc : cur.lookup key with
      | none => exact iff_of_false (fun h => by cases h) fun h => by cases h
      | some c =>
        rw [Option.map_some, Option.map_some, Option.rel_some_some, Option.rel_some_some]
        exact place_equal_iff (fun h => under_of_hides h p) (fun h => under_of_not_hides h p)
          (fun h => under_of_hides h c) (fun h => under_of_not_hides h c)
          (ih key p c hlp hlc (lookup_distinct hp hlp) (lookup_distinct hc hlc))

end Sieve.Event
