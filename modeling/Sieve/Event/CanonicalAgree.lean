import Sieve.Event.Canonical
import Sieve.Event.DiffDetermines

/-!
# Two canonicalizations

Two canonicalizations of one state, each with its own language and masks, leave the same state exactly
when they do not differ at any field, item or text:

* `MaskedAt`: the field or item is masked as a whole;
* `Differ`: somewhere only one of the two masks something that is not the mask anyway;
* `canonicalValue_agree_iff`: the two canonical values are the same;
* `unmasked`: a canonicalization that changes nothing, to compare others with.
-/

namespace Sieve.Event

/-- The field is masked as a whole: by its name or by its path. -/
def MaskedAt (d : Dialect) (masks : Masks) (parentPath key : String) : Prop :=
  key ∈ masks.fieldKeyMask ∨ d.joinPath parentPath key ∈ masks.fieldPathMask

/-- The items are masked as a whole. -/
def ItemsMasked (d : Dialect) (masks : Masks) (parentPath : String) : Prop :=
  d.joinPath parentPath "*" ∈ masks.fieldPathMask

/-- A text that becomes the mask without being masked as a whole. -/
def BecomesMask (d : Dialect) (x : Json) : Prop :=
  ∃ s, x = .str s ∧ (d.isMasked s = true ∨ s = SIEVE_VALUE_MASK)

section

variable (d d' : Dialect) (masks masks' : Masks)

/-- Somewhere in the value only one of the two canonicalizations masks something.  The paths are those
of the value in the two languages. -/
inductive Differ : String → String → Json → Prop where
  | text {path path' s : String} (h : d.isMasked s ≠ d'.isMasked s) : Differ path path' (.str s)
  | fieldLeft {path path' key : String} {event : Fields} {x : Json}
      (hx : event.lookup key = some x) (h : MaskedAt d masks path key)
      (h' : ¬ MaskedAt d' masks' path' key) (hne : ¬ BecomesMask d' x) :
      Differ path path' (.obj event)
  | fieldRight {path path' key : String} {event : Fields} {x : Json}
      (hx : event.lookup key = some x) (h : ¬ MaskedAt d masks path key)
      (h' : MaskedAt d' masks' path' key) (hne : ¬ BecomesMask d x) : Differ path path' (.obj event)
  | field {path path' key : String} {event : Fields} {x : Json}
      (hx : event.lookup key = some x) (h : ¬ MaskedAt d masks path key)
      (h' : ¬ MaskedAt d' masks' path' key)
      (hdiffer : Differ (d.joinPath path key) (d'.joinPath path' key) x) :
      Differ path path' (.obj event)
  | itemLeft {path path' : String} {event : List Json} {x : Json} (hx : x ∈ event)
      (h : ItemsMasked d masks path) (h' : ¬ ItemsMasked d' masks' path')
      (hne : ¬ BecomesMask d' x) : Differ path path' (.arr event)
  | itemRight {path path' : String} {event : List Json} {x : Json} (hx : x ∈ event)
      (h : ¬ ItemsMasked d masks path) (h' : ItemsMasked d' masks' path')
      (hne : ¬ BecomesMask d x) : Differ path path' (.arr event)
  | item {path path' : String} {event : List Json} {x : Json} (hx : x ∈ event)
      (h : ¬ ItemsMasked d masks path) (h' : ¬ ItemsMasked d' masks' path')
      (hdiffer : Differ (d.joinPath path "*") (d'.joinPath path' "*") x) :
      Differ path path' (.arr event)

end

variable {d d' : Dialect} {masks masks' : Masks}

/-- The canonical value. -/
def canonicalValue (d : Dialect) (masks : Masks) (path : String) (x : Json) : Json :=
  canonicalizeField d masks.fieldKeyMask masks.fieldPathMask path x

/-- Only the mask is deeply equal to the mask. -/
theorem equal_mask_iff {x : Json} :
    Json.Equal goScalarEqual x (.str SIEVE_VALUE_MASK) ↔ x = .str SIEVE_VALUE_MASK := by
  constructor
  · intro h
    cases x with
    | arr items => cases h
    | obj fields => cases h
    | _ => exact go_lawful.str _ _ ((equal_scalar_iff (by trivial)).mp h)
  · intro h
    rw [h]
    exact .refl go_lawful (.scalar trivial)

theorem mask_equal_iff {x : Json} :
    Json.Equal goScalarEqual (.str SIEVE_VALUE_MASK) x ↔ x = .str SIEVE_VALUE_MASK := by
  constructor
  · intro h
    rw [equal_scalar_iff (by trivial)] at h
    exact go_lawful.str _ _ (go_lawful.symm _ _ h)
  · intro h
    rw [h]
    exact .refl go_lawful (.scalar trivial)

theorem canonicalValue_eq_mask_iff {path : String} {x : Json} :
    canonicalValue d masks path x = .str SIEVE_VALUE_MASK ↔ BecomesMask d x := by
  constructor
  · intro h
    cases x with
    | str s =>
      rw [canonicalValue, canonicalizeField_str] at h
      refine ⟨s, rfl, ?_⟩
      split at h
      · rename_i hmasked
        exact .inl hmasked
      · exact .inr (Json.str.inj h)
    | arr items =>
      rw [canonicalValue, canonicalizeField_arr] at h
      cases h
    | obj fields =>
      rw [canonicalValue, canonicalizeField_obj] at h
      cases h
    | _ =>
      rw [canonicalValue, canonicalizeField_scalar path (by trivial) fun s hs => by cases hs] at h
      cases h
  · intro h
    obtain ⟨s, rfl, hmasked | rfl⟩ := h
    · rw [canonicalValue, canonicalizeField_str, if_pos hmasked]
    · rw [canonicalValue, canonicalizeField_str, mask_not_masked]
      rfl

/-- The two values at one place, where each may be masked as a whole. -/
theorem place_agree_iff {M M' : Prop} [Decidable M] [Decidable M'] {q q' : String} {x : Json} :
    Json.Equal goScalarEqual (if M then .str SIEVE_VALUE_MASK else canonicalValue d masks q x)
        (if M' then .str SIEVE_VALUE_MASK else canonicalValue d' masks' q' x) ↔
      (M → ¬ M' → BecomesMask d' x) ∧ (¬ M → M' → BecomesMask d x) ∧
        (¬ M → ¬ M' → Json.Equal goScalarEqual (canonicalValue d masks q x)
          (canonicalValue d' masks' q' x)) := by
  by_cases hM : M
  · by_cases hM' : M'
    · rw [if_pos hM, if_pos hM', mask_equal_iff]
      tauto
    · rw [if_pos hM, if_neg hM', mask_equal_iff, canonicalValue_eq_mask_iff]
      tauto
  · by_cases hM' : M'
    · rw [if_neg hM, if_pos hM', equal_mask_iff, canonicalValue_eq_mask_iff]
      tauto
    · rw [if_neg hM, if_neg hM']
      tauto

theorem differ_obj_iff {path path' : String} {event : Fields} :
    Differ d d' masks masks' path path' (.obj event) ↔ ∃ key x, event.lookup key = some x ∧
      ¬ ((MaskedAt d masks path key → ¬ MaskedAt d' masks' path' key → BecomesMask d' x) ∧
        (¬ MaskedAt d masks path key → MaskedAt d' masks' path' key → BecomesMask d x) ∧
        (¬ MaskedAt d masks path key → ¬ MaskedAt d' masks' path' key →
          ¬ Differ d d' masks masks' (d.joinPath path key) (d'.joinPath path' key) x)) := by
  constructor
  · intro h
    cases h with
    | fieldLeft hx h h' hne => exact ⟨_, _, hx, fun hall => hne (hall.1 h h')⟩
    | fieldRight hx h h' hne => exact ⟨_, _, hx, fun hall => hne (hall.2.1 h h')⟩
    | field hx h h' hdiffer => exact ⟨_, _, hx, fun hall => hall.2.2 h h' hdiffer⟩
  · intro ⟨key, x, hx, hnot⟩
    by_contra hsame
    refine hnot ⟨fun h h' => ?_, fun h h' => ?_, fun h h' hdiffer => ?_⟩
    · by_contra hne
      exact hsame (.fieldLeft hx h h' hne)
    · by_contra hne
      exact hsame (.fieldRight hx h h' hne)
    · exact hsame (.field hx h h' hdiffer)

theorem differ_arr_iff {path path' : String} {event : List Json} :
    Differ d d' masks masks' path path' (.arr event) ↔ ∃ x ∈ event,
      ¬ ((ItemsMasked d masks path → ¬ ItemsMasked d' masks' path' → BecomesMask d' x) ∧
        (¬ ItemsMasked d masks path → ItemsMasked d' masks' path' → BecomesMask d x) ∧
        (¬ ItemsMasked d masks path → ¬ ItemsMasked d' masks' path' →
          ¬ Differ d d' masks masks' (d.joinPath path "*") (d'.joinPath path' "*") x)) := by
  constructor
  · intro h
    cases h with
    | itemLeft hx h h' hne => exact ⟨_, hx, fun hall => hne (hall.1 h h')⟩
    | itemRight hx h h' hne => exact ⟨_, hx, fun hall => hne (hall.2.1 h h')⟩
    | item hx h h' hdiffer => exact ⟨_, hx, fun hall => hall.2.2 h h' hdiffer⟩
  · intro ⟨x, hx, hnot⟩
    by_contra hsame
    refine hnot ⟨fun h h' => ?_, fun h h' => ?_, fun h h' hdiffer => ?_⟩
    · by_contra hne
      exact hsame (.itemLeft hx h h' hne)
    · by_contra hne
      exact hsame (.itemRight hx h h' hne)
    · exact hsame (.item hx h h' hdiffer)

theorem text_agree_iff {path path' s : String} :
    Json.Equal goScalarEqual (canonicalValue d masks path (.str s))
      (canonicalValue d' masks' path' (.str s)) ↔
    ¬ Differ d d' masks masks' path path' (.str s) := by
  have hdiffer : Differ d d' masks masks' path path' (.str s) ↔ d.isMasked s ≠ d'.isMasked s := by
    constructor
    · intro h
      cases h with
      | text h => exact h
    · exact .text
  rw [hdiffer, not_not, canonicalValue, canonicalValue, canonicalizeField_str, canonicalizeField_str]
  by_cases h : d.isMasked s = true
  · rw [if_pos h, h]
    split
    · rename_i h'
      rw [h']
      exact iff_of_true (.refl go_lawful (.scalar trivial)) rfl
    · rename_i h'
      rw [mask_equal_iff]
      refine iff_of_false (fun hs => ?_) fun heq => h' heq.symm
      rw [Json.str.inj hs, mask_not_masked] at h
      cases h
  · rw [if_neg h, Bool.eq_false_iff.mpr h]
    split
    · rename_i h'
      rw [equal_mask_iff, h']
      refine iff_of_false (fun hs => ?_) nofun
      rw [Json.str.inj hs, mask_not_masked] at h'
      cases h'
    · rename_i h'
      rw [Bool.eq_false_iff.mpr h']
      exact iff_of_true (.refl go_lawful (.scalar trivial)) rfl

/-- **Two canonical values are the same** exactly when the canonicalizations do not differ. -/
theorem canonicalValue_agree_iff {path path' : String} {x : Json} (hx : x.Distinct) :
    Json.Equal goScalarEqual (canonicalValue d masks path x) (canonicalValue d' masks' path' x) ↔
      ¬ Differ d d' masks masks' path path' x := by
  induction x using Json.induct generalizing path path' with
  | scalar x hscalar =>
    cases x with
    | arr items => exact hscalar.elim
    | obj fields => exact hscalar.elim
    | str s => exact text_agree_iff
    | _ =>
      rw [canonicalValue, canonicalValue,
        canonicalizeField_scalar path hscalar (fun s hs => by cases hs),
        canonicalizeField_scalar path' hscalar (fun s hs => by cases hs)]
      exact iff_of_true (.refl go_lawful hx) fun h => by cases h
  | arr items ih =>
    rw [canonicalValue, canonicalValue, canonicalizeField_arr, canonicalizeField_arr, equal_arr_iff,
      List.forall₂_map_left_iff, List.forall₂_map_right_iff, List.forall₂_same, differ_arr_iff]
    push Not
    refine forall₂_congr fun x hmem => ?_
    rw [← ih x hmem (hx.items x hmem)]
    exact place_agree_iff
  | obj fields ih =>
    rw [canonicalValue, canonicalValue, canonicalizeField_obj, canonicalizeField_obj,
      equal_obj_iff (canonicalizeEventAsMap_distinct path hx).keys
        (canonicalizeEventAsMap_distinct path' hx).keys, differ_obj_iff]
    push Not
    refine forall_congr' fun key => ?_
    rw [canonicalizeEventAsMap_lookup, canonicalizeEventAsMap_lookup]
    cases hlookup : fields.lookup key with
    | none => exact iff_of_true .none nofun
    | some x =>
      rw [Option.map_some, Option.map_some, Option.rel_some_some]
      simp only [Option.some.injEq, forall_eq']
      rw [← ih _ (lookup_mem hlookup) (lookup_distinct hx hlookup)]
      exact place_agree_iff

/-! ### Masking nothing -/

/-- A language in which no text is masked. -/
def unmasked : Dialect := ⟨goScalarEqual, goJoin, fun _ => false⟩

theorem unmasked_isMasked (s : String) : unmasked.isMasked s = false := by
  have htime : ∀ value, matchesTime (fun _ => false) value = false := by
    intro value
    rw [matchesTime]
    split <;> rfl
  have hip : ∀ value, matchesIp (fun _ => false) value = false := by
    intro value
    rw [matchesIp]
    split <;> rfl
  rw [Dialect.isMasked]
  show (matchesTime (fun _ => false) _ || matchesIp (fun _ => false) _) = false
  rw [htime, hip]
  rfl

/-- Without masks nothing changes. -/
theorem canonicalValue_unmasked (path : String) (x : Json) :
    canonicalValue unmasked ⟨∅, ∅⟩ path x = x := by
  induction x using Json.induct generalizing path with
  | scalar x hscalar =>
    cases x with
    | arr items => exact hscalar.elim
    | obj fields => exact hscalar.elim
    | str s =>
      rw [canonicalValue, canonicalizeField_str, unmasked_isMasked]
      rfl
    | _ => exact canonicalizeField_scalar path hscalar fun s hs => by cases hs
  | arr items ih =>
    rw [canonicalValue, canonicalizeField_arr]
    congr 1
    refine (List.map_congr_left fun x hmem => ?_).trans (List.map_id items)
    rw [canonicalizeItem, if_neg (Finset.notMem_empty _)]
    exact ih x hmem _
  | obj fields ih =>
    rw [canonicalValue, canonicalizeField_obj, canonicalizeEventAsMap_eq]
    congr 1
    refine (List.map_congr_left fun field hmem => ?_).trans (List.map_id fields)
    rw [canonicalizeUnder, if_neg (by simp)]
    exact congrArg (field.1, ·) (ih field hmem _)

end Sieve.Event
