import Sieve.Event.DeepEqual
import Sieve.Event.EventDelta

/-!
# Canonical states

Canonicalization value by value:

* `canonicalizeItem`, `canonicalizeUnder`: what becomes of one item and of the value under one key;
* `canonicalizeField_twice`: a second canonicalization changes nothing;
* `canonicalizeField_distinct`: distinct keys stay distinct;
* `canonicalizeField_equal`: equal values stay equal.
-/

namespace Sieve.Event

variable {d : Dialect} {fieldKeyMask fieldPathMask : Finset String}

/-- What becomes of one item. -/
def canonicalizeItem (d : Dialect) (fieldKeyMask fieldPathMask : Finset String)
    (parentPath : String) (value : Json) : Json :=
  if d.joinPath parentPath "*" ∈ fieldPathMask then .str SIEVE_VALUE_MASK
  else canonicalizeField d fieldKeyMask fieldPathMask (d.joinPath parentPath "*") value

/-- What becomes of the value under one key. -/
def canonicalizeUnder (d : Dialect) (fieldKeyMask fieldPathMask : Finset String)
    (parentPath key : String) (value : Json) : Json :=
  if key ∈ fieldKeyMask ∨ d.joinPath parentPath key ∈ fieldPathMask then .str SIEVE_VALUE_MASK
  else canonicalizeField d fieldKeyMask fieldPathMask (d.joinPath parentPath key) value

theorem canonicalizeEventAsList_eq (parentPath : String) (event : List Json) :
    canonicalizeEventAsList d fieldKeyMask fieldPathMask parentPath event =
      event.map (canonicalizeItem d fieldKeyMask fieldPathMask parentPath) := by
  induction event with
  | nil => rw [canonicalizeEventAsList, List.map_nil]
  | cons value event ih =>
    rw [canonicalizeEventAsList, List.map_cons, ih]
    rfl

theorem canonicalizeEventAsMap_eq (parentPath : String) (event : Fields) :
    canonicalizeEventAsMap d fieldKeyMask fieldPathMask parentPath event =
      event.map fun field =>
        (field.1, canonicalizeUnder d fieldKeyMask fieldPathMask parentPath field.1 field.2) := by
  induction event with
  | nil => rw [canonicalizeEventAsMap, List.map_nil]
  | cons field event ih =>
    rw [canonicalizeEventAsMap, List.map_cons, ih]
    rfl

theorem canonicalizeEventAsMap_lookup (parentPath : String) (event : Fields) (key : String) :
    (canonicalizeEventAsMap d fieldKeyMask fieldPathMask parentPath event).lookup key =
      (event.lookup key).map (canonicalizeUnder d fieldKeyMask fieldPathMask parentPath key) := by
  rw [canonicalizeEventAsMap_eq]
  induction event with
  | nil => rfl
  | cons field event ih =>
    rw [List.map_cons, List.lookup_cons, List.lookup_cons]
    by_cases hkey : key = field.1
    · rw [hkey, beq_self_eq_true]
      rfl
    · rw [beq_eq_false_iff_ne.mpr hkey]
      exact ih

theorem mask_not_masked : d.isMasked SIEVE_VALUE_MASK = false := rfl

theorem skip_not_masked : d.isMasked SIEVE_IDX_SKIP = false := rfl

theorem canonicalizeField_str (currentPath s : String) :
    canonicalizeField d fieldKeyMask fieldPathMask currentPath (.str s) =
      .str (if d.isMasked s then SIEVE_VALUE_MASK else s) := by
  rw [canonicalizeField]

theorem canonicalizeField_arr (currentPath : String) (event : List Json) :
    canonicalizeField d fieldKeyMask fieldPathMask currentPath (.arr event) =
      .arr (event.map (canonicalizeItem d fieldKeyMask fieldPathMask currentPath)) := by
  rw [canonicalizeField, canonicalizeEventAsList_eq]

theorem canonicalizeField_obj (currentPath : String) (event : Fields) :
    canonicalizeField d fieldKeyMask fieldPathMask currentPath (.obj event) =
      .obj (canonicalizeEventAsMap d fieldKeyMask fieldPathMask currentPath event) := by
  rw [canonicalizeField]

/-- Only texts, arrays and objects change. -/
theorem canonicalizeField_scalar (currentPath : String) {x : Json} (hx : x.IsScalar)
    (hstr : ∀ s, x ≠ .str s) : canonicalizeField d fieldKeyMask fieldPathMask currentPath x = x := by
  cases x with
  | arr items => exact hx.elim
  | obj fields => exact hx.elim
  | str s => exact absurd rfl (hstr s)
  | _ => rw [canonicalizeField] <;> exact nofun

/-- **A second canonicalization changes nothing.** -/
theorem canonicalizeField_twice (currentPath : String) (x : Json) :
    canonicalizeField d fieldKeyMask fieldPathMask currentPath
      (canonicalizeField d fieldKeyMask fieldPathMask currentPath x) =
    canonicalizeField d fieldKeyMask fieldPathMask currentPath x := by
  have hmask : ∀ path, canonicalizeField d fieldKeyMask fieldPathMask path (.str SIEVE_VALUE_MASK) =
      .str SIEVE_VALUE_MASK := by
    intro path
    rw [canonicalizeField_str, mask_not_masked]
    rfl
  induction x using Json.induct generalizing currentPath with
  | scalar x hscalar =>
    cases x with
    | arr items => exact hscalar.elim
    | obj fields => exact hscalar.elim
    | str s =>
      rw [canonicalizeField_str]
      split
      · exact hmask currentPath
      · rename_i hs
        rw [canonicalizeField_str, if_neg hs]
    | _ => rw [canonicalizeField_scalar currentPath hscalar nofun,
        canonicalizeField_scalar currentPath hscalar nofun]
  | arr items ih =>
    rw [canonicalizeField_arr, canonicalizeField_arr, List.map_map]
    congr 1
    refine List.map_congr_left fun x hmem => ?_
    show canonicalizeItem d _ _ currentPath (canonicalizeItem d _ _ currentPath x) = _
    rw [canonicalizeItem, canonicalizeItem]
    split
    · rfl
    · exact ih x hmem _
  | obj fields ih =>
    rw [canonicalizeField_obj, canonicalizeField_obj, canonicalizeEventAsMap_eq,
      canonicalizeEventAsMap_eq, List.map_map]
    congr 1
    refine List.map_congr_left fun field hmem => ?_
    show (field.1, canonicalizeUnder d _ _ currentPath field.1
      (canonicalizeUnder d _ _ currentPath field.1 field.2)) = _
    rw [canonicalizeUnder, canonicalizeUnder]
    split
    · rfl
    · rw [ih field hmem]

theorem canonicalizeEventAsMap_twice (parentPath : String) (event : Fields) :
    canonicalizeEventAsMap d fieldKeyMask fieldPathMask parentPath
      (canonicalizeEventAsMap d fieldKeyMask fieldPathMask parentPath event) =
    canonicalizeEventAsMap d fieldKeyMask fieldPathMask parentPath event := by
  have htwice := @canonicalizeField_twice d fieldKeyMask fieldPathMask parentPath (.obj event)
  rw [canonicalizeField_obj, canonicalizeField_obj] at htwice
  exact Json.obj.inj htwice

/-- Canonical states have distinct keys where the states have. -/
theorem canonicalizeField_distinct (currentPath : String) {x : Json} (hx : x.Distinct) :
    (canonicalizeField d fieldKeyMask fieldPathMask currentPath x).Distinct := by
  induction x using Json.induct generalizing currentPath with
  | scalar x hscalar =>
    cases x with
    | arr items => exact hscalar.elim
    | obj fields => exact hscalar.elim
    | str s =>
      rw [canonicalizeField_str]
      exact .scalar trivial
    | _ =>
      rw [canonicalizeField_scalar currentPath hscalar nofun]
      exact hx
  | arr items ih =>
    rw [canonicalizeField_arr]
    refine .arr fun y hmem => ?_
    obtain ⟨x, hx', rfl⟩ := List.mem_map.mp hmem
    rw [canonicalizeItem]
    split
    · exact .scalar trivial
    · exact ih x hx' _ (hx.items x hx')
  | obj fields ih =>
    rw [canonicalizeField_obj, canonicalizeEventAsMap_eq]
    refine .obj ?_ fun y hmem => ?_
    · rw [List.map_map]
      exact hx.keys
    · obtain ⟨field, hfield, rfl⟩ := List.mem_map.mp hmem
      show (canonicalizeUnder d _ _ currentPath field.1 field.2).Distinct
      rw [canonicalizeUnder]
      split
      · exact .scalar trivial
      · exact ih field hfield _ (hx.values field hfield)

theorem canonicalizeEventAsMap_distinct (parentPath : String) {event : Fields}
    (h : Json.Distinct (.obj event)) : Json.Distinct
      (.obj (canonicalizeEventAsMap d fieldKeyMask fieldPathMask parentPath event)) := by
  rw [← canonicalizeField_obj]
  exact canonicalizeField_distinct parentPath h

/-- **Canonicalization tells no equal values apart.** -/
theorem canonicalizeField_equal (hlaw : LawfulScalars d.scalarEqual) (currentPath : String)
    {x y : Json} (hx : x.Distinct) (hy : y.Distinct) (h : Json.Equal d.scalarEqual x y) :
    Json.Equal d.scalarEqual (canonicalizeField d fieldKeyMask fieldPathMask currentPath x)
      (canonicalizeField d fieldKeyMask fieldPathMask currentPath y) := by
  have hmask : Json.Equal d.scalarEqual (.str SIEVE_VALUE_MASK) (.str SIEVE_VALUE_MASK) :=
    .refl hlaw (.scalar trivial)
  induction x using Json.induct generalizing y currentPath with
  | scalar x hscalar =>
    by_cases hstr : ∃ s, y = .str s
    · obtain ⟨s, rfl⟩ := hstr
      have hxs : x = .str s := hlaw.str x s ((equal_scalar_iff hscalar).mp h)
      rw [hxs]
      exact .refl hlaw (canonicalizeField_distinct currentPath hy)
    · have hyscalar := h.scalar hlaw hscalar
      have hxstr : ∀ s, x ≠ .str s := by
        intro s hxs
        rw [hxs] at h hx
        have hys := (equal_scalar_iff hyscalar).mp (h.symm hlaw hx hy)
        exact hstr ⟨s, hlaw.str y s hys⟩
      rw [canonicalizeField_scalar currentPath hscalar hxstr,
        canonicalizeField_scalar currentPath hyscalar fun s hys => hstr ⟨s, hys⟩]
      exact h
  | arr items ih =>
    obtain ⟨items', rfl⟩ := h.arr
    rw [equal_arr_iff] at h
    rw [canonicalizeField_arr, canonicalizeField_arr, equal_arr_iff, List.forall₂_map_left_iff,
      List.forall₂_map_right_iff]
    replace hx := hx.items
    replace hy := hy.items
    induction h with
    | nil => exact .nil
    | cons hhead htail ih' =>
      rw [List.forall_mem_cons] at ih hx hy
      refine .cons ?_ (ih' ih.2 hx.2 hy.2)
      rw [canonicalizeItem, canonicalizeItem]
      split
      · exact hmask
      · exact ih.1 _ hx.1 hy.1 hhead
  | obj fields ih =>
    obtain ⟨fields', rfl⟩ := h.obj
    have hlookups := (equal_obj_iff hx.keys hy.keys).mp h
    rw [canonicalizeField_obj, canonicalizeField_obj, equal_obj_iff
      (canonicalizeEventAsMap_distinct _ hx).keys (canonicalizeEventAsMap_distinct _ hy).keys]
    intro key
    rw [canonicalizeEventAsMap_lookup, canonicalizeEventAsMap_lookup]
    have hkey := hlookups key
    cases hvalue : fields.lookup key with
    | none =>
      rw [hvalue] at hkey
      rw [rel_none hkey]
      exact .none
    | some value =>
      rw [hvalue] at hkey
      obtain ⟨value', hvalue', hequal⟩ := rel_some hkey
      rw [hvalue']
      refine .some ?_
      rw [canonicalizeUnder, canonicalizeUnder]
      split
      · exact hmask
      · exact ih _ (lookup_mem hvalue) _ (lookup_distinct hx hvalue) (lookup_distinct hy hvalue')
          hequal

end Sieve.Event
