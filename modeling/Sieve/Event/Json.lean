import Mathlib.Data.Finset.Basic

/-!
# Decoded JSON

The learner (in Python) and the coordinator (in Go) decode the same texts.  An object is a list of
fields with distinct names whose order means nothing: `equal` compares objects field by field.  The
two languages agree on everything but the equality of scalars, which is a parameter.
-/

namespace Sieve.Event

inductive Json where
  | null
  | bool (b : Bool)
  | num (q : Rat)
  | str (s : String)
  | arr (items : List Json)
  | obj (fields : List (String × Json))

/-- A decoded object: its fields in any order. -/
abbrev Fields := List (String × Json)

/-- `m[key] = value`. -/
def Fields.insert : Fields → String → Json → Fields
  | [], key, value => [(key, value)]
  | (k, v) :: m, key, value =>
    if k == key then (key, value) :: m else (k, v) :: Fields.insert m key value

/-- `delete(m, key)`, `m.pop(key, None)`. -/
def Fields.erase (m : Fields) (key : String) : Fields := m.filter fun field => field.1 != key

theorem Fields.lookup_insert_self (m : Fields) (key : String) (value : Json) :
    List.lookup key (Fields.insert m key value) = some value := by
  induction m with
  | nil => simp [Fields.insert]
  | cons field m ih =>
    obtain ⟨k, v⟩ := field
    rw [Fields.insert]
    split
    · rw [List.lookup_cons, beq_self_eq_true]
    · rename_i h
      have hne : (key == k) = false := by
        rw [beq_eq_false_iff_ne]
        exact fun heq => h (beq_iff_eq.mpr heq.symm)
      rw [List.lookup_cons, hne]
      exact ih

mutual

/-- Deep equality over a given equality of scalars. -/
def Json.equal (scalarEqual : Json → Json → Bool) : Json → Json → Bool
  | .arr xs, .arr ys => equalItems scalarEqual xs ys
  | .obj xs, .obj ys => xs.length == ys.length && equalFields scalarEqual xs ys
  | .arr _, _ => false
  | .obj _, _ => false
  | x, y => scalarEqual x y

def equalItems (scalarEqual : Json → Json → Bool) : List Json → List Json → Bool
  | [], [] => true
  | x :: xs, y :: ys => x.equal scalarEqual y && equalItems scalarEqual xs ys
  | _, _ => false

def equalFields (scalarEqual : Json → Json → Bool) : Fields → Fields → Bool
  | [], _ => true
  | (key, x) :: xs, ys =>
    (match ys.lookup key with
      | some y => x.equal scalarEqual y
      | none => false) && equalFields scalarEqual xs ys

end

/-- `reflect.DeepEqual` on two values that are not both maps or both slices. -/
def goScalarEqual : Json → Json → Bool
  | .null, .null => true
  | .bool a, .bool b => a == b
  | .num a, .num b => a == b
  | .str a, .str b => a == b
  | _, _ => false

/-- `==` on two values that are not both dicts or both lists: `True == 1` and `False == 0`. -/
def pythonScalarEqual : Json → Json → Bool
  | .bool a, .num b => (if a then 1 else 0) == b
  | .num a, .bool b => a == (if b then 1 else 0)
  | x, y => goScalarEqual x y

end Sieve.Event
