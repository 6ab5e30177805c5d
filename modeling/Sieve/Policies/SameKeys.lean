import Sieve.Event.DeepEqual
import Sieve.Library.KeyLevels
import Sieve.Policies.StaleState

/-!
# What `same_key` compares

The recursion looks at the type of the previous value first, and only a dictionary makes it look at the
current value.

* `fieldsOf`: a dictionary as a map from its keys, for the paths of keys in nested dictionaries;
* `sameKey_iff_covers`: wherever the previous event has a dictionary, the current one has a dictionary
  with the same keys, which is transitive but not symmetric;
* `sameKey_exact_iff`: when that is the same as having the same keys at every level.
-/

namespace Sieve.Policies

open Sieve.Event Sieve.Library

/-- A dictionary as a map. -/
def fieldsOf : Json → Option (String → Option Json)
  | .obj fields => some fun key => fields.lookup key
  | _ => none

theorem levelKeys_obj (fields : Fields) :
    levelKeys fieldsOf (.obj fields) = some {key | (fields.lookup key).isSome} := rfl

theorem sameKeyValue_of_not_dict {prev : Json} (h : fieldsOf prev = none) (cur : Json) :
    sameKeyValue prev cur = true := by
  cases prev with
  | obj fields => cases h
  | null | bool | num | str | arr => simp [sameKeyValue]

theorem covers_of_not_dict {prev : Json} (h : fieldsOf prev = none) (cur : Json) :
    Covers fieldsOf prev cur := by
  rw [covers_iff_child]
  constructor
  · intro s hs
    rw [levelKeys, h] at hs
    cases hs
  · intro key x y hx
    rw [childAt, h] at hx
    cases hx

/-- The loop over the common keys. -/
theorem sameKeyFields_iff {prevEvent curEvent : Fields} :
    sameKeyFields prevEvent curEvent = true ↔
      ∀ field ∈ prevEvent, ∀ cur, curEvent.lookup field.1 = some cur →
        sameKeyValue field.2 cur = true := by
  induction prevEvent with
  | nil => simp [sameKeyFields]
  | cons field prevEvent ih =>
    have ⟨key, prev⟩ := field
    rw [sameKeyFields, Bool.and_eq_true, ih, List.forall_mem_cons]
    refine and_congr_left' ?_
    cases curEvent.lookup key with
    | none => simp
    | some cur => simp

/-- The symmetric difference of the key sets is empty. -/
theorem sameLevel_iff {prev cur : Fields} :
    (prev.all (fun field => (cur.lookup field.1).isSome) &&
        cur.all fun field => (prev.lookup field.1).isSome) = true ↔
      levelKeys fieldsOf (.obj cur) = levelKeys fieldsOf (.obj prev) := by
  have hmem : ∀ {fields fields' : Fields},
      (fields.all fun field => (fields'.lookup field.1).isSome) = true ↔
        ∀ key, (fields.lookup key).isSome → (fields'.lookup key).isSome := by
    intro fields fields'
    rw [List.all_eq_true]
    constructor
    · intro h key hkey
      have ⟨x, hx⟩ := Option.isSome_iff_exists.mp hkey
      exact h (key, x) (lookup_mem hx)
    · intro h field hfield
      refine h field.1 ?_
      rw [Option.isSome_iff_ne_none, ne_eq, lookup_none_iff, not_not]
      exact key_mem hfield
  rw [Bool.and_eq_true, hmem, hmem, levelKeys_obj, levelKeys_obj, Option.some_inj, Set.ext_iff, ← forall_and]
  refine forall_congr' fun key => ?_
  exact ⟨fun h => ⟨h.2, h.1⟩, fun h => ⟨h.2, h.1⟩⟩

/-- **Wherever the previous value has a dictionary, the current one has a dictionary with the same
keys.** -/
theorem sameKeyValue_iff {prev : Json} (hprev : prev.Distinct) (cur : Json) :
    sameKeyValue prev cur = true ↔ Covers fieldsOf prev cur := by
  induction prev using Json.induct generalizing cur with
  | scalar prev hscalar =>
    have hnot : fieldsOf prev = none := by
      cases prev with
      | obj fields => exact hscalar.elim
      | null | bool | num | str | arr => rfl
    exact iff_of_true (sameKeyValue_of_not_dict hnot cur) (covers_of_not_dict hnot cur)
  | arr items _ => exact iff_of_true (sameKeyValue_of_not_dict rfl cur) (covers_of_not_dict rfl cur)
  | obj prev ih =>
    cases hcur : fieldsOf cur with
    | none =>
      refine iff_of_false ?_ fun h => ?_
      · cases cur with
        | obj fields => cases hcur
        | null | bool | num | str | arr => simp [sameKeyValue]
      · have hkeys := (covers_iff_child.mp h).1 _ (levelKeys_obj prev)
        rw [levelKeys, hcur] at hkeys
        cases hkeys
    | some _ =>
      cases cur with
      | obj cur =>
        rw [sameKeyValue, Bool.and_eq_true, sameLevel_iff, sameKeyFields_iff, covers_iff_child]
        refine and_congr ?_ ?_
        · rw [levelKeys_obj prev]
          exact ⟨fun h s hs => h.trans hs, fun h => h _ rfl⟩
        · constructor
          · intro h key x y hx hy
            have hmem := lookup_mem hx
            exact (ih (key, x) hmem (hprev.values _ hmem) y).mp (h (key, x) hmem y hy)
          · intro h field hfield y hy
            rw [ih field hfield (hprev.values _ hfield)]
            exact h field.1 field.2 y (mem_lookup hprev.keys hfield) hy
      | null | bool | num | str | arr => cases hcur

theorem sameKey_iff_covers {prevEvent curEvent : Fields} (h : Json.Distinct (.obj prevEvent)) :
    sameKey prevEvent curEvent = true ↔ Covers fieldsOf (.obj prevEvent) (.obj curEvent) :=
  sameKeyValue_iff h (.obj curEvent)

/-- A dictionary that faces another value in the current event is found, and the other way round it
is not. -/
theorem sameKey_iff_not_deepens {prevEvent curEvent : Fields} (h : Json.Distinct (.obj prevEvent)) :
    sameKey prevEvent curEvent = true ↔
      ¬ Deepens fieldsOf (.obj curEvent) (.obj prevEvent) ∧
        ¬ KeysDiffer fieldsOf (.obj prevEvent) (.obj curEvent) := by
  rw [sameKey_iff_covers h, covers_iff]

theorem sameKey_trans {a b c : Fields} (ha : Json.Distinct (.obj a)) (hb : Json.Distinct (.obj b))
    (hab : sameKey a b = true) (hbc : sameKey b c = true) : sameKey a c = true := by
  rw [sameKey_iff_covers ha] at hab ⊢
  rw [sameKey_iff_covers hb] at hbc
  exact hab.trans hbc

/-- **`same_key` compares the keys at every level exactly when a dictionary that takes the place of
another value comes with a difference that the recursion sees.** -/
theorem sameKey_exact_iff {a b : Fields} (ha : Json.Distinct (.obj a)) (hb : Json.Distinct (.obj b)) :
    (sameKey a b = true ↔ SameKeys fieldsOf (.obj a) (.obj b)) ∧
        (sameKey a b = true → sameKey b a = true) ∧
        (∀ c, sameKey a b = true → sameKey b c = true → sameKey a c = true) ↔
      (Deepens fieldsOf (.obj a) (.obj b) →
        Deepens fieldsOf (.obj b) (.obj a) ∨ KeysDiffer fieldsOf (.obj a) (.obj b)) := by
  rw [sameKey_iff_covers hb, sameKeys_iff]
  constructor
  · intro ⟨_, hsymm, _⟩ hdeepens
    by_contra hnot
    rw [not_or] at hnot
    have hab := (sameKey_iff_not_deepens ha).mpr hnot
    exact (covers_swap_iff ((sameKey_iff_covers ha).mp hab)).mp (hsymm hab) hdeepens
  · intro h
    have hback : sameKey a b = true → Covers fieldsOf (.obj b) (.obj a) := by
      intro hab
      rw [covers_swap_iff ((sameKey_iff_covers ha).mp hab)]
      intro hdeepens
      have hseen := (sameKey_iff_not_deepens ha).mp hab
      exact (h hdeepens).elim hseen.1 hseen.2
    refine ⟨?_, hback, fun c => sameKey_trans ha hb⟩
    rw [sameKey_iff_covers ha] at hback ⊢
    exact ⟨fun hab => ⟨hab, hback hab⟩, And.left⟩

theorem sameKey_exact_iff_status :
    (sameKey [("status", .null)] [("status", .obj [])] = true ↔
          SameKeys fieldsOf (.obj [("status", .null)]) (.obj [("status", .obj [])])) ∧
        (sameKey [("status", .null)] [("status", .obj [])] = true →
          sameKey [("status", .obj [])] [("status", .null)] = true) ∧
        (∀ c, sameKey [("status", .null)] [("status", .obj [])] = true →
          sameKey [("status", .obj [])] c = true → sameKey [("status", .null)] c = true) ↔
      (Deepens fieldsOf (.obj [("status", .null)]) (.obj [("status", .obj [])]) →
        Deepens fieldsOf (.obj [("status", .obj [])]) (.obj [("status", .null)]) ∨
          KeysDiffer fieldsOf (.obj [("status", .null)]) (.obj [("status", .obj [])])) := by
  refine sameKey_exact_iff (.obj (List.nodup_singleton _) ?_) (.obj (List.nodup_singleton _) ?_) <;>
    intro field hfield <;>
    rw [List.mem_singleton.mp hfield]
  · exact .scalar trivial
  · exact .obj List.nodup_nil nofun

/-- A status that was not set before. -/
theorem not_sameKey_exact_status :
    sameKey [("status", .null)] [("status", .obj [])] = true ∧
      sameKey [("status", .obj [])] [("status", .null)] = false ∧
      ¬ SameKeys fieldsOf (.obj [("status", .null)]) (.obj [("status", .obj [])]) := by
  refine ⟨rfl, rfl, fun h => ?_⟩
  have hstatus := h ["status"]
  simp [keysAt, follow, childAt, fieldsOf, levelKeys] at hstatus

end Sieve.Policies
