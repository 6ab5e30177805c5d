import Mathlib.Data.Set.Insert

/-!
# Nested maps, level by level

Values that are maps from keys to values or no maps at all, over any type of values that says which
(`children`) and any keys:

* `follow`: the value at the end of a path of keys; `keysAt`: the keys of the map there, if it is one;
* `SameKeys t u`: at every path both have maps with the same keys or neither has a map;
* `Covers t u`: wherever `t` has a map, `u` has one with the same keys;
* `Deepens t u`, `KeysDiffer t u`: what two values that stand in the same place may do instead, with
  `covers_iff` and `covers_swap_iff`;
* `covers_iff_child`: the comparison, one level at a time.
-/

namespace Sieve.Library

variable {τ κ : Type*} (children : τ → Option (κ → Option τ))

/-! ### Paths -/

/-- What stands under a key. -/
def childAt (t : τ) (k : κ) : Option τ := (children t).bind fun f => f k

def follow : List κ → τ → Option τ
  | [], t => some t
  | k :: path, t => (childAt children t k).bind (follow path)

/-- The keys of a map. -/
def levelKeys (t : τ) : Option (Set κ) := (children t).map fun f => {k | (f k).isSome}

def keysAt (path : List κ) (t : τ) : Option (Set κ) := (follow children path t).bind (levelKeys children)

theorem keysAt_cons (k : κ) (path : List κ) (t : τ) :
    keysAt children (k :: path) t = (childAt children t k).bind (keysAt children path) := by
  rw [keysAt, follow, Option.bind_assoc]
  rfl

variable {children}

theorem childAt_isSome_iff {t : τ} {s : Set κ} (h : levelKeys children t = some s) (k : κ) :
    (childAt children t k).isSome ↔ k ∈ s := by
  rw [levelKeys, Option.map_eq_some_iff] at h
  have ⟨f, hf, hs⟩ := h
  rw [childAt, hf, ← hs]
  rfl

theorem levelKeys_of_childAt {t x : τ} {k : κ} (h : childAt children t k = some x) :
    ∃ s, levelKeys children t = some s ∧ k ∈ s := by
  rw [childAt, Option.bind_eq_some_iff] at h
  have ⟨f, hf, hx⟩ := h
  refine ⟨{k | (f k).isSome}, by rw [levelKeys, hf]; rfl, ?_⟩
  show (f k).isSome
  rw [hx]
  rfl

/-! ### Comparing two values -/

variable (children)

/-- **The same keys at every level.** -/
def SameKeys (t u : τ) : Prop := ∀ path, keysAt children path t = keysAt children path u

/-- Wherever `t` has a map, `u` has one with the same keys. -/
def Covers (t u : τ) : Prop := ∀ path s, keysAt children path t = some s → keysAt children path u = some s

/-- In one place `u` has a map and `t` another value. -/
def Deepens (t u : τ) : Prop := ∃ path x y, follow children path t = some x ∧
  follow children path u = some y ∧ levelKeys children x = none ∧ levelKeys children y ≠ none

/-- In one place both have maps, with different keys. -/
def KeysDiffer (t u : τ) : Prop := ∃ path x y s s', follow children path t = some x ∧
  follow children path u = some y ∧ levelKeys children x = some s ∧ levelKeys children y = some s' ∧ s ≠ s'

variable {children} {t u v : τ}

theorem SameKeys.symm (h : SameKeys children t u) : SameKeys children u t := fun path => (h path).symm

theorem Covers.trans (h : Covers children t u) (h' : Covers children u v) : Covers children t v :=
  fun path s hs => h' path s (h path s hs)

theorem sameKeys_iff : SameKeys children t u ↔ Covers children t u ∧ Covers children u t := by
  constructor
  · intro h
    exact ⟨fun path s hs => (h path).symm.trans hs, fun path s hs => (h path).trans hs⟩
  · intro ⟨htu, hut⟩ path
    cases ht : keysAt children path t with
    | some s => exact (htu path s ht).symm
    | none =>
      cases hu : keysAt children path u with
      | none => rfl
      | some s =>
        rw [hut path s hu] at ht
        cases ht

/-- Values that stand in the same place are enough: below a map with the same keys there is a value
in both. -/
theorem covers_iff_follow : Covers children t u ↔ ∀ path x y, follow children path t = some x →
    follow children path u = some y → ∀ s, levelKeys children x = some s → levelKeys children y = some s := by
  constructor
  · intro h path x y hx hy s hs
    have hu := h path s (by rw [keysAt, hx]; exact hs)
    rw [keysAt, hy] at hu
    exact hu
  · intro h path
    induction path generalizing t u with
    | nil => exact h [] t u rfl rfl
    | cons k path ih =>
      intro s hs
      rw [keysAt_cons, Option.bind_eq_some_iff] at hs
      have ⟨x, hx, hs⟩ := hs
      -- `t` is a map here, so `u` is one with the same keys
      have ⟨level, hlevel, hk⟩ := levelKeys_of_childAt hx
      have hlevel' := h [] t u rfl rfl level hlevel
      have ⟨y, hy⟩ := Option.isSome_iff_exists.mp ((childAt_isSome_iff hlevel' k).mpr hk)
      rw [keysAt_cons, hy]
      refine ih (fun path x' y' hx' hy' => h (k :: path) x' y' ?_ ?_) s hs
      · rw [follow, hx]
        exact hx'
      · rw [follow, hy]
        exact hy'

theorem covers_iff : Covers children t u ↔ ¬ Deepens children u t ∧ ¬ KeysDiffer children t u := by
  rw [covers_iff_follow]
  constructor
  · intro h
    constructor
    · intro ⟨path, y, x, hy, hx, hnone, hsome⟩
      have ⟨s, hs⟩ := Option.ne_none_iff_exists'.mp hsome
      rw [h path x y hx hy s hs] at hnone
      cases hnone
    · intro ⟨path, x, y, s, s', hx, hy, hs, hs', hne⟩
      rw [h path x y hx hy s hs] at hs'
      exact hne (Option.some.inj hs')
  · intro ⟨hdeepens, hdiffer⟩ path x y hx hy s hs
    cases hs' : levelKeys children y with
    | none => exact absurd ⟨path, y, x, hy, hx, hs', by rw [hs]; nofun⟩ hdeepens
    | some s' =>
      by_contra hne
      exact hdiffer ⟨path, x, y, s, s', hx, hy, hs, hs', fun heq => hne (by rw [heq])⟩

theorem KeysDiffer.symm (h : KeysDiffer children t u) : KeysDiffer children u t := by
  have ⟨path, x, y, s, s', hx, hy, hs, hs', hne⟩ := h
  exact ⟨path, y, x, s', s, hy, hx, hs', hs, hne.symm⟩

/-- What the other direction asks for besides. -/
theorem covers_swap_iff (h : Covers children t u) : Covers children u t ↔ ¬ Deepens children t u := by
  rw [covers_iff, and_iff_left]
  exact fun hdiffer => (covers_iff.mp h).2 hdiffer.symm

/-- One level, and then the values under every common key. -/
theorem covers_iff_child : Covers children t u ↔
    (∀ s, levelKeys children t = some s → levelKeys children u = some s) ∧
      ∀ k x y, childAt children t k = some x → childAt children u k = some y → Covers children x y := by
  simp only [covers_iff_follow]
  constructor
  · intro h
    refine ⟨h [] t u rfl rfl, fun k x y hx hy path x' y' hx' hy' => h (k :: path) x' y' ?_ ?_⟩
    · rw [follow, hx]
      exact hx'
    · rw [follow, hy]
      exact hy'
  · intro ⟨hlevel, hbelow⟩ path x' y' hx' hy'
    cases path with
    | nil =>
      rw [← Option.some.inj hx', ← Option.some.inj hy']
      exact hlevel
    | cons k path =>
      rw [follow, Option.bind_eq_some_iff] at hx' hy'
      have ⟨x, hx, hx'⟩ := hx'
      have ⟨y, hy, hy'⟩ := hy'
      exact hbelow k x y hx hy path x' y' hx' hy'

end Sieve.Library
