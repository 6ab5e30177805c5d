import Mathlib.Data.Finset.Basic
import Mathlib.Logic.Function.Basic

/-!
# Tables with patterns among their keys

A table from keys to sets, in which some keys are patterns for others.  What stands under a pattern is
copied to the keys it matches: to those in the table beforehand, to others when they are looked up.
Over any types of keys and elements and any notion of matching.

* `PatternTable.mem_copyAll_iff`: copying from patterns to other keys, in any order;
* `PatternTable.Completes`: the table holds all that belongs to its keys;
* `PatternTable.lookup_completes`: lookups find what belongs to the key and keep the table so.
-/

namespace Sieve.Library

variable {κ β : Type} [DecidableEq κ] [DecidableEq β]

/-- A map from keys to sets; a key that is not there has no set. -/
abbrev PatternTable (κ β : Type) := κ → Option (Finset β)

namespace PatternTable

/-- What stands under the key. -/
def own (table : PatternTable κ β) (key : κ) : Finset β := (table key).getD ∅

/-- Make room for a key. -/
def ensure (table : PatternTable κ β) (key : κ) : PatternTable κ β :=
  if (table key).isSome then table else Function.update table key (some ∅)

/-- Add elements under a key that is there. -/
def addAll (table : PatternTable κ β) (key : κ) (elements : Finset β) : PatternTable κ β :=
  Function.update table key ((table key).map (· ∪ elements))

/-- The order in which a loop over the keys of the table takes them. -/
def Ranges (order : List κ) (table : PatternTable κ β) : Prop :=
  ∀ key, key ∈ order ↔ (table key).isSome

variable {table : PatternTable κ β} {key key' : κ}

theorem isSome_addAll (elements : Finset β) :
    (table.addAll key elements key').isSome = (table key').isSome := by
  by_cases hkey : key' = key
  · rw [hkey, addAll, Function.update_self, Option.isSome_map]
  · rw [addAll, Function.update_of_ne hkey]

theorem addAll_of_ne (hkey : key' ≠ key) (elements : Finset β) :
    table.addAll key elements key' = table key' := by
  rw [addAll, Function.update_of_ne hkey]

theorem mem_own_addAll {elements : Finset β} {x : β} (hkey : (table key).isSome) :
    x ∈ (table.addAll key elements).own key ↔ x ∈ table.own key ∨ x ∈ elements := by
  obtain ⟨set, hset⟩ := Option.isSome_iff_exists.mp hkey
  rw [own, own, addAll, Function.update_self, hset, Option.map_some, Option.getD_some,
    Option.getD_some, Finset.mem_union]

omit [DecidableEq κ] [DecidableEq β] in
theorem own_of_eq {table' : PatternTable κ β} (h : table' key = table key) :
    table'.own key = table.own key := by
  rw [own, own, h]

omit [DecidableEq β] in
theorem isSome_ensure : (table.ensure key key').isSome = true ↔ key' = key ∨ (table key').isSome := by
  rw [ensure]
  split
  · rename_i hkey
    refine ⟨.inr, fun h => ?_⟩
    rcases h with rfl | h
    · exact hkey
    · exact h
  · by_cases hkey : key' = key
    · rw [hkey, Function.update_self]
      simp
    · rw [Function.update_of_ne hkey]
      simp [hkey]

omit [DecidableEq β] in
theorem ensure_of_ne (hkey : key' ≠ key) : table.ensure key key' = table key' := by
  rw [ensure]
  split
  · rfl
  · exact Function.update_of_ne hkey _ _

omit [DecidableEq β] in
theorem own_ensure : (table.ensure key).own key' = table.own key' := by
  rw [ensure]
  split
  · rfl
  · rename_i hnone
    by_cases hkey : key' = key
    · rw [hkey, own, own, Function.update_self, Option.not_isSome_iff_eq_none.mp hnone]
      rfl
    · rw [own, own, Function.update_of_ne hkey]

omit [DecidableEq β] in
/-- A new key is one more to take. -/
theorem Ranges.ensure {order : List κ} (h : Ranges order table) (key : κ) :
    Ranges (key :: order) (table.ensure key) := by
  intro key'
  rw [List.mem_cons, h key', isSome_ensure]

omit [DecidableEq κ] [DecidableEq β] in
theorem Ranges.congr {table' : PatternTable κ β} {order : List κ} (h : Ranges order table)
    (hsame : ∀ key, (table' key).isSome = (table key).isSome) : Ranges order table' := by
  intro key
  rw [hsame]
  exact h key

/-! ### Copying -/

section Copy

variable {isPattern : κ → Bool} {matched : κ → κ → Bool}

/-- Copy what stands under a pattern to a key that it matches. -/
def copy (matched : κ → κ → Bool) (table : PatternTable κ β) (pair : κ × κ) : PatternTable κ β :=
  if matched pair.1 pair.2 then table.addAll pair.2 (table.own pair.1) else table

theorem isSome_copy (pair : κ × κ) : (copy matched table pair key).isSome = (table key).isSome := by
  rw [copy]
  split
  · exact isSome_addAll _
  · rfl

theorem copy_of_ne {pair : κ × κ} (hkey : key ≠ pair.2) : copy matched table pair key = table key := by
  rw [copy]
  split
  · exact addAll_of_ne hkey _
  · rfl

theorem isSome_copyAll (pairs : List (κ × κ)) :
    (pairs.foldl (copy matched) table key).isSome = (table key).isSome := by
  induction pairs generalizing table with
  | nil => rfl
  | cons pair pairs ih => rw [List.foldl_cons, ih, isSome_copy]

theorem copyAll_of_ne {pairs : List (κ × κ)} (hpairs : ∀ pair ∈ pairs, key ≠ pair.2) :
    pairs.foldl (copy matched) table key = table key := by
  induction pairs generalizing table with
  | nil => rfl
  | cons pair pairs ih =>
    obtain ⟨hpair, hpairs⟩ := List.forall_mem_cons.mp hpairs
    rw [List.foldl_cons, ih hpairs, copy_of_ne hpair]

theorem mem_own_copy {pair : κ × κ} (hkey : (table key).isSome) {x : β} :
    x ∈ (copy matched table pair).own key ↔ x ∈ table.own key ∨
      key = pair.2 ∧ matched pair.1 key = true ∧ x ∈ table.own pair.1 := by
  by_cases hpair : key = pair.2
  · rw [copy, ← hpair]
    split
    · rename_i hmatched
      rw [mem_own_addAll hkey]
      simp [hmatched]
    · rename_i hmatched
      simp [hmatched]
  · rw [own_of_eq (copy_of_ne hpair)]
    simp [hpair]

/-- **Copying from patterns to other keys**: the order does not matter. -/
theorem mem_copyAll_iff {pairs : List (κ × κ)}
    (hpairs : ∀ pair ∈ pairs, isPattern pair.1 = true ∧ isPattern pair.2 = false)
    (hkey : (table key).isSome) {x : β} : x ∈ own (pairs.foldl (copy matched) table) key ↔
      x ∈ table.own key ∨ ∃ pattern, (pattern, key) ∈ pairs ∧ matched pattern key = true ∧
        x ∈ table.own pattern := by
  induction pairs generalizing table with
  | nil => simp
  | cons pair pairs ih =>
    obtain ⟨hpair, hpairs⟩ := List.forall_mem_cons.mp hpairs
    have hpattern : ∀ pattern, isPattern pattern = true →
        (copy matched table pair).own pattern = table.own pattern := by
      intro pattern hpattern
      refine own_of_eq (copy_of_ne fun heq => ?_)
      rw [heq, hpair.2] at hpattern
      cases hpattern
    rw [List.foldl_cons, ih hpairs (by rw [isSome_copy]; exact hkey), mem_own_copy hkey, or_assoc]
    refine or_congr_right ?_
    constructor
    · intro h
      rcases h with ⟨rfl, hmatched, hx⟩ | ⟨pattern, hmem, hmatched, hx⟩
      · exact ⟨pair.1, List.mem_cons_self, hmatched, hx⟩
      · rw [hpattern pattern (hpairs _ hmem).1] at hx
        exact ⟨pattern, List.mem_cons_of_mem pair hmem, hmatched, hx⟩
    · intro ⟨pattern, hmem, hmatched, hx⟩
      rcases List.mem_cons.mp hmem with rfl | hmem
      · exact .inl ⟨rfl, hmatched, hx⟩
      · refine .inr ⟨pattern, hmem, hmatched, ?_⟩
        rw [hpattern pattern (hpairs _ hmem).1]
        exact hx

/-! ### Looking up -/

/-- All that belongs to a key: what stands under it and under the patterns that match it. -/
def Belongs (isPattern : κ → Bool) (matched : κ → κ → Bool) (table : PatternTable κ β) (key : κ)
    (x : β) : Prop :=
  x ∈ table.own key ∨ ∃ pattern, isPattern pattern = true ∧ matched pattern key = true ∧
    x ∈ table.own pattern

/-- The keys of `table'` that are no patterns hold all that belongs to them in `table`; the patterns are
those of `table`. -/
structure Completes (isPattern : κ → Bool) (matched : κ → κ → Bool) (table table' : PatternTable κ β) :
    Prop where
  patterns : ∀ key, isPattern key = true → table' key = table key
  keys : ∀ key, (table key).isSome → (table' key).isSome
  complete : ∀ key, isPattern key = false → (table' key).isSome →
    ∀ x, x ∈ table'.own key ↔ Belongs isPattern matched table key x

/-- The pairs of a pattern and another key, in the orders of two nested loops. -/
def patternPairs (isPattern : κ → Bool) (outer : List κ) (inner : κ → List κ) : List (κ × κ) :=
  (outer.filter isPattern).flatMap fun pattern =>
    ((inner pattern).filter fun key => !isPattern key).map fun key => (pattern, key)

omit [DecidableEq κ] in
theorem mem_patternPairs {outer : List κ} {inner : κ → List κ} {pair : κ × κ} :
    pair ∈ patternPairs isPattern outer inner ↔ pair.1 ∈ outer ∧ isPattern pair.1 = true ∧
      pair.2 ∈ inner pair.1 ∧ isPattern pair.2 = false := by
  simp only [patternPairs, List.mem_flatMap, List.mem_filter, List.mem_map, Bool.not_eq_true']
  constructor
  · intro ⟨pattern, ⟨houter, hpattern⟩, key, ⟨hinner, hkey⟩, heq⟩
    rw [← heq]
    exact ⟨houter, hpattern, hinner, hkey⟩
  · intro ⟨houter, hpattern, hinner, hkey⟩
    exact ⟨pair.1, ⟨houter, hpattern⟩, pair.2, ⟨hinner, hkey⟩, rfl⟩

omit [DecidableEq κ] [DecidableEq β] in
/-- What stands under some key is in the table. -/
theorem isSome_of_mem_own {x : β} (h : x ∈ table.own key) : (table key).isSome := by
  cases hkey : table key with
  | none =>
    rw [own, hkey] at h
    exact absurd h (Finset.notMem_empty x)
  | some set => rfl

/-- **Copying to all keys beforehand** completes the table. -/
theorem completes_copyAll {outer : List κ} {inner : κ → List κ} (houter : Ranges outer table)
    (hinner : ∀ key, Ranges (inner key) table) : Completes isPattern matched table
      ((patternPairs isPattern outer inner).foldl (copy matched) table) where
  patterns := by
    intro key hkey
    refine copyAll_of_ne fun pair hpair heq => ?_
    rw [heq, (mem_patternPairs.mp hpair).2.2.2] at hkey
    cases hkey
  keys := fun key hkey => by
    rw [isSome_copyAll]
    exact hkey
  complete := by
    intro key hpattern hkey x
    rw [isSome_copyAll] at hkey
    have hpairs : ∀ pair ∈ patternPairs isPattern outer inner,
        isPattern pair.1 = true ∧ isPattern pair.2 = false :=
      fun pair hpair => ⟨(mem_patternPairs.mp hpair).2.1, (mem_patternPairs.mp hpair).2.2.2⟩
    rw [mem_copyAll_iff hpairs hkey, Belongs]
    refine or_congr_right (exists_congr fun pattern => ?_)
    rw [mem_patternPairs]
    constructor
    · intro ⟨⟨_, hisPattern, _⟩, hmatched, hx⟩
      exact ⟨hisPattern, hmatched, hx⟩
    · intro ⟨hisPattern, hmatched, hx⟩
      exact ⟨⟨(houter pattern).mpr (isSome_of_mem_own hx), hisPattern, (hinner pattern key).mpr hkey,
        hpattern⟩, hmatched, hx⟩

/-- Look up a key: what is there, or what the patterns have for it, which is then kept. -/
def lookup (isPattern : κ → Bool) (matched : κ → κ → Bool) (order : List κ) (table : PatternTable κ β)
    (key : κ) : Finset β × PatternTable κ β :=
  match table key with
  | some set => (set, table)
  | none =>
    let table := ((order.filter isPattern).map fun pattern => (pattern, key)).foldl (copy matched)
      (table.ensure key)
    (table.own key, table)

theorem isSome_lookup (order : List κ) : ((lookup isPattern matched order table key).2 key').isSome =
    (table.ensure key key').isSome := by
  rw [lookup]
  cases hkey : table key with
  | some set =>
    rw [ensure, hkey]
    rfl
  | none => exact isSome_copyAll _

/-- **Lookups find all that belongs to the key**, and keep the table complete. -/
theorem lookup_completes {table' : PatternTable κ β} (h : Completes isPattern matched table table')
    (hpattern : isPattern key = false) {order : List κ} (horder : Ranges order (table'.ensure key)) :
    (∀ x, x ∈ (lookup isPattern matched order table' key).1 ↔ Belongs isPattern matched table key x) ∧
      Completes isPattern matched table (lookup isPattern matched order table' key).2 := by
  rw [lookup]
  cases hkey : table' key with
  | some set =>
    refine ⟨fun x => ?_, h⟩
    rw [← h.complete key hpattern (by rw [hkey]; rfl), own, hkey, Option.getD_some]
  | none =>
    have hmem : ∀ pair ∈ (order.filter isPattern).map fun pattern => (pattern, key),
        isPattern pair.1 = true ∧ pair.2 = key := by
      intro pair hpair
      obtain ⟨pattern, hpattern, rfl⟩ := List.mem_map.mp hpair
      exact ⟨(List.mem_filter.mp hpattern).2, rfl⟩
    have hpairs : ∀ pair ∈ (order.filter isPattern).map fun pattern => (pattern, key),
        isPattern pair.1 = true ∧ isPattern pair.2 = false :=
      fun pair hpair => ⟨(hmem pair hpair).1, by rw [(hmem pair hpair).2, hpattern]⟩
    have hnew : ((table'.ensure key) key).isSome := isSome_ensure.mpr (.inl rfl)
    -- the key is new, so that nothing stands under it
    have hnone : ∀ x, x ∉ table.own key := by
      intro x hx
      have hsome := h.keys key (isSome_of_mem_own hx)
      rw [hkey] at hsome
      cases hsome
    have hnone' : ∀ x, x ∉ table'.own key := by
      intro x hx
      have hsome := isSome_of_mem_own hx
      rw [hkey] at hsome
      cases hsome
    have hfound : ∀ x, x ∈ own (((order.filter isPattern).map fun pattern => (pattern, key)).foldl
        (copy matched) (table'.ensure key)) key ↔ Belongs isPattern matched table key x := by
      intro x
      rw [mem_copyAll_iff hpairs hnew, own_ensure, Belongs]
      refine or_congr (iff_of_false (hnone' x) (hnone x)) (exists_congr fun pattern => ?_)
      rw [own_ensure]
      constructor
      · intro ⟨hpair, hmatched, hx⟩
        have hisPattern := (hmem _ hpair).1
        rw [own_of_eq (h.patterns pattern hisPattern)] at hx
        exact ⟨hisPattern, hmatched, hx⟩
      · intro ⟨hisPattern, hmatched, hx⟩
        rw [← own_of_eq (h.patterns pattern hisPattern)] at hx
        refine ⟨List.mem_map.mpr ⟨pattern, List.mem_filter.mpr ⟨?_, hisPattern⟩, rfl⟩, hmatched, hx⟩
        exact (horder pattern).mpr (isSome_ensure.mpr (.inr (isSome_of_mem_own hx)))
    have hother : ∀ other, other ≠ key → (((order.filter isPattern).map fun pattern =>
        (pattern, key)).foldl (copy matched) (table'.ensure key)) other = table' other := by
      intro other hne
      rw [copyAll_of_ne fun pair hpair => (hmem pair hpair).2 ▸ hne, ensure_of_ne hne]
    dsimp only
    refine ⟨hfound, fun other hother' => ?_, fun other hother' => ?_, fun other hother' hsome x => ?_⟩
    · rw [hother other, h.patterns other hother']
      intro heq
      rw [heq, hpattern] at hother'
      cases hother'
    · rw [isSome_copyAll, isSome_ensure]
      exact .inr (h.keys other hother')
    · by_cases heq : other = key
      · rw [heq]
        exact hfound x
      · rw [hother other heq] at hsome
        rw [own_of_eq (hother other heq)]
        exact h.complete other hother' hsome x

end Copy

end PatternTable

end Sieve.Library
