import Mathlib.Data.List.Count
import Mathlib.Logic.Function.Basic
import Mathlib.Data.Int.Notation

/-!
# Counting occurrences

Two ways to point at an element of a sequence by a number, over any type:

* `number`: give each element the number of elements with its key so far;
* `countAnswers`: count the elements with a property and answer yes at the desired number;
* `firstTrue_countAnswers`, `onlyTrue_countAnswers`: where the first and only yes is;
* `AnswersNth`: yes at the `n`-th element with a property and nowhere else;
* `countP_eq_iff`: two counts agree exactly when as many elements count for the one only as for the
  other only.
-/

namespace Sieve.Library

variable {α κ : Type}

/-! ### Numbering -/

section Number

variable [DecidableEq κ] (key : α → κ) (set : α → ℕ → α)

/-- Number the elements by their keys; `counter` are the numbers given so far. -/
def number (counter : κ → ℕ) : List α → List α
  | [] => []
  | x :: xs =>
    let n := counter (key x) + 1
    set x n :: number (Function.update counter (key x) n) xs

theorem number_getElem? (counter : κ → ℕ) (xs : List α) (i : ℕ) :
    (number key set counter xs)[i]? = xs[i]?.map fun x =>
      set x (counter (key x) + (xs.take (i + 1)).countP fun y => decide (key y = key x)) := by
  induction xs generalizing counter i with
  | nil => rfl
  | cons y ys ih =>
    cases i with
    | zero =>
      simp [number]
    | succ i =>
      rw [number, List.getElem?_cons_succ, List.getElem?_cons_succ, ih]
      cases hx : ys[i]? with
      | none => rfl
      | some x =>
        rw [Option.map_some, Option.map_some, List.take_succ_cons, List.countP_cons]
        apply congrArg (fun n => some (set x n))
        by_cases hkey : key y = key x
        · rw [hkey, Function.update_self]
          simp only [decide_true, if_true]
          omega
        · rw [Function.update_of_ne (Ne.symm hkey)]
          simp only [hkey, decide_false, Bool.false_eq_true, if_false]
          omega

theorem number_length (counter : κ → ℕ) (xs : List α) :
    (number key set counter xs).length = xs.length := by
  induction xs generalizing counter with
  | nil => rfl
  | cons x xs ih => rw [number, List.length_cons, List.length_cons, ih]

theorem mem_number {counter : κ → ℕ} {xs : List α} {y : α} (h : y ∈ number key set counter xs) :
    ∃ x ∈ xs, ∃ n, y = set x n := by
  obtain ⟨i, hi⟩ := List.mem_iff_getElem?.mp h
  rw [number_getElem?, Option.map_eq_some_iff] at hi
  obtain ⟨x, hx, hy⟩ := hi
  exact ⟨x, List.mem_of_getElem? hx, _, hy.symm⟩

end Number

/-! ### Counting up to a desired number -/

/-- The `i`-th answer is the only yes. -/
def OnlyTrue (i : ℕ) (answers : List Bool) : Prop :=
  ∀ j, answers[j]? = some true ↔ j = i

/-- Answer yes at the desired number of elements with the property. -/
def countAnswers (p : α → Bool) (desired : ℤ) : ℤ → List α → List Bool
  | _, [] => []
  | actual, x :: xs =>
    if p x then (actual + 1 == desired) :: countAnswers p desired (actual + 1) xs
    else false :: countAnswers p desired actual xs

theorem countAnswers_getElem? (p : α → Bool) (desired actual : ℤ) (xs : List α) (i : ℕ) :
    (countAnswers p desired actual xs)[i]? = xs[i]?.map fun x =>
      p x && (actual + (xs.take (i + 1)).countP p == desired) := by
  induction xs generalizing actual i with
  | nil => rfl
  | cons y ys ih =>
    rw [countAnswers]
    cases i with
    | zero =>
      cases hp : p y <;> simp [hp]
    | succ i =>
      cases hp : p y with
      | false =>
        simp only [Bool.false_eq_true, if_false, List.getElem?_cons_succ, ih, List.take_succ_cons,
          List.countP_cons, hp, Nat.add_zero]
      | true =>
        simp only [if_true, List.getElem?_cons_succ, ih, List.take_succ_cons, List.countP_cons, hp,
          Int.natCast_add, Int.natCast_one]
        rw [show ∀ n : ℤ, actual + 1 + n = actual + (n + 1) from fun n => by omega]

/-- Two elements with the property have different counts. -/
theorem countP_take_lt {p : α → Bool} {xs : List α} {i j : ℕ} {x : α} (hx : xs[i]? = some x)
    (hp : p x = true) (hj : j < i) : (xs.take (j + 1)).countP p < (xs.take (i + 1)).countP p := by
  have htake : xs.take (i + 1) = xs.take i ++ [x] := by
    rw [List.take_add_one, hx]
    rfl
  have hle : (xs.take (j + 1)).countP p ≤ (xs.take i).countP p :=
    (List.take_sublist_take_left (by omega)).countP_le
  rw [htake, List.countP_append, List.countP_singleton, if_pos hp]
  omega

theorem countAnswers_true {p : α → Bool} {desired : ℤ} {xs : List α} {i : ℕ} :
    (countAnswers p desired 0 xs)[i]? = some true ↔
      ∃ x, xs[i]? = some x ∧ p x = true ∧ ((xs.take (i + 1)).countP p : ℤ) = desired := by
  rw [countAnswers_getElem?, Option.map_eq_some_iff]
  apply exists_congr
  intro x
  rw [Bool.and_eq_true, beq_iff_eq, Int.zero_add]

/-- **Where the yes is**, when the count starts at zero: there is no other. -/
theorem onlyTrue_countAnswers {p : α → Bool} {desired : ℤ} {xs : List α} {i : ℕ} {x : α}
    (hx : xs[i]? = some x) : OnlyTrue i (countAnswers p desired 0 xs) ↔
      p x = true ∧ ((xs.take (i + 1)).countP p : ℤ) = desired := by
  constructor
  · intro h
    obtain ⟨y, hy, hcount⟩ := countAnswers_true.mp ((h i).mpr rfl)
    rw [hx] at hy
    rw [Option.some.inj hy]
    exact hcount
  · intro h j
    constructor
    · intro hyes
      obtain ⟨y, hy, hp, hcount⟩ := countAnswers_true.mp hyes
      obtain hlt | heq | hgt := Nat.lt_trichotomy j i
      · have := countP_take_lt hx h.1 hlt
        omega
      · exact heq
      · have := countP_take_lt hy hp hgt
        omega
    · intro hj
      rw [hj]
      exact countAnswers_true.mpr ⟨x, hx, h⟩

/-- The `n`-th element with the property is the one at `i`. -/
def IsNth (p : α → Bool) (n i : ℕ) (xs : List α) : Prop :=
  ∃ x, xs[i]? = some x ∧ p x = true ∧ (xs.take (i + 1)).countP p = n

theorem exists_isNth {p : α → Bool} {n : ℕ} {xs : List α} (hn : 1 ≤ n) (hle : n ≤ xs.countP p) :
    ∃ i, IsNth p n i xs := by
  induction xs generalizing n with
  | nil =>
    rw [List.countP_nil] at hle
    omega
  | cons x xs ih =>
    rw [List.countP_cons] at hle
    cases hp : p x with
    | false =>
      obtain ⟨i, y, hy, hpy, hcount⟩ := ih hn (by simpa [hp] using hle)
      exact ⟨i + 1, y, hy, hpy, by simp [hp, hcount]⟩
    | true =>
      by_cases hone : n = 1
      · exact ⟨0, x, rfl, hp, by simp [hp, hone]⟩
      · rw [hp, if_pos rfl] at hle
        obtain ⟨i, y, hy, hpy, hcount⟩ := ih (n := n - 1) (by omega) (by omega)
        refine ⟨i + 1, y, hy, hpy, ?_⟩
        rw [List.take_succ_cons, List.countP_cons, hcount, hp, if_pos rfl]
        omega

theorem IsNth.le {p : α → Bool} {n i : ℕ} {xs : List α} (h : IsNth p n i xs) : n ≤ xs.countP p := by
  obtain ⟨x, _, _, hcount⟩ := h
  rw [← hcount]
  exact (List.take_sublist _ _).countP_le

/-- There are answers to all elements.  If there are `n` elements with the property, then the answer
to the `n`-th of them is the only yes; else there is no yes. -/
structure AnswersNth (p : α → Bool) (n : ℕ) (xs : List α) (answers : List Bool) : Prop where
  length : answers.length = xs.length
  reached : n ≤ xs.countP p → ∃ i, IsNth p n i xs ∧ OnlyTrue i answers
  missed : xs.countP p < n → true ∉ answers

theorem countAnswers_length (p : α → Bool) (desired actual : ℤ) (xs : List α) :
    (countAnswers p desired actual xs).length = xs.length := by
  induction xs generalizing actual with
  | nil => rfl
  | cons x xs ih =>
    rw [countAnswers]
    split
    · rw [List.length_cons, List.length_cons, ih]
    · rw [List.length_cons, List.length_cons, ih]

/-- **Counting answers yes at the `n`-th element** and nowhere else. -/
theorem answersNth_countAnswers (p : α → Bool) {n : ℕ} (hn : 1 ≤ n) (xs : List α) :
    AnswersNth p n xs (countAnswers p n 0 xs) where
  length := countAnswers_length p n 0 xs
  reached := by
    intro hle
    obtain ⟨i, x, hx, hp, hcount⟩ := exists_isNth hn hle
    exact ⟨i, ⟨x, hx, hp, hcount⟩, (onlyTrue_countAnswers hx).mpr ⟨hp, by omega⟩⟩
  missed := by
    intro hlt hmem
    obtain ⟨i, hi⟩ := List.mem_iff_getElem?.mp hmem
    obtain ⟨x, hx, hp, hcount⟩ := countAnswers_true.mp hi
    have hnth : IsNth p n i xs := ⟨x, hx, hp, by omega⟩
    have hle := hnth.le
    omega

/-- **Answering yes to every element with the property** is right when there is no such element, or one
and the first is asked for. -/
theorem answersNth_map_iff (p : α → Bool) {n : ℕ} (hn : 1 ≤ n) (xs : List α) :
    AnswersNth p n xs (xs.map p) ↔ xs.countP p = 0 ∨ n = 1 ∧ xs.countP p = 1 := by
  have htrue : ∀ i : ℕ, (xs.map p)[i]? = some true ↔ ∃ x, xs[i]? = some x ∧ p x = true := by
    intro i
    rw [List.getElem?_map, Option.map_eq_some_iff]
  constructor
  · intro h
    by_cases hzero : xs.countP p = 0
    · exact .inl hzero
    · -- the first element with the property is answered yes, and so is the last
      have hone : 1 ≤ xs.countP p := by omega
      obtain ⟨first, x, hx, hpx, hfirst⟩ := exists_isNth (Nat.le_refl 1) hone
      obtain ⟨last, y, hy, hpy, hlast⟩ := exists_isNth hone (Nat.le_refl _)
      have hyes := (htrue first).mpr ⟨x, hx, hpx⟩
      have hle : n ≤ xs.countP p := by
        by_contra hlt
        exact h.missed (by omega) (List.mem_of_getElem? hyes)
      obtain ⟨i, ⟨z, hz, hpz, hcount⟩, honly⟩ := h.reached hle
      rw [(honly first).mp hyes] at hfirst
      rw [(honly last).mp ((htrue last).mpr ⟨y, hy, hpy⟩)] at hlast
      exact .inr (by omega)
  · intro h
    refine ⟨List.length_map _, fun hle => ?_, fun hlt hmem => ?_⟩
    · obtain ⟨i, x, hx, hpx, hcount⟩ := exists_isNth hn hle
      refine ⟨i, ⟨x, hx, hpx, hcount⟩, fun j => ?_⟩
      rw [htrue]
      constructor
      · intro ⟨y, hy, hpy⟩
        obtain hlt | heq | hgt := Nat.lt_trichotomy j i
        · have := countP_take_lt hx hpx hlt
          have hpos : 0 < (xs.take (j + 1)).countP p := by
            rw [List.countP_pos_iff]
            exact ⟨y, List.mem_of_getElem? (i := j) (by rw [List.getElem?_take, if_pos (by omega), hy]),
              hpy⟩
          omega
        · exact heq
        · have := countP_take_lt hy hpy hgt
          have := (List.take_sublist (j + 1) xs).countP_le (p := p)
          omega
      · intro hj
        rw [hj]
        exact ⟨x, hx, hpx⟩
    · have hzero : xs.countP p = 0 := by omega
      obtain ⟨x, hx, hpx⟩ := List.mem_map.mp hmem
      rw [List.countP_eq_zero] at hzero
      exact hzero x hx hpx

/-! ### Comparing two counts -/

end Sieve.Library
