import Mathlib.Data.List.Basic

/-!
# Nested words

Words over events some of which open and some of which close, where an event may close the latest one
still open:

* `Nested opens pairs`: every event of the word opens or closes, a closing event answers an opening one
  with a nested word between the two, and an opening one may stay unanswered;
* `Nested.append`, `Nested.bracket`: nested words are put together;
* `Nested.closing`: the event that a closing one answers.
-/

namespace Sieve.Library

variable {ε : Type} {opens : ε → Prop} {pairs : ε → ε → Prop}

inductive Nested (opens : ε → Prop) (pairs : ε → ε → Prop) : List ε → Prop
  | nil : Nested opens pairs []
  | opened {b : ε} {w : List ε} : opens b → Nested opens pairs w → Nested opens pairs (b :: w)
  | closed {b a : ε} {w w' : List ε} : opens b → pairs b a → Nested opens pairs w →
      Nested opens pairs w' → Nested opens pairs (b :: (w ++ a :: w'))

namespace Nested

variable {w w' : List ε} {a b : ε}

theorem append (h : Nested opens pairs w) (h' : Nested opens pairs w') :
    Nested opens pairs (w ++ w') := by
  induction h with
  | nil => exact h'
  | opened hb _ ih => exact .opened hb ih
  | closed hb hpair hin _ _ ih =>
    simp only [List.cons_append, List.append_assoc]
    exact .closed hb hpair hin ih

theorem bracket (hopens : opens b) (hpair : pairs b a) (h : Nested opens pairs w) :
    Nested opens pairs (b :: (w ++ [a])) :=
  .closed hopens hpair h .nil

/-- **What a closing event answers**: an event before it, with a nested word between the two. -/
theorem closing (h : Nested opens pairs w) (hclosing : ¬ opens a) {u v : List ε}
    (hw : w = u ++ a :: v) :
    ∃ p b m, u = p ++ b :: m ∧ opens b ∧ pairs b a ∧ Nested opens pairs m := by
  induction h generalizing u v with
  | nil => simp at hw
  | @opened b w hb _ ih =>
    cases u with
    | nil =>
      rw [List.nil_append, List.cons.injEq] at hw
      exact absurd (hw.1 ▸ hb) hclosing
    | cons c u =>
      rw [List.cons_append, List.cons.injEq] at hw
      obtain ⟨p, b', m, rfl, hopens, hpair, hm⟩ := ih hw.2
      exact ⟨c :: p, b', m, rfl, hopens, hpair, hm⟩
  | @closed b a' w₁ w₂ hb hpair hin _ ih₁ ih₂ =>
    cases u with
    | nil =>
      rw [List.nil_append, List.cons.injEq] at hw
      exact absurd (hw.1 ▸ hb) hclosing
    | cons c u =>
      rw [List.cons_append, List.cons.injEq, List.append_eq_append_iff] at hw
      obtain ⟨rfl, ⟨l, hu, hrest⟩ | ⟨l, hu, hrest⟩⟩ := hw
      · cases l with
        | nil =>
          rw [List.nil_append, List.cons.injEq] at hrest
          rw [List.append_nil] at hu
          exact ⟨[], b, w₁, by rw [hu, List.nil_append], hb, hrest.1 ▸ hpair, hin⟩
        | cons d l =>
          rw [List.cons_append, List.cons.injEq] at hrest
          obtain ⟨p, b', m, rfl, hopens, hpair', hm⟩ := ih₂ hrest.2
          exact ⟨b :: w₁ ++ d :: p, b', m, by simp [hu], hopens, hpair', hm⟩
      · cases l with
        | nil =>
          rw [List.nil_append, List.cons.injEq] at hrest
          rw [List.append_nil] at hu
          exact ⟨[], b, w₁, by rw [hu, List.nil_append], hb, hrest.1 ▸ hpair, hin⟩
        | cons d l =>
          rw [List.cons_append, List.cons.injEq] at hrest
          obtain ⟨p, b', m, rfl, hopens, hpair', hm⟩ := ih₁ (hrest.1 ▸ hu)
          exact ⟨b :: p, b', m, rfl, hopens, hpair', hm⟩

end Nested

end Sieve.Library
