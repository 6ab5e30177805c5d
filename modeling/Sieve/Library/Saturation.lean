import Mathlib.Data.Finset.Card
import Mathlib.Data.Set.Finite.Basic

/-!
# Saturation of a finite set

A list of rules that only add elements is applied again and again until one pass adds nothing:

* `subset_applyRules`, `applyRules_eq_self_iff`: one pass grows the set, and adds nothing exactly when
  no rule does;
* `saturate_total`: within finite bounds, as `exists_bound` finds them, the passes come to an end, with a set that every rule
  leaves as it is;
* `saturate_subset`: nothing is added that a closed set lacks.
-/

namespace Sieve.Library

variable {α : Type} {rules : List (Finset α → Finset α)} {s s' : Finset α}

/-- One pass: each rule sees what the rules before it have added. -/
def applyRules (rules : List (Finset α → Finset α)) (s : Finset α) : Finset α :=
  rules.foldl (fun s rule => rule s) s

/-- `none` if the passes have not come to an end. -/
def saturate [DecidableEq α] (rules : List (Finset α → Finset α)) : ℕ → Finset α → Option (Finset α)
  | 0, _ => none
  | fuel + 1, s => if applyRules rules s = s then some s else saturate rules fuel (applyRules rules s)

/-- The rules take nothing away. -/
def Inflationary (rules : List (Finset α → Finset α)) : Prop := ∀ rule ∈ rules, ∀ s, s ⊆ rule s

/-- A set that no rule leaves. -/
def ClosedUnder (rules : List (Finset α → Finset α)) (S : Set α) : Prop :=
  ∀ rule ∈ rules, ∀ s : Finset α, (s : Set α) ⊆ S → (rule s : Set α) ⊆ S

theorem subset_applyRules (hgrow : Inflationary rules) (s : Finset α) : s ⊆ applyRules rules s := by
  induction rules generalizing s with
  | nil => exact Finset.Subset.refl s
  | cons rule rules ih =>
    rw [Inflationary, List.forall_mem_cons] at hgrow
    exact (hgrow.1 s).trans (ih hgrow.2 (rule s))

theorem applyRules_subset {S : Set α} (hclosed : ClosedUnder rules S) (hs : (s : Set α) ⊆ S) :
    (applyRules rules s : Set α) ⊆ S := by
  induction rules generalizing s with
  | nil => exact hs
  | cons rule rules ih =>
    rw [ClosedUnder, List.forall_mem_cons] at hclosed
    exact ih hclosed.2 (hclosed.1 s hs)

/-- **A pass that adds nothing** is one in which no rule adds anything. -/
theorem applyRules_eq_self_iff (hgrow : Inflationary rules) :
    applyRules rules s = s ↔ ∀ rule ∈ rules, rule s = s := by
  induction rules generalizing s with
  | nil => simp [applyRules]
  | cons rule rules ih =>
    rw [Inflationary, List.forall_mem_cons] at hgrow
    rw [List.forall_mem_cons]
    constructor
    · intro hpass
      have hrest := subset_applyRules hgrow.2 (rule s)
      have hfirst : rule s = s := by
        refine Finset.Subset.antisymm ?_ (hgrow.1 s)
        exact hrest.trans hpass.subset
      replace hpass : applyRules rules (rule s) = s := hpass
      rw [hfirst] at hpass
      exact ⟨hfirst, (ih hgrow.2).mp hpass⟩
    · intro hall
      show applyRules rules (rule s) = s
      rw [hall.1]
      exact (ih hgrow.2).mpr hall.2

/-- Rules that each add elements of a finite set stay within finite bounds. -/
theorem exists_bound [DecidableEq α] (hadds : ∀ rule ∈ rules, ∃ m : Finset α, ∀ s, rule s ⊆ s ∪ m)
    (s : Finset α) : ∃ bound : Finset α, s ⊆ bound ∧ ClosedUnder rules bound := by
  induction rules generalizing s with
  | nil => exact ⟨s, Finset.Subset.refl s, nofun⟩
  | cons rule rules ih =>
    rw [List.forall_mem_cons] at hadds
    obtain ⟨m, hm⟩ := hadds.1
    obtain ⟨bound, hs, hclosed⟩ := ih hadds.2 (s ∪ m)
    refine ⟨bound, Finset.union_subset_left hs, List.forall_mem_cons.mpr ⟨?_, hclosed⟩⟩
    intro t ht
    rw [Finset.coe_subset] at ht ⊢
    exact (hm t).trans (Finset.union_subset ht (Finset.union_subset_right hs))

/-- **The passes come to an end** when everything stays within a finite bound. -/
theorem saturate_total [DecidableEq α] (hgrow : Inflationary rules) {bound : Finset α}
    (hbound : ClosedUnder rules bound) (hs : s ⊆ bound) :
    ∃ s' n, (∀ fuel, n ≤ fuel → saturate rules fuel s = some s') ∧ s ⊆ s' ∧
      ∀ rule ∈ rules, rule s' = s' := by
  induction hcard : (bound \ s).card using Nat.strong_induction_on generalizing s with
  | _ card ih =>
    by_cases hpass : applyRules rules s = s
    · refine ⟨s, 1, fun fuel hfuel => ?_, Finset.Subset.refl s,
        (applyRules_eq_self_iff hgrow).mp hpass⟩
      cases fuel with
      | zero => omega
      | succ fuel => rw [saturate, if_pos hpass]
    · have hsubset := subset_applyRules hgrow s
      have hwithin : applyRules rules s ⊆ bound := by
        have hcoe := applyRules_subset hbound (Finset.coe_subset.mpr hs)
        exact Finset.coe_subset.mp hcoe
      have hless : (bound \ applyRules rules s).card < card := by
        rw [← hcard, Finset.card_sdiff_of_subset hwithin, Finset.card_sdiff_of_subset hs]
        have hgrown := Finset.card_lt_card (hsubset.ssubset_of_ne (Ne.symm hpass))
        have hle := Finset.card_le_card hwithin
        omega
      obtain ⟨s', n, hsaturate, hfrom, hfixed⟩ := ih _ hless hwithin rfl
      refine ⟨s', n + 1, fun fuel hfuel => ?_, hsubset.trans hfrom, hfixed⟩
      cases fuel with
      | zero => omega
      | succ fuel =>
        rw [saturate, if_neg hpass]
        exact hsaturate fuel (by omega)

/-- **Nothing is added that a closed set lacks.** -/
theorem saturate_subset [DecidableEq α] {S : Set α} (hclosed : ClosedUnder rules S) {fuel : ℕ}
    (h : saturate rules fuel s = some s') (hs : (s : Set α) ⊆ S) : (s' : Set α) ⊆ S := by
  induction fuel generalizing s with
  | zero => cases h
  | succ fuel ih =>
    rw [saturate] at h
    split at h
    · rw [← Option.some.inj h]
      exact hs
    · exact ih h (applyRules_subset hclosed hs)

end Sieve.Library
