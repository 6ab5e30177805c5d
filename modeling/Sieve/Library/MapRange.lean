import Mathlib.Data.Finset.Card

/-!
# Ranging over a map that the loop body changes

`for k := range m { ... }` in Go leaves the order open.  An entry removed before it is reached is not
produced; an entry created during the loop may be produced or skipped.  The state `σ` holds the map,
`keys` are its present keys, and one round of the body ends as a `Round`:

* `MapRange keys body orig visited s r`: the loop may end with `r` from the state `s`, where `orig`
  are the keys present since the start of the loop and `visited` the produced ones, both as far as
  they have been present ever since;
* `MapRange.rule`: the invariant rule;
* `mapRange_total`: every loop can end;
* `Produces`: the rounds that a loop may come to;
* `mapRange_quiet`, `rangesOver_first`: loops that are easy to follow.
-/

namespace Sieve.Library

/-- How a round of a loop ends: at its end, at a `break`, or with the end of the process. -/
inductive Round (ε σ : Type) where
  | fell (s : σ)
  | broke (s : σ)
  | failed (e : ε)

/-- A round written in `Except`; the flag says whether it ended at a `break`. -/
def Round.ofExcept {ε σ : Type} : Except ε (σ × Bool) → Round ε σ
  | .ok (s, true) => .broke s
  | .ok (s, false) => .fell s
  | .error e => .failed e

theorem Round.ofExcept_fell {ε σ : Type} {x : Except ε (σ × Bool)} {s : σ} :
    Round.ofExcept x = .fell s ↔ x = .ok (s, false) := by
  rcases x with e | ⟨s', _ | _⟩ <;> simp [Round.ofExcept]

theorem Round.ofExcept_broke {ε σ : Type} {x : Except ε (σ × Bool)} {s : σ} :
    Round.ofExcept x = .broke s ↔ x = .ok (s, true) := by
  rcases x with e | ⟨s', _ | _⟩ <;> simp [Round.ofExcept]

theorem Round.ofExcept_failed {ε σ : Type} {x : Except ε (σ × Bool)} {e : ε} :
    Round.ofExcept x = .failed e ↔ x = .error e := by
  rcases x with e | ⟨s', _ | _⟩ <;> simp [Round.ofExcept]

variable {ε σ κ : Type} [DecidableEq κ] {keys : σ → Finset κ} {body : κ → σ → Round ε σ}

inductive MapRange (keys : σ → Finset κ) (body : κ → σ → Round ε σ) :
    Finset κ → Finset κ → σ → Except ε σ → Prop where
  | finish {orig visited : Finset κ} {s : σ} (h : orig ⊆ visited) :
      MapRange keys body orig visited s (.ok s)
  | next {orig visited : Finset κ} {s s' : σ} {r : Except ε σ} {k : κ} (hk : k ∈ keys s)
      (hnew : k ∉ visited) (hbody : body k s = .fell s')
      (hrest : MapRange keys body (orig ∩ keys s') (insert k visited ∩ keys s') s' r) :
      MapRange keys body orig visited s r
  | stop {orig visited : Finset κ} {s s' : σ} {k : κ} (hk : k ∈ keys s) (hnew : k ∉ visited)
      (hbody : body k s = .broke s') : MapRange keys body orig visited s (.ok s')
  | fail {orig visited : Finset κ} {s : σ} {e : ε} {k : κ} (hk : k ∈ keys s)
      (hnew : k ∉ visited) (hbody : body k s = .failed e) :
      MapRange keys body orig visited s (.error e)

/-- The whole loop. -/
def RangesOver (keys : σ → Finset κ) (body : κ → σ → Round ε σ) (s : σ) (r : Except ε σ) : Prop :=
  MapRange keys body (keys s) ∅ s r

/-- **The invariant rule.**  `Inv` speaks of the present keys since the start, of the visited keys
and of the state; `Post` of the result. -/
theorem MapRange.rule (Inv : Finset κ → Finset κ → σ → Prop) (Post : Except ε σ → Prop)
    (hfinish : ∀ orig visited s, Inv orig visited s → orig ⊆ visited → Post (.ok s))
    (hnext : ∀ orig visited s k s', Inv orig visited s → k ∈ keys s → k ∉ visited →
      body k s = .fell s' → Inv (orig ∩ keys s') (insert k visited ∩ keys s') s')
    (hstop : ∀ orig visited s k s', Inv orig visited s → k ∈ keys s → k ∉ visited →
      body k s = .broke s' → Post (.ok s'))
    (hfail : ∀ orig visited s k e, Inv orig visited s → k ∈ keys s → k ∉ visited →
      body k s = .failed e → Post (.error e))
    {orig visited : Finset κ} {s : σ} {r : Except ε σ}
    (h : MapRange keys body orig visited s r) (hinv : Inv orig visited s) : Post r := by
  induction h with
  | finish h => exact hfinish _ _ _ hinv h
  | next hk hnew hbody _ ih => exact ih (hnext _ _ _ _ _ hinv hk hnew hbody)
  | stop hk hnew hbody => exact hstop _ _ _ _ _ hinv hk hnew hbody
  | fail hk hnew hbody => exact hfail _ _ _ _ _ hinv hk hnew hbody

/-- A loop whose body does nothing on the keys still to come can finish. -/
theorem mapRange_quiet {s : σ} {orig visited : Finset κ} (horig : orig ⊆ keys s)
    (hvisited : visited ⊆ keys s) (hquiet : ∀ k ∈ keys s, k ∉ visited → body k s = .fell s) :
    MapRange keys body orig visited s (.ok s) := by
  induction hn : (orig \ visited).card generalizing visited with
  | zero =>
    rw [Finset.card_eq_zero, Finset.sdiff_eq_empty_iff_subset] at hn
    exact .finish hn
  | succ n ih =>
    obtain ⟨k, hk⟩ := Finset.card_pos.mp (by omega : 0 < (orig \ visited).card)
    obtain ⟨hko, hkv⟩ := Finset.mem_sdiff.mp hk
    have hks := horig hko
    refine .next hks hkv (hquiet k hks hkv) ?_
    rw [Finset.inter_eq_left.mpr horig,
      Finset.inter_eq_left.mpr (Finset.insert_subset hks hvisited)]
    refine ih (Finset.insert_subset hks hvisited) (fun k' hk' hnew => ?_) ?_
    · exact hquiet k' hk' fun h => hnew (Finset.mem_insert_of_mem h)
    · rw [Finset.sdiff_insert, Finset.card_erase_of_mem hk, hn]
      rfl

/-- **Every loop can end**: each round over one of the keys present since the start leaves fewer of
them. -/
theorem mapRange_total {s : σ} {orig visited : Finset κ} (horig : orig ⊆ keys s) :
    ∃ r, MapRange keys body orig visited s r := by
  induction hn : (orig \ visited).card using Nat.strong_induction_on generalizing s orig visited with
  | _ n ih =>
    by_cases hall : orig ⊆ visited
    · exact ⟨.ok s, .finish hall⟩
    · obtain ⟨k, hko, hkv⟩ := Finset.not_subset.mp hall
      cases hbody : body k s with
      | broke s' => exact ⟨.ok s', .stop (horig hko) hkv hbody⟩
      | failed e => exact ⟨.error e, .fail (horig hko) hkv hbody⟩
      | fell s' =>
        have hlt : ((orig ∩ keys s') \ (insert k visited ∩ keys s')).card < n := by
          rw [← hn]
          apply Finset.card_lt_card
          rw [Finset.ssubset_iff_of_subset]
          · refine ⟨k, Finset.mem_sdiff.mpr ⟨hko, hkv⟩, fun hmem => ?_⟩
            obtain ⟨hmem, hnot⟩ := Finset.mem_sdiff.mp hmem
            exact hnot (Finset.mem_inter.mpr
              ⟨Finset.mem_insert_self k visited, (Finset.mem_inter.mp hmem).2⟩)
          · intro k' hmem
            obtain ⟨hmem, hnot⟩ := Finset.mem_sdiff.mp hmem
            obtain ⟨ho, hs⟩ := Finset.mem_inter.mp hmem
            refine Finset.mem_sdiff.mpr ⟨ho, fun hv => hnot ?_⟩
            exact Finset.mem_inter.mpr ⟨Finset.mem_insert_of_mem hv, hs⟩
        obtain ⟨r, hrest⟩ := ih _ hlt Finset.inter_subset_right rfl
        exact ⟨r, .next (horig hko) hkv hbody hrest⟩

/-- A loop that first does its work on one key and then finds nothing to do. -/
theorem rangesOver_first {s s' : σ} {k : κ} (hk : k ∈ keys s) (hbody : body k s = .fell s')
    (hquiet : ∀ k' ∈ keys s', k' ≠ k → body k' s' = .fell s') :
    RangesOver keys body s (.ok s') := by
  refine .next hk (Finset.notMem_empty k) hbody (mapRange_quiet Finset.inter_subset_right
    Finset.inter_subset_right ?_)
  intro k' hk' hnew
  refine hquiet k' hk' fun h => hnew ?_
  rw [h] at hk' ⊢
  exact Finset.mem_inter.mpr ⟨Finset.mem_insert_self k ∅, hk'⟩

/-- **A loop whose state carries more** is the loop over what `f` leaves of it. -/
theorem MapRange.map {τ : Type} {body' : κ → τ → Round ε τ} (f : τ → σ)
    (hfell : ∀ k t t', body' k t = .fell t' → body k (f t) = .fell (f t'))
    (hbroke : ∀ k t t', body' k t = .broke t' → body k (f t) = .broke (f t'))
    (hfailed : ∀ k t e, body' k t = .failed e → body k (f t) = .failed e)
    {orig visited : Finset κ} {t : τ} {r : Except ε τ}
    (h : MapRange (fun t => keys (f t)) body' orig visited t r) :
    MapRange keys body orig visited (f t) (r.map f) := by
  induction h with
  | finish h => exact .finish h
  | next hk hnew hbody _ ih => exact .next hk hnew (hfell _ _ _ hbody) ih
  | stop hk hnew hbody => exact .stop hk hnew (hbroke _ _ _ hbody)
  | fail hk hnew hbody => exact .fail hk hnew (hfailed _ _ _ hbody)

/-- The loop may come to a round over `k` in the state `s'`. -/
inductive Produces (keys : σ → Finset κ) (body : κ → σ → Round ε σ) :
    Finset κ → σ → κ → σ → Prop where
  | here {visited : Finset κ} {s : σ} {k : κ} (hk : k ∈ keys s) (hnew : k ∉ visited) :
      Produces keys body visited s k s
  | later {visited : Finset κ} {s s' s'' : σ} {k k' : κ} (hk : k ∈ keys s) (hnew : k ∉ visited)
      (hbody : body k s = .fell s')
      (hrest : Produces keys body (insert k visited ∩ keys s') s' k' s'') :
      Produces keys body visited s k' s''

/-- What every round keeps holds at every round. -/
theorem Produces.rule (Inv : σ → Prop)
    (hnext : ∀ s k s', Inv s → k ∈ keys s → body k s = .fell s' → Inv s')
    {visited : Finset κ} {s s' : σ} {k : κ} (h : Produces keys body visited s k s') (hinv : Inv s) :
    Inv s' ∧ k ∈ keys s' := by
  induction h with
  | here hk _ => exact ⟨hinv, hk⟩
  | later hk _ hbody _ ih => exact ih (hnext _ _ _ hinv hk hbody)

end Sieve.Library
