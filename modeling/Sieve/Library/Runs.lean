import Mathlib.Logic.Relation
import Mathlib.Tactic.ByContra

/-!
# Runs of a transition system

A system is a relation `step` between states, and its runs are the paths of `step`:

* `Always step s₀ P`: `P` holds in every state that a run from `s₀` reaches;
* `Always.of_invariant`: the invariant rule;
* `Always.iff_of_reaches`: two properties that hold in the same systems, although not in the same
  states;
* `Unlabelled step`, `Guarded step guard`: the runs of a system whose steps have labels, and those all
  of whose steps meet a condition on the state before.
-/

namespace Sieve.Library

open Relation (ReflTransGen)

variable {σ : Type} {step : σ → σ → Prop} {s₀ : σ} {P Q : σ → Prop}

def Always (step : σ → σ → Prop) (s₀ : σ) (P : σ → Prop) : Prop :=
  ∀ s, ReflTransGen step s₀ s → P s

theorem Always.initial (h : Always step s₀ P) : P s₀ := h s₀ .refl

/-- **The invariant rule.** -/
theorem Always.of_invariant (hinit : P s₀) (hstep : ∀ s s', P s → step s s' → P s') :
    Always step s₀ P := by
  intro s hrun
  induction hrun with
  | refl => exact hinit
  | tail _ hlast ih => exact hstep _ _ ih hlast

theorem Always.mono (h : Always step s₀ P) (himp : ∀ s, P s → Q s) : Always step s₀ Q :=
  fun s hrun => himp s (h s hrun)

/-- An invariant may be used to show that a step keeps another one. -/
theorem Always.and_of_invariant (h : Always step s₀ P) (hinit : Q s₀)
    (hstep : ∀ s s', P s → Q s → step s s' → Q s') : Always step s₀ fun s => P s ∧ Q s := by
  intro s hrun
  induction hrun with
  | refl => exact ⟨h.initial, hinit⟩
  | @tail s s' hrun hlast ih => exact ⟨h s' (hrun.tail hlast), hstep s s' ih.1 ih.2 hlast⟩

/-- `P` holds always if and only if `Q` does, when `Q` fails only where `P` can still fail. -/
theorem Always.iff_of_reaches
    (hcan : ∀ s, ReflTransGen step s₀ s → ¬ Q s → ∃ s', ReflTransGen step s s' ∧ ¬ P s')
    (himp : Always step s₀ Q → Always step s₀ P) : Always step s₀ P ↔ Always step s₀ Q := by
  refine ⟨fun h s hrun => ?_, himp⟩
  by_contra hQ
  obtain ⟨s', hrest, hP⟩ := hcan s hrun hQ
  exact hP (h s' (hrun.trans hrest))

/-! ### Labelled steps -/

variable {α : Type} {labelled : σ → α → σ → Prop} {guard : σ → α → Prop}

def Unlabelled (labelled : σ → α → σ → Prop) (s s' : σ) : Prop := ∃ label, labelled s label s'

/-- The steps that meet a condition on the state before and the label. -/
def Guarded (labelled : σ → α → σ → Prop) (guard : σ → α → Prop) (s s' : σ) : Prop :=
  ∃ label, guard s label ∧ labelled s label s'

/-- The invariant rule, label by label. -/
theorem Always.of_guarded (hinit : P s₀)
    (hstep : ∀ s label s', P s → guard s label → labelled s label s' → P s') :
    Always (Guarded labelled guard) s₀ P := by
  refine .of_invariant hinit fun s s' hP hlast => ?_
  obtain ⟨label, hguard, hlabelled⟩ := hlast
  exact hstep s label s' hP hguard hlabelled

theorem Always.of_labelled (hinit : P s₀)
    (hstep : ∀ s label s', P s → labelled s label s' → P s') :
    Always (Unlabelled labelled) s₀ P := by
  refine .of_invariant hinit fun s s' hP hlast => ?_
  obtain ⟨label, hlabelled⟩ := hlast
  exact hstep s label s' hP hlabelled

end Sieve.Library
