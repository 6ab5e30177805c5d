import Mathlib.Control.Monad.Basic
import Mathlib.Data.Option.Basic

/-!
# Computations that call procedures, before an observer

A piece of code whose own steps are not of interest is the tree of its calls, and a computation is run
before an observer, whose state the code itself does not see:

* `Calls`: the calls that a piece of code makes, each with what follows for every answer;
* `Computation ω α`: a computation with an observer of state `ω`; it has no outcome where it does not end;
* `Calls.run`: a tree run with the procedures it calls;
* `SameOutcomes R x y`: whatever the observers, both computations end or none, with outcomes in `R`;
* `SameOutcomes.bind`, `Calls.run_sameOutcomes`: this is kept by composition, and by trees of calls;
* `Moves R x`: every run of the computation takes the observer along `R`, with rules for composition and
  for trees of calls.
-/

namespace Sieve.Library

variable {φ ρ α β γ δ ω ω' : Type}

/-- The calls of a piece of code: `φ` are the calls it can make, `ρ` the answers. It may also run on for
ever. -/
inductive Calls (φ ρ α : Type) : Type
  | done (a : α)
  | never
  | call (f : φ) (k : ρ → Calls φ ρ α)

/-- `none` where the computation does not end. -/
abbrev Computation (ω α : Type) := StateT ω Option α

/-- The tree run, where the procedures are run by `answer`. -/
def Calls.run (answer : φ → Computation ω ρ) : Calls φ ρ α → Computation ω α
  | .done a => pure a
  | .never => fun _ => none
  | .call f k => answer f >>= fun r => (k r).run answer

/-! ### The same outcomes, whatever the observer -/

def SameOutcomes (R : α → β → Prop) (x : Computation ω α) (y : Computation ω' β) : Prop :=
  ∀ o o', Option.Rel (fun p q => R p.1 q.1) (x o) (y o')

namespace SameOutcomes

variable {R : α → β → Prop} {Q : γ → δ → Prop} {x : Computation ω α} {y : Computation ω' β}

theorem pure {a : α} {b : β} (h : R a b) :
    SameOutcomes R (Pure.pure a : Computation ω α) (Pure.pure b : Computation ω' β) :=
  fun _ _ => .some h

theorem bind {f : α → Computation ω γ} {g : β → Computation ω' δ} (h : SameOutcomes R x y)
    (hnext : ∀ a b, R a b → SameOutcomes Q (f a) (g b)) : SameOutcomes Q (x >>= f) (y >>= g) := by
  intro o o'
  show Option.Rel _ ((x o).bind fun p => f p.1 p.2) ((y o').bind fun q => g q.1 q.2)
  have hxy := h o o'
  generalize x o = u, y o' = v at hxy ⊢
  cases hxy with
  | none => exact .none
  | @some p q hab => exact hnext p.1 q.1 hab p.2 q.2

theorem mono {R' : α → β → Prop} (h : SameOutcomes R x y) (himp : ∀ a b, R a b → R' a b) :
    SameOutcomes R' x y := by
  intro o o'
  have hxy := h o o'
  generalize x o = u, y o' = v at hxy ⊢
  cases hxy with
  | none => exact .none
  | some hab => exact .some (himp _ _ hab)

/-- A step on one side that always ends, with an outcome in `P`. -/
theorem skip {P : γ → Prop} {z : Computation ω γ} {f : γ → Computation ω α}
    (hends : ∀ o, ∃ p, z o = some p ∧ P p.1) (h : ∀ c, P c → SameOutcomes R (f c) y) :
    SameOutcomes R (z >>= f) y := by
  intro o o'
  obtain ⟨p, hp, hP⟩ := hends o
  have hz : (z >>= f) o = f p.1 p.2 := by
    show (z o).bind _ = _
    rw [hp, Option.bind_some]
  rw [hz]
  exact h p.1 hP p.2 o'

end SameOutcomes

/-- **Trees of calls** have the outcomes that their procedures give them. -/
theorem Calls.run_sameOutcomes {answer : φ → Computation ω ρ} {answer' : φ → Computation ω' ρ}
    (h : ∀ f, SameOutcomes Eq (answer f) (answer' f)) (t : Calls φ ρ α) :
    SameOutcomes Eq (t.run answer) (t.run answer') := by
  induction t with
  | done a => exact SameOutcomes.pure rfl
  | never => exact fun _ _ => .none
  | call f k ih =>
    refine (h f).bind fun r r' hr => ?_
    subst hr
    exact ih r

/-! ### Where the observer is taken -/

theorem bind_eq_some_iff {x : Computation ω α} {f : α → Computation ω β} {o : ω} {p : β × ω} :
    (x >>= f) o = some p ↔ ∃ q, x o = some q ∧ f q.1 q.2 = some p :=
  Option.bind_eq_some_iff

def Moves (R : ω → ω → Prop) (x : Computation ω α) : Prop :=
  ∀ o p, x o = some p → R o p.2

namespace Moves

variable {R : ω → ω → Prop} {x : Computation ω α} {f : α → Computation ω β}

theorem pure (hrefl : ∀ o, R o o) (a : α) : Moves R (Pure.pure a : Computation ω α) := by
  intro o p hp
  cases hp
  exact hrefl o

theorem bind (htrans : ∀ o o₁ o₂, R o o₁ → R o₁ o₂ → R o o₂) (h : Moves R x)
    (hnext : ∀ a, Moves R (f a)) : Moves R (x >>= f) := by
  intro o p hp
  obtain ⟨q, hq, hlast⟩ := bind_eq_some_iff.mp hp
  exact htrans o q.2 p.2 (h o q hq) (hnext q.1 q.2 p hlast)

end Moves

theorem Calls.run_moves {R : ω → ω → Prop} (hrefl : ∀ o, R o o)
    (htrans : ∀ o o₁ o₂, R o o₁ → R o₁ o₂ → R o o₂) {answer : φ → Computation ω ρ}
    (h : ∀ f, Moves R (answer f)) (t : Calls φ ρ α) : Moves R (t.run answer) := by
  induction t with
  | done a => exact Moves.pure hrefl a
  | never => exact nofun
  | call f k ih => exact Moves.bind htrans (h f) ih

end Sieve.Library
