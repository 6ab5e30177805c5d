import Mathlib.Data.List.Forall2
import Mathlib.Data.List.Induction

/-!
# Folding a step that may fail

Rules for `List.foldlM` in `Except`, for any state and any error:

* `foldlM_cons_ok`, `foldlM_append_ok`: runs are put together from their parts;
* `foldlM_snoc_ok_iff`: a successful run taken apart at its last step;
* `foldlM_invariant`: what every successful step keeps, every successful run keeps;
* `foldlM_total`: steps that cannot fail;
* `mapM_ok_iff`, `foldlM_read_ok`: lists read element by element;
* `Alike`: two runs that agree and do not end in a given error, with rules for `>>=` and `foldlM`.
-/

namespace Sieve.Library

variable {ε σ β : Type} {f : σ → β → Except ε σ} {a b c : σ} {l l' : List β}

theorem bind_ok_iff {α γ : Type} {x : Except ε α} {g : α → Except ε γ} {d : γ} :
    x >>= g = .ok d ↔ ∃ y, x = .ok y ∧ g y = .ok d := by
  cases x with
  | error e => exact ⟨nofun, fun ⟨_, h, _⟩ => nomatch h⟩
  | ok y => exact ⟨fun h => ⟨y, rfl, h⟩, fun ⟨_, h, h'⟩ => Except.ok.inj h ▸ h'⟩

theorem bind_error_iff {α γ : Type} {x : Except ε α} {g : α → Except ε γ} {e : ε} :
    x >>= g = .error e ↔ x = .error e ∨ ∃ y, x = .ok y ∧ g y = .error e := by
  cases x with
  | error e' =>
    exact ⟨fun h => Or.inl (congrArg Except.error (Except.error.inj h)),
      fun h => h.elim (fun h => congrArg Except.error (Except.error.inj h)) fun ⟨_, h, _⟩ => nomatch h⟩
  | ok y =>
    exact ⟨fun h => Or.inr ⟨y, rfl, h⟩,
      fun h => h.elim (fun h => nomatch h) fun ⟨_, h, h'⟩ => Except.ok.inj h ▸ h'⟩

theorem map_ok_iff {α γ : Type} {x : Except ε α} {g : α → γ} {d : γ} :
    x.map g = .ok d ↔ ∃ y, x = .ok y ∧ g y = d := by
  cases x with
  | error e => simp [Except.map]
  | ok y => simp [Except.map]

theorem foldlM_append_ok (h : l.foldlM f a = .ok b) (h' : l'.foldlM f b = .ok c) :
    (l ++ l').foldlM f a = .ok c := by
  rw [List.foldlM_append, h]
  exact h'

theorem foldlM_cons_ok {x : β} (h : f a x = .ok b) (h' : l.foldlM f b = .ok c) :
    (x :: l).foldlM f a = .ok c := by
  rw [List.foldlM_cons, h]
  exact h'

theorem foldlM_singleton {x : β} : [x].foldlM f a = f a x := by
  rw [List.foldlM_cons]
  cases f a x <;> rfl

theorem foldlM_append_ok_iff :
    (l ++ l').foldlM f a = .ok c ↔ ∃ b, l.foldlM f a = .ok b ∧ l'.foldlM f b = .ok c := by
  rw [List.foldlM_append, bind_ok_iff]

theorem foldlM_snoc_ok_iff {x : β} :
    (l ++ [x]).foldlM f a = .ok c ↔ ∃ b, l.foldlM f a = .ok b ∧ f b x = .ok c := by
  rw [foldlM_append_ok_iff]
  apply exists_congr
  intro b
  rw [foldlM_singleton]

/-- **The invariant rule**: `P` may speak of the elements folded so far. -/
theorem foldlM_invariant (P : List β → σ → Prop) (h0 : P [] a)
    (hstep : ∀ xs x s s', P xs s → f s x = .ok s' → P (xs ++ [x]) s')
    (hrun : l.foldlM f a = .ok c) : P l c := by
  induction l using List.reverseRecOn generalizing c with
  | nil => exact Except.ok.inj hrun ▸ h0
  | append_singleton l x ih =>
    obtain ⟨b, hb, hx⟩ := foldlM_snoc_ok_iff.mp hrun
    exact hstep l x b c (ih hb) hx

theorem foldlM_total (h : ∀ s, ∀ x ∈ l, ∃ s', f s x = .ok s') : ∃ c, l.foldlM f a = .ok c := by
  induction l generalizing a with
  | nil => exact ⟨a, rfl⟩
  | cons x l ih =>
    obtain ⟨b, hb⟩ := h a x List.mem_cons_self
    obtain ⟨c, hc⟩ := ih (a := b) fun s y hy => h s y (List.mem_cons_of_mem x hy)
    exact ⟨c, foldlM_cons_ok hb hc⟩

/-! ### Reading a list -/

theorem mapM_ok_iff {γ : Type} {g : β → Except ε γ} {ys : List γ} :
    l.mapM g = .ok ys ↔ List.Forall₂ (fun x y => g x = .ok y) l ys := by
  induction l generalizing ys with
  | nil =>
    rw [List.mapM_nil, List.forall₂_nil_left_iff]
    constructor
    · exact fun h => (Except.ok.inj h).symm
    · exact fun h => congrArg Except.ok h.symm
  | cons x l ih =>
    rw [List.mapM_cons, bind_ok_iff, List.forall₂_cons_left_iff]
    apply exists_congr
    intro y
    rw [bind_ok_iff]
    constructor
    · intro ⟨hx, ys', hl, heq⟩
      exact ⟨ys', hx, ih.mp hl, (Except.ok.inj heq).symm⟩
    · intro ⟨ys', hx, hl, heq⟩
      exact ⟨hx, ys', ih.mpr hl, congrArg Except.ok heq.symm⟩

theorem exists_of_mapM_ok {γ : Type} {g : β → Except ε γ} {ys : List γ} (h : l.mapM g = .ok ys) {y : γ}
    (hy : y ∈ ys) : ∃ x ∈ l, g x = .ok y := by
  have hread := mapM_ok_iff.mp h
  clear h
  induction hread with
  | nil => cases hy
  | @cons x y' l ys hx _ ih =>
    rcases List.mem_cons.mp hy with rfl | hy
    · exact ⟨x, List.mem_cons_self, hx⟩
    · obtain ⟨x', hmem, hx'⟩ := ih hy
      exact ⟨x', List.mem_cons_of_mem x hmem, hx'⟩

theorem mapM_reverse_ok {γ : Type} {g : β → Except ε γ} {ys : List γ} (h : l.mapM g = .ok ys) :
    l.reverse.mapM g = .ok ys.reverse :=
  mapM_ok_iff.mpr (List.rel_reverse (mapM_ok_iff.mp h))

/-- A loop that skips elements and reads the others is a fold over what it reads. -/
theorem foldlM_read_ok {γ : Type} {p : β → Bool} {g : β → Except ε γ} {update : σ → γ → σ} {ys : List γ}
    (hskip : ∀ s x, p x = false → f s x = .ok s)
    (hread : ∀ s x y, p x = true → g x = .ok y → f s x = .ok (update s y))
    (h : (l.filter p).mapM g = .ok ys) : l.foldlM f a = .ok (ys.foldl update a) := by
  induction l generalizing a ys with
  | nil =>
    rw [List.filter_nil, List.mapM_nil] at h
    rw [← Except.ok.inj h]
    rfl
  | cons x l ih =>
    cases hx : p x with
    | false =>
      rw [List.filter_cons_of_neg (by simp [hx])] at h
      exact foldlM_cons_ok (hskip a x hx) (ih h)
    | true =>
      rw [List.filter_cons_of_pos hx, mapM_ok_iff] at h
      cases h with
      | cons hy hys => exact foldlM_cons_ok (hread a x _ hx hy) (ih (mapM_ok_iff.mpr hys))

/-! ### Runs that avoid an error -/

/-- The two runs agree, and they do not end in the error `e`. -/
def Alike {α : Type} (e : ε) (x y : Except ε α) : Prop := x = y ∧ x ≠ .error e

theorem alike_ok {α : Type} (e : ε) (y : α) : Alike e (.ok y) (.ok y) := ⟨rfl, nofun⟩

theorem alike_bind {α γ : Type} {e : ε} {x : Except ε α} {g g' : α → Except ε γ} (hx : x ≠ .error e)
    (h : ∀ y, x = .ok y → Alike e (g y) (g' y)) : Alike e (x >>= g) (x >>= g') := by
  cases x with
  | error e' =>
    refine ⟨rfl, fun heq => hx ?_⟩
    rw [← Except.error.inj heq]
  | ok y => exact h y rfl

/-- The states of the run keep `P`, and in such states every step is settled. -/
theorem alike_foldlM {e : ε} {g : σ → β → Except ε σ} {P : σ → Prop} (ha : P a)
    (hkeep : ∀ s x s', P s → f s x = .ok s' → P s') (h : ∀ s, P s → ∀ x ∈ l, Alike e (f s x) (g s x)) :
    Alike e (l.foldlM f a) (l.foldlM g a) := by
  induction l generalizing a with
  | nil => exact alike_ok e a
  | cons x l ih =>
    have hx := h a ha x List.mem_cons_self
    rw [List.foldlM_cons, List.foldlM_cons, ← hx.1]
    refine alike_bind hx.2 fun s hs => ?_
    exact ih (hkeep a x s ha hs) fun s hs y hy => h s hs y (List.mem_cons_of_mem x hy)

end Sieve.Library
