import Sieve.Trigger.TriggerExpr

/-!
# The grammar of trigger expressions

`E ::= name | E;E | E|E | E&E | (E)`, read with `&` above `|` above `;` and every connective
associating to the left.

* `Generates s names`: the text `s` is derived by the grammar, `names` from left to right;
* `Denotes k s e`: `s` stands for `e` and may be used where level `k` is required;
* `Generates.denotes`: every text of the grammar denotes an expression over its names.
-/

namespace Sieve.Trigger

/-- How a connective is written. -/
def Connective.symbol : Connective → String
  | .seq => ";"
  | .and => "&"
  | .or => "|"

/-- How tightly a connective binds. -/
def Connective.level : Connective → ℕ
  | .seq => 1
  | .or => 2
  | .and => 3

theorem Connective.level_pos (op : Connective) : 1 ≤ op.level := by
  cases op <;> decide

theorem Connective.level_lt (op : Connective) : op.level < 4 := by
  cases op <;> decide

/-- The five operator characters. -/
def operatorChars : List Char := [';', '&', '|', '(', ')']

/-- No operator character occurs in the name. -/
def OperatorFree (n : String) : Prop := ∀ c ∈ n.toList, c ∉ operatorChars

-- not the search over all characters
instance (n : String) : Decidable (OperatorFree n) :=
  List.decidableBAll (fun c => c ∉ operatorChars) n.toList

/-- The texts of the grammar, with their names from left to right. -/
inductive Generates : String → List String → Prop where
  | name {n : String} (hne : n ≠ "") (hfree : OperatorFree n) : Generates n [n]
  | binary (op : Connective) {s t : String} {ns ms : List String}
      (hs : Generates s ns) (ht : Generates t ms) :
      Generates (s ++ op.symbol ++ t) (ns ++ ms)
  | paren {s : String} {ns : List String} (hs : Generates s ns) :
      Generates ("(" ++ s ++ ")") ns

/-- The expression a text stands for.  The left operand may be of the connective's own level, the
right operand must bind more tightly. -/
inductive Denotes : ℕ → String → TriggerExpr String → Prop where
  | name {n : String} (hne : n ≠ "") (hfree : OperatorFree n) : Denotes 4 n (.literal n)
  | paren {s : String} {e : TriggerExpr String} (hs : Denotes 1 s e) :
      Denotes 4 ("(" ++ s ++ ")") e
  | binary (op : Connective) {s t : String} {l r : TriggerExpr String}
      (hs : Denotes op.level s l) (ht : Denotes (op.level + 1) t r) :
      Denotes op.level (s ++ op.symbol ++ t) (.node op l r)
  | looser {k : ℕ} {s : String} {e : TriggerExpr String} (hs : Denotes (k + 1) s e) :
      Denotes k s e

namespace Denotes

theorem generates {k : ℕ} {s : String} {e : TriggerExpr String} (h : Denotes k s e) :
    Generates s e.literals := by
  induction h with
  | name hne hfree => exact .name hne hfree
  | paren _ ih => exact .paren ih
  | binary op _ _ ihs iht => exact .binary op ihs iht
  | looser _ ih => exact ih

theorem of_le {k j : ℕ} {s : String} {e : TriggerExpr String} (h : Denotes j s e) (hkj : k ≤ j) :
    Denotes k s e := by
  induction hkj with
  | refl => exact h
  | step _ ih => exact ih h.looser

/-- **Two texts joined by a connective denote an expression again**, whatever their outermost
connectives are: the new connective is inserted at its own level. -/
theorem append (op : Connective) {k : ℕ} {s t : String} {l r : TriggerExpr String}
    (hk : k ≤ op.level) (hs : Denotes k s l) (ht : Denotes k t r) :
    ∃ e, Denotes k (s ++ op.symbol ++ t) e ∧ e.literals = l.literals ++ r.literals := by
  induction ht generalizing s l with
  | name _ _ => exact absurd hk (Nat.not_le.mpr op.level_lt)
  | paren _ _ => exact absurd hk (Nat.not_le.mpr op.level_lt)
  | binary op' _ ht ihs _ =>
    -- the connective goes into the left operand of the right text
    obtain ⟨e, he, hlit⟩ := ihs hk hs
    have h := Denotes.binary op' he ht
    simp only [String.append_assoc] at h ⊢
    exact ⟨_, h, by rw [TriggerExpr.literals, TriggerExpr.literals, hlit, List.append_assoc]⟩
  | @looser k t r ht iht =>
    rcases Nat.eq_or_lt_of_le hk with rfl | hlt
    · exact ⟨_, .binary op hs ht, rfl⟩
    · cases hs with
      | name _ _ => exact absurd hk (Nat.not_le.mpr op.level_lt)
      | paren _ => exact absurd hk (Nat.not_le.mpr op.level_lt)
      | binary op' hs₁ hs₂ =>
        -- the connective goes into the right operand of the left text
        obtain ⟨e, he, hlit⟩ := iht hlt hs₂
        have h := Denotes.binary op' hs₁ he
        simp only [String.append_assoc] at h ⊢
        exact ⟨_, h, by rw [TriggerExpr.literals, TriggerExpr.literals, hlit, List.append_assoc]⟩
      | looser hs =>
        obtain ⟨e, he, hlit⟩ := iht hlt hs
        exact ⟨e, he.looser, hlit⟩

end Denotes

/-- **Every text of the grammar denotes an expression** over the same names. -/
theorem Generates.denotes {s : String} {names : List String} (h : Generates s names) :
    ∃ e, Denotes 1 s e ∧ e.literals = names := by
  induction h with
  | name hne hfree => exact ⟨_, (Denotes.name hne hfree).of_le (by omega), rfl⟩
  | paren _ ih =>
    obtain ⟨e, he, hlit⟩ := ih
    exact ⟨e, he.paren.of_le (by omega), hlit⟩
  | binary op _ _ ihs iht =>
    obtain ⟨l, hl, hllit⟩ := ihs
    obtain ⟨r, hr, hrlit⟩ := iht
    obtain ⟨e, he, hlit⟩ := hl.append op op.level_pos hr
    exact ⟨e, he, by rw [hlit, hllit, hrlit]⟩

theorem Generates.operatorFree {s : String} {names : List String} (h : Generates s names) :
    ∀ n ∈ names, n ≠ "" ∧ OperatorFree n := by
  induction h with
  | name hne hfree =>
    intro n hn
    rw [List.mem_singleton.mp hn]
    exact ⟨hne, hfree⟩
  | paren _ ih => exact ih
  | binary op _ _ ihs iht =>
    intro n hn
    exact (List.mem_append.mp hn).elim (ihs n) (iht n)

end Sieve.Trigger
