import Mathlib.Data.Nat.Factorization.Basic
import Mathlib.Tactic.FieldSimp
import Mathlib.Tactic.LinearCombination
import Sieve.Library.Binary64
import Sieve.Library.Text

/-!
# Decimal numbers with a point

The numbers of JSON texts.

* `parseDecimal`: an integer without leading zeros, a fraction and an exponent;
* `formatDecimal`: the digits of a number, by long division;
* `IsDecimal`: numbers that have finitely many, as all 64-bit floating-point numbers do;
* `parseDecimal_formatDecimal`: these are read back.
-/

namespace Sieve.Library

/-! ### Digits after the point -/

def digitValue (c : Char) : ℕ := c.toNat - 48

/-- What the digits after the point are worth. -/
def fractionValue : Text → ℚ
  | [] => 0
  | c :: text => (digitValue c + fractionValue text) / 10

/-- The digits of `rem / den`, as far as there are places. -/
def fractionDigits : ℕ → ℕ → ℕ → Text
  | 0, _, _ => []
  | places + 1, rem, den =>
    if rem = 0 then [] else Nat.digitChar (rem * 10 / den) :: fractionDigits places (rem * 10 % den) den

theorem digitValue_digitChar {n : ℕ} (hn : n < 10) : digitValue (Nat.digitChar n) = n := by
  have hall : ∀ n < 10, digitValue (Nat.digitChar n) = n := by decide
  exact hall n hn

theorem digit_lt {rem den : ℕ} (h : rem < den) : rem * 10 / den < 10 :=
  Nat.div_lt_of_lt_mul (by omega)

/-- **Long division**: with enough places nothing is left. -/
theorem fractionValue_fractionDigits {places rem den : ℕ} (hrem : rem < den) (h : den ∣ rem * 10 ^ places) :
    fractionValue (fractionDigits places rem den) = rem / den := by
  have hpos : (den : ℚ) ≠ 0 := Nat.cast_ne_zero.mpr (Nat.ne_zero_of_lt hrem)
  induction places generalizing rem with
  | zero =>
    have hzero : rem = 0 := by
      rw [pow_zero, mul_one] at h
      exact Nat.eq_zero_of_dvd_of_lt h hrem
    rw [fractionDigits, fractionValue, hzero, Nat.cast_zero, zero_div]
  | succ places ih =>
    rw [fractionDigits]
    split
    · rename_i hzero
      rw [fractionValue, hzero, Nat.cast_zero, zero_div]
    · have hrest : den ∣ rem * 10 % den * 10 ^ places := by
        rw [pow_succ', ← mul_assoc] at h
        rw [Nat.dvd_iff_mod_eq_zero, Nat.mod_mul_mod]
        exact Nat.mod_eq_zero_of_dvd h
      have hsplit : (rem : ℚ) * 10 = den * (rem * 10 / den : ℕ) + (rem * 10 % den : ℕ) := by
        exact_mod_cast (Nat.div_add_mod (rem * 10) den).symm
      rw [fractionValue, digitValue_digitChar (digit_lt hrem), ih (Nat.mod_lt _ (Nat.zero_lt_of_lt hrem)) hrest]
      field_simp
      linear_combination -hsplit

theorem isDigit_fractionDigits {places rem den : ℕ} (hrem : rem < den) :
    ∀ c ∈ fractionDigits places rem den, c.isDigit = true := by
  have hall : ∀ n < 10, (Nat.digitChar n).isDigit = true := by decide
  induction places generalizing rem with
  | zero => exact nofun
  | succ places ih =>
    rw [fractionDigits]
    split
    · exact nofun
    · exact List.forall_mem_cons.mpr ⟨hall _ (digit_lt hrem), ih (Nat.mod_lt _ (Nat.zero_lt_of_lt hrem))⟩

theorem fractionDigits_ne_nil {places rem den : ℕ} (hplaces : 0 < places) (hrem : rem ≠ 0) :
    fractionDigits places rem den ≠ [] := by
  obtain ⟨places, rfl⟩ := Nat.exists_eq_add_one_of_ne_zero hplaces.ne'
  rw [fractionDigits, if_neg hrem]
  exact List.cons_ne_nil _ _

/-! ### Reading -/

/-- Digits before the point, without a zero in front of them. -/
def parseWhole (text : Text) : Option ℕ :=
  if text = ['0'] ∨ text.head? ≠ some '0' then parseNat text else none

/-- The point and at least one digit, or nothing. -/
def parseFraction : Text → Option ℚ
  | [] => some 0
  | _ :: text => if text ≠ [] ∧ ∀ c ∈ text, c.isDigit = true then some (fractionValue text) else none

/-- An `e` and an integer, or nothing. -/
def parseExponent : Text → Option ℤ
  | [] => some 0
  | _ :: text => parseInt text

def isExponentChar (c : Char) : Bool := c == 'e' || c == 'E'

def parseUnsigned (text : Text) : Option ℚ := do
  let mantissa := text.takeWhile (!isExponentChar ·)
  let whole ← parseWhole (mantissa.takeWhile (· != '.'))
  let fraction ← parseFraction (mantissa.dropWhile (· != '.'))
  let exponent ← parseExponent (text.dropWhile (!isExponentChar ·))
  some ((whole + fraction) * 10 ^ exponent)

def parseDecimal : Text → Option ℚ
  | '-' :: text => (parseUnsigned text).map Neg.neg
  | text => parseUnsigned text

example : parseDecimal "-12.50e+1".toList = some (-125) := by decide +kernel

example : parseDecimal "01".toList = none := by decide +kernel

/-! ### Writing -/

def formatUnsigned (num den : ℕ) : Text :=
  Nat.toDigits 10 (num / den) ++ if den = 1 then [] else '.' :: fractionDigits den (num % den) den

def formatDecimal (q : ℚ) : Text :=
  if q < 0 then '-' :: formatUnsigned q.num.natAbs q.den else formatUnsigned q.num.natAbs q.den

example : formatDecimal (-5 / 4) = "-1.25".toList := by decide +kernel

/-- The number has finitely many digits. -/
def IsDecimal (q : ℚ) : Prop := ∃ places, q.den ∣ 10 ^ places

theorem isDecimal_intCast (n : ℤ) : IsDecimal n := ⟨0, by rw [Rat.den_intCast, pow_zero]⟩

/-- As many places as the denominator says are enough. -/
theorem dvd_ten_pow_self {n places : ℕ} (h : n ∣ 10 ^ places) : n ∣ 10 ^ n := by
  have hpow : ∀ k, 10 ^ k ≠ 0 := fun k => pow_ne_zero k (by decide)
  have hn : n ≠ 0 := ne_zero_of_dvd_ne_zero (hpow places) h
  rw [← Nat.factorization_le_iff_dvd hn (hpow n)]
  intro p
  have hle := (Nat.factorization_le_iff_dvd hn (hpow places)).mpr h p
  rw [Nat.factorization_pow, Finsupp.smul_apply, smul_eq_mul] at hle ⊢
  rcases Nat.eq_zero_or_pos ((10 : ℕ).factorization p) with hzero | hpos
  · rw [hzero, mul_zero] at hle ⊢
    exact hle
  · exact (Nat.factorization_lt p hn).le.trans (Nat.le_mul_of_pos_right n hpos)

theorem head_toDigits {n : ℕ} (hn : 0 < n) : (Nat.toDigits 10 n).head? ≠ some '0' := by
  induction n using Nat.strongRecOn with
  | ind n ih =>
    rw [Nat.toDigits_eq_if (by decide)]
    split
    · rename_i hlt
      have hall : ∀ n < 10, 0 < n → Nat.digitChar n ≠ '0' := by decide
      rw [List.head?_cons, ne_eq, Option.some.injEq]
      exact hall n hlt hn
    · rw [List.head?_append_of_ne_nil _ Nat.toDigits_ne_nil]
      exact ih (n / 10) (by omega) (by omega)

theorem parseWhole_toDigits (n : ℕ) : parseWhole (Nat.toDigits 10 n) = some n := by
  rw [parseWhole, if_pos ?_, parseNat_toDigits]
  rcases Nat.eq_zero_or_pos n with rfl | hpos
  · exact .inl (Nat.toDigits_zero 10)
  · exact .inr (head_toDigits hpos)

/-- The characters of a number without a sign. -/
theorem mem_formatUnsigned {num den : ℕ} (hden : den ≠ 0) :
    ∀ c ∈ formatUnsigned num den, c.isDigit = true ∨ c = '.' := by
  intro c hmem
  rcases List.mem_append.mp hmem with hmem | hmem
  · exact .inl (Nat.isDigit_of_mem_toDigits (by decide) (by decide) hmem)
  · split at hmem
    · cases hmem
    · rcases List.mem_cons.mp hmem with rfl | hmem
      · exact .inr rfl
      · exact .inl (isDigit_fractionDigits (Nat.mod_lt _ (Nat.pos_of_ne_zero hden)) c hmem)

/-- The two parts are the number. -/
theorem whole_add_fraction (num : ℕ) {den : ℕ} (hden : den ≠ 0) :
    ((num / den : ℕ) : ℚ) + ((num % den : ℕ) : ℚ) / den = num / den := by
  have hne : (den : ℚ) ≠ 0 := Nat.cast_ne_zero.mpr hden
  have hsplit : (num : ℚ) = den * (num / den : ℕ) + (num % den : ℕ) := by
    exact_mod_cast (Nat.div_add_mod num den).symm
  field_simp
  linear_combination -hsplit

theorem isExponentChar_of_mem {num den : ℕ} (hden : den ≠ 0) :
    ∀ c ∈ formatUnsigned num den, (!isExponentChar c) = true := by
  intro c hmem
  rw [Bool.not_eq_true', isExponentChar, Bool.or_eq_false_iff, beq_eq_false_iff_ne, beq_eq_false_iff_ne]
  rcases mem_formatUnsigned hden c hmem with hdigit | rfl
  · constructor
    · rintro rfl
      cases hdigit
    · rintro rfl
      cases hdigit
  · decide

theorem parseUnsigned_formatUnsigned {num den places : ℕ} (hden : den ≠ 0) (hcoprime : num.Coprime den)
    (h : den ∣ 10 ^ places) : parseUnsigned (formatUnsigned num den) = some (num / den : ℚ) := by
  have hplain := @isExponentChar_of_mem num den hden
  have hpoint : ∀ c ∈ Nat.toDigits 10 (num / den), (c != '.') = true := by
    intro c hmem
    rw [bne_iff_ne]
    rintro rfl
    cases Nat.isDigit_of_mem_toDigits (by decide) (by decide) hmem
  have hfraction : ∀ text : Text, text.head? = none ∨ text.head? = some '.' →
      (Nat.toDigits 10 (num / den) ++ text).takeWhile (· != '.') = Nat.toDigits 10 (num / den) ∧
        (Nat.toDigits 10 (num / den) ++ text).dropWhile (· != '.') = text := by
    intro text hhead
    rw [List.takeWhile_append_of_pos hpoint, List.dropWhile_append_of_pos hpoint]
    cases text with
    | nil => simp
    | cons c text =>
      rcases hhead with hnone | hsome
      · cases hnone
      · rw [List.head?_cons, Option.some.injEq] at hsome
        simp [hsome]
  rw [parseUnsigned, List.takeWhile_eq_self_iff.mpr hplain, List.dropWhile_eq_nil_iff.mpr hplain, formatUnsigned]
  by_cases hone : den = 1
  · rw [if_pos hone, (hfraction [] (.inl rfl)).1, (hfraction [] (.inl rfl)).2, parseWhole_toDigits]
    simp [parseFraction, parseExponent, hone]
  · have hrem : num % den ≠ 0 := by
      intro hzero
      exact hone ((Nat.gcd_eq_right (Nat.dvd_of_mod_eq_zero hzero)).symm.trans hcoprime)
    have hlt := Nat.mod_lt num (Nat.pos_of_ne_zero hden)
    have hplaces : den ∣ num % den * 10 ^ den := Dvd.dvd.mul_left (dvd_ten_pow_self h) _
    have hread : parseFraction ('.' :: fractionDigits den (num % den) den) = some ((num % den : ℕ) / den : ℚ) := by
      rw [parseFraction, if_pos ⟨fractionDigits_ne_nil (Nat.pos_of_ne_zero hden) hrem, isDigit_fractionDigits hlt⟩,
        fractionValue_fractionDigits hlt hplaces]
    rw [if_neg hone, (hfraction _ (.inr rfl)).1, (hfraction _ (.inr rfl)).2, parseWhole_toDigits, hread]
    show some ((((num / den : ℕ) : ℚ) + ((num % den : ℕ) : ℚ) / den) * 10 ^ (0 : ℤ)) = _
    rw [whole_add_fraction num hden, zpow_zero, mul_one]

/-- A number without a sign begins with a digit. -/
theorem formatUnsigned_cons (num den : ℕ) :
    ∃ c text, formatUnsigned num den = c :: text ∧ c.isDigit = true := by
  obtain ⟨c, text, htext⟩ := List.exists_cons_of_ne_nil (@Nat.toDigits_ne_nil (num / den) 10)
  refine ⟨c, text ++ _, congrArg (· ++ _) htext, ?_⟩
  exact Nat.isDigit_of_mem_toDigits (by decide) (by decide) (htext ▸ List.mem_cons_self)

/-- **Decimal numbers are read back.** -/
theorem parseDecimal_formatDecimal {q : ℚ} (h : IsDecimal q) : parseDecimal (formatDecimal q) = some q := by
  obtain ⟨places, hplaces⟩ := h
  have hread := parseUnsigned_formatUnsigned q.den_nz q.reduced hplaces
  have habs : (q.num.natAbs : ℚ) / q.den = |q| := by
    rw [Rat.abs_def, Rat.divInt_eq_div, Int.cast_natCast, Int.cast_natCast]
  rw [habs] at hread
  rw [formatDecimal]
  split
  · rename_i hneg
    rw [parseDecimal, hread, abs_of_neg hneg, Option.map_some, neg_neg]
  · rename_i hneg
    obtain ⟨c, text, htext, hdigit⟩ := formatUnsigned_cons q.num.natAbs q.den
    rw [htext] at hread ⊢
    rw [parseDecimal, hread, abs_of_nonneg (not_lt.mp hneg)]
    rintro text' heq
    rw [(List.cons.inj heq).1] at hdigit
    cases hdigit

/-- The characters of a decimal number. -/
theorem mem_formatDecimal {q : ℚ} : ∀ c ∈ formatDecimal q, c.isDigit = true ∨ c = '.' ∨ c = '-' := by
  intro c hmem
  rw [formatDecimal] at hmem
  split at hmem
  · rcases List.mem_cons.mp hmem with rfl | hmem
    · exact .inr (.inr rfl)
    · exact (mem_formatUnsigned q.den_nz c hmem).imp_right .inl
  · exact (mem_formatUnsigned q.den_nz c hmem).imp_right .inl

theorem formatDecimal_ne_nil (q : ℚ) : formatDecimal q ≠ [] := by
  rw [formatDecimal]
  split
  · exact List.cons_ne_nil _ _
  · exact List.append_ne_nil_of_left_ne_nil Nat.toDigits_ne_nil _

end Sieve.Library
