import Mathlib
import Sieve.Event.EventDelta
import Sieve.Event.Paths

/-!
# The form of states in the API server

`event.go` converts states and masks of the controller into the form that the API server has for
built-in objects: the fields of `metadata` stand outside, and the other names begin with a capital.

* `GoRune`: a Go string may be cut inside a character;
* `capitalizeFirst`: what becomes of a key, and of a part of a path;
* `convertMaskedPath`: a masked path.
-/

namespace Sieve.Server

open Sieve.Event

/-! ### Strings that are cut -/

/-- A character of a Go string, or a byte that belongs to none. -/
inductive GoRune where
  | char (c : Char)
  | byte (b : UInt8)
  deriving DecidableEq

def goText (text : List Char) : List GoRune := text.map .char

theorem goText_injective : Function.Injective goText :=
  List.map_injective_iff.mpr fun _ _ h => GoRune.char.inj h

/-- `strings.ToUpper(s[0:1]) + s[1:]`, which panics when `s` is empty.  The first byte of a character
that is not ASCII is none, and is replaced. -/
def capitalizeFirst : List Char → Option (List GoRune)
  | [] => none
  | c :: rest =>
    if c.toNat < 128 then some (goText (c.toUpper :: rest))
    else some (.char '\uFFFD' :: (String.utf8EncodeChar c).tail.map .byte ++ goText rest)

/-- A character that is not ASCII falls apart. -/
theorem capitalizeFirst_ne_goText {c : Char} (hc : ¬ c.toNat < 128) (rest text : List Char) :
    capitalizeFirst (c :: rest) ≠ some (goText text) := by
  rw [capitalizeFirst, if_neg hc]
  intro h
  have hlength : 2 ≤ (String.utf8EncodeChar c).length := by
    rw [String.length_utf8EncodeChar]
    have hne : c.utf8Size ≠ 1 := by
      rw [ne_eq, Char.utf8Size_eq_one_iff, UInt32.le_iff_toNat_le]
      exact fun hle => hc (Nat.lt_succ_of_le hle)
    have hpos := c.utf8Size_pos
    omega
  obtain ⟨b, bytes, hbytes⟩ : ∃ b bytes, (String.utf8EncodeChar c).tail = b :: bytes := by
    refine List.exists_cons_of_ne_nil fun hnil => ?_
    have htail := congrArg List.length hnil
    rw [List.length_tail, List.length_nil] at htail
    omega
  have hmem : GoRune.byte b ∈ goText text := by
    rw [← Option.some.inj h, hbytes]
    simp
  obtain ⟨c', -, hc'⟩ := List.mem_map.mp hmem
  cases hc'

theorem toUpper_eq_self_iff {c : Char} : c.toUpper = c ↔ c.isLower = false := by
  constructor
  · intro h
    rw [← h]
    exact c.isLower_toUpper_eq_false
  · intro h
    exact Char.toUpper_eq_of_not_isLower (by simp [h])

/-- The text begins with an ASCII character that has no capital. -/
def IsCapital (text : List Char) : Prop :=
  ∃ c rest, text = c :: rest ∧ c.toNat < 128 ∧ c.isLower = false

theorem not_isCapital_nil : ¬ IsCapital [] := by
  rintro ⟨c, rest, h, -⟩
  cases h

theorem isCapital_cons {c : Char} {rest : List Char} :
    IsCapital (c :: rest) ↔ c.toNat < 128 ∧ c.isLower = false := by
  constructor
  · rintro ⟨c', rest', heq, h⟩
    obtain ⟨rfl, rfl⟩ := List.cons.inj heq
    exact h
  · exact fun h => ⟨c, rest, rfl, h⟩

theorem capitalizeFirst_eq_iff {text : List Char} :
    capitalizeFirst text = some (goText text) ↔ IsCapital text := by
  cases text with
  | nil => exact iff_of_false (by simp [capitalizeFirst]) not_isCapital_nil
  | cons c rest =>
    rw [isCapital_cons]
    by_cases hc : c.toNat < 128
    · rw [capitalizeFirst, if_pos hc, Option.some.injEq, goText_injective.eq_iff, List.cons.injEq,
        toUpper_eq_self_iff]
      simp [hc]
    · exact iff_of_false (capitalizeFirst_ne_goText hc rest _) fun h => hc h.1

/-! ### Masked paths -/

/-- What `convertFieldPathMaskToAPIForm` makes of a path; `none` is where it panics. -/
def convertMaskedPath (maskedPath : List Char) : Option (List GoRune) :=
  if "metadata/".toList.isPrefixOf maskedPath then some (goText (maskedPath.drop 9))
  else ((splitSlash maskedPath).mapM capitalizeFirst).map ([GoRune.char '/'].intercalate ·)

end Sieve.Server
