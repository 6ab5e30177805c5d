import Mathlib.Data.List.DropRight
import Mathlib.Data.List.Infix
import Mathlib.Order.Basic

/-!
# Texts as lists of characters

What programs that write and read lines of text rest on, in any language:

* `formatInt`, `parseInt`: decimal numbers, with `parseInt_formatInt`;
* `infix_intercalate_iff`, `not_mem_intercalate`: what occurs in a list with separators;
* `fromFirst`: the part of a list from the first occurrence of another one on;
* `strip`: a list without the occurrences of an element at both ends;
* `readlines`: the lines of a text, whichever way they end.
-/

namespace Sieve.Library

abbrev Text := List Char

-- decided on the text, not on all characters there are
instance decidableForallChar (p : Char → Prop) [DecidablePred p] (text : List Char) :
    Decidable (∀ c ∈ text, p c) :=
  List.decidableBAll p text

/-! ### Decimal numbers -/

def formatInt : ℤ → Text
  | .ofNat n => Nat.toDigits 10 n
  | .negSucc n => '-' :: Nat.toDigits 10 (n + 1)

/-- A natural number in ASCII digits. -/
def parseNat (text : Text) : Option ℕ :=
  if text ≠ [] ∧ ∀ c ∈ text, c.isDigit = true then some (Nat.ofDigitChars 10 text 0) else none

/-- A number in ASCII digits, with or without a sign. -/
def parseInt : Text → Option ℤ
  | '-' :: text => (parseNat text).map fun n => -(n : ℤ)
  | '+' :: text => (parseNat text).map Int.ofNat
  | text => (parseNat text).map Int.ofNat

theorem parseNat_toDigits (n : ℕ) : parseNat (Nat.toDigits 10 n) = some n := by
  rw [parseNat, if_pos ⟨Nat.toDigits_ne_nil, fun c hc =>
    Nat.isDigit_of_mem_toDigits (by decide) (by decide) hc⟩, Nat.ofDigitChars_ten_toDigits]

theorem parseInt_of_isDigit {c : Char} {text : Text} (h : c.isDigit = true) :
    parseInt (c :: text) = (parseNat (c :: text)).map Int.ofNat := by
  rw [parseInt]
  · intro text' heq
    rw [(List.cons.inj heq).1] at h
    exact absurd h (by decide)
  · intro text' heq
    rw [(List.cons.inj heq).1] at h
    exact absurd h (by decide)

/-- **Numbers are read back.** -/
theorem parseInt_formatInt (n : ℤ) : parseInt (formatInt n) = some n := by
  cases n with
  | ofNat n =>
    rw [formatInt]
    cases htext : Nat.toDigits 10 n with
    | nil => exact absurd htext Nat.toDigits_ne_nil
    | cons c text =>
      have hc : c.isDigit = true :=
        Nat.isDigit_of_mem_toDigits (by decide) (by decide) (htext ▸ List.mem_cons_self)
      rw [parseInt_of_isDigit hc, ← htext, parseNat_toDigits]
      rfl
  | negSucc n =>
    rw [formatInt, parseInt, parseNat_toDigits]
    rfl

/-- A number has no character that is neither a digit nor a minus. -/
theorem not_mem_formatInt {c : Char} (hc : c.isDigit = false) (hminus : c ≠ '-') (n : ℤ) :
    c ∉ formatInt n := by
  have hdigits : ∀ m, c ∉ Nat.toDigits 10 m := by
    intro m hmem
    rw [Nat.isDigit_of_mem_toDigits (by decide) (by decide) hmem] at hc
    cases hc
  cases n with
  | ofNat n => exact hdigits n
  | negSucc n => simp [formatInt, hminus, hdigits]

/-! ### Searching -/

section Search

variable {α : Type} {pattern l l' : List α} {x : α}

/-- A pattern without the separator lies in one of two separated parts. -/
theorem infix_append_cons_iff (hx : x ∉ pattern) :
    pattern <:+: l ++ x :: l' ↔ pattern <:+: l ∨ pattern <:+: l' := by
  constructor
  · intro hwithin
    obtain hleft | hright | ⟨s, t, rfl, hs, ht⟩ := List.infix_append_iff.mp hwithin
    · exact Or.inl hleft
    · obtain hstarts | hwithin := List.infix_cons_iff.mp hright
      · cases pattern with
        | nil => exact Or.inl List.nil_infix
        | cons y pattern =>
          rw [(List.cons_prefix_cons.mp hstarts).1] at hx
          exact absurd List.mem_cons_self hx
      · exact Or.inr hwithin
    · cases t with
      | nil =>
        rw [List.append_nil]
        exact Or.inl hs.isInfix
      | cons y t =>
        rw [(List.cons_prefix_cons.mp ht).1] at hx
        exact absurd (List.mem_append_right s List.mem_cons_self) hx
  · rintro (hleft | hright)
    · exact hleft.trans (List.prefix_append l (x :: l')).isInfix
    · exact hright.trans ((List.suffix_cons x l').trans (List.suffix_append l (x :: l'))).isInfix

/-- A pattern without the separator lies in one of the separated lists. -/
theorem infix_intercalate_iff {ls : List (List α)} (hx : x ∉ pattern) (hne : pattern ≠ []) :
    pattern <:+: [x].intercalate ls ↔ ∃ l ∈ ls, pattern <:+: l := by
  induction ls with
  | nil => simp [hne]
  | cons l ls ih =>
    cases ls with
    | nil => simp
    | cons l' ls =>
      rw [List.intercalate_cons_cons, List.append_assoc, List.singleton_append,
        infix_append_cons_iff hx, ih]
      simp

/-- What lacks the first element of the pattern may be left out before. -/
theorem infix_append_iff (hx : x ∉ l) : x :: pattern <:+: l ++ l' ↔ x :: pattern <:+: l' := by
  induction l with
  | nil => rfl
  | cons y l ih =>
    rw [List.cons_append, List.infix_cons_iff, ih fun hmem => hx (List.mem_cons_of_mem y hmem),
      List.cons_prefix_cons]
    simp [List.ne_of_not_mem_cons hx]

theorem not_mem_intercalate {ls : List (List α)} (hls : ∀ l ∈ ls, x ∉ l) (hx : x ∉ pattern) :
    x ∉ pattern.intercalate ls := by
  induction ls with
  | nil => simp
  | cons l ls ih =>
    cases ls with
    | nil => simpa using hls
    | cons l' ls =>
      rw [List.intercalate_cons_cons, List.mem_append, List.mem_append, not_or, not_or]
      exact ⟨⟨hls l List.mem_cons_self, hx⟩,
        ih fun m hm => hls m (List.mem_cons_of_mem l hm)⟩

variable [DecidableEq α]

/-- The part of the list from the first occurrence of the pattern on. -/
def fromFirst (pattern : List α) : List α → Option (List α)
  | [] => if pattern = [] then some [] else none
  | x :: l => if pattern <+: x :: l then some (x :: l) else fromFirst pattern l

theorem fromFirst_isSome : (fromFirst pattern l).isSome = true ↔ pattern <:+: l := by
  induction l with
  | nil => simp [fromFirst]
  | cons x l ih =>
    rw [fromFirst, List.infix_cons_iff]
    split
    · simp [*]
    · simp [*]

theorem fromFirst_of_prefix (h : pattern <+: l) : fromFirst pattern l = some l := by
  cases l with
  | nil => simp [fromFirst, List.prefix_nil.mp h]
  | cons x l => rw [fromFirst, if_pos h]

/-- What comes before the first element of the pattern is skipped. -/
theorem fromFirst_append (hx : x ∉ l) :
    fromFirst (x :: pattern) (l ++ l') = fromFirst (x :: pattern) l' := by
  induction l with
  | nil => rfl
  | cons y l ih =>
    rw [List.cons_append, fromFirst, if_neg, ih fun hmem => hx (List.mem_cons_of_mem y hmem)]
    intro hstarts
    rw [(List.cons_prefix_cons.mp hstarts).1] at hx
    exact hx List.mem_cons_self

end Search

/-! ### Stripping -/

section Strip

variable {α : Type} [DecidableEq α] {l : List α} {x : α}

/-- The list without the occurrences of the element at both ends. -/
def strip (x : α) (l : List α) : List α := (l.dropWhile (· == x)).rdropWhile (· == x)

theorem strip_append_singleton (h : x ∉ l) : strip x (l ++ [x]) = l := by
  cases l with
  | nil => simp [strip]
  | cons y l =>
    have hy : (y == x) = false := by
      rw [beq_eq_false_iff_ne]
      rintro rfl
      exact h List.mem_cons_self
    rw [strip, List.cons_append, List.dropWhile_cons_of_neg (by simp [hy]), ← List.cons_append,
      List.rdropWhile_concat_pos _ _ _ (by simp), List.rdropWhile_eq_self_iff]
    intro hne
    rw [beq_iff_eq]
    rintro rfl
    exact h (List.getLast_mem hne)

end Strip

/-! ### Lines -/

/-- Every end of a line becomes a newline. -/
def translateNewlines : Text → Text
  | [] => []
  | '\r' :: '\n' :: text => '\n' :: translateNewlines text
  | '\r' :: text => '\n' :: translateNewlines text
  | c :: text => c :: translateNewlines text

/-- The lines, each with its newline. -/
def splitLines : Text → List Text
  | [] => []
  | c :: text =>
    if c = '\n' then ['\n'] :: splitLines text
    else
      match splitLines text with
      | [] => [[c]]
      | line :: lines => (c :: line) :: lines

def readlines (text : Text) : List Text := splitLines (translateNewlines text)

section Lines

variable {text text' pattern : Text}

theorem splitLines_ne_nil (h : text ≠ []) : splitLines text ≠ [] := by
  cases text with
  | nil => exact absurd rfl h
  | cons c text =>
    rw [splitLines]
    split
    · exact List.cons_ne_nil _ _
    · split <;> exact List.cons_ne_nil _ _

theorem splitLines_append (text text' : Text) :
    splitLines (text ++ '\n' :: text') = splitLines (text ++ ['\n']) ++ splitLines text' := by
  induction text with
  | nil => simp [splitLines]
  | cons c text ih =>
    rw [List.cons_append, List.cons_append, splitLines, splitLines, ih]
    split
    · rfl
    · cases hlines : splitLines (text ++ ['\n']) with
      | nil => exact absurd hlines (splitLines_ne_nil (by simp))
      | cons line lines => rfl

/-- The first line. -/
theorem splitLines_first (h : '\n' ∉ text) :
    splitLines (text ++ '\n' :: text') = (text ++ ['\n']) :: splitLines text' := by
  rw [splitLines_append]
  suffices splitLines (text ++ ['\n']) = [text ++ ['\n']] by rw [this]; rfl
  induction text with
  | nil => rfl
  | cons c text ih =>
    rw [List.cons_append, splitLines, if_neg (List.ne_of_not_mem_cons h).symm,
      ih (List.not_mem_of_not_mem_cons h)]

theorem flatten_splitLines (text : Text) : (splitLines text).flatten = text := by
  induction text with
  | nil => rfl
  | cons c text ih =>
    rw [splitLines]
    split
    · rename_i hc
      rw [List.flatten_cons, ih, hc]
      rfl
    · cases hlines : splitLines text with
      | nil =>
        rw [hlines] at ih
        rw [← ih]
        rfl
      | cons line lines =>
        rw [hlines] at ih
        rw [← ih]
        rfl

theorem infix_of_mem_splitLines {line : Text} (h : line ∈ splitLines text) : line <:+: text := by
  have hwithin := List.infix_of_mem_flatten h
  rwa [flatten_splitLines] at hwithin

theorem translateNewlines_cons {c : Char} (hc : c ≠ '\r') (text : Text) :
    translateNewlines (c :: text) = c :: translateNewlines text := by
  rw [translateNewlines]
  · exact fun _ heq _ => hc heq
  · exact hc

theorem translateNewlines_append_of_not_mem (h : '\r' ∉ text) (text' : Text) :
    translateNewlines (text ++ text') = text ++ translateNewlines text' := by
  induction text with
  | nil => rfl
  | cons c text ih =>
    rw [List.cons_append, translateNewlines_cons (List.ne_of_not_mem_cons h).symm,
      ih (List.not_mem_of_not_mem_cons h)]
    rfl

theorem translateNewlines_append (text text' : Text) :
    translateNewlines (text ++ '\n' :: text') =
      translateNewlines (text ++ ['\n']) ++ translateNewlines text' := by
  induction text using translateNewlines.induct with
  | case1 => simp [translateNewlines]
  | case2 text ih => simp [translateNewlines, ih]
  | case3 text hnot ih =>
    cases text with
    | nil => simp [translateNewlines]
    | cons c text =>
      have hc : c ≠ '\n' := by
        rintro rfl
        exact hnot text rfl
      simpa [translateNewlines, hc] using ih
  | case4 c text _ hc ih =>
    have hc : c ≠ '\r' := hc
    simp [translateNewlines_cons hc, ih]

theorem eq_nil_of_prefix_newline (hn : '\n' ∉ pattern) (h : pattern <+: '\n' :: text) :
    pattern = [] := by
  cases pattern with
  | nil => rfl
  | cons c pattern =>
    rw [(List.cons_prefix_cons.mp h).1] at hn
    exact absurd List.mem_cons_self hn

theorem prefix_of_prefix_translateNewlines (hn : '\n' ∉ pattern)
    (h : pattern <+: translateNewlines text) : pattern <+: text := by
  induction text using translateNewlines.induct generalizing pattern with
  | case1 => exact h
  | case2 text ih =>
    rw [eq_nil_of_prefix_newline hn h]
    exact List.nil_prefix
  | case3 text hnot ih =>
    rw [translateNewlines.eq_3 text hnot] at h
    rw [eq_nil_of_prefix_newline hn h]
    exact List.nil_prefix
  | case4 c text _ hc ih =>
    rw [translateNewlines_cons hc] at h
    cases pattern with
    | nil => exact List.nil_prefix
    | cons c' pattern =>
      obtain ⟨rfl, hrest⟩ := List.cons_prefix_cons.mp h
      exact List.cons_prefix_cons.mpr ⟨rfl, ih (List.not_mem_of_not_mem_cons hn) hrest⟩

/-- What occurs without an end of a line was there before. -/
theorem infix_of_infix_translateNewlines (hn : '\n' ∉ pattern)
    (h : pattern <:+: translateNewlines text) : pattern <:+: text := by
  induction text using translateNewlines.induct with
  | case1 => exact h
  | case2 text ih =>
    obtain hstarts | hwithin := List.infix_cons_iff.mp h
    · rw [eq_nil_of_prefix_newline hn hstarts]
      exact List.nil_infix
    · exact (ih hwithin).trans (List.suffix_append ['\r', '\n'] text).isInfix
  | case3 text hnot ih =>
    rw [translateNewlines.eq_3 text hnot] at h
    obtain hstarts | hwithin := List.infix_cons_iff.mp h
    · rw [eq_nil_of_prefix_newline hn hstarts]
      exact List.nil_infix
    · exact (ih hwithin).trans (List.suffix_cons '\r' text).isInfix
  | case4 c text _ hc ih =>
    rw [translateNewlines_cons hc] at h
    obtain _ | hwithin := List.infix_cons_iff.mp h
    · rename_i hstarts
      rw [← translateNewlines_cons hc] at hstarts
      exact (prefix_of_prefix_translateNewlines hn hstarts).isInfix
    · exact (ih hwithin).trans (List.suffix_cons c text).isInfix

theorem translateNewlines_newline (text : Text) :
    ∃ text', translateNewlines (text ++ ['\n']) = text' ++ ['\n'] := by
  induction text using translateNewlines.induct with
  | case1 => exact ⟨[], by simp [translateNewlines]⟩
  | case2 text ih =>
    obtain ⟨text', heq⟩ := ih
    exact ⟨'\n' :: text', by simp [translateNewlines, heq]⟩
  | case3 text hnot ih =>
    cases text with
    | nil => exact ⟨[], by simp [translateNewlines]⟩
    | cons c text =>
      obtain ⟨text', heq⟩ := ih
      have hc : c ≠ '\n' := by
        rintro rfl
        exact hnot text rfl
      refine ⟨'\n' :: text', ?_⟩
      rw [List.cons_append] at heq
      simp [translateNewlines, hc, heq]
  | case4 c text _ hc ih =>
    obtain ⟨text', heq⟩ := ih
    exact ⟨c :: text', by rw [List.cons_append, translateNewlines_cons hc, heq, List.cons_append]⟩

/-- Texts that end are read one after the other. -/
theorem readlines_append (text text' : Text) :
    readlines (text ++ '\n' :: text') = readlines (text ++ ['\n']) ++ readlines text' := by
  obtain ⟨line, heq⟩ := translateNewlines_newline text
  rw [readlines, translateNewlines_append, heq, List.append_assoc, List.singleton_append,
    splitLines_append, readlines, heq, readlines]

/-- A line is read as it is. -/
theorem readlines_line (hn : '\n' ∉ text) (hr : '\r' ∉ text) :
    readlines (text ++ ['\n']) = [text ++ ['\n']] := by
  rw [readlines, translateNewlines_append_of_not_mem hr]
  exact splitLines_first hn

theorem infix_of_mem_readlines {line : Text} (hline : line ∈ readlines text) (hn : '\n' ∉ pattern)
    (h : pattern <:+: line) : pattern <:+: text :=
  infix_of_infix_translateNewlines hn (h.trans (infix_of_mem_splitLines hline))

end Lines

end Sieve.Library
