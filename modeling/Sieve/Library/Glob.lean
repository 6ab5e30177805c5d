import Mathlib.Data.List.Forall2
import Mathlib.Data.List.Basic

/-!
# Patterns with a star

Matching a whole name against a pattern in which one letter, the star, stands for any number of letters,
over any alphabet:

* `glob`: the star may be kept from some letters;
* `glob_star_iff`, `glob_cons_iff`: letter by letter;
* `glob_literal_iff`: a pattern without a star matches itself only;
* `glob_parts_iff`: where the star is kept from a separator, names are matched part by part.
-/

namespace Sieve.Library

variable {α : Type} [DecidableEq α]

/-- What is left of the name after letters that the star may stand for. -/
def afterLetters (accept : α → Bool) : List α → List (List α)
  | [] => [[]]
  | x :: xs => (x :: xs) :: if accept x then afterLetters accept xs else []

/-- Does the pattern match the whole name? -/
def glob (star : α) (accept : α → Bool) : List α → List α → Bool
  | [], name => name.isEmpty
  | c :: pattern, name =>
    if c = star then (afterLetters accept name).any (glob star accept pattern)
    else
      match name with
      | [] => false
      | x :: name => c == x && glob star accept pattern name

section Letters

variable {star : α} {accept : α → Bool}

omit [DecidableEq α] in
theorem mem_afterLetters {name rest : List α} : rest ∈ afterLetters accept name ↔
    ∃ letters, name = letters ++ rest ∧ ∀ x ∈ letters, accept x = true := by
  induction name with
  | nil =>
    rw [afterLetters, List.mem_singleton]
    constructor
    · intro h
      exact ⟨[], h.symm, by simp⟩
    · intro ⟨letters, h, _⟩
      exact (List.append_eq_nil_iff.mp h.symm).2
  | cons x name ih =>
    rw [afterLetters, List.mem_cons]
    constructor
    · intro h
      rcases h with rfl | h
      · exact ⟨[], rfl, by simp⟩
      · split at h
        · rename_i hx
          obtain ⟨letters, rfl, hletters⟩ := ih.mp h
          exact ⟨x :: letters, rfl, List.forall_mem_cons.mpr ⟨hx, hletters⟩⟩
        · cases h
    · intro ⟨letters, h, hletters⟩
      cases letters with
      | nil => exact .inl h.symm
      | cons y letters =>
        rw [List.cons_append, List.cons.injEq] at h
        obtain ⟨rfl, h⟩ := h
        obtain ⟨hx, hletters⟩ := List.forall_mem_cons.mp hletters
        rw [if_pos hx]
        exact .inr (ih.mpr ⟨letters, h, hletters⟩)

theorem glob_nil_iff {name : List α} : glob star accept [] name = true ↔ name = [] := by
  rw [glob, List.isEmpty_iff]

theorem glob_star_iff {pattern name : List α} : glob star accept (star :: pattern) name = true ↔
    ∃ letters rest, name = letters ++ rest ∧ (∀ x ∈ letters, accept x = true) ∧
      glob star accept pattern rest = true := by
  show (if star = star then (afterLetters accept name).any (glob star accept pattern) else _) = true ↔ _
  rw [if_pos rfl, List.any_eq_true]
  constructor
  · intro ⟨rest, hmem, hrest⟩
    obtain ⟨letters, hname, hletters⟩ := mem_afterLetters.mp hmem
    exact ⟨letters, rest, hname, hletters, hrest⟩
  · intro ⟨letters, rest, hname, hletters, hrest⟩
    exact ⟨rest, mem_afterLetters.mpr ⟨letters, hname, hletters⟩, hrest⟩

theorem glob_cons_iff {c : α} (hc : c ≠ star) {pattern name : List α} :
    glob star accept (c :: pattern) name = true ↔
      ∃ rest, name = c :: rest ∧ glob star accept pattern rest = true := by
  cases name with
  | nil => simp [glob, hc]
  | cons x name =>
    rw [glob, if_neg hc, Bool.and_eq_true, beq_iff_eq]
    constructor
    · intro ⟨hx, hname⟩
      exact ⟨name, by rw [hx], hname⟩
    · intro ⟨rest, h, hrest⟩
      obtain ⟨rfl, rfl⟩ := List.cons.inj h
      exact ⟨rfl, hrest⟩

/-- **A pattern without a star** matches itself only. -/
theorem glob_literal_iff {pattern name : List α} (hpattern : star ∉ pattern) :
    glob star accept pattern name = true ↔ name = pattern := by
  induction pattern generalizing name with
  | nil => exact glob_nil_iff
  | cons c pattern ih =>
    rw [List.mem_cons, not_or] at hpattern
    rw [glob_cons_iff (Ne.symm hpattern.1)]
    constructor
    · intro ⟨rest, hname, hrest⟩
      rw [hname, (ih hpattern.2).mp hrest]
    · intro hname
      exact ⟨pattern, hname, (ih hpattern.2).mpr rfl⟩

/-- Only the letters of the name count. -/
theorem glob_congr {accept' : α → Bool} {pattern name : List α}
    (h : ∀ x ∈ name, accept x = accept' x) :
    glob star accept pattern name = true ↔ glob star accept' pattern name = true := by
  induction pattern generalizing name with
  | nil => rw [glob, glob]
  | cons c pattern ih =>
    by_cases hc : c = star
    · rw [hc, glob_star_iff, glob_star_iff]
      refine exists_congr fun letters => exists_congr fun rest => and_congr_right fun hname => ?_
      rw [hname] at h
      refine and_congr ?_ (ih fun x hx => h x (List.mem_append_right letters hx))
      exact forall₂_congr fun x hx => by rw [h x (List.mem_append_left rest hx)]
    · rw [glob_cons_iff hc, glob_cons_iff hc]
      refine exists_congr fun rest => and_congr_right fun hname => ih fun x hx => h x ?_
      rw [hname]
      exact List.mem_cons_of_mem c hx

end Letters

/-! ### Part by part -/

section Parts

variable {star sep : α}

/-- The star stands for anything but the separator. -/
abbrev globWithin (star sep : α) : List α → List α → Bool := glob star fun x => x != sep

/-- The star stands for anything. -/
abbrev globAny (star : α) : List α → List α → Bool := glob star fun _ => true

theorem ne_sep_iff {letters : List α} : (∀ x ∈ letters, (x != sep) = true) ↔ sep ∉ letters := by
  constructor
  · intro h hmem
    simpa using h sep hmem
  · intro h x hx
    rw [bne_iff_ne]
    exact fun heq => h (heq ▸ hx)

/-- A separator in the pattern is one in the name, and the other way round. -/
theorem sep_mem_iff (hsep : sep ≠ star) {pattern name : List α}
    (h : globWithin star sep pattern name = true) : sep ∈ pattern ↔ sep ∈ name := by
  induction pattern generalizing name with
  | nil => rw [glob_nil_iff.mp h]
  | cons c pattern ih =>
    by_cases hc : c = star
    · rw [hc] at h ⊢
      obtain ⟨letters, rest, rfl, hletters, hrest⟩ := glob_star_iff.mp h
      rw [List.mem_cons, List.mem_append, ih hrest]
      simp [hsep, ne_sep_iff.mp hletters]
    · obtain ⟨rest, rfl, hrest⟩ := (glob_cons_iff hc).mp h
      rw [List.mem_cons, List.mem_cons, ih hrest]

/-- The first part. -/
theorem glob_first_iff (hsep : sep ≠ star) {first pattern part name : List α} (hfirst : sep ∉ first)
    (hpart : sep ∉ part) :
    globWithin star sep (first ++ sep :: pattern) (part ++ sep :: name) = true ↔
      globWithin star sep first part = true ∧ globWithin star sep pattern name = true := by
  induction first generalizing part with
  | nil =>
    rw [List.nil_append, glob_cons_iff hsep, glob_nil_iff]
    cases part with
    | nil => simp
    | cons x part =>
      rw [List.mem_cons, not_or] at hpart
      simp [Ne.symm hpart.1]
  | cons c first ih =>
    rw [List.mem_cons, not_or] at hfirst
    by_cases hc : c = star
    · rw [hc, List.cons_append, glob_star_iff, glob_star_iff]
      constructor
      · intro ⟨letters, rest, hname, hletters, hrest⟩
        -- the letters end within the part
        obtain ⟨rest', rfl, rfl⟩ : ∃ rest', part = letters ++ rest' ∧ rest = rest' ++ sep :: name := by
          rcases List.append_eq_append_iff.mp hname with ⟨more, hmore, hrest⟩ | hwithin
          · cases more with
            | nil => exact ⟨[], by simpa using hmore.symm, hrest.symm⟩
            | cons x more =>
              obtain ⟨rfl, _⟩ := List.cons.inj hrest
              refine absurd ?_ (ne_sep_iff.mp hletters)
              rw [hmore]
              exact List.mem_append_right part List.mem_cons_self
          · exact hwithin
        obtain ⟨hrest, hmatch⟩ := (ih hfirst.2 fun hmem =>
          hpart (List.mem_append_right letters hmem)).mp hrest
        exact ⟨⟨letters, rest', rfl, hletters, hrest⟩, hmatch⟩
      · intro ⟨⟨letters, rest, hname, hletters, hrest⟩, hmatch⟩
        refine ⟨letters, rest ++ sep :: name, by rw [hname, List.append_assoc], hletters, ?_⟩
        rw [hname] at hpart
        exact (ih hfirst.2 fun hmem => hpart (List.mem_append_right letters hmem)).mpr
          ⟨hrest, hmatch⟩
    · rw [List.cons_append, glob_cons_iff hc, glob_cons_iff hc]
      cases part with
      | nil =>
        simp [hfirst.1]
      | cons x part =>
        rw [List.mem_cons, not_or] at hpart
        constructor
        · intro ⟨rest, hname, hrest⟩
          obtain ⟨rfl, rfl⟩ := List.cons.inj hname
          obtain ⟨hrest, hmatch⟩ := (ih hfirst.2 hpart.2).mp hrest
          exact ⟨⟨part, rfl, hrest⟩, hmatch⟩
        · intro ⟨⟨rest, hname, hrest⟩, hmatch⟩
          obtain ⟨rfl, rfl⟩ := List.cons.inj hname
          exact ⟨part ++ sep :: name, rfl, (ih hfirst.2 hpart.2).mpr ⟨hrest, hmatch⟩⟩

/-- **Part by part**: the star cannot stand for a separator, so names are matched as the lists of their
parts. -/
theorem glob_parts_iff (hsep : sep ≠ star) {patterns parts : List (List α)} (hpatterns : patterns ≠ [])
    (hparts : parts ≠ []) (hfree : ∀ pattern ∈ patterns, sep ∉ pattern)
    (hfree' : ∀ part ∈ parts, sep ∉ part) :
    globWithin star sep ([sep].intercalate patterns) ([sep].intercalate parts) = true ↔
      List.Forall₂ (fun pattern part => globAny star pattern part = true) patterns parts := by
  induction patterns generalizing parts with
  | nil => exact absurd rfl hpatterns
  | cons first patterns ih =>
    obtain ⟨part, parts, rfl⟩ := List.exists_cons_of_ne_nil hparts
    obtain ⟨hfirst, hfree⟩ := List.forall_mem_cons.mp hfree
    obtain ⟨hpart, hfree'⟩ := List.forall_mem_cons.mp hfree'
    have hone : globWithin star sep first part = true ↔ globAny star first part = true :=
      glob_congr fun x hx => bne_iff_ne.mpr fun heq => hpart (heq ▸ hx)
    cases patterns with
    | nil =>
      cases parts with
      | nil => simpa using hone
      | cons second parts =>
        rw [List.intercalate_singleton, List.intercalate_cons_cons]
        refine iff_of_false (fun h => ?_) (fun h => ?_)
        · exact hfirst ((sep_mem_iff hsep h).mpr (by simp))
        · cases h with
          | cons _ h => cases h
    | cons second patterns =>
      rw [List.intercalate_cons_cons, List.append_assoc, List.singleton_append]
      cases parts with
      | nil =>
        rw [List.intercalate_singleton]
        refine iff_of_false (fun h => ?_) (fun h => ?_)
        · exact hpart ((sep_mem_iff hsep h).mp (by simp))
        · cases h with
          | cons _ h => cases h
      | cons part' parts =>
        rw [List.intercalate_cons_cons, List.append_assoc, List.singleton_append,
          glob_first_iff hsep hfirst hpart, hone,
          ih (List.cons_ne_nil _ _) (List.cons_ne_nil _ _) hfree hfree']
        exact (List.forall₂_cons (R := fun pattern part => globAny star pattern part = true)).symm

end Parts

end Sieve.Library
