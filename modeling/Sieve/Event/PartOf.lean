import Sieve.Event.Canonical
import Sieve.Event.DiffSpec

/-!
# Parts of states

When one state is a part of another, and what keeps it so:

* `partOfValue_arr_iff`, `partOfEventAsMap_iff`: item by item and field by field;
* `partOfValue_of_equal`: equal values are parts of each other;
* `diff_partOf`: both sides of a difference are parts of the states they come from;
* `canonicalizeField_partOf`: canonicalization keeps parts.
-/

namespace Sieve.Event

variable {d d' : Dialect}

theorem partOfValue_scalar {a b : Json} (ha : a.IsScalar) :
    partOfValue d a b = a.equal d.scalarEqual b := by
  cases a with
  | arr items => exact ha.elim
  | obj fields => exact ha.elim
  | _ => rw [partOfValue] <;> exact nofun

theorem partOfValue_apart {a b : Json} (hapart : ¬ Together a b) :
    partOfValue d a b = a.equal d.scalarEqual b := by
  cases a with
  | arr items =>
    cases b with
    | arr bs => exact absurd (.arr items bs) hapart
    | _ => rw [partOfValue, Json.equal] <;> exact fun _ h => by cases h
  | obj fields =>
    cases b with
    | obj bs => exact absurd (.obj fields bs) hapart
    | _ => rw [partOfValue, Json.equal] <;> exact fun _ h => by cases h
  | _ => exact partOfValue_scalar trivial

/-- An array is a part of arrays only, item by item; skipped items do not count. -/
theorem partOfValue_arr_iff (hlaw : LawfulScalars d.scalarEqual) {as bs : List Json} :
    partOfValue d (.arr as) (.arr bs) = true ↔
      List.Forall₂ (fun a b => a = .str SIEVE_IDX_SKIP ∨ partOfValue d a b = true) as bs := by
  rw [partOfValue, Bool.and_eq_true, beq_iff_eq]
  induction as generalizing bs with
  | nil => cases bs <;> simp [partOfItems]
  | cons a as ih =>
    cases bs with
    | nil => simp
    | cons b bs =>
      rw [List.forall₂_cons, ← ih, partOfItems, Bool.and_eq_true, Bool.or_eq_true, isSkip_iff hlaw]
      simp only [List.length_cons, Nat.add_right_cancel_iff]
      tauto

/-- Every field is there, with a part of its value. -/
theorem partOfEventAsMap_iff {a b : Fields} : partOfEventAsMap d a b = true ↔
    ∀ field ∈ a, ∃ y, b.lookup field.1 = some y ∧ partOfValue d field.2 y = true := by
  induction a with
  | nil => simp [partOfEventAsMap]
  | cons field a ih =>
    obtain ⟨key, x⟩ := field
    rw [partOfEventAsMap, Bool.and_eq_true, ih, List.forall_mem_cons]
    apply and_congr_left'
    cases b.lookup key with
    | none => simp
    | some y => simp

theorem partOfEventAsMap_iff_lookup {a b : Fields} (hkeys : (a.map Prod.fst).Nodup) :
    partOfEventAsMap d a b = true ↔ ∀ key x, a.lookup key = some x →
      ∃ y, b.lookup key = some y ∧ partOfValue d x y = true := by
  rw [partOfEventAsMap_iff]
  constructor
  · exact fun h key x hx => h _ (lookup_mem hx)
  · exact fun h field hmem => h _ _ (mem_lookup hkeys hmem)

theorem partOfValue_obj {a b : Fields} :
    partOfValue d (.obj a) (.obj b) = partOfEventAsMap d a b := by
  rw [partOfValue]

/-- What holds an array as a part is an array. -/
theorem partOfValue_arr {as : List Json} {b : Json} (h : partOfValue d (.arr as) b = true) :
    ∃ bs, b = .arr bs := by
  cases b with
  | arr bs => exact ⟨bs, rfl⟩
  | _ => simp [partOfValue] at h

/-- What holds an object as a part is an object. -/
theorem partOfValue_obj_right {a : Fields} {b : Json} (h : partOfValue d (.obj a) b = true) :
    ∃ bs, b = .obj bs := by
  cases b with
  | obj bs => exact ⟨bs, rfl⟩
  | _ => simp [partOfValue] at h

/-- A state with more fields has the same parts. -/
theorem partOfEventAsMap_mono {a b b' : Fields}
    (hmore : ∀ key y, b.lookup key = some y → b'.lookup key = some y)
    (h : partOfEventAsMap d a b = true) : partOfEventAsMap d a b' = true := by
  rw [partOfEventAsMap_iff] at h ⊢
  intro field hmem
  obtain ⟨y, hy, hpart⟩ := h field hmem
  exact ⟨y, hmore _ _ hy, hpart⟩

/-- **Equal values are parts of each other.** -/
theorem partOfValue_of_equal (hlaw : LawfulScalars d.scalarEqual) {x y : Json}
    (h : Json.Equal d.scalarEqual x y) : partOfValue d x y = true := by
  induction x using Json.induct generalizing y with
  | scalar x hscalar =>
    rw [partOfValue_scalar hscalar]
    exact h
  | arr items ih =>
    obtain ⟨ys, rfl⟩ := h.arr
    rw [equal_arr_iff] at h
    rw [partOfValue_arr_iff hlaw]
    induction h with
    | nil => exact .nil
    | @cons x y xs ys hxy _ ih' =>
      exact .cons (.inr (ih x (by simp) hxy)) (ih' fun z hz => ih z (List.mem_cons_of_mem x hz))
  | obj fields ih =>
    obtain ⟨ys, rfl⟩ := h.obj
    rw [Json.Equal, Json.equal, Bool.and_eq_true, equalFields_iff] at h
    rw [partOfValue_obj, partOfEventAsMap_iff]
    intro field hmem
    obtain ⟨y, hy, hequal⟩ := h.2 field hmem
    exact ⟨y, hy, ih field hmem hequal⟩

theorem partOfValue_self (hlaw : LawfulScalars d.scalarEqual) {x : Json} (hx : x.Distinct) :
    partOfValue d x x = true :=
  partOfValue_of_equal hlaw (.refl hlaw hx)

/-! ### Differences -/

theorem diffItems_partOf (hlaw : LawfulScalars d'.scalarEqual) {prev cur : List Json}
    (hp : ∀ p ∈ prev, p.Distinct) (hc : ∀ c ∈ cur, c.Distinct)
    (h : ∀ p ∈ prev, ∀ c ∈ cur, ∀ x y, diffValue d p c = some (x, y) →
      partOfValue d' x p = true ∧ partOfValue d' y c = true) :
    List.Forall₂ (fun a b => a = .str SIEVE_IDX_SKIP ∨ partOfValue d' a b = true)
      (diffItems d prev cur).1 prev ∧
    List.Forall₂ (fun a b => a = .str SIEVE_IDX_SKIP ∨ partOfValue d' a b = true)
      (diffItems d prev cur).2 cur := by
  have hself : ∀ {items : List Json}, (∀ x ∈ items, x.Distinct) →
      List.Forall₂ (fun a b => a = .str SIEVE_IDX_SKIP ∨ partOfValue d' a b = true) items items :=
    fun hitems => List.forall₂_same.mpr fun x hmem => .inr (partOfValue_self hlaw (hitems x hmem))
  induction prev generalizing cur with
  | nil =>
    rw [diffItems_nil_left]
    exact ⟨.nil, hself hc⟩
  | cons p prev ih =>
    cases cur with
    | nil =>
      rw [diffItems_nil_right]
      exact ⟨hself hp, .nil⟩
    | cons c cur =>
      obtain ⟨hrest₁, hrest₂⟩ := ih (fun q hq => hp q (List.mem_cons_of_mem _ hq))
        (fun q hq => hc q (List.mem_cons_of_mem _ hq)) (fun q hq c hc =>
          h q (List.mem_cons_of_mem _ hq) c (List.mem_cons_of_mem _ hc))
      rw [diffItems_cons, itemSides]
      cases hdiff : diffValue d p c with
      | none => exact ⟨.cons (.inl rfl) hrest₁, .cons (.inl rfl) hrest₂⟩
      | some sides =>
        obtain ⟨h₁, h₂⟩ := h p (by simp) c (by simp) _ _ hdiff
        exact ⟨.cons (.inr h₁) hrest₁, .cons (.inr h₂) hrest₂⟩

/-- **Both sides of a difference are parts**, also where parts are judged in the other language. -/
theorem diffValue_partOf (hlaw : LawfulScalars d'.scalarEqual) {p c x y : Json} (hp : p.Distinct)
    (hc : c.Distinct) (h : diffValue d p c = some (x, y)) :
    partOfValue d' x p = true ∧ partOfValue d' y c = true := by
  induction p, c using together_induct generalizing x y with
  | apart p c hapart =>
    obtain ⟨rfl, rfl, _⟩ := diffValue_apart_some hapart h
    exact ⟨partOfValue_self hlaw hp, partOfValue_self hlaw hc⟩
  | arr prev cur ih =>
    obtain ⟨rfl, rfl, _⟩ := diffValue_arr_some h
    rw [partOfValue_arr_iff hlaw, partOfValue_arr_iff hlaw]
    exact diffItems_partOf hlaw hp.items hc.items fun p hmem c hmem' x y hdiff =>
      ih p hmem c hmem' (hp.items p hmem) (hc.items c hmem') hdiff
  | obj prev cur ih =>
    obtain ⟨rfl, rfl, _⟩ := diffValue_obj_some h
    obtain ⟨hkeys₁, hkeys₂⟩ := mapDiff_keys (d := d) hp.keys hc.keys
    have hsides : ∀ key p c x y, prev.lookup key = some p → cur.lookup key = some c →
        diffValue d p c = some (x, y) → partOfValue d' x p = true ∧ partOfValue d' y c = true :=
      fun key p c x y hlp hlc hdiff =>
        ih key p c hlp hlc (lookup_distinct hp hlp) (lookup_distinct hc hlc) hdiff
    rw [partOfValue_obj, partOfEventAsMap_iff, partOfValue_obj, partOfEventAsMap_iff]
    refine ⟨fun field hmem => ?_, fun field hmem => ?_⟩
    · have hlookup := mem_lookup hkeys₁ hmem
      rw [mapDiff_fst_lookup hp.keys] at hlookup
      cases hlp : prev.lookup field.1 with
      | none =>
        rw [hlp] at hlookup
        cases hlookup
      | some p =>
        refine ⟨p, rfl, ?_⟩
        cases hlc : cur.lookup field.1 with
        | none =>
          rw [hlp, hlc] at hlookup
          rw [← Option.some.inj hlookup]
          exact partOfValue_self hlaw (lookup_distinct hp hlp)
        | some c =>
          rw [hlp, hlc] at hlookup
          obtain ⟨sides, hdiff, heq⟩ := Option.map_eq_some_iff.mp hlookup
          rw [← heq]
          exact (hsides _ p c _ _ hlp hlc hdiff).1
    · have hlookup := mem_lookup hkeys₂ hmem
      rw [mapDiff_snd_lookup hp.keys] at hlookup
      cases hlc : cur.lookup field.1 with
      | none =>
        rw [hlc] at hlookup
        cases hlp : prev.lookup field.1 <;> rw [hlp] at hlookup <;> cases hlookup
      | some c =>
        refine ⟨c, rfl, ?_⟩
        cases hlp : prev.lookup field.1 with
        | none =>
          rw [hlp, hlc] at hlookup
          rw [← Option.some.inj hlookup]
          exact partOfValue_self hlaw (lookup_distinct hc hlc)
        | some p =>
          rw [hlp, hlc] at hlookup
          obtain ⟨sides, hdiff, heq⟩ := Option.map_eq_some_iff.mp hlookup
          rw [← heq]
          exact (hsides _ p c _ _ hlp hlc hdiff).2

theorem diff_partOf (hlaw : LawfulScalars d'.scalarEqual) {prev cur : Fields}
    (hp : Json.Distinct (.obj prev)) (hc : Json.Distinct (.obj cur)) {diff : Fields × Fields}
    (h : diffEventAsMap d prev cur = some diff) :
    partOfEventAsMap d' diff.1 prev = true ∧ partOfEventAsMap d' diff.2 cur = true := by
  rw [← partOfValue_obj, ← partOfValue_obj]
  refine @diffValue_partOf d d' hlaw _ _ _ _ hp hc ?_
  rw [diffValue_obj, h]
  rfl

/-! ### Canonical states -/

variable {fieldKeyMask fieldPathMask : Finset String}

/-- **Canonicalization keeps parts.** -/
theorem canonicalizeField_partOf (hlaw : LawfulScalars d'.scalarEqual) (currentPath : String)
    {a b : Json} (h : partOfValue d' a b = true) :
    partOfValue d' (canonicalizeField d fieldKeyMask fieldPathMask currentPath a)
      (canonicalizeField d fieldKeyMask fieldPathMask currentPath b) = true := by
  have hsame : ∀ s, partOfValue d' (.str s) (.str s) = true :=
    fun s => partOfValue_self hlaw (.scalar trivial)
  induction a using Json.induct generalizing currentPath b with
  | scalar a hscalar =>
    rw [partOfValue_scalar hscalar] at h
    have hequal := (equal_scalar_iff hscalar).mp h
    have hb := hlaw.scalar _ _ hequal
    by_cases hstr : ∃ s, a = .str s ∨ b = .str s
    · obtain ⟨s, hs⟩ := hstr
      have ha : a = .str s := by
        rcases hs with ha | hbs
        · exact ha
        · exact hlaw.str _ _ (hbs ▸ hequal)
      have hbs : b = .str s := hlaw.str _ _ (hlaw.symm _ _ (ha ▸ hequal))
      rw [ha, hbs, canonicalizeField_str]
      exact hsame _
    · simp only [not_exists, not_or] at hstr
      rw [canonicalizeField_scalar currentPath hscalar fun s => (hstr s).1,
        canonicalizeField_scalar currentPath hb fun s => (hstr s).2, partOfValue_scalar hscalar]
      exact h
  | arr items ih =>
    obtain ⟨bs, rfl⟩ := partOfValue_arr h
    rw [partOfValue_arr_iff hlaw] at h
    rw [canonicalizeField_arr, canonicalizeField_arr, partOfValue_arr_iff hlaw,
      List.forall₂_map_left_iff, List.forall₂_map_right_iff]
    induction h with
    | nil => exact .nil
    | @cons x y xs ys hxy _ ih' =>
      refine .cons ?_ (ih' fun z hz => ih z (List.mem_cons_of_mem x hz))
      rw [canonicalizeItem, canonicalizeItem]
      split
      · exact .inr (hsame _)
      · rcases hxy with hskip | hpart
        · rw [hskip, canonicalizeField_str, skip_not_masked]
          exact .inl rfl
        · exact .inr (ih x (by simp) _ hpart)
  | obj fields ih =>
    obtain ⟨bs, rfl⟩ := partOfValue_obj_right h
    rw [partOfValue_obj, partOfEventAsMap_iff] at h
    rw [canonicalizeField_obj, canonicalizeField_obj, partOfValue_obj, partOfEventAsMap_iff]
    intro field hmem
    rw [canonicalizeEventAsMap_eq] at hmem
    obtain ⟨field, hfield, rfl⟩ := List.mem_map.mp hmem
    obtain ⟨y, hy, hpart⟩ := h field hfield
    refine ⟨_, by rw [canonicalizeEventAsMap_lookup, hy]; rfl, ?_⟩
    rw [canonicalizeUnder, canonicalizeUnder]
    split
    · exact hsame _
    · exact ih field hfield _ hpart

theorem canonicalizeEventAsMap_partOf (hlaw : LawfulScalars d'.scalarEqual) (parentPath : String)
    {a b : Fields} (h : partOfEventAsMap d' a b = true) :
    partOfEventAsMap d' (canonicalizeEventAsMap d fieldKeyMask fieldPathMask parentPath a)
      (canonicalizeEventAsMap d fieldKeyMask fieldPathMask parentPath b) = true := by
  rw [← partOfValue_obj] at h ⊢
  rw [← canonicalizeField_obj, ← canonicalizeField_obj]
  exact canonicalizeField_partOf hlaw parentPath h

end Sieve.Event
