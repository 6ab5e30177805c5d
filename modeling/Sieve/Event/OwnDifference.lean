import Sieve.Event.Gains
import Sieve.Event.SameChange

/-!
# Pairs that are differences

A pair of values that a difference can be is the difference of its own sides.

* `OwnDifference`: the relation on the two sides;
* `ownDifference_of_diff`: every difference is one;
* `sameDifference_iff`: an update has this difference exactly when it makes the same change;
* `partOfValue_iff`: one value is a part of another when it gains nothing over it;
* `gains_congr`: over equal values the same is a gain.
-/

namespace Sieve.Event

variable {d : Dialect}

/-- The pair shows nothing but what is different on its two sides. -/
def OwnDifference (d : Dialect) (x y : Json) : Prop := SameDifference d (diffValue d x y) (some (x, y))

/-! ### Equal updates -/

theorem items_rel {R : Json → Json → Prop} {xs ys : List Json} (h : List.Forall₂ R xs ys) (i : ℕ) :
    Option.Rel R xs[i]? ys[i]? := by
  induction h generalizing i with
  | nil => exact .none
  | cons hxy _ ih =>
    cases i with
    | zero => exact .some hxy
    | succ i => exact ih i

/-- Equal values in the same places, where the ones on both sides make the same change. -/
theorem sameEntry_of_equal {p c p' c' : Option Json}
    (hprev : Option.Rel (Json.Equal d.scalarEqual) p p')
    (hcur : Option.Rel (Json.Equal d.scalarEqual) c c')
    (h : ∀ x y x' y', p = some x → c = some y → p' = some x' → c' = some y' →
      Json.Equal d.scalarEqual x x' → Json.Equal d.scalarEqual y y' → SameChange d d d x y x' y') :
    SameEntry d d d p c p' c' := by
  cases hprev with
  | none =>
    cases hcur with
    | none => exact .absent
    | some hcur => exact .added hcur
  | some hprev =>
    cases hcur with
    | none => exact .removed hprev
    | some hcur => exact .both (h _ _ _ _ rfl rfl rfl rfl hprev hcur)

/-- **Equal states make the same change.** -/
theorem sameChange_of_equal (hlaw : LawfulScalars d.scalarEqual) {p c p' c' : Json} (hp : p.Distinct)
    (hc : c.Distinct) (hp' : p'.Distinct) (hc' : c'.Distinct) (hprev : Json.Equal d.scalarEqual p p')
    (hcur : Json.Equal d.scalarEqual c c') : SameChange d d d p c p' c' := by
  induction p, c using together_induct generalizing p' c' with
  | apart p c hapart =>
    by_cases hequal : Json.Equal d.scalarEqual p c
    · refine .unchanged hequal ?_
      exact (hprev.symm hlaw hp hp').trans hlaw hp' hp hc' (hequal.trans hlaw hp hc hc' hcur)
    · refine .replaced hapart (fun h => hapart (together_left_of_equal hlaw hprev hcur h)) hequal
        (fun h => hequal ?_) hprev hcur
      exact hprev.trans hlaw hp hp' hc (h.trans hlaw hp' hc' hc (hcur.symm hlaw hc hc'))
  | arr prev cur ih =>
    obtain ⟨prev', rfl⟩ := hprev.arr
    obtain ⟨cur', rfl⟩ := hcur.arr
    rw [equal_arr_iff] at hprev hcur
    refine .items hprev.length_eq hcur.length_eq fun i => ?_
    refine sameEntry_of_equal (items_rel hprev i) (items_rel hcur i) ?_
    intro x y x' y' hx hy hx' hy' hxx' hyy'
    have hmem := List.mem_of_getElem? hx
    have hmem' := List.mem_of_getElem? hy
    exact ih x hmem y hmem' (hp.items x hmem) (hc.items y hmem')
      (hp'.items x' (List.mem_of_getElem? hx')) (hc'.items y' (List.mem_of_getElem? hy')) hxx' hyy'
  | obj prev cur ih =>
    obtain ⟨prev', rfl⟩ := hprev.obj
    obtain ⟨cur', rfl⟩ := hcur.obj
    rw [equal_obj_iff hp.keys hp'.keys] at hprev
    rw [equal_obj_iff hc.keys hc'.keys] at hcur
    refine .fields fun key => sameEntry_of_equal (hprev key) (hcur key) ?_
    intro x y x' y' hx hy hx' hy' hxx' hyy'
    exact ih key x y hx hy (lookup_distinct hp hx) (lookup_distinct hc hy) (lookup_distinct hp' hx')
      (lookup_distinct hc' hy') hxx' hyy'

/-! ### An update and its difference -/

theorem diffItems_entry {prev cur : List Json}
    (h : ∀ p ∈ prev, ∀ c ∈ cur,
      SameChange d d d p c (itemSides d p c).1 (itemSides d p c).2)
    (hlaw : LawfulScalars d.scalarEqual) (hp : ∀ p ∈ prev, p.Distinct) (hc : ∀ c ∈ cur, c.Distinct)
    (i : ℕ) : SameEntry d d d prev[i]? cur[i]? (diffItems d prev cur).1[i]?
      (diffItems d prev cur).2[i]? := by
  induction prev generalizing cur i with
  | nil =>
    rw [diffItems_nil_left, List.getElem?_nil]
    cases hi : cur[i]? with
    | none => exact .absent
    | some c => exact .added (.refl hlaw (hc c (List.mem_of_getElem? hi)))
  | cons p prev ih =>
    cases cur with
    | nil =>
      rw [diffItems_nil_right, List.getElem?_nil]
      cases hi : (p :: prev)[i]? with
      | none => exact .absent
      | some p' => exact .removed (.refl hlaw (hp p' (List.mem_of_getElem? hi)))
    | cons c cur =>
      rw [diffItems_cons]
      cases i with
      | zero => exact .both (h p List.mem_cons_self c List.mem_cons_self)
      | succ i =>
        exact ih (fun q hq r hr => h q (List.mem_cons_of_mem p hq) r (List.mem_cons_of_mem c hr))
          (fun q hq => hp q (List.mem_cons_of_mem p hq)) (fun r hr => hc r (List.mem_cons_of_mem c hr)) i

/-- **An update makes the change of its difference.** -/
theorem sameChange_diff (hlaw : LawfulScalars d.scalarEqual) {p c x y : Json} (hp : p.Distinct)
    (hc : c.Distinct) (h : diffValue d p c = some (x, y)) : SameChange d d d p c x y := by
  induction p, c using together_induct generalizing x y with
  | apart p c hapart =>
    obtain ⟨rfl, rfl, hne⟩ := diffValue_apart_some hapart h
    exact .replaced hapart hapart hne hne (.refl hlaw hp) (.refl hlaw hc)
  | arr prev cur ih =>
    obtain ⟨rfl, rfl, _⟩ := diffValue_arr_some h
    obtain ⟨hprev, hcur⟩ := diffItems_length (d := d) prev cur
    refine .items hprev.symm hcur.symm (diffItems_entry (fun p hmem c hmem' => ?_) hlaw hp.items hc.items)
    have hpd := hp.items p hmem
    have hcd := hc.items c hmem'
    rw [itemSides]
    cases hdiff : diffValue d p c with
    | none =>
      exact .unchanged ((apart hlaw hpd hcd).1.mp hdiff) (.refl hlaw skip_distinct)
    | some sides => exact ih p hmem c hmem' hpd hcd hdiff
  | obj prev cur ih =>
    obtain ⟨rfl, rfl, _⟩ := diffValue_obj_some h
    refine .fields fun key => ?_
    rw [mapDiff_fst_lookup hp.keys, mapDiff_snd_lookup hp.keys]
    cases hlp : prev.lookup key with
    | none =>
      cases hlc : cur.lookup key with
      | none => exact .absent
      | some c => exact .added (.refl hlaw (lookup_distinct hc hlc))
    | some p =>
      have hpd := lookup_distinct hp hlp
      cases hlc : cur.lookup key with
      | none => exact .removed (.refl hlaw hpd)
      | some c =>
        have hcd := lookup_distinct hc hlc
        rw [prevSide, curSide]
        cases hdiff : diffValue d p c with
        | none => exact .kept ((apart hlaw hpd hcd).1.mp hdiff)
        | some sides => exact .both (ih key p c hlp hlc hpd hcd hdiff)

/-! ### Pairs that are differences -/

/-- What a difference of proper values is. -/
def DistinctSides (diff : Option (Json × Json)) : Prop :=
  ∀ sides, diff = some sides → sides.1.Distinct ∧ sides.2.Distinct

theorem diffValue_distinctSides {p c : Json} (hp : p.Distinct) (hc : c.Distinct) :
    DistinctSides (diffValue d p c) := fun _ h => diffValue_distinct hp hc h

theorem SameDifference.symm (hlaw : LawfulScalars d.scalarEqual) {diff diff' : Option (Json × Json)}
    (hdiff : DistinctSides diff) (hdiff' : DistinctSides diff') (h : SameDifference d diff diff') :
    SameDifference d diff' diff := by
  cases h with
  | none => exact .none
  | some h =>
    obtain ⟨hx, hy⟩ := hdiff _ rfl
    obtain ⟨hx', hy'⟩ := hdiff' _ rfl
    exact .some ⟨h.1.symm hlaw hx hx', h.2.symm hlaw hy hy'⟩

theorem SameDifference.trans (hlaw : LawfulScalars d.scalarEqual)
    {diff diff' diff'' : Option (Json × Json)} (hdiff : DistinctSides diff)
    (hdiff' : DistinctSides diff') (hdiff'' : DistinctSides diff'') (h : SameDifference d diff diff')
    (h' : SameDifference d diff' diff'') : SameDifference d diff diff'' := by
  cases h with
  | none => exact h'
  | some h =>
    cases h' with
    | some h' =>
      obtain ⟨hx, hy⟩ := hdiff _ rfl
      obtain ⟨hx', hy'⟩ := hdiff' _ rfl
      obtain ⟨hx'', hy''⟩ := hdiff'' _ rfl
      exact .some ⟨h.1.trans hlaw hx hx' hx'' h'.1, h.2.trans hlaw hy hy' hy'' h'.2⟩

/-- **A difference is the difference of its sides.** -/
theorem ownDifference_of_diff (hlaw : LawfulScalars d.scalarEqual) {p c x y : Json} (hp : p.Distinct)
    (hc : c.Distinct) (h : diffValue d p c = some (x, y)) : OwnDifference d x y := by
  obtain ⟨hx, hy⟩ := diffValue_distinct hp hc h
  have hsame := (sameChange_iff hlaw hlaw hlaw hp hc hx hy).mp (sameChange_diff hlaw hp hc h)
  rw [OwnDifference, ← h]
  exact hsame.symm hlaw (diffValue_distinctSides hp hc) (diffValue_distinctSides hx hy)

/-- Pairs that are the same are differences together. -/
theorem OwnDifference.of_equal (hlaw : LawfulScalars d.scalarEqual) {x y x' y' : Json}
    (hx : x.Distinct) (hy : y.Distinct) (hx' : x'.Distinct) (hy' : y'.Distinct)
    (hown : OwnDifference d x y) (h : SameDifference d (some (x, y)) (some (x', y'))) :
    OwnDifference d x' y' := by
  have hdiff := diffValue_distinctSides (d := d) hx hy
  have hdiff' := diffValue_distinctSides (d := d) hx' hy'
  have hsides : DistinctSides (some (x, y)) := by
    rintro _ ⟨⟩
    exact ⟨hx, hy⟩
  have hsides' : DistinctSides (some (x', y')) := by
    rintro _ ⟨⟩
    exact ⟨hx', hy'⟩
  have hchange : SameChange d d d x y x' y' := by
    cases h with
    | some h => exact sameChange_of_equal hlaw hx hy hx' hy' h.1 h.2
  have hsame := (sameChange_iff hlaw hlaw hlaw hx hy hx' hy').mp hchange
  exact (hsame.symm hlaw hdiff hdiff').trans hlaw hdiff' hdiff hsides' (hown.trans hlaw hdiff hsides hsides' h)

/-- **The difference of an update** is the pair that is one and makes the same change. -/
theorem sameDifference_iff (hlaw : LawfulScalars d.scalarEqual) {p c x y : Json} (hp : p.Distinct)
    (hc : c.Distinct) (hx : x.Distinct) (hy : y.Distinct) :
    SameDifference d (diffValue d p c) (some (x, y)) ↔ OwnDifference d x y ∧ SameChange d d d p c x y := by
  have hdiff := diffValue_distinctSides (d := d) hp hc
  have hown := diffValue_distinctSides (d := d) hx hy
  have hsides : DistinctSides (some (x, y)) := by
    rintro _ ⟨⟩
    exact ⟨hx, hy⟩
  rw [sameChange_iff hlaw hlaw hlaw hp hc hx hy]
  constructor
  · intro h
    obtain ⟨⟨x₀, y₀⟩, hdiff₀⟩ : ∃ sides, diffValue d p c = some sides := by
      cases hdiff₀ : diffValue d p c with
      | none =>
        rw [hdiff₀] at h
        cases h
      | some sides => exact ⟨sides, rfl⟩
    obtain ⟨hx₀, hy₀⟩ := diffValue_distinct hp hc hdiff₀
    have hx : OwnDifference d x y := (ownDifference_of_diff hlaw hp hc hdiff₀).of_equal hlaw hx₀ hy₀ hx
      hy (hdiff₀ ▸ h)
    exact ⟨hx, h.trans hlaw hdiff hsides hown (hx.symm hlaw hown hsides)⟩
  · intro ⟨hx, h⟩
    exact h.trans hlaw hdiff hown hsides hx

/-! ### Parts -/

/-- **A part is what gains nothing.** -/
theorem partOfValue_iff (hlaw : LawfulScalars d.scalarEqual) {a b : Json} (ha : a.Distinct)
    (hb : b.Distinct) : partOfValue d a b = true ↔ ¬ Gains d d b a := by
  induction b, a using together_induct with
  | apart b a hapart =>
    rw [gains_apart_iff hapart, partOfValue_apart fun htogether => hapart htogether.symm]
    constructor
    · exact fun h hne => hne.2 h
    · intro h
      by_contra hne
      exact h ⟨fun hequal => hne (hequal.symm hlaw hb ha), hne⟩
  | arr bs as ih =>
    rw [partOfValue_arr_iff hlaw, gains_arr_iff, not_not, List.forall₂_iff_get, List.forall₂_iff_get]
    refine and_congr eq_comm ⟨fun h i hi hi' => ?_, fun h i hi hi' => ?_⟩
    · have hmem := List.get_mem bs ⟨i, hi⟩
      have hmem' := List.get_mem as ⟨i, hi'⟩
      exact (h i hi' hi).imp_right
        (ih _ hmem _ hmem' (ha.items _ hmem') (hb.items _ hmem)).mp
    · have hmem := List.get_mem bs ⟨i, hi'⟩
      have hmem' := List.get_mem as ⟨i, hi⟩
      exact (h i hi' hi).imp_right
        (ih _ hmem _ hmem' (ha.items _ hmem') (hb.items _ hmem)).mpr
  | obj bs as ih =>
    rw [partOfValue_obj, partOfEventAsMap_iff_lookup ha.keys, gains_obj_iff]
    push Not
    refine forall_congr' fun key => forall_congr' fun a => forall_congr' fun hla => ?_
    refine exists_congr fun b => and_congr_right fun hlb => ?_
    exact ih key b a hlb hla (lookup_distinct ha hla) (lookup_distinct hb hlb)

theorem part_of_equal (hlaw : LawfulScalars d.scalarEqual) {a b b' : Json} (ha : a.Distinct)
    (hb : b.Distinct) (hb' : b'.Distinct) (h : Json.Equal d.scalarEqual b b')
    (hpart : partOfValue d a b = true) : partOfValue d a b' = true := by
  induction b, a using together_induct generalizing b' with
  | apart b a hapart =>
    have hapart' : ¬ Together a b := fun htogether => hapart htogether.symm
    rw [partOfValue_apart hapart'] at hpart
    exact partOfValue_of_equal hlaw (Json.Equal.trans hlaw ha hb hb' hpart h)
  | arr bs as ih =>
    obtain ⟨bs', rfl⟩ := h.arr
    rw [equal_arr_iff, List.forall₂_iff_get] at h
    rw [partOfValue_arr_iff hlaw, List.forall₂_iff_get] at hpart ⊢
    refine ⟨hpart.1.trans h.1, fun i hi hi' => ?_⟩
    have hib : i < bs.length := hpart.1 ▸ hi
    have hmem := List.get_mem as ⟨i, hi⟩
    have hmem' := List.get_mem bs ⟨i, hib⟩
    exact (hpart.2 i hi hib).imp_right (ih _ hmem' _ hmem (ha.items _ hmem) (hb.items _ hmem')
      (hb'.items _ (List.get_mem bs' ⟨i, hi'⟩)) (h.2 i hib hi'))
  | obj bs as ih =>
    obtain ⟨bs', rfl⟩ := h.obj
    rw [equal_obj_iff hb.keys hb'.keys] at h
    rw [partOfValue_obj, partOfEventAsMap_iff_lookup ha.keys] at hpart ⊢
    intro key a hla
    obtain ⟨b, hlb, hab⟩ := hpart key a hla
    have hrel := h key
    rw [hlb] at hrel
    obtain ⟨b', hlb', hequal⟩ := rel_some hrel
    exact ⟨b', hlb', ih key b a hlb hla (lookup_distinct ha hla) (lookup_distinct hb hlb)
      (lookup_distinct hb' hlb') hequal hab⟩

/-- Over equal values the same is a gain. -/
theorem gains_congr (hlaw : LawfulScalars d.scalarEqual) {a b b' : Json} (ha : a.Distinct)
    (hb : b.Distinct) (hb' : b'.Distinct) (h : Json.Equal d.scalarEqual b b') :
    Gains d d b a ↔ Gains d d b' a := by
  rw [← not_iff_not, ← partOfValue_iff hlaw ha hb, ← partOfValue_iff hlaw ha hb']
  exact ⟨part_of_equal hlaw ha hb hb' h, part_of_equal hlaw ha hb' hb (h.symm hlaw hb hb')⟩

end Sieve.Event
