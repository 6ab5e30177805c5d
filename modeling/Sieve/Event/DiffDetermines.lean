import Sieve.Event.DiffSpec

/-!
# The difference loses nothing

* `itemSides_determine`, `keySides_determine`: under one index and under one key, the previous value
  and the two sides determine the current value;
* `diffValue_determines`: so they do for whole values;
* `diff_loses_nothing`: in both languages.
-/

namespace Sieve.Event

variable {d : Dialect}

/-- The two sides of two differences are equal. -/
def SameSides (d : Dialect) (diff diff' : Json × Json) : Prop :=
  Json.Equal d.scalarEqual diff.1 diff'.1 ∧ Json.Equal d.scalarEqual diff.2 diff'.2

/-- Whether two values have been compared inside shows in the current side. -/
theorem together_of_equal {p c c' x y : Json} (h : Together p c) (hdiff : diffValue d p c = some (x, y))
    (hequal : Json.Equal d.scalarEqual y c') : Together p c' := by
  cases h with
  | obj prev cur =>
    obtain ⟨_, rfl, _⟩ := diffValue_obj_some hdiff
    obtain ⟨cur', rfl⟩ := hequal.obj
    exact .obj prev cur'
  | arr prev cur =>
    obtain ⟨_, rfl, _⟩ := diffValue_arr_some hdiff
    obtain ⟨cur', rfl⟩ := hequal.arr
    exact .arr prev cur'

/-- The current value is determined by the previous one and the difference. -/
def Determines (d : Dialect) (p c c' : Json) : Prop :=
  Option.Rel (SameSides d) (diffValue d p c) (diffValue d p c') → Json.Equal d.scalarEqual c c'

theorem itemSides_determine (hlaw : LawfulScalars d.scalarEqual) {p c c' : Json} (hp : p.Distinct)
    (hc : c.Distinct) (hc' : c'.Distinct) (hdet : Determines d p c c')
    (h : SameSides d (itemSides d p c) (itemSides d p c')) : Json.Equal d.scalarEqual c c' := by
  refine hdet ?_
  -- a real difference is not mistaken for two markers
  have hmarkers : ∀ {c : Json} {sides : Json × Json}, c.Distinct → diffValue d p c = some sides →
      ¬ (sides.1 = .str SIEVE_IDX_SKIP ∧ sides.2 = .str SIEVE_IDX_SKIP) := by
    intro c sides hc hdiff hskip
    refine (apart hlaw hp hc).2 _ _ hdiff ?_
    rw [hskip.1, hskip.2]
    exact .refl hlaw skip_distinct
  obtain ⟨hfst, hsnd⟩ := h
  rw [itemSides] at hfst hsnd
  cases hdiff : diffValue d p c with
  | none =>
    cases hdiff' : diffValue d p c' with
    | none => exact .none
    | some sides' =>
      rw [itemSides, hdiff, hdiff'] at hfst hsnd
      exact absurd ⟨eq_skip_of_equal hlaw hfst, eq_skip_of_equal hlaw hsnd⟩ (hmarkers hc' hdiff')
  | some sides =>
    obtain ⟨hx, hy⟩ := diffValue_distinct hp hc hdiff
    cases hdiff' : diffValue d p c' with
    | none =>
      rw [itemSides, hdiff, hdiff'] at hfst hsnd
      have hskip := And.intro (eq_skip_of_equal hlaw (hfst.symm hlaw hx skip_distinct))
        (eq_skip_of_equal hlaw (hsnd.symm hlaw hy skip_distinct))
      exact absurd hskip (hmarkers hc hdiff)
    | some sides' =>
      rw [itemSides, hdiff, hdiff'] at hfst hsnd
      exact .some ⟨hfst, hsnd⟩

theorem diffItems_determine (hlaw : LawfulScalars d.scalarEqual) {prev cur cur' : List Json}
    (hp : ∀ p ∈ prev, p.Distinct) (hc : ∀ c ∈ cur, c.Distinct) (hc' : ∀ c ∈ cur', c.Distinct)
    (hdet : ∀ p ∈ prev, ∀ c ∈ cur, ∀ c' ∈ cur', Determines d p c c')
    (hfst : List.Forall₂ (Json.Equal d.scalarEqual) (diffItems d prev cur).1
      (diffItems d prev cur').1)
    (hsnd : List.Forall₂ (Json.Equal d.scalarEqual) (diffItems d prev cur).2
      (diffItems d prev cur').2) :
    List.Forall₂ (Json.Equal d.scalarEqual) cur cur' := by
  induction prev generalizing cur cur' with
  | nil =>
    rw [diffItems_nil_left, diffItems_nil_left] at hsnd
    exact hsnd
  | cons p prev ih =>
    cases cur with
    | nil =>
      cases cur' with
      | nil => exact .nil
      | cons c' cur' =>
        rw [diffItems_nil_right, diffItems_cons] at hsnd
        cases hsnd
    | cons c cur =>
      cases cur' with
      | nil =>
        rw [diffItems_nil_right, diffItems_cons] at hsnd
        cases hsnd
      | cons c' cur' =>
        rw [diffItems_cons, diffItems_cons, List.forall₂_cons] at hfst hsnd
        obtain ⟨hpx, hprev⟩ := List.forall_mem_cons.mp hp
        obtain ⟨hcx, hcur⟩ := List.forall_mem_cons.mp hc
        obtain ⟨hcx', hcur'⟩ := List.forall_mem_cons.mp hc'
        refine .cons (itemSides_determine hlaw hpx hcx hcx'
          (hdet p (by simp) c (by simp) c' (by simp)) ⟨hfst.1, hsnd.1⟩) ?_
        exact ih hprev hcur hcur' (fun q hq c hc c' hc' => hdet q (List.mem_cons_of_mem _ hq) c
          (List.mem_cons_of_mem _ hc) c' (List.mem_cons_of_mem _ hc')) hfst.2 hsnd.2

/-- Under one key. -/
theorem keySides_determine {o c c' : Option Json}
    (hdet : ∀ p x x', o = some p → c = some x → c' = some x' → Determines d p x x')
    (hfst : Option.Rel (Json.Equal d.scalarEqual) (prevSide d o c) (prevSide d o c'))
    (hsnd : Option.Rel (Json.Equal d.scalarEqual) (curSide d o c) (curSide d o c')) :
    Option.Rel (Json.Equal d.scalarEqual) c c' := by
  cases o with
  | none =>
    cases c with
    | none =>
      cases c' with
      | none => exact .none
      | some x' => cases hsnd
    | some x =>
      cases c' with
      | none => cases hsnd
      | some x' => exact hsnd
  | some p =>
    cases c with
    | none =>
      cases c' with
      | none => exact .none
      | some x' =>
        simp only [prevSide, curSide] at hfst hsnd
        rw [Option.map_eq_none_iff.mp (rel_none hsnd)] at hfst
        cases hfst
    | some x =>
      cases c' with
      | none =>
        simp only [prevSide, curSide] at hfst hsnd
        cases hdiff : diffValue d p x with
        | none =>
          rw [hdiff] at hfst
          cases hfst
        | some sides =>
          rw [hdiff] at hsnd
          cases hsnd
      | some x' =>
        refine .some (hdet p x x' rfl rfl rfl ?_)
        simp only [prevSide, curSide] at hfst hsnd
        cases hdiff : diffValue d p x with
        | none =>
          rw [hdiff] at hfst
          rw [Option.map_eq_none_iff.mp (rel_none hfst)]
          exact .none
        | some sides =>
          cases hdiff' : diffValue d p x' with
          | none =>
            rw [hdiff, hdiff'] at hfst
            cases hfst
          | some sides' =>
            rw [hdiff, hdiff'] at hfst hsnd
            obtain ⟨_, heq, hfst⟩ := rel_some hfst
            obtain ⟨_, heq', hsnd⟩ := rel_some hsnd
            rw [← Option.some.inj heq] at hfst
            rw [← Option.some.inj heq'] at hsnd
            exact .some ⟨hfst, hsnd⟩

/-- Values without a difference are equal, so only differences are to be looked at. -/
theorem determines_of_some (hlaw : LawfulScalars d.scalarEqual) {p c c' : Json} (hp : p.Distinct)
    (hc : c.Distinct) (hc' : c'.Distinct)
    (h : ∀ x y x' y', diffValue d p c = some (x, y) → diffValue d p c' = some (x', y') →
      Json.Equal d.scalarEqual x x' → Json.Equal d.scalarEqual y y' →
      Json.Equal d.scalarEqual c c') : Determines d p c c' := by
  intro hrel
  cases hdiff : diffValue d p c with
  | none =>
    rw [hdiff] at hrel
    have hequal := (apart hlaw hp hc).1.mp hdiff
    have hequal' := (apart hlaw hp hc').1.mp (rel_none hrel)
    exact (hequal.symm hlaw hp hc).trans hlaw hc hp hc' hequal'
  | some sides =>
    rw [hdiff] at hrel
    obtain ⟨sides', hdiff', hfst, hsnd⟩ := rel_some hrel
    exact h _ _ _ _ hdiff hdiff' hfst hsnd

/-- Raw copies determine the current value. -/
theorem determines_of_raw (hlaw : LawfulScalars d.scalarEqual) {p c c' : Json} (hp : p.Distinct)
    (hc : c.Distinct) (hc' : c'.Distinct) (hraw : ¬ (Together p c ∧ Together p c')) :
    Determines d p c c' := by
  refine determines_of_some hlaw hp hc hc' fun x y x' y' hdiff hdiff' _ hsnd => ?_
  by_cases htogether : Together p c
  · by_cases htogether' : Together p c'
    · exact absurd ⟨htogether, htogether'⟩ hraw
    · rw [(diffValue_apart_some htogether' hdiff').2.1] at hsnd
      exact absurd (together_of_equal htogether hdiff hsnd) htogether'
  · rw [(diffValue_apart_some htogether hdiff).2.1] at hsnd
    by_cases htogether' : Together p c'
    · have hy' := (diffValue_distinct hp hc' hdiff').2
      exact absurd (together_of_equal htogether' hdiff' (hsnd.symm hlaw hc hy')) htogether
    · rw [(diffValue_apart_some htogether' hdiff').2.1] at hsnd
      exact hsnd

/-- **Nothing is lost**: the previous value and the difference determine the current value. -/
theorem diffValue_determines (hlaw : LawfulScalars d.scalarEqual) {p c c' : Json} (hp : p.Distinct)
    (hc : c.Distinct) (hc' : c'.Distinct) : Determines d p c c' := by
  induction p using Json.induct generalizing c c' with
  | scalar p hscalar =>
    refine determines_of_raw hlaw hp hc hc' fun htogether => ?_
    cases htogether.1 <;> exact hscalar
  | arr prev ih =>
    by_cases htogether : Together (.arr prev) c ∧ Together (.arr prev) c'
    · cases htogether.1 with
      | arr _ cur =>
        cases htogether.2 with
        | arr _ cur' =>
          refine determines_of_some hlaw hp hc hc' fun x y x' y' hdiff hdiff' hfst hsnd => ?_
          obtain ⟨rfl, rfl, _⟩ := diffValue_arr_some hdiff
          obtain ⟨rfl, rfl, _⟩ := diffValue_arr_some hdiff'
          rw [equal_arr_iff] at hfst hsnd ⊢
          exact diffItems_determine hlaw hp.items hc.items hc'.items (fun p hmem x hx x' hx' =>
            ih p hmem (hp.items p hmem) (hc.items x hx) (hc'.items x' hx')) hfst hsnd
    · exact determines_of_raw hlaw hp hc hc' htogether
  | obj prev ih =>
    by_cases htogether : Together (.obj prev) c ∧ Together (.obj prev) c'
    · cases htogether.1 with
      | obj _ cur =>
        cases htogether.2 with
        | obj _ cur' =>
          refine determines_of_some hlaw hp hc hc' fun x y x' y' hdiff hdiff' hfst hsnd => ?_
          obtain ⟨rfl, rfl, _⟩ := diffValue_obj_some hdiff
          obtain ⟨rfl, rfl, _⟩ := diffValue_obj_some hdiff'
          have hkeys := mapDiff_keys (d := d) hp.keys hc.keys
          have hkeys' := mapDiff_keys (d := d) hp.keys hc'.keys
          rw [equal_obj_iff hkeys.1 hkeys'.1] at hfst
          rw [equal_obj_iff hkeys.2 hkeys'.2] at hsnd
          rw [equal_obj_iff hc.keys hc'.keys]
          intro key
          have hfst' := hfst key
          have hsnd' := hsnd key
          rw [mapDiff_fst_lookup hp.keys, mapDiff_fst_lookup hp.keys] at hfst'
          rw [mapDiff_snd_lookup hp.keys, mapDiff_snd_lookup hp.keys] at hsnd'
          refine keySides_determine (fun p x x' hlp hlx hlx' => ?_) hfst' hsnd'
          exact ih _ (lookup_mem hlp) (lookup_distinct hp hlp) (lookup_distinct hc hlx)
            (lookup_distinct hc' hlx')
    · exact determines_of_raw hlaw hp hc hc' htogether

/-! ### Objects -/

/-- A decoded object. -/
abbrev JsonObject := { fields : Fields // Json.Distinct (.obj fields) }

/-- Two decoded objects are deeply equal. -/
def EqualObjects (d : Dialect) (a b : Fields) : Prop := Json.Equal d.scalarEqual (.obj a) (.obj b)

/-- Two results of `diffEventAsMap` are equal, where `none` is `(nil, nil)`. -/
def EqualPairs (d : Dialect) : Option (Fields × Fields) → Option (Fields × Fields) → Prop :=
  Option.Rel fun pair pair' => EqualObjects d pair.1 pair'.1 ∧ EqualObjects d pair.2 pair'.2

/-- The previous state and the difference determine the current state; there is no difference exactly
between equal states, and the two sides of a difference are never equal. -/
def LosesNothing (d : Dialect) : Prop :=
  ∀ prev cur cur' : JsonObject,
    (EqualPairs d (diffEventAsMap d prev.1 cur.1) (diffEventAsMap d prev.1 cur'.1) →
      EqualObjects d cur.1 cur'.1) ∧
    (diffEventAsMap d prev.1 cur.1 = none ↔ EqualObjects d prev.1 cur.1) ∧
    ∀ pair, diffEventAsMap d prev.1 cur.1 = some pair → ¬ EqualObjects d pair.1 pair.2

theorem losesNothing (hlaw : LawfulScalars d.scalarEqual) : LosesNothing d := by
  intro ⟨prev, hprev⟩ ⟨cur, hcur⟩ ⟨cur', hcur'⟩
  obtain ⟨hnone, hsome⟩ := apart hlaw hprev hcur
  rw [diffValue_obj, Option.map_eq_none_iff] at hnone
  refine ⟨fun hpairs => ?_, hnone, fun pair hpair => hsome _ _ ?_⟩
  · refine diffValue_determines hlaw hprev hcur hcur' ?_
    rw [diffValue_obj, diffValue_obj]
    cases hdiff : diffEventAsMap d prev cur with
    | none =>
      rw [hdiff] at hpairs
      rw [rel_none hpairs]
      exact .none
    | some pair =>
      rw [hdiff] at hpairs
      obtain ⟨pair', hdiff', hequal⟩ := rel_some hpairs
      rw [hdiff']
      exact .some hequal
  · rw [diffValue_obj, hpair]
    rfl

/-- **The difference loses nothing**, in the coordinator and in the learner. -/
theorem diff_loses_nothing : LosesNothing go ∧ LosesNothing python :=
  ⟨losesNothing go_lawful, losesNothing python_lawful⟩

end Sieve.Event
