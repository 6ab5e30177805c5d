import Sieve.Oracle.LivenessChecker
import Sieve.Oracle.MaskPaths

/-!
# What the second pass trims

The reference state masks what changed between the two learning runs.

* `Trims`: a place of the reference state against the same place of both runs;
* `exists_trims`: the reference state is such, whatever the order of the differences;
* `Trims.reportedAt_iff`: where the reference state differs from the second run;
* `eliminates_iff`: when a comparison with it reports neither run.
-/

namespace Sieve.Oracle

open Sieve.Library

/-- What becomes of a child that only the first run has. -/
def goneChild : TreeStep String → PythonValue → PythonValue
  | .key _, _ => learnMask
  | .index _, x => x

/-- The reference value for a value of the second run and one of the first. -/
inductive Trims : PythonValue → PythonValue → PythonValue → Prop where
  | changed {a b : PythonScalar} (hkind : b.type = a.type) (hne : b ≠ a) :
      Trims (.leaf b) (.leaf a) learnMask
  | same (a : PythonScalar) : Trims (.leaf a) (.leaf a) (.leaf a)
  | apart {other base : PythonValue} (h : ¬ SameType PythonScalar.type other base) :
      Trims other base base
  | node {other base trimmed : PythonValue} (hsame : SameType PythonScalar.type other base)
      (hsteps : DataTree.SameSteps base trimmed)
      (hgone : ∀ step x, base.child step = some x → other.child step = none →
        trimmed.child step = some (goneChild step x))
      (hboth : ∀ step x y z, base.child step = some x → other.child step = some y →
        trimmed.child step = some z → Trims y x z) : Trims other base trimmed

/-- The place is masked: its value changed, or only the first run has the field. -/
def TrimmedAt (other base : PythonValue) (path : DeltaPath) : Prop :=
  ReportedAt PythonScalar.type
    (fun deltaType _ _ => deltaType = .valuesChanged ∨ deltaType = .dictionaryItemAdded) other base path

/-! ### The reference state is trimmed -/

/-- Replacing a place that is there is what the assignment does. -/
theorem nestedSet_of_setAt {value dic dic' : PythonValue} {path : DeltaPath} (hpath : path ≠ [])
    (h : DataTree.setAt value dic path = some dic') : nestedSet value dic path = some dic' := by
  induction path generalizing dic dic' with
  | nil => exact absurd rfl hpath
  | cons key keys ih =>
    obtain ⟨inner, hinner, hrest⟩ := Option.bind_eq_some_iff.mp h
    obtain ⟨inner', hinner', hassign⟩ := Option.bind_eq_some_iff.mp hrest
    cases keys with
    | nil =>
      obtain rfl := Option.some.inj hinner'
      exact hassign
    | cons key' keys =>
      have hset := ih (List.cons_ne_nil key' keys) hinner'
      show (dic.child key).bind (fun inner => (nestedSet value inner (key' :: keys)).bind
        fun inner => dic.setChild key inner) = some dic'
      rw [hinner, Option.bind_some, hset, Option.bind_some, hassign]

theorem foldlM_nestedSet_of_setAt {value dic dic' : PythonValue} {paths : List DeltaPath}
    (hpaths : ∀ path ∈ paths, path ≠ []) (h : paths.foldlM (DataTree.setAt value) dic = some dic') :
    paths.foldlM (nestedSet value) dic = some dic' := by
  induction paths generalizing dic with
  | nil => exact h
  | cons path paths ih =>
    obtain ⟨hpath, hpaths⟩ := List.forall_mem_cons.mp hpaths
    rw [List.foldlM_cons] at h
    obtain ⟨next, hnext, h⟩ := Option.bind_eq_some_iff.mp h
    rw [List.foldlM_cons, nestedSet_of_setAt hpath hnext]
    exact ih hpaths h

/-- The masked places at or below a step of inner nodes. -/
theorem trimmedAt_cons_iff {other base : PythonValue} (hsame : SameType PythonScalar.type other base)
    (hnode : DataTree.SameSteps other other) {step : TreeStep String} {path : DeltaPath} :
    TrimmedAt other base (step :: path) ↔ ∃ x, base.child step = some x ∧
      ((other.child step = none ∧ (∃ k, step = .key k) ∧ path = []) ∨
        ∃ y, other.child step = some y ∧ TrimmedAt y x path) := by
  rw [TrimmedAt, reportedAt_cons_iff hsame hnode]
  cases other.child step with
  | none =>
    cases base.child step with
    | none => simp [ReportedBelow]
    | some x => cases step <;> simp [ReportedBelow, TreeDelta.added]
  | some y =>
    cases base.child step with
    | none => cases step <;> simp [ReportedBelow, TreeDelta.removed]
    | some x => simp [ReportedBelow, TrimmedAt]

/-- An inner node, when its children are trimmed. -/
theorem exists_trims_node {other base : PythonValue} (hsame : SameType PythonScalar.type other base)
    (hother : DataTree.SameSteps other other) (hbase : DataTree.SameSteps base base)
    (hchildren : ∀ step x, base.child step = some x → ∀ (y : PythonValue) (paths : List DeltaPath),
      (∀ path, path ∈ paths ↔ TrimmedAt y x path) →
        ∃ z, paths.foldlM (DataTree.setAt learnMask) x = some z ∧ Trims y x z)
    {paths : List DeltaPath} (hpaths : ∀ path, path ∈ paths ↔ TrimmedAt other base path) :
    ∃ trimmed, paths.foldlM (DataTree.setAt learnMask) base = some trimmed ∧
      Trims other base trimmed := by
  have hunder : ∀ step path, path ∈ DataTree.pathsUnder step paths ↔ ∃ x, base.child step = some x ∧
      ((other.child step = none ∧ (∃ k, step = .key k) ∧ path = []) ∨
        ∃ y, other.child step = some y ∧ TrimmedAt y x path) := by
    intro step path
    rw [DataTree.mem_pathsUnder, hpaths, trimmedAt_cons_iff hsame hother]
  -- a child that only the first run has
  have hgone : ∀ step x, base.child step = some x → other.child step = none →
      (DataTree.pathsUnder step paths).foldlM (DataTree.setAt learnMask) x =
        some (goneChild step x) := by
    intro step x hx hnone
    have hmem : ∀ path, path ∈ DataTree.pathsUnder step paths ↔ (∃ k, step = .key k) ∧ path = [] := by
      intro path
      rw [hunder]
      simp [hx, hnone]
    rw [DataTree.foldlM_setAt_nil learnMask x fun path hpath => ((hmem path).mp hpath).2]
    cases step with
    | key k => rw [if_neg (List.ne_nil_of_mem ((hmem []).mpr ⟨⟨k, rfl⟩, rfl⟩)), goneChild]
    | index i =>
      have hempty : DataTree.pathsUnder (.index i) paths = [] := by
        refine List.eq_nil_iff_forall_not_mem.mpr fun path hpath => ?_
        obtain ⟨⟨k, hk⟩, _⟩ := (hmem path).mp hpath
        cases hk
      rw [if_pos hempty, goneChild]
  -- a child that both runs have
  have hboth : ∀ step x y, base.child step = some x → other.child step = some y →
      ∃ z, (DataTree.pathsUnder step paths).foldlM (DataTree.setAt learnMask) x = some z ∧
        Trims y x z := by
    intro step x y hx hy
    refine hchildren step x hx y _ fun path => ?_
    rw [hunder]
    simp [hx, hy]
  obtain ⟨trimmed, hfold, hsteps, hchild⟩ := @DataTree.foldlM_setAt _ _ _ learnMask base paths hbase
    (fun path hpath => by
      cases path with
      | nil => exact absurd ((hpaths []).mp hpath) (not_reportedAt_nil hsame hother)
      | cons step path =>
        obtain ⟨x, hx, _⟩ := (trimmedAt_cons_iff hsame hother).mp ((hpaths _).mp hpath)
        exact ⟨step, path, rfl, by rw [hx, Option.isSome_some]⟩)
    (fun step x hx => by
      cases hy : other.child step with
      | none => exact ⟨_, hgone step x hx hy⟩
      | some y =>
        obtain ⟨z, hz, _⟩ := hboth step x y hx hy
        exact ⟨z, hz⟩)
  refine ⟨trimmed, hfold, .node hsame hsteps (fun step x hx hnone => ?_) fun step x y z hx hy hz => ?_⟩
  · rw [hchild step x hx, hgone step x hx hnone]
  · obtain ⟨z', hz', htrims⟩ := hboth step x y hx hy
    rw [hchild step x hx, hz'] at hz
    exact Option.some.inj hz ▸ htrims

/-- Values of different types are kept. -/
theorem exists_trims_apart {other base : PythonValue} (hapart : ¬ SameType PythonScalar.type other base)
    {paths : List DeltaPath} (hpaths : ∀ path, path ∈ paths ↔ TrimmedAt other base path) :
    ∃ trimmed, paths.foldlM (DataTree.setAt learnMask) base = some trimmed ∧
      Trims other base trimmed := by
  have hempty : paths = [] := by
    refine List.eq_nil_iff_forall_not_mem.mpr fun path hpath => ?_
    have h := (reportedAt_apart_iff hapart).mp ((hpaths path).mp hpath)
    simp at h
  rw [hempty]
  exact ⟨base, rfl, .apart hapart⟩

/-- **Masking the places of all changed values and added fields** trims the state, in any order. -/
theorem exists_trims {other base : PythonValue} {paths : List DeltaPath}
    (hpaths : ∀ path, path ∈ paths ↔ TrimmedAt other base path) :
    ∃ trimmed, paths.foldlM (DataTree.setAt learnMask) base = some trimmed ∧
      Trims other base trimmed := by
  induction base using DataTree.induct generalizing other paths with
  | leaf a =>
    by_cases hsame : SameType PythonScalar.type other (.leaf a)
    · cases hsame with
      | @leaf b _ hkind =>
        have hat : ∀ path, path ∈ paths ↔ b ≠ a ∧ path = [] := by
          intro path
          rw [hpaths, TrimmedAt, reportedAt_leaf_iff hkind]
          simp
        rw [DataTree.foldlM_setAt_nil _ _ fun path hpath => ((hat path).mp hpath).2]
        by_cases hba : b = a
        · have hempty : paths = [] :=
            List.eq_nil_iff_forall_not_mem.mpr fun path hpath => ((hat path).mp hpath).1 hba
          rw [if_pos hempty, hba]
          exact ⟨_, rfl, .same a⟩
        · rw [if_neg (List.ne_nil_of_mem ((hat []).mpr ⟨hba, rfl⟩))]
          exact ⟨_, rfl, .changed hkind hba⟩
    · exact exists_trims_apart hsame hpaths
  | items xs ih =>
    by_cases hsame : SameType PythonScalar.type other (.items xs)
    · cases hsame with
      | items ys _ =>
        refine exists_trims_node (.items ys xs) (.items rfl) (.items rfl)
          (fun step x hx y paths hpaths => ?_) hpaths
        cases step with
        | key k => cases hx
        | index i => exact ih x (List.mem_of_getElem? hx) hpaths
    · exact exists_trims_apart hsame hpaths
  | fields xs ih =>
    by_cases hsame : SameType PythonScalar.type other (.fields xs)
    · cases hsame with
      | fields ys _ =>
        refine exists_trims_node (.fields ys xs) (.fields rfl) (.fields rfl)
          (fun step x hx y paths hpaths => ?_) hpaths
        cases step with
        | index i => cases hx
        | key k => exact ih (k, x) (DataTree.mem_of_lookup hx) hpaths
    · exact exists_trims_apart hsame hpaths

/-! ### Comparing with the reference state -/

/-- The difference is reported. -/
def IsMessage (deltaType : DeltaType) (t1 t2 : Option PythonValue) : Prop :=
  ¬ (isChange deltaType = true ∧ passedOver t1 t2 = true)

/-- The trim does not take care of the difference. -/
def Remains (deltaType : DeltaType) (t1 t2 : Option PythonValue) : Prop :=
  deltaType ≠ .valuesChanged ∧ IsMessage deltaType t1 t2

theorem isMessage_added (step : TreeStep String) (x : PythonValue) (t1 t2 : Option PythonValue) :
    IsMessage (TreeDelta.added step x).deltaType t1 t2 ∧
      Remains (TreeDelta.added step x).deltaType t1 t2 := by
  cases step <;> simp [Remains, IsMessage, TreeDelta.added, isChange]

theorem isMessage_removed (step : TreeStep String) (x : PythonValue) (t1 t2 : Option PythonValue) :
    IsMessage (TreeDelta.removed step x).deltaType t1 t2 ∧
      Remains (TreeDelta.removed step x).deltaType t1 t2 := by
  cases step <;> simp [Remains, IsMessage, TreeDelta.removed, isChange]

/-- What is masked is passed over. -/
theorem not_reportedAt_learnMask (t : PythonValue) (path : DeltaPath) :
    ¬ ReportedAt PythonScalar.type IsMessage learnMask t path := by
  have hpassed : ∀ t2, passedOver (some learnMask) t2 = true := by
    intro t2
    simp [passedOver, isLearnValueMask, learnMask]
  by_cases hsame : SameType PythonScalar.type learnMask t
  · intro h
    cases hsame with
    | leaf hkind => exact ((reportedAt_leaf_iff hkind).mp h).2.2 ⟨rfl, hpassed _⟩
  · intro h
    exact ((reportedAt_apart_iff hsame).mp h).2 ⟨rfl, hpassed _⟩

/-- **The first run is not reported.** -/
theorem Trims.not_reportedAt_base {other base trimmed : PythonValue} (h : Trims other base trimmed)
    (path : DeltaPath) : ¬ ReportedAt PythonScalar.type IsMessage trimmed base path := by
  induction h generalizing path with
  | changed _ _ => exact not_reportedAt_learnMask _ path
  | same _ => exact not_reportedAt_self _ path
  | apart _ => exact not_reportedAt_self _ path
  | @node other base trimmed hsame hsteps hgone hboth ih =>
    have htype : SameType PythonScalar.type trimmed base := (SameType.of_sameSteps hsteps (.refl base)).1
    cases path with
    | nil => exact not_reportedAt_nil htype hsteps.symm_refl
    | cons step path =>
      rw [reportedAt_cons_iff htype hsteps.symm_refl]
      have hsome := hsteps.isSome_eq step
      cases hx : base.child step with
      | none =>
        rw [hx, Option.isSome_none, Option.isSome_eq_false_iff, Option.isNone_iff_eq_none] at hsome
        rw [hsome]
        exact not_false
      | some x =>
        cases hy : other.child step with
        | none =>
          rw [hgone step x hx hy]
          cases step with
          | key k => exact not_reportedAt_learnMask x path
          | index i => exact not_reportedAt_self x path
        | some y =>
          rw [hx, Option.isSome_some, Option.isSome_iff_exists] at hsome
          obtain ⟨z, hz⟩ := hsome
          rw [hz]
          exact ih step x y z hx hy hz path

/-- **Where the second run is reported**: at the differences of the two runs that the trim does not take
care of. -/
theorem Trims.reportedAt_iff {other base trimmed : PythonValue} (h : Trims other base trimmed)
    (path : DeltaPath) : ReportedAt PythonScalar.type IsMessage trimmed other path ↔
      ReportedAt PythonScalar.type Remains base other path := by
  induction h generalizing path with
  | changed hkind hne =>
    refine iff_of_false (not_reportedAt_learnMask _ path) fun h => ?_
    exact ((reportedAt_leaf_iff hkind.symm).mp h).2.2.1 rfl
  | same _ => exact iff_of_false (not_reportedAt_self _ path) (not_reportedAt_self _ path)
  | apart h =>
    have hapart := fun hsame => h (SameType.symm hsame)
    rw [reportedAt_apart_iff hapart, reportedAt_apart_iff hapart]
    simp [Remains]
  | @node other base trimmed hsame hsteps hgone hboth ih =>
    obtain ⟨htype, hnode⟩ := SameType.of_sameSteps hsteps hsame.symm
    cases path with
    | nil =>
      exact iff_of_false (not_reportedAt_nil htype hsteps.symm_refl) (not_reportedAt_nil hsame.symm hnode)
    | cons step path =>
      rw [reportedAt_cons_iff htype hsteps.symm_refl, reportedAt_cons_iff hsame.symm hnode]
      have hsome := hsteps.isSome_eq step
      cases hx : base.child step with
      | none =>
        rw [hx, Option.isSome_none, Option.isSome_eq_false_iff, Option.isNone_iff_eq_none] at hsome
        rw [hsome]
        cases other.child step with
        | none => exact Iff.rfl
        | some y =>
          have hadded := isMessage_added step y none (some y)
          exact and_congr_right fun _ => iff_of_true hadded.1 hadded.2
      | some x =>
        rw [hx, Option.isSome_some, Option.isSome_iff_exists] at hsome
        obtain ⟨z, hz⟩ := hsome
        rw [hz]
        cases hy : other.child step with
        | none =>
          have hremoved := isMessage_removed step z (some z) none
          have hremoved' := isMessage_removed step x (some x) none
          exact and_congr_right fun _ => iff_of_true hremoved.1 hremoved'.2
        | some y => exact ih step x y z hx hy hz path

/-- Where nothing is masked, the first run's value is kept. -/
theorem Trims.eq_base {other base trimmed : PythonValue} (h : Trims other base trimmed)
    (hbase : base.Distinct) (hnone : ∀ path, ¬ TrimmedAt other base path) : trimmed = base := by
  induction h with
  | changed hkind hne =>
    refine absurd ?_ (hnone [])
    exact (reportedAt_leaf_iff hkind).mpr ⟨hne, rfl, .inl rfl⟩
  | same _ => rfl
  | apart _ => rfl
  | @node other base trimmed hsame hsteps hgone hboth ih =>
    obtain ⟨_, hnode⟩ := SameType.of_sameSteps hsteps hsame.symm
    have hother : DataTree.SameSteps other other := by
      cases hsame with
      | leaf _ => cases hsteps
      | items _ _ => exact .items rfl
      | fields _ _ => exact .fields rfl
    refine (DataTree.ext_child hbase hsteps fun step => ?_).symm
    have hsome := hsteps.isSome_eq step
    cases hx : base.child step with
    | none =>
      rw [hx, Option.isSome_none, Option.isSome_eq_false_iff, Option.isNone_iff_eq_none] at hsome
      exact hsome.symm
    | some x =>
      cases hy : other.child step with
      | none =>
        rw [hgone step x hx hy]
        cases step with
        | key k =>
          refine absurd ?_ (hnone [.key k])
          exact (trimmedAt_cons_iff hsame hother).mpr ⟨x, hx, .inl ⟨hy, ⟨k, rfl⟩, rfl⟩⟩
        | index i => rfl
      | some y =>
        rw [hx, Option.isSome_some, Option.isSome_iff_exists] at hsome
        obtain ⟨z, hz⟩ := hsome
        rw [hz, ih step x y z hx hy hz (hbase.child hx) fun path htrimmed =>
          hnone (step :: path) ((trimmedAt_cons_iff hsame hother).mpr ⟨x, hx, .inr ⟨y, hy, htrimmed⟩⟩)]

/-- **What the runs agree on is kept**, wherever it is. -/
theorem Trims.get?_eq {other base trimmed : PythonValue} (h : Trims other base trimmed)
    (hbase : base.Distinct) {path : DeltaPath} {v v' : PythonValue} (hv : base.get? path = some v)
    (hv' : other.get? path = some v') (hnone : ∀ lower, ¬ TrimmedAt v' v lower) :
    trimmed.get? path = some v := by
  induction path generalizing other base trimmed with
  | nil =>
    obtain rfl := Option.some.inj hv
    obtain rfl := Option.some.inj hv'
    rw [h.eq_base hbase hnone]
    rfl
  | cons step path ih =>
    obtain ⟨x, hx, hv⟩ := Option.bind_eq_some_iff.mp hv
    obtain ⟨y, hy, hv'⟩ := Option.bind_eq_some_iff.mp hv'
    cases h with
    | changed _ _ => simp [DataTree.child_leaf] at hx
    | same _ => simp [DataTree.child_leaf] at hx
    | apart h => exact absurd (sameType_of_child hy hx) h
    | node hsame hsteps hgone hboth =>
      have hsome := hsteps.isSome_eq step
      rw [hx, Option.isSome_some, Option.isSome_iff_exists] at hsome
      obtain ⟨z, hz⟩ := hsome
      show (trimmed.child step).bind (fun z => z.get? path) = some v
      rw [hz]
      exact ih (hboth step x y z hx hy hz) (hbase.child hx) hv hv'

theorem Trims.distinct {other base trimmed : PythonValue} (h : Trims other base trimmed)
    (hbase : base.Distinct) : trimmed.Distinct := by
  induction h with
  | changed _ _ => exact .leaf _
  | same a => exact .leaf a
  | apart _ => exact hbase
  | @node other base trimmed hsame hsteps hgone hboth ih =>
    refine hbase.of_children hsteps fun step z hz => ?_
    have hsome := hsteps.isSome_eq step
    rw [hz, Option.isSome_some, eq_comm, Option.isSome_iff_exists] at hsome
    obtain ⟨x, hx⟩ := hsome
    cases hy : other.child step with
    | none =>
      rw [hgone step x hx hy] at hz
      rw [← Option.some.inj hz]
      cases step with
      | key k => exact .leaf _
      | index i => exact hbase.child hx
    | some y => exact ih step x y z hx hy hz (hbase.child hx)

/-! ### The reference state of two runs -/

/-- **The trim of two states** is a reference state for them. -/
theorem secondPassLearnTrim_trims {deepDiff : PythonValue → PythonValue → List StateDelta}
    (hdeep : IsDeepDiff deepDiff) {xs ys : List (String × PythonValue)}
    (hxs : (DataTree.fields xs : PythonValue).Distinct)
    (hys : (DataTree.fields ys : PythonValue).Distinct) :
    ∃ trimmed, secondPassLearnTrim deepDiff (.fields xs) (.fields ys) = some trimmed ∧
      Trims (.fields ys) (.fields xs) trimmed := by
  have hpaths : ∀ path, path ∈ pathsOf .valuesChanged (deepDiff (.fields ys) (.fields xs)) ++
      pathsOf .dictionaryItemAdded (deepDiff (.fields ys) (.fields xs)) ↔
        TrimmedAt (.fields ys) (.fields xs) path := by
    intro path
    rw [List.mem_append, mem_pathsOf, mem_pathsOf, TrimmedAt, ReportedAt, ← exists_or]
    refine exists_congr fun delta => ?_
    rw [hdeep.mem_iff _ _ hys hxs, ← and_or_left, ← and_or_left]
  obtain ⟨trimmed, hfold, htrims⟩ := exists_trims hpaths
  refine ⟨trimmed, ?_, htrims⟩
  have hne : ∀ path ∈ pathsOf .valuesChanged (deepDiff (.fields ys) (.fields xs)) ++
      pathsOf .dictionaryItemAdded (deepDiff (.fields ys) (.fields xs)), path ≠ [] := by
    rintro path hpath rfl
    exact not_reportedAt_nil (.fields ys xs) (.fields rfl) ((hpaths []).mp hpath)
  have hset := foldlM_nestedSet_of_setAt hne hfold
  rw [List.foldlM_append] at hset
  exact hset

/-- The end state of a run: the objects under their resource keys. -/
structure EndState where
  objects : List (String × List (String × PythonValue))
  keys : (objects.map Prod.fst).Nodup
  parsed : ∀ object ∈ objects, (parseKey object.1).isSome
  distinct : ∀ object ∈ objects, (DataTree.fields object.2 : PythonValue).Distinct

namespace EndState

/-- The resource keys and the values. -/
def entries (state : EndState) : List (String × PythonValue) :=
  state.objects.map fun object => (object.1, .fields object.2)

def value (state : EndState) : PythonValue := .fields state.entries

theorem map_fst_entries (state : EndState) :
    state.entries.map Prod.fst = state.objects.map Prod.fst := by
  rw [entries, List.map_map]
  rfl

theorem value_distinct (state : EndState) : state.value.Distinct := by
  refine .fields (by rw [map_fst_entries]; exact state.keys) fun f hf => ?_
  obtain ⟨object, hobject, rfl⟩ := List.mem_map.mp hf
  exact state.distinct object hobject

/-- Every child of the state is an object under a resource key. -/
theorem child_spec {state : EndState} {step : TreeStep String} {x : PythonValue}
    (h : state.value.child step = some x) : ∃ resourceKey fields, step = .key resourceKey ∧
      (parseKey resourceKey).isSome ∧ x = .fields fields := by
  cases step with
  | index i => cases h
  | key k =>
    obtain ⟨object, hobject, heq⟩ := List.mem_map.mp (DataTree.mem_of_lookup h)
    obtain ⟨rfl, rfl⟩ := Prod.mk.inj heq
    exact ⟨object.1, object.2, rfl, state.parsed object hobject, rfl⟩

theorem isSome_child_iff {state : EndState} {resourceKey : String} :
    (state.value.child (.key resourceKey)).isSome ↔ resourceKey ∈ state.objects.map Prod.fst := by
  rw [← map_fst_entries]
  exact DataTree.lookup_isSome_iff

end EndState

/-- The reference state reports neither run, and keeps every field in which the runs differ in types at
most. -/
def EliminatesNondeterminism (deepDiff : PythonValue → PythonValue → List StateDelta)
    (python : PythonLower) (testContext : CheckerContext) (first second : EndState) : Prop :=
  ∃ trimmed, secondPassLearnTrim deepDiff first.value second.value = some trimmed ∧
    compareFields deepDiff python testContext trimmed first.value = some [] ∧
    compareFields deepDiff python testContext trimmed second.value = some [] ∧
    ∀ path v v', first.value.get? path = some v → second.value.get? path = some v' →
      (∀ delta, Reported PythonScalar.type v' v delta → delta.deltaType = .typeChanges) →
        trimmed.get? path = some v

variable {deepDiff : PythonValue → PythonValue → List StateDelta} {python : PythonLower}
  {testContext : CheckerContext}

/-- What a comparison with a state that has the keys of an end state reports. -/
theorem compareFields_value_iff (hdeep : IsDeepDiff deepDiff) (hmasks : testContext.NoMasks)
    {first : EndState} {reference : PythonValue} (hsteps : DataTree.SameSteps first.value reference)
    (hdistinct : reference.Distinct) (state : EndState) :
    compareFields deepDiff python testContext reference state.value = some [] ↔
      ∀ resourceKey rest, testContext.Compares resourceKey → rest ≠ [] →
        ¬ ReportedAt PythonScalar.type IsMessage reference state.value (.key resourceKey :: rest) := by
  have htype : SameType PythonScalar.type reference state.value :=
    (SameType.of_sameSteps hsteps (.fields _ _)).1
  -- every difference is at or below an object
  have hpath : ∀ delta, Reported PythonScalar.type reference state.value delta →
      ∃ resourceKey rest, delta.path = .key resourceKey :: rest ∧ (parseKey resourceKey).isSome := by
    intro delta h
    obtain ⟨step, rest, hdelta, hchild⟩ := h.exists_step htype hsteps.symm_refl
    rw [hsteps.isSome_eq] at hchild
    obtain ⟨resourceKey, rfl, hkey⟩ : ∃ resourceKey, step = .key resourceKey ∧
        (parseKey resourceKey).isSome := by
      rcases hchild with hchild | hchild <;>
        obtain ⟨x, hx⟩ := Option.isSome_iff_exists.mp hchild <;>
        obtain ⟨resourceKey, _, hstep, hkey, _⟩ := EndState.child_spec hx <;>
        exact ⟨resourceKey, hstep, hkey⟩
    exact ⟨resourceKey, rest, hdelta, hkey⟩
  rw [compareFields_eq_nil_iff hdeep hdistinct state.value_distinct]
  constructor
  · intro h resourceKey rest hcompares hrest ⟨delta, hdelta, hdeltaPath, hmessage⟩
    obtain ⟨resourceKey', rest', hpath', hkey⟩ := hpath delta hdelta
    obtain ⟨rfl, rfl⟩ : resourceKey' = resourceKey ∧ rest' = rest := by
      rw [hpath'] at hdeltaPath
      simpa using hdeltaPath
    exact hmessage ((fieldMessage_eq_none_iff hmasks hpath' hkey).mp (h delta hdelta) hcompares hrest)
  · intro h delta hdelta
    obtain ⟨resourceKey, rest, hpath', hkey⟩ := hpath delta hdelta
    refine (fieldMessage_eq_none_iff hmasks hpath' hkey).mpr fun hcompares hrest => ?_
    by_contra hmessage
    exact h resourceKey rest hcompares hrest ⟨delta, hdelta, hpath', hmessage⟩

/-- Objects that both runs have do not differ as a whole. -/
theorem not_reportedAt_object {first second : EndState}
    (hsame : ∀ resourceKey, resourceKey ∈ first.objects.map Prod.fst ↔
      resourceKey ∈ second.objects.map Prod.fst)
    {Q : DeltaType → Option PythonValue → Option PythonValue → Prop} (step : TreeStep String) :
    ¬ ReportedAt PythonScalar.type Q first.value second.value [step] := by
  have htype : SameType PythonScalar.type first.value second.value := .fields _ _
  have hnode : DataTree.SameSteps first.value first.value := .fields rfl
  rw [reportedAt_cons_iff htype hnode]
  cases hx : first.value.child step with
  | none =>
    cases hy : second.value.child step with
    | none => exact not_false
    | some y =>
      obtain ⟨resourceKey, _, rfl, _, _⟩ := EndState.child_spec hy
      have hmem := (hsame resourceKey).mpr (EndState.isSome_child_iff.mp (by rw [hy]; rfl))
      rw [← EndState.isSome_child_iff, hx] at hmem
      cases hmem
  | some x =>
    obtain ⟨resourceKey, xs, rfl, _, rfl⟩ := EndState.child_spec hx
    have hmem := (hsame resourceKey).mp (EndState.isSome_child_iff.mp (by rw [hx]; rfl))
    rw [← EndState.isSome_child_iff, Option.isSome_iff_exists] at hmem
    obtain ⟨y, hy⟩ := hmem
    obtain ⟨_, ys, _, _, rfl⟩ := EndState.child_spec hy
    rw [hy]
    exact not_reportedAt_nil (.fields xs ys) (.fields rfl)

/-- **When the reference state eliminates all nondeterminism**: where `DeepDiff` finds changed values
only, or changed types of values one of which is a time or an address. -/
theorem eliminates_iff (hdeep : IsDeepDiff deepDiff) (python : PythonLower)
    (hmasks : testContext.NoMasks) (first second : EndState)
    (hsame : ∀ resourceKey, resourceKey ∈ first.objects.map Prod.fst ↔
      resourceKey ∈ second.objects.map Prod.fst) :
    EliminatesNondeterminism deepDiff python testContext first second ↔
      ∀ delta resourceKey rest, Reported PythonScalar.type first.value second.value delta →
        delta.path = .key resourceKey :: rest → testContext.Compares resourceKey →
          delta.deltaType = .valuesChanged ∨
            delta.deltaType = .typeChanges ∧ passedOver delta.t1 delta.t2 = true := by
  obtain ⟨trimmed, htrim, htrims⟩ :=
    secondPassLearnTrim_trims hdeep first.value_distinct second.value_distinct
  have hsteps : DataTree.SameSteps first.value trimmed := by
    cases htrims with
    | apart h => exact absurd (.fields _ _) h
    | node _ hsteps _ _ => exact hsteps
  have hremains : ∀ delta : StateDelta, ¬ Remains delta.deltaType delta.t1 delta.t2 ↔
      delta.deltaType = .valuesChanged ∨
        delta.deltaType = .typeChanges ∧ passedOver delta.t1 delta.t2 = true := by
    intro delta
    rw [Remains, IsMessage]
    cases delta.deltaType <;> simp [isChange]
  have hcompare := fun state =>
    @compareFields_value_iff _ python _ hdeep hmasks first trimmed hsteps
      (htrims.distinct first.value_distinct) state
  constructor
  · intro ⟨trimmed', htrim', _, hsecond, _⟩ delta resourceKey rest hdelta hpath hcompares
    obtain rfl := Option.some.inj (htrim.symm.trans htrim')
    rw [← hremains]
    intro hremain
    have hat : ReportedAt PythonScalar.type Remains first.value second.value (.key resourceKey :: rest) :=
      ⟨delta, hdelta, hpath, hremain⟩
    cases rest with
    | nil => exact not_reportedAt_object hsame _ hat
    | cons step rest =>
      exact (hcompare second).mp hsecond resourceKey _ hcompares (List.cons_ne_nil step rest)
        ((htrims.reportedAt_iff _).mpr hat)
  · intro h
    refine ⟨trimmed, htrim, (hcompare first).mpr fun resourceKey rest _ _ =>
      htrims.not_reportedAt_base _, (hcompare second).mpr fun resourceKey rest hcompares _ hat => ?_,
      fun path v v' hv hv' htypes => ?_⟩
    · obtain ⟨delta, hdelta, hpath, hremain⟩ := (htrims.reportedAt_iff _).mp hat
      exact (hremains delta).mpr (h delta resourceKey rest hdelta hpath hcompares) hremain
    · refine htrims.get?_eq first.value_distinct hv hv' fun lower hlower => ?_
      obtain ⟨delta, hdelta, _, htype⟩ := hlower
      rw [htypes delta hdelta] at htype
      rcases htype with htype | htype <;> cases htype

/-! ### Pods -/

def plainContext : CheckerContext where
  customResourceDefinitions := []
  fieldKeyMask := []
  fieldPathMask := []
  endStateCheckerMask := []
  testWorkload := "test"
  currentControllerFamily := []
  referenceControllerFamily := []

/-- The end state of a run with one pod. -/
def podState (status : List (String × PythonScalar)) (hstatus : (status.map Prod.fst).Nodup) : EndState where
  objects := [("pod/default/web", status.map fun field => (field.1, .leaf field.2))]
  keys := List.nodup_singleton _
  parsed := by
    intro object hobject
    rw [List.mem_singleton.mp hobject]
    show (parseKey "pod/default/web").isSome = true
    decide
  distinct := by
    intro object hobject
    rw [List.mem_singleton.mp hobject]
    refine .fields (by rw [List.map_map]; exact hstatus) fun f hf => ?_
    obtain ⟨field, _, rfl⟩ := List.mem_map.mp hf
    exact .leaf _

def pendingPod : EndState := podState [("Phase", .str "Pending")] (by simp)

def runningPod : EndState := podState [("Phase", .str "Running")] (by simp)

def readyPod : EndState := podState [("Phase", .str "Running"), ("Ready", .bool true)] (by simp)

/-- A phase that changes. -/
theorem eliminates_iff_phase : EliminatesNondeterminism (treeDiff PythonScalar.type) asciiLower
    plainContext pendingPod runningPod := by
  refine (eliminates_iff isDeepDiff_treeDiff asciiLower ⟨rfl, rfl, rfl⟩ pendingPod runningPod
    fun _ => Iff.rfl).mpr fun delta resourceKey rest h _ _ => .inl ?_
  rw [← isDeepDiff_treeDiff.mem_iff _ _ pendingPod.value_distinct runningPod.value_distinct] at h
  rw [List.mem_singleton.mp h]
  rfl

/-- **A field that only the second run has** is reported for that run. -/
theorem not_eliminates_ready : ¬ EliminatesNondeterminism (treeDiff PythonScalar.type) asciiLower
    plainContext runningPod readyPod := by
  intro ⟨trimmed, htrim, _, hsecond, _⟩
  have hkept : secondPassLearnTrim (treeDiff PythonScalar.type) runningPod.value readyPod.value =
      some runningPod.value := rfl
  obtain rfl := Option.some.inj (hkept.symm.trans htrim)
  have hreported : compareFields (treeDiff PythonScalar.type) asciiLower plainContext runningPod.value
      readyPod.value = some [.more "pod/default/web" [.key "ready"] (some (.leaf (.bool true)))] := rfl
  cases hreported.symm.trans hsecond

end Sieve.Oracle
