import Mathlib.Data.List.Basic
import Mathlib.Data.List.Nodup

/-!
# Trees of lists and named fields

What decoders of data formats make: scalars, lists, and fields with distinct names.  Over any names and
scalars.

* `DataTree.child`: what stands under a name or an index, the same for both kinds of inner nodes;
* `DataTree.ext_child`: trees with the same steps and children are the same;
* `DataTree.setAt`: a subtree replaced at the end of a path;
* `foldlM_setAt`: many replacements are done child by child.
-/

namespace Sieve.Library

inductive DataTree (κ α : Type) where
  | leaf (a : α)
  | items (xs : List (DataTree κ α))
  | fields (xs : List (κ × DataTree κ α))

/-- A step from a node to a child. -/
inductive TreeStep (κ : Type) where
  | key (k : κ)
  | index (i : ℕ)
  deriving DecidableEq

variable {κ α : Type}

/-- **Induction over trees.** -/
theorem DataTree.induct {P : DataTree κ α → Prop} (leaf : ∀ a, P (.leaf a))
    (items : ∀ xs, (∀ x ∈ xs, P x) → P (.items xs))
    (fields : ∀ xs : List (κ × DataTree κ α), (∀ f ∈ xs, P f.2) → P (.fields xs)) (t : DataTree κ α) :
    P t :=
  @DataTree.rec κ α P (fun xs => ∀ x ∈ xs, P x) (fun xs => ∀ f ∈ xs, P f.2) (fun f => P f.2)
    leaf items fields (fun _ h => absurd h List.not_mem_nil)
    (fun _ _ hx hxs => List.forall_mem_cons.mpr ⟨hx, hxs⟩) (fun _ h => absurd h List.not_mem_nil)
    (fun _ _ hx hxs => List.forall_mem_cons.mpr ⟨hx, hxs⟩) (fun _ _ h => h) t

namespace DataTree

/-- Names are distinct at every node, as decoders leave them. -/
inductive Distinct : DataTree κ α → Prop where
  | leaf (a : α) : Distinct (.leaf a)
  | items {xs : List (DataTree κ α)} (h : ∀ x ∈ xs, Distinct x) : Distinct (.items xs)
  | fields {xs : List (κ × DataTree κ α)} (hkeys : (xs.map Prod.fst).Nodup)
      (h : ∀ f ∈ xs, Distinct f.2) : Distinct (.fields xs)

/-- Inner nodes with the same steps, in the same order. -/
inductive SameSteps : DataTree κ α → DataTree κ α → Prop where
  | items {xs ys : List (DataTree κ α)} (h : xs.length = ys.length) : SameSteps (.items xs) (.items ys)
  | fields {xs ys : List (κ × DataTree κ α)} (h : xs.map Prod.fst = ys.map Prod.fst) :
      SameSteps (.fields xs) (.fields ys)

variable [DecidableEq κ]

/-! ### Children -/

/-- What stands under a name or an index. -/
def child : DataTree κ α → TreeStep κ → Option (DataTree κ α)
  | .fields xs, .key k => xs.lookup k
  | .items xs, .index i => xs[i]?
  | _, _ => none

/-- `m[k] = v`. -/
def setField (xs : List (κ × DataTree κ α)) (k : κ) (v : DataTree κ α) : List (κ × DataTree κ α) :=
  if k ∈ xs.map Prod.fst then xs.map fun f => if f.1 = k then (k, v) else f else xs ++ [(k, v)]

/-- An assignment to a child; a list gets no new indices. -/
def setChild : DataTree κ α → TreeStep κ → DataTree κ α → Option (DataTree κ α)
  | .fields xs, .key k, v => some (.fields (setField xs k v))
  | .items xs, .index i, v => if i < xs.length then some (.items (xs.set i v)) else none
  | _, _, _ => none

theorem lookup_isSome_iff {xs : List (κ × DataTree κ α)} {k : κ} :
    (xs.lookup k).isSome ↔ k ∈ xs.map Prod.fst := by
  induction xs with
  | nil => simp
  | cons f xs ih =>
    obtain ⟨k', v⟩ := f
    by_cases hk : k = k'
    · simp [hk]
    · rw [List.lookup_cons, beq_false_of_ne hk, List.map_cons, List.mem_cons, ih]
      simp [hk]

theorem lookup_of_mem {xs : List (κ × DataTree κ α)} (hkeys : (xs.map Prod.fst).Nodup)
    {f : κ × DataTree κ α} (hf : f ∈ xs) : xs.lookup f.1 = some f.2 := by
  induction xs with
  | nil => cases hf
  | cons f' xs ih =>
    obtain ⟨hnot, hkeys⟩ := List.nodup_cons.mp hkeys
    rcases List.mem_cons.mp hf with rfl | hf
    · rw [List.lookup_cons, beq_self_eq_true]
    · have hne : f.1 ≠ f'.1 := fun heq => hnot (heq ▸ List.mem_map_of_mem hf)
      rw [List.lookup_cons, beq_false_of_ne hne]
      exact ih hkeys hf

theorem mem_of_lookup {xs : List (κ × DataTree κ α)} {k : κ} {v : DataTree κ α}
    (h : xs.lookup k = some v) : (k, v) ∈ xs := by
  obtain ⟨before, after, rfl, _⟩ := List.lookup_eq_some_iff.mp h
  simp

theorem lookup_map_set (xs : List (κ × DataTree κ α)) {k : κ} (hk : k ∈ xs.map Prod.fst)
    (v : DataTree κ α) (k' : κ) :
    (xs.map fun f => if f.1 = k then (k, v) else f).lookup k' =
      if k' = k then some v else xs.lookup k' := by
  induction xs with
  | nil => simp at hk
  | cons f xs ih =>
    obtain ⟨first, x⟩ := f
    by_cases hfirst : first = k
    · by_cases hk' : k' = k
      · simp [hfirst, hk']
      · have hne : (k' == k) = false := beq_false_of_ne hk'
        simp only [List.map_cons, hfirst, if_true, List.lookup_cons, hne, hk', if_false]
        by_cases hin : k ∈ xs.map Prod.fst
        · rw [ih hin, if_neg hk']
        · have hsame : (xs.map fun f => if f.1 = k then (k, v) else f) = xs := by
            refine (List.map_congr_left fun f hf => ?_).trans (List.map_id xs)
            have hne : f.1 ≠ k := fun heq => hin (heq ▸ List.mem_map_of_mem hf)
            exact if_neg hne
          rw [hsame]
    · have hin : k ∈ xs.map Prod.fst := by
        rcases List.mem_cons.mp hk with heq | hin
        · exact absurd heq.symm hfirst
        · exact hin
      simp only [List.map_cons, hfirst, if_false, List.lookup_cons, ih hin]
      by_cases hk' : k' = k
      · have hne : (k == first) = false := beq_false_of_ne fun heq => hfirst heq.symm
        simp [hk', hne]
      · simp [hk']

/-- An assignment to a child that is there. -/
theorem setChild_spec {t x : DataTree κ α} {step : TreeStep κ} (h : t.child step = some x)
    (v : DataTree κ α) : ∃ t', t.setChild step v = some t' ∧ SameSteps t t' ∧
      ∀ step', t'.child step' = if step' = step then some v else t.child step' := by
  cases t with
  | leaf a => cases step <;> cases h
  | items xs =>
    cases step with
    | key k => cases h
    | index i =>
      have hlt : i < xs.length := List.getElem?_eq_some_iff.mp h |>.1
      refine ⟨.items (xs.set i v), if_pos hlt, .items (by simp), fun step' => ?_⟩
      cases step' with
      | key k => simp [child]
      | index j =>
        show (xs.set i v)[j]? = if TreeStep.index j = TreeStep.index i then some v else xs[j]?
        by_cases hij : j = i
        · simp [hij, hlt]
        · simp [hij, List.getElem?_set_ne (Ne.symm hij)]
  | fields xs =>
    cases step with
    | index i => cases h
    | key k =>
      have hk : k ∈ xs.map Prod.fst := lookup_isSome_iff.mp (by
        show (child (.fields xs) (.key k)).isSome = true
        rw [h, Option.isSome_some])
      refine ⟨.fields (setField xs k v), rfl, .fields ?_, fun step' => ?_⟩
      · rw [setField, if_pos hk, List.map_map]
        refine List.map_congr_left fun f _ => ?_
        show f.1 = (if f.1 = k then (k, v) else f).1
        split
        · assumption
        · rfl
      · cases step' with
        | index i => simp [child]
        | key k' =>
          show (setField xs k v).lookup k' = if TreeStep.key k' = TreeStep.key k then some v else
            xs.lookup k'
          rw [setField, if_pos hk, lookup_map_set xs hk]
          simp

/-! ### Trees by their children -/

omit [DecidableEq κ] in
theorem SameSteps.symm_refl {t t' : DataTree κ α} (h : SameSteps t t') : SameSteps t' t' := by
  cases h with
  | items _ => exact .items rfl
  | fields _ => exact .fields rfl

omit [DecidableEq κ] in
theorem SameSteps.trans {t t' t'' : DataTree κ α} (h : SameSteps t t') (h' : SameSteps t' t'') :
    SameSteps t t'' := by
  cases h with
  | items h =>
    cases h' with
    | items h' => exact .items (h.trans h')
  | fields h =>
    cases h' with
    | fields h' => exact .fields (h.trans h')

theorem SameSteps.isSome_eq {t t' : DataTree κ α} (h : SameSteps t t') (step : TreeStep κ) :
    (t'.child step).isSome = (t.child step).isSome := by
  cases h with
  | @items xs ys h =>
    cases step with
    | key k => rfl
    | index i =>
      show ys[i]?.isSome = xs[i]?.isSome
      rw [Bool.eq_iff_iff, Option.isSome_iff_ne_none, Option.isSome_iff_ne_none, ne_eq, ne_eq,
        List.getElem?_eq_none_iff, List.getElem?_eq_none_iff, h]
  | @fields xs ys h =>
    cases step with
    | index i => rfl
    | key k =>
      show (ys.lookup k).isSome = (xs.lookup k).isSome
      rw [Bool.eq_iff_iff, lookup_isSome_iff, lookup_isSome_iff, h]

/-- Every child of a tree with distinct names is such a tree. -/
theorem Distinct.child {t x : DataTree κ α} (h : t.Distinct) {step : TreeStep κ}
    (hx : t.child step = some x) : x.Distinct := by
  cases h with
  | leaf a => cases step <;> cases hx
  | items h =>
    cases step with
    | key k => cases hx
    | index i => exact h x (List.mem_of_getElem? hx)
  | fields hkeys h =>
    cases step with
    | index i => cases hx
    | key k => exact h _ (mem_of_lookup hx)

/-- A tree with the same steps and such children. -/
theorem Distinct.of_children {t t' : DataTree κ α} (h : t.Distinct) (hsame : SameSteps t t')
    (hchildren : ∀ step x, t'.child step = some x → x.Distinct) : t'.Distinct := by
  cases hsame with
  | items _ =>
    refine .items fun x hx => ?_
    obtain ⟨i, hi⟩ := List.mem_iff_getElem?.mp hx
    exact hchildren (.index i) x hi
  | fields hkeys =>
    cases h with
    | fields hnodup _ =>
      rw [hkeys] at hnodup
      exact .fields hnodup fun f hf => hchildren (.key f.1) f.2 (lookup_of_mem hnodup hf)

theorem fields_ext {xs ys : List (κ × DataTree κ α)} (hnodup : (xs.map Prod.fst).Nodup)
    (hkeys : xs.map Prod.fst = ys.map Prod.fst) (h : ∀ k, xs.lookup k = ys.lookup k) : xs = ys := by
  refine List.ext_getElem ?_ fun i hi hi' => ?_
  · rw [← List.length_map Prod.fst, hkeys, List.length_map]
  · have hkey : xs[i].1 = ys[i].1 := by
      have heq := congrArg (fun ks : List κ => ks[i]?) hkeys
      simpa [hi, hi'] using heq
    have hx := lookup_of_mem hnodup (List.getElem_mem hi)
    have hy := lookup_of_mem (hkeys ▸ hnodup) (List.getElem_mem hi')
    rw [h, hkey, hy] at hx
    exact Prod.ext hkey (Option.some.inj hx).symm

/-- **Trees are known by their steps and children.** -/
theorem ext_child {t t' : DataTree κ α} (h : t.Distinct) (hsame : SameSteps t t')
    (hchild : ∀ step, t.child step = t'.child step) : t = t' := by
  cases hsame with
  | items _ => exact congrArg DataTree.items (List.ext_getElem? fun i => hchild (.index i))
  | fields hkeys =>
    cases h with
    | fields hnodup _ =>
      exact congrArg DataTree.fields (fields_ext hnodup hkeys fun k => hchild (.key k))

/-! ### Replacements -/

/-- The subtree at the end of a path. -/
def get? : DataTree κ α → List (TreeStep κ) → Option (DataTree κ α)
  | t, [] => some t
  | t, step :: path => (t.child step).bind fun x => x.get? path

/-- The subtree at the end of a path is replaced. -/
def setAt (v : DataTree κ α) : DataTree κ α → List (TreeStep κ) → Option (DataTree κ α)
  | _, [] => some v
  | t, step :: path => do
    let x ← t.child step
    let x' ← setAt v x path
    t.setChild step x'

/-- What is left of the paths that begin with the step. -/
def pathsUnder (step : TreeStep κ) (paths : List (List (TreeStep κ))) : List (List (TreeStep κ)) :=
  paths.filterMap fun path =>
    match path with
    | [] => none
    | first :: rest => if first = step then some rest else none

theorem mem_pathsUnder {step : TreeStep κ} {paths : List (List (TreeStep κ))} {rest : List (TreeStep κ)} :
    rest ∈ pathsUnder step paths ↔ step :: rest ∈ paths := by
  rw [pathsUnder, List.mem_filterMap]
  constructor
  · intro h
    obtain ⟨path, hpath, hrest⟩ := h
    cases path with
    | nil => cases hrest
    | cons first rest' =>
      simp only [Option.ite_none_right_eq_some, Option.some.injEq] at hrest
      rw [← hrest.1, ← hrest.2]
      exact hpath
  · intro h
    exact ⟨step :: rest, h, if_pos rfl⟩

/-- Replacing the whole tree, once or more often. -/
theorem foldlM_setAt_nil (v t : DataTree κ α) {paths : List (List (TreeStep κ))}
    (hpaths : ∀ path ∈ paths, path = []) :
    paths.foldlM (setAt v) t = some (if paths = [] then t else v) := by
  induction paths generalizing t with
  | nil => rfl
  | cons path paths ih =>
    obtain ⟨hpath, hpaths⟩ := List.forall_mem_cons.mp hpaths
    rw [List.foldlM_cons, hpath]
    show paths.foldlM (setAt v) v = _
    rw [ih v hpaths]
    simp

/-- **Replacements are done child by child.** -/
theorem foldlM_setAt {v t : DataTree κ α} {paths : List (List (TreeStep κ))} (hnode : SameSteps t t)
    (hpaths : ∀ path ∈ paths, ∃ step rest, path = step :: rest ∧ (t.child step).isSome)
    (hchildren : ∀ step x, t.child step = some x →
      ∃ x', (pathsUnder step paths).foldlM (setAt v) x = some x') :
    ∃ t', paths.foldlM (setAt v) t = some t' ∧ SameSteps t t' ∧ ∀ step x, t.child step = some x →
      t'.child step = (pathsUnder step paths).foldlM (setAt v) x := by
  induction paths generalizing t with
  | nil => exact ⟨t, rfl, hnode, fun step x hx => hx⟩
  | cons path paths ih =>
    obtain ⟨⟨first, rest, rfl, hfirst⟩, hothers⟩ := List.forall_mem_cons.mp hpaths
    obtain ⟨x, hx⟩ := Option.isSome_iff_exists.mp hfirst
    have hunder : ∀ step, pathsUnder step ((first :: rest) :: paths) =
        if first = step then rest :: pathsUnder step paths else pathsUnder step paths := by
      intro step
      rw [pathsUnder, List.filterMap_cons]
      by_cases hstep : first = step
      · simp [hstep, pathsUnder]
      · simp [hstep, pathsUnder]
    -- the child on the path is replaced
    obtain ⟨whole, hwhole⟩ := hchildren first x hx
    rw [hunder, if_pos rfl, List.foldlM_cons] at hwhole
    obtain ⟨x', hx', hrest⟩ := Option.bind_eq_some_iff.mp hwhole
    obtain ⟨t', ht', hsame, hchild⟩ := setChild_spec hx x'
    have hset : setAt v t (first :: rest) = some t' := by
      show (t.child first).bind (fun x => (setAt v x rest).bind fun x' => t.setChild first x') = some t'
      rw [hx, Option.bind_some, hx', Option.bind_some, ht']
    -- the others are as before
    have hother : ∀ step y, t'.child step = some y → first ≠ step → t.child step = some y := by
      intro step y hy hne
      rwa [hchild, if_neg (Ne.symm hne)] at hy
    have hpaths' : ∀ path ∈ paths, ∃ step rest, path = step :: rest ∧ (t'.child step).isSome := by
      intro path hpath
      obtain ⟨step, rest', rfl, hstep⟩ := hothers path hpath
      exact ⟨step, rest', rfl, by rw [hsame.isSome_eq]; exact hstep⟩
    have hchildren' : ∀ step y, t'.child step = some y →
        ∃ y', (pathsUnder step paths).foldlM (setAt v) y = some y' := by
      intro step y hy
      by_cases hstep : first = step
      · subst hstep
        rw [hchild, if_pos rfl] at hy
        obtain rfl := Option.some.inj hy
        exact ⟨whole, hrest⟩
      · have hmore := hchildren step y (hother step y hy hstep)
        rwa [hunder, if_neg hstep] at hmore
    obtain ⟨t'', ht'', hsame', hchild'⟩ := ih hsame.symm_refl hpaths' hchildren'
    refine ⟨t'', ?_, hsame.trans hsame', fun step y hy => ?_⟩
    · rw [List.foldlM_cons, hset]
      exact ht''
    · rw [hunder]
      by_cases hstep : first = step
      · subst hstep
        rw [hchild' first x' (by rw [hchild, if_pos rfl]), if_pos rfl, List.foldlM_cons,
          ← Option.some.inj (hx.symm.trans hy), hx']
        rfl
      · rw [if_neg hstep]
        exact hchild' step y (by rw [hchild, if_neg (Ne.symm hstep), hy])

end DataTree

end Sieve.Library
