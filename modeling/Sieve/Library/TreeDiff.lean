import Sieve.Library.DataTree

/-!
# Differences of trees, place by place

Two trees are compared position by position: scalars by their kind and value, lists by index, fields by
name.  Over any names, scalars and kinds of scalars.

* `Reported`: a difference between two trees, with the path to it;
* `not_reported_self`: a tree does not differ from itself;
* `reported_node_iff`: the differences of inner nodes, step by step;
* `ReportedAt`: a difference at the end of a path, with `reportedAt_cons_iff`;
* `treeDiff`: all differences, with `mem_treeDiff_iff`.
-/

namespace Sieve.Library

inductive DeltaType where
  | valuesChanged
  | typeChanges
  | dictionaryItemAdded
  | dictionaryItemRemoved
  | iterableItemAdded
  | iterableItemRemoved
  deriving DecidableEq

variable {κ α τ : Type}

/-- A difference: where it is and what stands there in either tree. -/
structure TreeDelta (κ α : Type) where
  deltaType : DeltaType
  path : List (TreeStep κ)
  t1 : Option (DataTree κ α)
  t2 : Option (DataTree κ α)

namespace TreeDelta

/-- The same difference further down. -/
def under (step : TreeStep κ) (delta : TreeDelta κ α) : TreeDelta κ α :=
  { delta with path := step :: delta.path }

def changed (t1 t2 : DataTree κ α) : TreeDelta κ α := ⟨.valuesChanged, [], some t1, some t2⟩

def typeChanged (t1 t2 : DataTree κ α) : TreeDelta κ α := ⟨.typeChanges, [], some t1, some t2⟩

def added : TreeStep κ → DataTree κ α → TreeDelta κ α
  | .key k, t2 => ⟨.dictionaryItemAdded, [.key k], none, some t2⟩
  | .index i, t2 => ⟨.iterableItemAdded, [.index i], none, some t2⟩

def removed : TreeStep κ → DataTree κ α → TreeDelta κ α
  | .key k, t1 => ⟨.dictionaryItemRemoved, [.key k], some t1, none⟩
  | .index i, t1 => ⟨.iterableItemRemoved, [.index i], some t1, none⟩

theorem added_path (step : TreeStep κ) (t2 : DataTree κ α) : (added step t2).path = [step] := by
  cases step <;> rfl

theorem removed_path (step : TreeStep κ) (t1 : DataTree κ α) : (removed step t1).path = [step] := by
  cases step <;> rfl

end TreeDelta

variable [DecidableEq κ]

section Differences

variable (kind : α → τ)

/-- Both are scalars of one kind, both lists, or both have fields. -/
inductive SameType : DataTree κ α → DataTree κ α → Prop where
  | leaf {a b : α} (h : kind a = kind b) : SameType (.leaf a) (.leaf b)
  | items (xs ys : List (DataTree κ α)) : SameType (.items xs) (.items ys)
  | fields (xs ys : List (κ × DataTree κ α)) : SameType (.fields xs) (.fields ys)

/-- **A difference between two trees.** -/
inductive Reported : DataTree κ α → DataTree κ α → TreeDelta κ α → Prop where
  | changed {a b : α} (hkind : kind a = kind b) (hne : a ≠ b) :
      Reported (.leaf a) (.leaf b) (.changed (.leaf a) (.leaf b))
  | typeChanged {t1 t2 : DataTree κ α} (h : ¬ SameType kind t1 t2) : Reported t1 t2 (.typeChanged t1 t2)
  | added {t1 t2 y : DataTree κ α} {step : TreeStep κ} (h : SameType kind t1 t2)
      (h1 : t1.child step = none) (h2 : t2.child step = some y) : Reported t1 t2 (.added step y)
  | removed {t1 t2 x : DataTree κ α} {step : TreeStep κ} (h : SameType kind t1 t2)
      (h1 : t1.child step = some x) (h2 : t2.child step = none) : Reported t1 t2 (.removed step x)
  | under {t1 t2 x y : DataTree κ α} {step : TreeStep κ} {delta : TreeDelta κ α}
      (h1 : t1.child step = some x) (h2 : t2.child step = some y) (h : Reported x y delta) :
      Reported t1 t2 (delta.under step)

end Differences

variable {kind : α → τ} {t1 t2 : DataTree κ α} {delta : TreeDelta κ α}

omit [DecidableEq κ] in
theorem SameType.refl (t : DataTree κ α) : SameType kind t t := by
  cases t with
  | leaf a => exact .leaf rfl
  | items xs => exact .items xs xs
  | fields xs => exact .fields xs xs

omit [DecidableEq κ] in
theorem SameType.symm (h : SameType kind t1 t2) : SameType kind t2 t1 := by
  cases h with
  | leaf h => exact .leaf h.symm
  | items xs ys => exact .items ys xs
  | fields xs ys => exact .fields ys xs

omit [DecidableEq κ] in
/-- Inner nodes with the same steps have the same type, also towards others. -/
theorem SameType.of_sameSteps {t : DataTree κ α} (hsteps : DataTree.SameSteps t1 t)
    (h : SameType kind t1 t2) : SameType kind t t2 ∧ DataTree.SameSteps t1 t1 := by
  cases hsteps with
  | items _ =>
    cases h with
    | items _ _ => exact ⟨.items _ _, .items rfl⟩
  | fields _ =>
    cases h with
    | fields _ _ => exact ⟨.fields _ _, .fields rfl⟩

/-- Trees with a child under one step have the same type. -/
theorem sameType_of_child {x y : DataTree κ α} {step : TreeStep κ} (h1 : t1.child step = some x)
    (h2 : t2.child step = some y) : SameType kind t1 t2 := by
  cases t1 with
  | leaf a => cases step <;> cases h1
  | items xs =>
    cases step with
    | key k => cases h1
    | index i =>
      cases t2 with
      | items ys => exact .items xs ys
      | leaf b => cases h2
      | fields ys => cases h2
  | fields xs =>
    cases step with
    | index i => cases h1
    | key k =>
      cases t2 with
      | fields ys => exact .fields xs ys
      | leaf b => cases h2
      | items ys => cases h2

/-- **A tree does not differ from itself.** -/
theorem not_reported_self (t : DataTree κ α) (delta : TreeDelta κ α) : ¬ Reported kind t t delta := by
  have hall : ∀ t1 t2 : DataTree κ α, Reported kind t1 t2 delta → t1 ≠ t2 := by
    intro t1 t2 h
    induction h with
    | changed _ hne =>
      intro heq
      exact hne (DataTree.leaf.inj heq)
    | typeChanged h =>
      rintro rfl
      exact h (.refl _)
    | added _ h1 h2 =>
      rintro rfl
      rw [h1] at h2
      cases h2
    | removed _ h1 h2 =>
      rintro rfl
      rw [h1] at h2
      cases h2
    | under h1 h2 _ ih =>
      rintro rfl
      exact ih (Option.some.inj (h1.symm.trans h2))
  exact fun h => hall t t h rfl

/-- Between trees of different types there is only that difference. -/
theorem reported_apart_iff (hapart : ¬ SameType kind t1 t2) :
    Reported kind t1 t2 delta ↔ delta = .typeChanged t1 t2 := by
  constructor
  · intro h
    cases h with
    | changed hkind hne => exact absurd (.leaf hkind) hapart
    | typeChanged h => rfl
    | added h _ _ => exact absurd h hapart
    | removed h _ _ => exact absurd h hapart
    | under h1 h2 _ => exact absurd (sameType_of_child h1 h2) hapart
  · rintro rfl
    exact .typeChanged hapart

theorem DataTree.child_leaf (a : α) (step : TreeStep κ) : (DataTree.leaf a).child step = none := by
  cases step <;> rfl

/-- Between scalars of one kind there is only a changed value. -/
theorem reported_leaf_iff {a b : α} (hkind : kind a = kind b) :
    Reported kind (.leaf a : DataTree κ α) (.leaf b) delta ↔
      a ≠ b ∧ delta = .changed (.leaf a) (.leaf b) := by
  constructor
  · intro h
    cases h with
    | changed _ hne => exact ⟨hne, rfl⟩
    | typeChanged h => exact absurd (.leaf hkind) h
    | added _ _ h2 => simp [DataTree.child_leaf] at h2
    | removed _ h1 _ => simp [DataTree.child_leaf] at h1
    | under h1 _ _ => simp [DataTree.child_leaf] at h1
  · rintro ⟨hne, rfl⟩
    exact .changed hkind hne

/-- A difference under a step: a child that only one tree has, or a difference between both children. -/
def ChildDelta (below : DataTree κ α → DataTree κ α → TreeDelta κ α → Prop) (step : TreeStep κ) :
    Option (DataTree κ α) → Option (DataTree κ α) → TreeDelta κ α → Prop
  | none, none, _ => False
  | none, some y, delta => delta = .added step y
  | some x, none, delta => delta = .removed step x
  | some x, some y, delta => ∃ lower, below x y lower ∧ delta = lower.under step

/-- **The differences of inner nodes**, step by step. -/
theorem reported_node_iff (hsame : SameType kind t1 t2) (hnode : DataTree.SameSteps t1 t1) :
    Reported kind t1 t2 delta ↔
      ∃ step, ChildDelta (Reported kind) step (t1.child step) (t2.child step) delta := by
  constructor
  · intro h
    cases h with
    | changed _ _ => cases hnode
    | typeChanged h => exact absurd hsame h
    | @added _ _ y step _ h1 h2 => exact ⟨step, by rw [h1, h2]; rfl⟩
    | @removed _ _ x step _ h1 h2 => exact ⟨step, by rw [h1, h2]; rfl⟩
    | @under _ _ x y step lower h1 h2 h => exact ⟨step, by rw [h1, h2]; exact ⟨lower, h, rfl⟩⟩
  · intro ⟨step, h⟩
    cases h1 : t1.child step with
    | none =>
      cases h2 : t2.child step with
      | none =>
        rw [h1, h2] at h
        exact h.elim
      | some y =>
        rw [h1, h2] at h
        rw [show delta = .added step y from h]
        exact .added hsame h1 h2
    | some x =>
      cases h2 : t2.child step with
      | none =>
        rw [h1, h2] at h
        rw [show delta = .removed step x from h]
        exact .removed hsame h1 h2
      | some y =>
        rw [h1, h2] at h
        obtain ⟨lower, hlower, rfl⟩ := h
        exact .under h1 h2 hlower

/-- A difference of inner nodes is at or below a step of one of them. -/
theorem Reported.exists_step (h : Reported kind t1 t2 delta) (hsame : SameType kind t1 t2)
    (hnode : DataTree.SameSteps t1 t1) : ∃ step rest, delta.path = step :: rest ∧
      ((t1.child step).isSome ∨ (t2.child step).isSome) := by
  obtain ⟨step, h⟩ := (reported_node_iff hsame hnode).mp h
  cases h1 : t1.child step with
  | none =>
    cases h2 : t2.child step with
    | none =>
      rw [h1, h2] at h
      exact h.elim
    | some y =>
      rw [h1, h2] at h
      rw [show delta = .added step y from h, TreeDelta.added_path]
      exact ⟨step, [], rfl, .inr (by rw [h2]; rfl)⟩
  | some x =>
    cases h2 : t2.child step with
    | none =>
      rw [h1, h2] at h
      rw [show delta = .removed step x from h, TreeDelta.removed_path]
      exact ⟨step, [], rfl, .inl (by rw [h1]; rfl)⟩
    | some y =>
      rw [h1, h2] at h
      obtain ⟨lower, _, rfl⟩ := h
      exact ⟨step, lower.path, rfl, .inl (by rw [h1]; rfl)⟩

/-! ### Differences at a place -/

/-- At the end of the path there is such a difference. -/
def ReportedAt (kind : α → τ)
    (Q : DeltaType → Option (DataTree κ α) → Option (DataTree κ α) → Prop) (t1 t2 : DataTree κ α)
    (path : List (TreeStep κ)) : Prop :=
  ∃ delta, Reported kind t1 t2 delta ∧ delta.path = path ∧ Q delta.deltaType delta.t1 delta.t2

section Places

variable {Q : DeltaType → Option (DataTree κ α) → Option (DataTree κ α) → Prop}
  {path : List (TreeStep κ)}

theorem not_reportedAt_self (t : DataTree κ α) (path : List (TreeStep κ)) :
    ¬ ReportedAt kind Q t t path :=
  fun ⟨delta, h, _⟩ => not_reported_self t delta h

theorem reportedAt_apart_iff (hapart : ¬ SameType kind t1 t2) :
    ReportedAt kind Q t1 t2 path ↔ path = [] ∧ Q .typeChanges (some t1) (some t2) := by
  constructor
  · intro ⟨delta, h, hpath, hQ⟩
    obtain rfl := (reported_apart_iff hapart).mp h
    exact ⟨hpath.symm, hQ⟩
  · intro ⟨hpath, hQ⟩
    exact ⟨_, .typeChanged hapart, hpath.symm, hQ⟩

theorem reportedAt_leaf_iff {a b : α} (hkind : kind a = kind b) :
    ReportedAt kind Q (.leaf a) (.leaf b) path ↔
      a ≠ b ∧ path = [] ∧ Q .valuesChanged (some (.leaf a)) (some (.leaf b)) := by
  constructor
  · intro ⟨delta, h, hpath, hQ⟩
    obtain ⟨hne, rfl⟩ := (reported_leaf_iff hkind).mp h
    exact ⟨hne, hpath.symm, hQ⟩
  · intro ⟨hne, hpath, hQ⟩
    exact ⟨_, .changed hkind hne, hpath.symm, hQ⟩

/-- Inner nodes of one type have no difference themselves. -/
theorem not_reportedAt_nil (hsame : SameType kind t1 t2) (hnode : DataTree.SameSteps t1 t1) :
    ¬ ReportedAt kind Q t1 t2 [] := by
  intro ⟨delta, h, hpath, _⟩
  obtain ⟨step, rest, hstep, _⟩ := h.exists_step hsame hnode
  rw [hpath] at hstep
  cases hstep

/-- The difference is at or below a step. -/
def ReportedBelow (kind : α → τ)
    (Q : DeltaType → Option (DataTree κ α) → Option (DataTree κ α) → Prop) (step : TreeStep κ)
    (path : List (TreeStep κ)) : Option (DataTree κ α) → Option (DataTree κ α) → Prop
  | none, none => False
  | none, some y => path = [] ∧ Q (TreeDelta.added step y).deltaType none (some y)
  | some x, none => path = [] ∧ Q (TreeDelta.removed step x).deltaType (some x) none
  | some x, some y => ReportedAt kind Q x y path

/-- **The differences of inner nodes at a place**, by its first step. -/
theorem reportedAt_cons_iff (hsame : SameType kind t1 t2) (hnode : DataTree.SameSteps t1 t1)
    {step : TreeStep κ} : ReportedAt kind Q t1 t2 (step :: path) ↔
      ReportedBelow kind Q step path (t1.child step) (t2.child step) := by
  have hadded : ∀ (step' : TreeStep κ) (y : DataTree κ α), (TreeDelta.added step' y).t1 = none ∧
      (TreeDelta.added step' y).t2 = some y := by
    intro step' y
    cases step' <;> exact ⟨rfl, rfl⟩
  have hremoved : ∀ (step' : TreeStep κ) (x : DataTree κ α), (TreeDelta.removed step' x).t1 = some x ∧
      (TreeDelta.removed step' x).t2 = none := by
    intro step' x
    cases step' <;> exact ⟨rfl, rfl⟩
  constructor
  · intro ⟨delta, h, hpath, hQ⟩
    obtain ⟨step', h⟩ := (reported_node_iff hsame hnode).mp h
    -- the difference is under the first step of its path
    have hstep : ∀ {rest}, delta.path = step' :: rest → step' = step ∧ rest = path := by
      intro rest hrest
      rw [hrest] at hpath
      exact List.cons.inj hpath
    cases h1 : t1.child step' with
    | none =>
      cases h2 : t2.child step' with
      | none =>
        rw [h1, h2] at h
        exact h.elim
      | some y =>
        rw [h1, h2] at h
        obtain rfl : delta = .added step' y := h
        obtain ⟨rfl, rfl⟩ := hstep (TreeDelta.added_path step' y)
        rw [h1, h2]
        rw [(hadded step' y).1, (hadded step' y).2] at hQ
        exact ⟨rfl, hQ⟩
    | some x =>
      cases h2 : t2.child step' with
      | none =>
        rw [h1, h2] at h
        obtain rfl : delta = .removed step' x := h
        obtain ⟨rfl, rfl⟩ := hstep (TreeDelta.removed_path step' x)
        rw [h1, h2]
        rw [(hremoved step' x).1, (hremoved step' x).2] at hQ
        exact ⟨rfl, hQ⟩
      | some y =>
        rw [h1, h2] at h
        obtain ⟨lower, hlower, rfl⟩ := h
        obtain ⟨rfl, hrest⟩ := hstep rfl
        rw [h1, h2]
        exact ⟨lower, hlower, hrest, hQ⟩
  · intro h
    cases h1 : t1.child step with
    | none =>
      cases h2 : t2.child step with
      | none =>
        rw [h1, h2] at h
        exact h.elim
      | some y =>
        rw [h1, h2] at h
        obtain ⟨rfl, hQ⟩ : path = [] ∧ Q (TreeDelta.added step y).deltaType none (some y) := h
        refine ⟨_, .added hsame h1 h2, TreeDelta.added_path step y, ?_⟩
        rw [(hadded step y).1, (hadded step y).2]
        exact hQ
    | some x =>
      cases h2 : t2.child step with
      | none =>
        rw [h1, h2] at h
        obtain ⟨rfl, hQ⟩ : path = [] ∧ Q (TreeDelta.removed step x).deltaType (some x) none := h
        refine ⟨_, .removed hsame h1 h2, TreeDelta.removed_path step x, ?_⟩
        rw [(hremoved step x).1, (hremoved step x).2]
        exact hQ
      | some y =>
        rw [h1, h2] at h
        obtain ⟨lower, hlower, rfl, hQ⟩ : ReportedAt kind Q x y path := h
        exact ⟨_, .under h1 h2 hlower, rfl, hQ⟩

end Places

/-! ### All differences -/

section Compute

variable [DecidableEq α] [DecidableEq τ] (kind : α → τ)

mutual

/-- All differences between two trees. -/
def treeDiff : DataTree κ α → DataTree κ α → List (TreeDelta κ α)
  | .leaf a, .leaf b =>
    if kind a = kind b then (if a = b then [] else [.changed (.leaf a) (.leaf b)])
    else [.typeChanged (.leaf a) (.leaf b)]
  | .items xs, .items ys => itemsDiff 0 xs ys
  | .fields xs, .fields ys =>
    (ys.filter fun f => (xs.lookup f.1).isNone).map (fun f => .added (.key f.1) f.2) ++ fieldsDiff xs ys
  | t1, t2 => [.typeChanged t1 t2]

def itemsDiff : ℕ → List (DataTree κ α) → List (DataTree κ α) → List (TreeDelta κ α)
  | i, [], ys => ys.mapIdx fun j y => .added (.index (i + j)) y
  | i, x :: xs, [] => .removed (.index i) x :: itemsDiff (i + 1) xs []
  | i, x :: xs, y :: ys => (treeDiff x y).map (·.under (.index i)) ++ itemsDiff (i + 1) xs ys

def fieldsDiff : List (κ × DataTree κ α) → List (κ × DataTree κ α) → List (TreeDelta κ α)
  | [], _ => []
  | (k, x) :: xs, ys =>
    (match ys.lookup k with
      | none => [.removed (.key k) x]
      | some y => (treeDiff x y).map (·.under (.key k))) ++ fieldsDiff xs ys

end

variable {kind} {below : DataTree κ α → DataTree κ α → TreeDelta κ α → Prop}

omit [DecidableEq κ] [DecidableEq α] in
theorem childDelta_congr {below' : DataTree κ α → DataTree κ α → TreeDelta κ α → Prop}
    {step : TreeStep κ} {x y : Option (DataTree κ α)} {delta : TreeDelta κ α}
    (h : ∀ x', x = some x' → ∀ y', y = some y' → ∀ lower, below x' y' lower ↔ below' x' y' lower) :
    ChildDelta below step x y delta ↔ ChildDelta below' step x y delta := by
  cases x with
  | none => cases y <;> exact Iff.rfl
  | some x =>
    cases y with
    | none => exact Iff.rfl
    | some y => exact exists_congr fun lower => and_congr_left fun _ => h x rfl y rfl lower

/-- The differences of lists, index by index. -/
theorem mem_itemsDiff_iff {i : ℕ} {xs ys : List (DataTree κ α)} {delta : TreeDelta κ α} :
    delta ∈ itemsDiff kind i xs ys ↔ ∃ j, ChildDelta (fun x y lower => lower ∈ treeDiff kind x y)
      (.index (i + j)) xs[j]? ys[j]? delta := by
  induction xs generalizing i ys with
  | nil =>
    rw [itemsDiff, List.mem_mapIdx]
    constructor
    · intro ⟨j, hj, hdelta⟩
      exact ⟨j, by rw [List.getElem?_nil, List.getElem?_eq_getElem hj]; exact hdelta.symm⟩
    · intro ⟨j, h⟩
      cases hy : ys[j]? with
      | none =>
        rw [List.getElem?_nil, hy] at h
        exact h.elim
      | some y =>
        rw [List.getElem?_nil, hy] at h
        obtain ⟨hj, hget⟩ := List.getElem?_eq_some_iff.mp hy
        exact ⟨j, hj, by rw [hget]; exact (show delta = _ from h).symm⟩
  | cons x xs ih =>
    rw [← Nat.or_exists_add_one]
    cases ys with
    | nil =>
      rw [itemsDiff, List.mem_cons, ih]
      refine or_congr Iff.rfl (exists_congr fun j => ?_)
      rw [List.getElem?_cons_succ, List.getElem?_nil, List.getElem?_nil, Nat.add_right_comm i 1 j,
        Nat.add_assoc i j 1]
    | cons y ys =>
      rw [itemsDiff, List.mem_append, ih]
      refine or_congr ?_ (exists_congr fun j => ?_)
      · rw [List.mem_map]
        exact exists_congr fun lower => and_congr_right fun _ => eq_comm
      · rw [List.getElem?_cons_succ, List.getElem?_cons_succ, Nat.add_right_comm i 1 j,
          Nat.add_assoc i j 1]

/-- The differences of fields that the first tree has. -/
theorem mem_fieldsDiff_iff {xs ys : List (κ × DataTree κ α)} (hkeys : (xs.map Prod.fst).Nodup)
    {delta : TreeDelta κ α} :
    delta ∈ fieldsDiff kind xs ys ↔ ∃ k x, xs.lookup k = some x ∧
      ChildDelta (fun x y lower => lower ∈ treeDiff kind x y) (.key k) (some x) (ys.lookup k) delta := by
  induction xs with
  | nil => simp [fieldsDiff]
  | cons f xs ih =>
    obtain ⟨first, x⟩ := f
    obtain ⟨hnot, hkeys⟩ := List.nodup_cons.mp hkeys
    rw [fieldsDiff, List.mem_append, ih hkeys]
    have hfirst : (delta ∈ match ys.lookup first with
        | none => [TreeDelta.removed (.key first) x]
        | some y => (treeDiff kind x y).map (TreeDelta.under (.key first))) ↔
        ChildDelta (fun x y lower => lower ∈ treeDiff kind x y) (.key first) (some x)
          (ys.lookup first) delta := by
      cases ys.lookup first with
      | none => exact List.mem_singleton
      | some y =>
        show delta ∈ (treeDiff kind x y).map (TreeDelta.under (.key first)) ↔ _
        rw [List.mem_map]
        exact exists_congr fun lower => and_congr_right fun _ => eq_comm
    rw [hfirst]
    constructor
    · intro h
      rcases h with h | ⟨k, x', hx', h⟩
      · exact ⟨first, x, by rw [List.lookup_cons, beq_self_eq_true], h⟩
      · have hne : k ≠ first := by
          rintro rfl
          exact hnot (DataTree.lookup_isSome_iff.mp (by rw [hx', Option.isSome_some]))
        exact ⟨k, x', by rw [List.lookup_cons, beq_false_of_ne hne]; exact hx', h⟩
    · intro ⟨k, x', hx', h⟩
      by_cases hk : k = first
      · rw [hk, List.lookup_cons, beq_self_eq_true] at hx'
        rw [← Option.some.inj hx', hk] at h
        exact .inl h
      · rw [List.lookup_cons, beq_false_of_ne hk] at hx'
        exact .inr ⟨k, x', hx', h⟩

/-- **`treeDiff` finds exactly the differences.** -/
theorem mem_treeDiff_iff {t1 t2 : DataTree κ α} (h1 : t1.Distinct) (h2 : t2.Distinct)
    {delta : TreeDelta κ α} : delta ∈ treeDiff kind t1 t2 ↔ Reported kind t1 t2 delta := by
  induction t1 using DataTree.induct generalizing t2 delta with
  | leaf a =>
    cases t2 with
    | leaf b =>
      by_cases hkind : kind a = kind b
      · rw [reported_leaf_iff hkind, treeDiff, if_pos hkind]
        by_cases hab : a = b
        · simp [hab]
        · simp [hab]
      · have hapart : ¬ SameType kind (.leaf a : DataTree κ α) (.leaf b) := by
          rintro ⟨h⟩
          exact hkind h
        rw [reported_apart_iff hapart, treeDiff, if_neg hkind, List.mem_singleton]
    | items ys =>
      rw [reported_apart_iff (by rintro ⟨⟩), treeDiff, List.mem_singleton]
      all_goals simp
    | fields ys =>
      rw [reported_apart_iff (by rintro ⟨⟩), treeDiff, List.mem_singleton]
      all_goals simp
  | items xs ih =>
    cases t2 with
    | leaf b =>
      rw [reported_apart_iff (by rintro ⟨⟩), treeDiff, List.mem_singleton]
      all_goals simp
    | items ys =>
      rw [reported_node_iff (.items xs ys) (.items rfl), treeDiff, mem_itemsDiff_iff]
      have hitem : ∀ j, ChildDelta (fun x y lower => lower ∈ treeDiff kind x y) (.index (0 + j))
          xs[j]? ys[j]? delta ↔ ChildDelta (Reported kind) (.index j) xs[j]? ys[j]? delta := by
        intro j
        rw [Nat.zero_add]
        exact childDelta_congr fun x hx y hy lower => ih x (List.mem_of_getElem? hx)
          (h1.child (show (DataTree.items xs).child (.index j) = some x from hx))
          (h2.child (show (DataTree.items ys).child (.index j) = some y from hy))
      constructor
      · intro ⟨j, h⟩
        exact ⟨.index j, (hitem j).mp h⟩
      · intro ⟨step, h⟩
        cases step with
        | key k => exact h.elim
        | index j => exact ⟨j, (hitem j).mpr h⟩
    | fields ys =>
      rw [reported_apart_iff (by rintro ⟨⟩), treeDiff, List.mem_singleton]
      all_goals simp
  | fields xs ih =>
    cases t2 with
    | leaf b =>
      rw [reported_apart_iff (by rintro ⟨⟩), treeDiff, List.mem_singleton]
      all_goals simp
    | items ys =>
      rw [reported_apart_iff (by rintro ⟨⟩), treeDiff, List.mem_singleton]
      all_goals simp
    | fields ys =>
      have hkeys : (xs.map Prod.fst).Nodup ∧ (ys.map Prod.fst).Nodup := by
        cases h1 with
        | fields hkeys _ =>
          cases h2 with
          | fields hkeys' _ => exact ⟨hkeys, hkeys'⟩
      rw [reported_node_iff (.fields xs ys) (.fields rfl), treeDiff, List.mem_append,
        mem_fieldsDiff_iff hkeys.1, List.mem_map]
      have hfield : ∀ k x, xs.lookup k = some x →
          (ChildDelta (fun x y lower => lower ∈ treeDiff kind x y) (.key k) (some x) (ys.lookup k)
            delta ↔ ChildDelta (Reported kind) (.key k) (some x) (ys.lookup k) delta) := by
        intro k x hx
        refine childDelta_congr fun x' hx' y hy lower => ?_
        rw [← Option.some.inj hx']
        exact ih (k, x) (DataTree.mem_of_lookup hx)
          (h1.child (show (DataTree.fields xs).child (.key k) = some x from hx))
          (h2.child (show (DataTree.fields ys).child (.key k) = some y from hy))
      constructor
      · intro h
        rcases h with ⟨f, hf, hdelta⟩ | ⟨k, x, hx, h⟩
        · rw [List.mem_filter, Option.isNone_iff_eq_none] at hf
          refine ⟨.key f.1, ?_⟩
          show ChildDelta (Reported kind) (.key f.1) (xs.lookup f.1) (ys.lookup f.1) delta
          rw [hf.2, DataTree.lookup_of_mem hkeys.2 hf.1]
          exact hdelta.symm
        · refine ⟨.key k, ?_⟩
          show ChildDelta (Reported kind) (.key k) (xs.lookup k) (ys.lookup k) delta
          rw [hx]
          exact (hfield k x hx).mp h
      · intro ⟨step, h⟩
        cases step with
        | index i => exact h.elim
        | key k =>
          replace h : ChildDelta (Reported kind) (.key k) (xs.lookup k) (ys.lookup k) delta := h
          cases hx : xs.lookup k with
          | some x =>
            rw [hx] at h
            exact .inr ⟨k, x, hx, (hfield k x hx).mpr h⟩
          | none =>
            cases hy : ys.lookup k with
            | none =>
              rw [hx, hy] at h
              exact h.elim
            | some y =>
              rw [hx, hy] at h
              refine .inl ⟨(k, y), ?_, (show delta = _ from h).symm⟩
              rw [List.mem_filter, hx]
              exact ⟨DataTree.mem_of_lookup hy, rfl⟩

end Compute

end Sieve.Library
