import Sieve.Event.Readings

/-!
# Other names for the keys

A value whose keys get other names, by an injective map:

* `equal_mapKeys_iff`: it is equal to another such value exactly when the two values are equal;
* `diffValue_mapKeys`: its differences are the differences under the other names;
* `canonicalValue_mapKeys`: its canonical value is the canonical value in a language that joins paths with
  the other names;
* `Json.AllKeys`: every key is of a kind, which `canonicalValue_allKeys` and `diffValue_allKeys` keep.
-/

namespace Sieve.Event

mutual

def Json.mapKeys (f : String → String) : Json → Json
  | .arr items => .arr (mapKeysItems f items)
  | .obj fields => .obj (mapKeysFields f fields)
  | x => x

def mapKeysItems (f : String → String) : List Json → List Json
  | [] => []
  | x :: items => x.mapKeys f :: mapKeysItems f items

def mapKeysFields (f : String → String) : Fields → Fields
  | [] => []
  | (key, x) :: fields => (f key, x.mapKeys f) :: mapKeysFields f fields

end

variable {f : String → String}

theorem mapKeysItems_eq (items : List Json) : mapKeysItems f items = items.map (Json.mapKeys f) := by
  induction items with
  | nil => rw [mapKeysItems, List.map_nil]
  | cons x items ih => rw [mapKeysItems, List.map_cons, ih]

theorem mapKeysFields_eq (fields : Fields) :
    mapKeysFields f fields = fields.map fun field => (f field.1, field.2.mapKeys f) := by
  induction fields with
  | nil => rw [mapKeysFields, List.map_nil]
  | cons field fields ih => rw [mapKeysFields, List.map_cons, ih]

theorem mapKeys_arr (items : List Json) :
    Json.mapKeys f (.arr items) = .arr (items.map (Json.mapKeys f)) := by
  rw [Json.mapKeys, mapKeysItems_eq]

theorem mapKeys_obj (fields : Fields) :
    Json.mapKeys f (.obj fields) = .obj (mapKeysFields f fields) := by
  rw [Json.mapKeys]

theorem mapKeys_scalar {x : Json} (hx : x.IsScalar) : x.mapKeys f = x := by
  cases x with
  | arr items => exact hx.elim
  | obj fields => exact hx.elim
  | _ => rw [Json.mapKeys] <;> exact nofun

theorem mapKeys_isScalar {x : Json} : (x.mapKeys f).IsScalar ↔ x.IsScalar := by
  cases x with
  | arr items => rw [mapKeys_arr]; exact Iff.rfl
  | obj fields => rw [mapKeys_obj]; exact Iff.rfl
  | _ => rw [mapKeys_scalar (by trivial)]

theorem mapKeys_keys (fields : Fields) :
    (mapKeysFields f fields).map Prod.fst = (fields.map Prod.fst).map f := by
  rw [mapKeysFields_eq, List.map_map, List.map_map]
  rfl

theorem lookup_mapKeys (hf : f.Injective) (fields : Fields) (key : String) :
    (mapKeysFields f fields).lookup (f key) = (fields.lookup key).map (Json.mapKeys f) := by
  induction fields with
  | nil => simp [mapKeysFields]
  | cons field fields ih =>
    obtain ⟨k, x⟩ := field
    rw [mapKeysFields, List.lookup_cons, List.lookup_cons]
    by_cases hkey : key = k
    · simp [hkey]
    · rw [beq_eq_false_iff_ne.mpr hkey, beq_eq_false_iff_ne.mpr (hf.ne hkey)]
      exact ih

theorem mapKeys_distinct (hf : f.Injective) {x : Json} (hx : x.Distinct) :
    (x.mapKeys f).Distinct := by
  induction x using Json.induct with
  | scalar x hscalar =>
    rw [mapKeys_scalar hscalar]
    exact hx
  | arr items ih =>
    rw [mapKeys_arr]
    refine .arr fun y hmem => ?_
    obtain ⟨x, hmem', rfl⟩ := List.mem_map.mp hmem
    exact ih x hmem' (hx.items x hmem')
  | obj fields ih =>
    rw [mapKeys_obj]
    refine .obj ?_ fun field hmem => ?_
    · rw [mapKeys_keys]
      exact hx.keys.map hf
    · rw [mapKeysFields_eq] at hmem
      obtain ⟨field', hmem', rfl⟩ := List.mem_map.mp hmem
      exact ih field' hmem' (hx.values field' hmem')

/-! ### Equality and differences -/

theorem equal_mapKeys_iff (hf : f.Injective) {x y : Json} :
    Json.Equal goScalarEqual (x.mapKeys f) (y.mapKeys f) ↔ Json.Equal goScalarEqual x y := by
  induction x using Json.induct generalizing y with
  | scalar x hscalar =>
    rw [mapKeys_scalar hscalar]
    by_cases hy : y.IsScalar
    · rw [mapKeys_scalar hy]
    · refine iff_of_false (fun h => hy ?_) fun h => hy (h.scalar go_lawful hscalar)
      exact mapKeys_isScalar.mp (h.scalar go_lawful hscalar)
  | arr items ih =>
    cases y with
    | arr items' =>
      rw [mapKeys_arr, mapKeys_arr, equal_arr_iff, equal_arr_iff, List.forall₂_map_left_iff,
        List.forall₂_map_right_iff]
      constructor
      · intro h
        clear hf
        induction h with
        | nil => exact .nil
        | @cons x y xs ys hxy _ ih' =>
          exact .cons ((ih x (by simp)).mp hxy) (ih' fun z hz => ih z (List.mem_cons_of_mem x hz))
      · intro h
        clear hf
        induction h with
        | nil => exact .nil
        | @cons x y xs ys hxy _ ih' =>
          exact .cons ((ih x (by simp)).mpr hxy) (ih' fun z hz => ih z (List.mem_cons_of_mem x hz))
    | obj fields => exact iff_of_false (by simp [mapKeys_arr, mapKeys_obj, Json.Equal, Json.equal]) fun h => by cases h
    | _ => exact iff_of_false (by simp [Json.mapKeys, Json.Equal, Json.equal]) fun h => by cases h
  | obj fields ih =>
    cases y with
    | obj fields' =>
      rw [mapKeys_obj, mapKeys_obj, Json.Equal, Json.Equal, Json.equal, Json.equal,
        Bool.and_eq_true, Bool.and_eq_true, equalFields_iff, equalFields_iff, mapKeysFields_eq fields,
        List.forall_mem_map, beq_iff_eq, beq_iff_eq, mapKeysFields_eq fields', List.length_map,
        List.length_map]
      refine and_congr_right fun _ => forall₂_congr fun field hmem => ?_
      rw [← mapKeysFields_eq, lookup_mapKeys hf]
      constructor
      · intro h
        obtain ⟨y, hy, hequal⟩ := h
        obtain ⟨y', hy', rfl⟩ := Option.map_eq_some_iff.mp hy
        exact ⟨y', hy', (ih field hmem).mp hequal⟩
      · intro h
        obtain ⟨y, hy, hequal⟩ := h
        exact ⟨y.mapKeys f, by rw [hy]; rfl, (ih field hmem).mpr hequal⟩
    | arr items => exact iff_of_false (by simp [mapKeys_arr, mapKeys_obj, Json.Equal, Json.equal]) fun h => by cases h
    | _ => exact iff_of_false (by simp [Json.mapKeys, Json.Equal, Json.equal]) fun h => by cases h

theorem together_mapKeys_iff {p c : Json} :
    Together (p.mapKeys f) (c.mapKeys f) ↔ Together p c := by
  constructor
  · intro h
    cases p with
    | arr prev =>
      cases c with
      | arr cur => exact .arr prev cur
      | obj cur => rw [mapKeys_arr, mapKeys_obj] at h; cases h
      | _ => rw [mapKeys_arr, mapKeys_scalar (by trivial)] at h; cases h
    | obj prev =>
      cases c with
      | obj cur => exact .obj prev cur
      | arr cur => rw [mapKeys_arr, mapKeys_obj] at h; cases h
      | _ => rw [mapKeys_obj, mapKeys_scalar (by trivial)] at h; cases h
    | _ => rw [mapKeys_scalar (by trivial)] at h; cases h
  · intro h
    cases h with
    | obj prev cur => rw [mapKeys_obj, mapKeys_obj]; exact .obj _ _
    | arr prev cur => rw [mapKeys_arr, mapKeys_arr]; exact .arr _ _

theorem isSkip_mapKeys (x : Json) : isSkip go (x.mapKeys f) = isSkip go x := by
  rw [Bool.eq_iff_iff, isSkip_iff go_lawful, isSkip_iff go_lawful]
  cases x with
  | arr items => rw [mapKeys_arr]; exact iff_of_false nofun nofun
  | obj fields => rw [mapKeys_obj]; exact iff_of_false nofun nofun
  | _ => rw [mapKeys_scalar (by trivial)]

/-- The difference is that under the other names. -/
def DiffMaps (f : String → String) (p c : Json) : Prop :=
  diffValue go (p.mapKeys f) (c.mapKeys f) =
    (diffValue go p c).map (Prod.map (Json.mapKeys f) (Json.mapKeys f))

theorem itemSides_mapKeys {p c : Json} (h : DiffMaps f p c) :
    itemSides go (p.mapKeys f) (c.mapKeys f) =
      Prod.map (Json.mapKeys f) (Json.mapKeys f) (itemSides go p c) := by
  rw [itemSides, itemSides, h]
  cases diffValue go p c with
  | none =>
    rw [Option.map_none, Option.getD_none, Prod.map_apply, mapKeys_scalar (by trivial)]
  | some sides => rfl

theorem diffItems_mapKeys {prev cur : List Json} (h : ∀ p ∈ prev, ∀ c ∈ cur, DiffMaps f p c) :
    diffItems go (prev.map (Json.mapKeys f)) (cur.map (Json.mapKeys f)) =
      Prod.map (List.map (Json.mapKeys f)) (List.map (Json.mapKeys f)) (diffItems go prev cur) := by
  induction prev generalizing cur with
  | nil => simp [diffItems_nil_left]
  | cons p prev ih =>
    cases cur with
    | nil => simp [diffItems_nil_right]
    | cons c cur =>
      rw [List.map_cons, List.map_cons, diffItems_cons, diffItems_cons,
        itemSides_mapKeys (h p (by simp) c (by simp)),
        ih fun q hq x hx => h q (List.mem_cons_of_mem p hq) x (List.mem_cons_of_mem c hx)]
      rfl

theorem diffCommonFields_mapKeys (hf : f.Injective) {prev cur : Fields}
    (h : ∀ field ∈ prev, ∀ c, cur.lookup field.1 = some c → DiffMaps f field.2 c) :
    diffCommonFields go (mapKeysFields f prev) (mapKeysFields f cur) =
      Prod.map (mapKeysFields f) (mapKeysFields f) (diffCommonFields go prev cur) := by
  induction prev with
  | nil => simp [mapKeysFields, diffCommonFields]
  | cons field prev ih =>
    obtain ⟨key, p⟩ := field
    obtain ⟨hhead, hrest⟩ := List.forall_mem_cons.mp h
    rw [mapKeysFields, diffCommonFields, diffCommonFields, ih hrest, lookup_mapKeys hf]
    cases hc : cur.lookup key with
    | none => simp [mapKeysFields]
    | some c =>
      have hdiff : DiffMaps f p c := hhead c hc
      rw [DiffMaps] at hdiff
      simp only [Option.map_some, hdiff]
      cases diffValue go p c with
      | none => rfl
      | some sides => simp [mapKeysFields]

theorem newFields_mapKeys (hf : f.Injective) (prev cur : Fields) :
    newFields (mapKeysFields f prev) (mapKeysFields f cur) = mapKeysFields f (newFields prev cur) := by
  rw [newFields, newFields, mapKeysFields_eq cur, mapKeysFields_eq (cur.filter _), List.filter_map]
  congr 2
  funext field
  show ((mapKeysFields f prev).lookup (f field.1)).isNone = _
  rw [lookup_mapKeys hf, Option.isNone_map]

theorem mapDiff_mapKeys (hf : f.Injective) {prev cur : Fields}
    (h : ∀ field ∈ prev, ∀ c, cur.lookup field.1 = some c → DiffMaps f field.2 c) :
    mapDiff go (mapKeysFields f prev) (mapKeysFields f cur) =
      Prod.map (mapKeysFields f) (mapKeysFields f) (mapDiff go prev cur) := by
  rw [mapDiff, mapDiff, diffCommonFields_mapKeys hf h, newFields_mapKeys hf]
  simp [mapKeysFields_eq]

/-- **Differences under other names** are the differences, under the other names. -/
theorem diffValue_mapKeys (hf : f.Injective) {p c : Json} (hp : p.Distinct) (hc : c.Distinct) :
    DiffMaps f p c := by
  induction p, c using together_induct with
  | apart p c hapart =>
    rw [DiffMaps, diffValue_apart hapart, diffValue_apart (together_mapKeys_iff.not.mpr hapart)]
    have hequal := @equal_mapKeys_iff f hf p c
    rw [Json.Equal, Json.Equal, ← Bool.eq_iff_iff] at hequal
    show (if (p.mapKeys f).equal goScalarEqual (c.mapKeys f) then none else some _) =
      (if p.equal goScalarEqual c then none else some _ : Option (Json × Json)).map _
    rw [hequal]
    split <;> rfl
  | arr prev cur ih =>
    have hitems := diffItems_mapKeys fun p hmem c hmem' =>
      ih p hmem c hmem' (hp.items p hmem) (hc.items c hmem')
    have hskip : ∀ items : List Json,
        (items.map (Json.mapKeys f)).all (isSkip go) = items.all (isSkip go) := by
      intro items
      rw [List.all_map]
      congr 1
      funext x
      exact isSkip_mapKeys x
    rw [DiffMaps, mapKeys_arr, mapKeys_arr, diffValue_arr, diffValue_arr, hitems, finishList,
      finishList, List.length_map, List.length_map, Prod.map_fst, Prod.map_snd, hskip, hskip]
    split
    · rfl
    · simp [mapKeys_arr]
  | obj prev cur ih =>
    have hfields := @mapDiff_mapKeys f hf prev cur fun field hmem c hlc =>
      ih field.1 field.2 c (mem_lookup hp.keys hmem) hlc (hp.values field hmem)
        (lookup_distinct hc hlc)
    have hempty : ∀ fields : Fields, (mapKeysFields f fields).isEmpty = fields.isEmpty := by
      intro fields
      rw [mapKeysFields_eq, List.isEmpty_map]
    rw [DiffMaps, mapKeys_obj, mapKeys_obj, diffValue_obj, diffValue_obj, diffEventAsMap_eq,
      diffEventAsMap_eq, hfields, finishMap, finishMap, Prod.map_fst, Prod.map_snd, hempty, hempty]
    split
    · rfl
    · simp [mapKeys_obj]

/-! ### Canonical values -/

/-- The language that joins paths with the other names. -/
def Dialect.renamed (d : Dialect) (f : String → String) : Dialect :=
  { d with joinPath := fun parentPath key => d.joinPath parentPath (f key) }

/-- Every key, at every level, is of a kind. -/
inductive Json.AllKeys (P : String → Prop) : Json → Prop where
  | scalar {x : Json} (h : x.IsScalar) : AllKeys P x
  | arr {items : List Json} (h : ∀ x ∈ items, AllKeys P x) : AllKeys P (.arr items)
  | obj {fields : Fields} (hkeys : ∀ field ∈ fields, P field.1) (h : ∀ field ∈ fields, AllKeys P field.2) :
      AllKeys P (.obj fields)

variable {P : String → Prop}

theorem Json.AllKeys.items {items : List Json} (h : Json.AllKeys P (.arr items)) :
    ∀ x ∈ items, x.AllKeys P := by
  cases h with
  | scalar h => exact h.elim
  | arr h => exact h

theorem Json.AllKeys.keys {fields : Fields} (h : Json.AllKeys P (.obj fields)) :
    ∀ field ∈ fields, P field.1 := by
  cases h with
  | scalar h => exact h.elim
  | obj hkeys _ => exact hkeys

theorem Json.AllKeys.values {fields : Fields} (h : Json.AllKeys P (.obj fields)) :
    ∀ field ∈ fields, field.2.AllKeys P := by
  cases h with
  | scalar h => exact h.elim
  | obj _ h => exact h

/-- **Canonical values under other names** are the canonical values of the language that joins paths with
those names, under the other names. -/
theorem canonicalValue_mapKeys {fieldKeyMask fieldKeyMask' fieldPathMask : Finset String}
    (hitem : f "*" = "*") (hkeys : ∀ key, P key → (f key ∈ fieldKeyMask' ↔ key ∈ fieldKeyMask)) {x : Json}
    (hx : x.AllKeys P) (path : String) :
    canonicalValue go ⟨fieldKeyMask', fieldPathMask⟩ path (x.mapKeys f) =
      (canonicalValue (go.renamed f) ⟨fieldKeyMask, fieldPathMask⟩ path x).mapKeys f := by
  induction x using Json.induct generalizing path with
  | scalar x hscalar =>
    rw [mapKeys_scalar hscalar, canonicalValue, canonicalValue]
    cases x with
    | arr items => exact hscalar.elim
    | obj fields => exact hscalar.elim
    | str s =>
      rw [canonicalizeField_str, canonicalizeField_str, mapKeys_scalar (by trivial)]
      rfl
    | _ =>
      rw [canonicalizeField_scalar path hscalar (fun s hs => by cases hs),
        canonicalizeField_scalar path hscalar (fun s hs => by cases hs), mapKeys_scalar hscalar]
  | arr items ih =>
    rw [canonicalValue, canonicalValue, mapKeys_arr, canonicalizeField_arr, canonicalizeField_arr,
      mapKeys_arr, List.map_map, List.map_map]
    congr 1
    refine List.map_congr_left fun x hmem => ?_
    have hpath : (go.renamed f).joinPath path "*" = go.joinPath path "*" := by
      show go.joinPath path (f "*") = _
      rw [hitem]
    rw [Function.comp_apply, Function.comp_apply, canonicalizeItem, canonicalizeItem, hpath]
    split
    · rw [mapKeys_scalar (by trivial)]
    · exact ih x hmem (hx.items x hmem) _
  | obj fields ih =>
    rw [canonicalValue, canonicalValue, mapKeys_obj, canonicalizeField_obj, canonicalizeField_obj,
      mapKeys_obj, canonicalizeEventAsMap_eq, canonicalizeEventAsMap_eq, mapKeysFields_eq, mapKeysFields_eq,
      List.map_map, List.map_map]
    congr 1
    refine List.map_congr_left fun field hmem => ?_
    have hkey := hkeys field.1 (hx.keys field hmem)
    rw [Function.comp_apply, Function.comp_apply, canonicalizeUnder, canonicalizeUnder]
    have hpath : (go.renamed f).joinPath path field.1 = go.joinPath path (f field.1) := rfl
    rw [hpath]
    by_cases hmask : field.1 ∈ fieldKeyMask ∨ go.joinPath path (f field.1) ∈ fieldPathMask
    · rw [if_pos (by rwa [hkey]), if_pos hmask]
      rfl
    · rw [if_neg (by rwa [hkey]), if_neg hmask]
      exact congrArg (f field.1, ·) (ih field hmem (hx.values field hmem) _)

/-- What becomes of the value under a key. -/
theorem under_mapKeys {fieldKeyMask fieldKeyMask' fieldPathMask : Finset String} (hitem : f "*" = "*")
    (hkeys : ∀ key, P key → (f key ∈ fieldKeyMask' ↔ key ∈ fieldKeyMask)) {key : String} (hkey : P key)
    {x : Json} (hx : x.AllKeys P) (path : String) :
    Reading.under ⟨go, ⟨fieldKeyMask', fieldPathMask⟩, path⟩ (f key) (x.mapKeys f) =
      (Reading.under ⟨go.renamed f, ⟨fieldKeyMask, fieldPathMask⟩, path⟩ key x).mapKeys f := by
  have hsingle : Json.AllKeys P (.obj [(key, x)]) :=
    .obj (by simpa using hkey) (by simpa using hx)
  have hvalue := @canonicalValue_mapKeys _ P _ _ fieldPathMask hitem hkeys _ hsingle path
  rw [canonicalValue, canonicalValue, mapKeys_obj, canonicalizeField_obj, canonicalizeField_obj,
    canonicalizeEventAsMap_eq, canonicalizeEventAsMap_eq, mapKeys_obj] at hvalue
  simpa [mapKeysFields, Reading.under] using hvalue

theorem mapKeys_id (x : Json) : x.mapKeys id = x := by
  induction x using Json.induct with
  | scalar x hscalar => exact mapKeys_scalar hscalar
  | arr items ih =>
    rw [mapKeys_arr]
    congr 1
    exact (List.map_congr_left ih).trans (List.map_id items)
  | obj fields ih =>
    rw [mapKeys_obj, mapKeysFields_eq]
    congr 1
    refine (List.map_congr_left fun field hmem => ?_).trans (List.map_id fields)
    rw [ih field hmem]
    rfl

/-! ### Kinds of keys -/

theorem canonicalValue_allKeys {d : Dialect} {masks : Masks} {x : Json} (hx : x.AllKeys P) (path : String) :
    (canonicalValue d masks path x).AllKeys P := by
  induction x using Json.induct generalizing path with
  | scalar x hscalar => exact .scalar ((value_isScalar ⟨d, masks, path⟩).mpr hscalar)
  | arr items ih =>
    rw [canonicalValue, canonicalizeField_arr]
    refine .arr fun y hmem => ?_
    obtain ⟨x, hmem', rfl⟩ := List.mem_map.mp hmem
    rw [canonicalizeItem]
    split
    · exact .scalar trivial
    · exact ih x hmem' (hx.items x hmem') _
  | obj fields ih =>
    rw [canonicalValue, canonicalizeField_obj, canonicalizeEventAsMap_eq]
    refine .obj (fun field hmem => ?_) fun field hmem => ?_
    · obtain ⟨field', hmem', rfl⟩ := List.mem_map.mp hmem
      exact hx.keys field' hmem'
    · obtain ⟨field', hmem', rfl⟩ := List.mem_map.mp hmem
      rw [canonicalizeUnder]
      split
      · exact .scalar trivial
      · exact ih field' hmem' (hx.values field' hmem') _

theorem lookup_allKeys {fields : Fields} (h : Json.AllKeys P (.obj fields)) {key : String} {x : Json}
    (hlookup : fields.lookup key = some x) : P key ∧ x.AllKeys P :=
  ⟨h.keys _ (lookup_mem hlookup), h.values _ (lookup_mem hlookup)⟩

theorem diffItems_allKeys {prev cur : List Json} (hp : ∀ x ∈ prev, x.AllKeys P)
    (hc : ∀ x ∈ cur, x.AllKeys P)
    (h : ∀ p ∈ prev, ∀ c ∈ cur, ∀ x y, diffValue go p c = some (x, y) → x.AllKeys P ∧ y.AllKeys P) :
    (∀ x ∈ (diffItems go prev cur).1, x.AllKeys P) ∧ ∀ x ∈ (diffItems go prev cur).2, x.AllKeys P := by
  induction prev generalizing cur with
  | nil =>
    rw [diffItems_nil_left]
    exact ⟨by simp, hc⟩
  | cons p prev ih =>
    cases cur with
    | nil =>
      rw [diffItems_nil_right]
      exact ⟨hp, by simp⟩
    | cons c cur =>
      obtain ⟨hrest, hrest'⟩ := ih (List.forall_mem_cons.mp hp).2 (List.forall_mem_cons.mp hc).2
        fun q hq x hx => h q (List.mem_cons_of_mem p hq) x (List.mem_cons_of_mem c hx)
      have hsides : (itemSides go p c).1.AllKeys P ∧ (itemSides go p c).2.AllKeys P := by
        rw [itemSides]
        cases hdiff : diffValue go p c with
        | none => exact ⟨.scalar trivial, .scalar trivial⟩
        | some sides => exact h p (by simp) c (by simp) _ _ hdiff
      rw [diffItems_cons]
      exact ⟨List.forall_mem_cons.mpr ⟨hsides.1, hrest⟩, List.forall_mem_cons.mpr ⟨hsides.2, hrest'⟩⟩

/-- The sides under one key, where `h` is about the values there. -/
theorem keySides_allKeys {o o' : Option Json} (hp : ∀ p, o = some p → p.AllKeys P)
    (hc : ∀ c, o' = some c → c.AllKeys P) (h : ∀ p c, o = some p → o' = some c → ∀ x y,
      diffValue go p c = some (x, y) → x.AllKeys P ∧ y.AllKeys P) :
    (∀ x, prevSide go o o' = some x → x.AllKeys P) ∧ ∀ y, curSide go o o' = some y → y.AllKeys P := by
  cases o with
  | none =>
    cases o' with
    | none => simp [prevSide, curSide]
    | some c => exact ⟨by simp [prevSide], fun y hy => hc y hy⟩
  | some p =>
    cases o' with
    | none => exact ⟨fun x hx => hp x hx, by simp [curSide]⟩
    | some c =>
      cases hdiff : diffValue go p c with
      | none => simp [prevSide, curSide, hdiff]
      | some sides => simpa [prevSide, curSide, hdiff] using h p c rfl rfl _ _ hdiff

/-- **The keys of a difference** are of the kind of those of the values. -/
theorem diffValue_allKeys {p c x y : Json} (hp : p.Distinct) (hc : c.Distinct) (hpk : p.AllKeys P)
    (hck : c.AllKeys P) (h : diffValue go p c = some (x, y)) : x.AllKeys P ∧ y.AllKeys P := by
  induction p, c using together_induct generalizing x y with
  | apart p c hapart =>
    obtain ⟨rfl, rfl, -⟩ := diffValue_apart_some hapart h
    exact ⟨hpk, hck⟩
  | arr prev cur ih =>
    obtain ⟨rfl, rfl, -⟩ := diffValue_arr_some h
    obtain ⟨hfst, hsnd⟩ := diffItems_allKeys hpk.items hck.items fun p hmem c hmem' x y hdiff =>
      ih p hmem c hmem' (hp.items p hmem) (hc.items c hmem') (hpk.items p hmem) (hck.items c hmem') hdiff
    exact ⟨.arr hfst, .arr hsnd⟩
  | obj prev cur ih =>
    obtain ⟨rfl, rfl, -⟩ := diffValue_obj_some h
    obtain ⟨hnodup, hnodup'⟩ := mapDiff_keys (d := go) hp.keys hc.keys
    have hsides : ∀ key, (∀ x, prevSide go (prev.lookup key) (cur.lookup key) = some x → x.AllKeys P) ∧
        ∀ y, curSide go (prev.lookup key) (cur.lookup key) = some y → y.AllKeys P := fun key =>
      keySides_allKeys (fun p hlp => (lookup_allKeys hpk hlp).2) (fun c hlc => (lookup_allKeys hck hlc).2)
        fun p c hlp hlc x y hdiff => ih key p c hlp hlc (lookup_distinct hp hlp) (lookup_distinct hc hlc)
          (lookup_allKeys hpk hlp).2 (lookup_allKeys hck hlc).2 hdiff
    constructor
    · have hfield : ∀ field ∈ (mapDiff go prev cur).1, P field.1 ∧ field.2.AllKeys P := by
        intro field hmem
        have hlookup := mem_lookup hnodup hmem
        rw [mapDiff_fst_lookup hp.keys] at hlookup
        cases hlp : prev.lookup field.1 with
        | none => rw [hlp] at hlookup; cases hlookup
        | some p => exact ⟨(lookup_allKeys hpk hlp).1, (hsides field.1).1 _ hlookup⟩
      exact .obj (fun field hmem => (hfield field hmem).1) fun field hmem => (hfield field hmem).2
    · have hfield : ∀ field ∈ (mapDiff go prev cur).2, P field.1 ∧ field.2.AllKeys P := by
        intro field hmem
        have hlookup := mem_lookup hnodup' hmem
        rw [mapDiff_snd_lookup hp.keys] at hlookup
        cases hlc : cur.lookup field.1 with
        | none => rw [hlc, curSide] at hlookup; cases hlookup
        | some c => exact ⟨(lookup_allKeys hck hlc).1, (hsides field.1).2 _ hlookup⟩
      exact .obj (fun field hmem => (hfield field hmem).1) fun field hmem => (hfield field hmem).2

end Sieve.Event
