import Sieve.Event.Json
import Mathlib.Data.List.Forall2
import Mathlib.Data.List.Perm.Subperm

/-!
# Deep equality of decoded JSON

Deep equality over an equality of scalars, `LawfulScalars`, is an equivalence on values whose objects
have distinct keys, and it compares objects as maps:

* `Json.induct`: induction over values;
* `Json.Distinct`: every object has distinct keys;
* `Json.Equal`: deep equality, with `equal_arr_iff` and `equal_obj_iff`;
* `Json.Equal.refl`, `Json.Equal.symm`, `Json.Equal.trans`.
-/

namespace Sieve.Event

/-- Neither an array nor an object. -/
def Json.IsScalar : Json → Prop
  | .arr _ => False
  | .obj _ => False
  | _ => True

/-- **Induction over values.** -/
theorem Json.induct {P : Json → Prop} (scalar : ∀ x, Json.IsScalar x → P x)
    (arr : ∀ items, (∀ x ∈ items, P x) → P (.arr items))
    (obj : ∀ fields : Fields, (∀ field ∈ fields, P field.2) → P (.obj fields)) (x : Json) : P x :=
  @Json.rec P (fun items => ∀ x ∈ items, P x) (fun fields => ∀ field ∈ fields, P field.2)
    (fun field => P field.2) (scalar _ trivial) (fun _ => scalar _ trivial)
    (fun _ => scalar _ trivial) (fun _ => scalar _ trivial) arr obj nofun
    (fun _ _ hx hxs => List.forall_mem_cons.mpr ⟨hx, hxs⟩) nofun
    (fun _ _ hx hxs => List.forall_mem_cons.mpr ⟨hx, hxs⟩) (fun _ _ h => h) x

/-- Every object in it has distinct keys, as decoders leave it. -/
inductive Json.Distinct : Json → Prop where
  | scalar {x : Json} (h : x.IsScalar) : Distinct x
  | arr {items : List Json} (h : ∀ x ∈ items, Distinct x) : Distinct (.arr items)
  | obj {fields : Fields} (hkeys : (fields.map Prod.fst).Nodup)
      (h : ∀ field ∈ fields, Distinct field.2) : Distinct (.obj fields)

theorem Json.Distinct.items {items : List Json} (h : Json.Distinct (.arr items)) :
    ∀ x ∈ items, x.Distinct := by
  cases h with
  | scalar h => exact h.elim
  | arr h => exact h

theorem Json.Distinct.keys {fields : Fields} (h : Json.Distinct (.obj fields)) :
    (fields.map Prod.fst).Nodup := by
  cases h with
  | scalar h => exact h.elim
  | obj hkeys _ => exact hkeys

theorem Json.Distinct.values {fields : Fields} (h : Json.Distinct (.obj fields)) :
    ∀ field ∈ fields, field.2.Distinct := by
  cases h with
  | scalar h => exact h.elim
  | obj _ h => exact h

/-! ### Lookups -/

theorem lookup_mem {fields : Fields} {key : String} {x : Json} (h : fields.lookup key = some x) :
    (key, x) ∈ fields := by
  obtain ⟨l₁, l₂, rfl, _⟩ := List.lookup_eq_some_iff.mp h
  simp

theorem key_mem {fields : Fields} {key : String} {x : Json} (h : (key, x) ∈ fields) :
    key ∈ fields.map Prod.fst :=
  List.mem_map.mpr ⟨(key, x), h, rfl⟩

theorem mem_lookup {fields : Fields} (hkeys : (fields.map Prod.fst).Nodup) {key : String} {x : Json}
    (h : (key, x) ∈ fields) : fields.lookup key = some x := by
  induction fields with
  | nil => cases h
  | cons field fields ih =>
    obtain ⟨k, v⟩ := field
    rw [List.map_cons, List.nodup_cons] at hkeys
    rw [List.lookup_cons]
    rcases List.mem_cons.mp h with heq | h
    · obtain ⟨rfl, rfl⟩ := Prod.mk.inj heq
      rw [beq_self_eq_true]
    · have hne : (key == k) = false := by
        rw [beq_eq_false_iff_ne]
        intro heq
        exact hkeys.1 (heq ▸ key_mem h)
      rw [hne]
      exact ih hkeys.2 h

theorem lookup_none_iff {fields : Fields} {key : String} :
    fields.lookup key = none ↔ key ∉ fields.map Prod.fst := by
  rw [List.lookup_eq_none_iff]
  simp only [List.mem_map, not_exists, not_and, bne_iff_ne]
  exact forall₂_congr fun field _ => ne_comm

theorem lookup_distinct {fields : Fields} (h : Json.Distinct (.obj fields)) {key : String} {x : Json}
    (hx : fields.lookup key = some x) : x.Distinct :=
  h.values _ (lookup_mem hx)

/-- An object without any key is empty. -/
theorem eq_nil_of_lookup {fields : Fields} (h : ∀ key, fields.lookup key = none) : fields = [] := by
  cases fields with
  | nil => rfl
  | cons field fields =>
    have hnone := h field.1
    rw [List.lookup_cons, beq_self_eq_true] at hnone
    cases hnone

theorem lookup_insert_of_ne (fields : Fields) {key key' : String} (value : Json) (hne : key' ≠ key) :
    (Fields.insert fields key value).lookup key' = fields.lookup key' := by
  have hbeq : (key' == key) = false := beq_eq_false_iff_ne.mpr hne
  induction fields with
  | nil =>
    rw [Fields.insert, List.lookup_cons, hbeq]
  | cons field fields ih =>
    obtain ⟨k, v⟩ := field
    rw [Fields.insert]
    split
    · rename_i hk
      rw [beq_iff_eq] at hk
      rw [List.lookup_cons, List.lookup_cons, hk, hbeq]
    · rw [List.lookup_cons, List.lookup_cons, ih]

theorem mem_insert {fields : Fields} {key : String} {value : Json} {field : String × Json}
    (h : field ∈ Fields.insert fields key value) : field = (key, value) ∨ field ∈ fields := by
  induction fields with
  | nil => exact .inl (List.mem_singleton.mp h)
  | cons head fields ih =>
    obtain ⟨k, v⟩ := head
    rw [Fields.insert] at h
    split at h
    · exact (List.mem_cons.mp h).imp id (List.mem_cons_of_mem _)
    · rcases List.mem_cons.mp h with rfl | h
      · exact .inr (by simp)
      · exact (ih h).imp id (List.mem_cons_of_mem _)

theorem insert_distinct {fields : Fields} {key : String} {value : Json}
    (h : Json.Distinct (.obj fields)) (hvalue : value.Distinct) :
    Json.Distinct (.obj (Fields.insert fields key value)) := by
  have hkeys : ((Fields.insert fields key value).map Prod.fst).Nodup := by
    have hnodup := h.keys
    clear h
    induction fields with
    | nil => simp [Fields.insert]
    | cons field fields ih =>
      obtain ⟨k, v⟩ := field
      rw [Fields.insert]
      rw [List.map_cons, List.nodup_cons] at hnodup
      split
      · rename_i hk
        rw [beq_iff_eq] at hk
        rw [List.map_cons, List.nodup_cons, ← hk]
        exact hnodup
      · rename_i hk
        rw [List.map_cons, List.nodup_cons]
        refine ⟨fun hmem => ?_, ih hnodup.2⟩
        obtain ⟨field, hfield, heq⟩ := List.mem_map.mp hmem
        rcases mem_insert hfield with rfl | hfield
        · exact hk (beq_iff_eq.mpr heq.symm)
        · exact hnodup.1 (List.mem_map.mpr ⟨field, hfield, heq⟩)
  refine .obj hkeys fun field hmem => ?_
  rcases mem_insert hmem with rfl | hmem
  · exact hvalue
  · exact h.values field hmem

theorem lookup_erase (fields : Fields) (key key' : String) :
    (Fields.erase fields key).lookup key' = if key' = key then none else fields.lookup key' := by
  induction fields with
  | nil => simp [Fields.erase]
  | cons field fields ih =>
    obtain ⟨k, v⟩ := field
    rw [Fields.erase] at ih ⊢
    rw [List.filter_cons, List.lookup_cons]
    by_cases hkey : key' = k
    · subst hkey
      by_cases heq : key' = key
      · simpa [heq] using ih
      · simp [heq]
    · rw [beq_eq_false_iff_ne.mpr hkey]
      split
      · rw [List.lookup_cons, beq_eq_false_iff_ne.mpr hkey]
        exact ih
      · exact ih

/-- A key that was not there is erased without a trace. -/
theorem erase_insert {fields : Fields} {key : String} {value : Json}
    (hkey : fields.lookup key = none) : Fields.erase (Fields.insert fields key value) key = fields := by
  induction fields with
  | nil => simp [Fields.insert, Fields.erase]
  | cons field fields ih =>
    obtain ⟨k, v⟩ := field
    rw [lookup_none_iff, List.map_cons, List.mem_cons, not_or] at hkey
    obtain ⟨hne, hrest⟩ := hkey
    rw [Fields.insert, if_neg (by simpa using Ne.symm hne), Fields.erase,
      List.filter_cons_of_pos (by simpa using Ne.symm hne)]
    exact congrArg _ (ih (lookup_none_iff.mpr hrest))

/-- A key that was not there comes last. -/
theorem insert_fresh {fields : Fields} {key : String} (h : fields.lookup key = none) (value : Json) :
    Fields.insert fields key value = fields ++ [(key, value)] := by
  induction fields with
  | nil => rfl
  | cons field fields ih =>
    rw [lookup_none_iff, List.map_cons, List.mem_cons, not_or] at h
    rw [Fields.insert, if_neg (by simpa using Ne.symm h.1), ih (lookup_none_iff.mpr h.2), List.cons_append]

theorem erase_distinct {fields : Fields} {key : String} (h : Json.Distinct (.obj fields)) :
    Json.Distinct (.obj (Fields.erase fields key)) :=
  .obj (h.keys.sublist (List.filter_sublist.map Prod.fst))
    fun field hmem => h.values field (List.mem_of_mem_filter hmem)

/-! ### Equality -/

/-- An equivalence of scalars that keeps strings apart. -/
structure LawfulScalars (eq : Json → Json → Bool) : Prop where
  refl : ∀ x, x.IsScalar → eq x x = true
  symm : ∀ x y, eq x y = true → eq y x = true
  trans : ∀ x y z, eq x y = true → eq y z = true → eq x z = true
  scalar : ∀ x y, eq x y = true → y.IsScalar
  str : ∀ x s, eq x (.str s) = true → x = .str s

variable {eq : Json → Json → Bool}

theorem rel_none {α β : Type} {R : α → β → Prop} {o : Option β} (h : Option.Rel R none o) :
    o = none := by
  cases h
  rfl

theorem rel_some {α β : Type} {R : α → β → Prop} {x : α} {o : Option β}
    (h : Option.Rel R (some x) o) : ∃ y, o = some y ∧ R x y := by
  cases h with
  | some h => exact ⟨_, rfl, h⟩

/-- Deep equality. -/
def Json.Equal (eq : Json → Json → Bool) (x y : Json) : Prop := x.equal eq y = true

theorem equal_scalar_iff {x y : Json} (hx : x.IsScalar) : Json.Equal eq x y ↔ eq x y = true := by
  cases x with
  | arr items => exact hx.elim
  | obj fields => exact hx.elim
  | _ => cases y <;> rw [Json.Equal, Json.equal] <;> exact nofun

theorem equal_arr_iff {xs ys : List Json} :
    Json.Equal eq (.arr xs) (.arr ys) ↔ List.Forall₂ (Json.Equal eq) xs ys := by
  rw [Json.Equal, Json.equal]
  induction xs generalizing ys with
  | nil => cases ys <;> simp [equalItems]
  | cons x xs ih =>
    cases ys with
    | nil => simp [equalItems]
    | cons y ys => simp only [equalItems, Bool.and_eq_true, List.forall₂_cons, ih, Json.Equal]

theorem equalFields_iff {xs ys : Fields} : equalFields eq xs ys = true ↔
    ∀ field ∈ xs, ∃ y, ys.lookup field.1 = some y ∧ Json.Equal eq field.2 y := by
  induction xs with
  | nil => simp [equalFields]
  | cons field xs ih =>
    obtain ⟨key, x⟩ := field
    rw [equalFields, Bool.and_eq_true, ih, List.forall_mem_cons]
    apply and_congr_left'
    cases ys.lookup key with
    | none => simp
    | some y => simp [Json.Equal]

theorem Json.Equal.scalar {x y : Json} (hlaw : LawfulScalars eq) (hx : x.IsScalar)
    (h : Json.Equal eq x y) : y.IsScalar :=
  hlaw.scalar x y ((equal_scalar_iff hx).mp h)

/-- What equals an array is an array. -/
theorem Json.Equal.arr {xs : List Json} {y : Json} (h : Json.Equal eq (.arr xs) y) :
    ∃ ys, y = .arr ys := by
  cases y with
  | arr ys => exact ⟨ys, rfl⟩
  | _ => cases h

/-- What equals an object is an object. -/
theorem Json.Equal.obj {xs : Fields} {y : Json} (h : Json.Equal eq (.obj xs) y) :
    ∃ ys, y = .obj ys := by
  cases y with
  | obj ys => exact ⟨ys, rfl⟩
  | _ => cases h

/-- **Objects are equal as maps.** -/
theorem equal_obj_iff {xs ys : Fields} (hxs : (xs.map Prod.fst).Nodup)
    (hys : (ys.map Prod.fst).Nodup) : Json.Equal eq (.obj xs) (.obj ys) ↔
      ∀ key, Option.Rel (Json.Equal eq) (xs.lookup key) (ys.lookup key) := by
  rw [Json.Equal, Json.equal, Bool.and_eq_true, equalFields_iff, beq_iff_eq]
  constructor
  · rintro ⟨hlen, hfields⟩ key
    have hsub : xs.map Prod.fst ⊆ ys.map Prod.fst := by
      intro k hk
      obtain ⟨field, hmem, rfl⟩ := List.mem_map.mp hk
      obtain ⟨y, hy, _⟩ := hfields field hmem
      exact key_mem (lookup_mem hy)
    have hperm : (xs.map Prod.fst).Perm (ys.map Prod.fst) :=
      (hxs.subperm hsub).perm_of_length_le (by simp [hlen])
    cases hx : xs.lookup key with
    | none =>
      rw [lookup_none_iff, hperm.mem_iff, ← lookup_none_iff] at hx
      rw [hx]
      exact .none
    | some x =>
      obtain ⟨y, hy, hequal⟩ := hfields _ (lookup_mem hx)
      rw [hy]
      exact .some hequal
  · intro h
    have hmem : ∀ key, key ∈ xs.map Prod.fst ↔ key ∈ ys.map Prod.fst := by
      intro key
      rw [← not_iff_not, ← lookup_none_iff, ← lookup_none_iff]
      have hrel := h key
      cases hx : xs.lookup key with
      | none =>
        rw [hx] at hrel
        rw [rel_none hrel]
      | some x =>
        rw [hx] at hrel
        obtain ⟨y, hy, _⟩ := rel_some hrel
        rw [hy]
        exact iff_of_false nofun nofun
    have hperm := (List.perm_ext_iff_of_nodup hxs hys).mpr hmem
    refine ⟨by simpa using hperm.length_eq, fun field hfield => ?_⟩
    have hrel := h field.1
    rw [mem_lookup hxs hfield] at hrel
    exact rel_some hrel

theorem Json.Equal.refl (hlaw : LawfulScalars eq) {x : Json} (hx : x.Distinct) :
    Json.Equal eq x x := by
  induction x using Json.induct with
  | scalar x h => exact (equal_scalar_iff h).mpr (hlaw.refl x h)
  | arr items ih =>
    rw [equal_arr_iff, List.forall₂_same]
    exact fun x hmem => ih x hmem (hx.items x hmem)
  | obj fields ih =>
    rw [equal_obj_iff hx.keys hx.keys]
    intro key
    cases hlookup : fields.lookup key with
    | none => exact .none
    | some x => exact .some (ih _ (lookup_mem hlookup) (lookup_distinct hx hlookup))

theorem Json.Equal.symm (hlaw : LawfulScalars eq) {x y : Json} (hx : x.Distinct) (hy : y.Distinct)
    (h : Json.Equal eq x y) : Json.Equal eq y x := by
  induction x using Json.induct generalizing y with
  | scalar x hscalar =>
    rw [equal_scalar_iff (h.scalar hlaw hscalar)]
    exact hlaw.symm x y ((equal_scalar_iff hscalar).mp h)
  | arr items ih =>
    obtain ⟨ys, rfl⟩ := h.arr
    rw [equal_arr_iff] at h ⊢
    induction h with
    | nil => exact .nil
    | @cons x y xs ys hxy _ ih' =>
      refine .cons (ih x (by simp) (hx.items x (by simp)) (hy.items y (by simp)) hxy) ?_
      exact ih' (fun z hz => ih z (List.mem_cons_of_mem x hz))
        (.arr fun z hz => hx.items z (List.mem_cons_of_mem x hz))
        (.arr fun z hz => hy.items z (List.mem_cons_of_mem y hz))
  | obj fields ih =>
    obtain ⟨ys, rfl⟩ := h.obj
    rw [equal_obj_iff hx.keys hy.keys] at h
    rw [equal_obj_iff hy.keys hx.keys]
    intro key
    have hrel := h key
    cases hlx : fields.lookup key with
    | none =>
      rw [hlx] at hrel
      rw [rel_none hrel]
      exact .none
    | some x =>
      rw [hlx] at hrel
      obtain ⟨y, hly, hequal⟩ := rel_some hrel
      rw [hly]
      exact .some (ih _ (lookup_mem hlx) (lookup_distinct hx hlx) (lookup_distinct hy hly) hequal)

theorem Json.Equal.trans (hlaw : LawfulScalars eq) {x y z : Json} (hx : x.Distinct)
    (hy : y.Distinct) (hz : z.Distinct) (h : Json.Equal eq x y) (h' : Json.Equal eq y z) :
    Json.Equal eq x z := by
  induction x using Json.induct generalizing y z with
  | scalar x hscalar =>
    rw [equal_scalar_iff hscalar] at h ⊢
    exact hlaw.trans x y z h ((equal_scalar_iff (hlaw.scalar x y h)).mp h')
  | arr items ih =>
    obtain ⟨ys, rfl⟩ := h.arr
    obtain ⟨zs, rfl⟩ := h'.arr
    rw [equal_arr_iff] at h h' ⊢
    induction h generalizing zs with
    | nil => exact h'
    | @cons x y xs ys hxy _ ih' =>
      cases h' with
      | @cons _ z _ zs hyz hrest =>
        refine .cons (ih x (by simp) (hx.items x (by simp)) (hy.items y (by simp))
          (hz.items z (by simp)) hxy hyz) ?_
        exact ih' (fun z hz => ih z (List.mem_cons_of_mem x hz))
          (.arr fun z hz => hx.items z (List.mem_cons_of_mem x hz))
          (.arr fun z hz => hy.items z (List.mem_cons_of_mem y hz)) zs
          (.arr fun w hw => hz.items w (List.mem_cons_of_mem z hw)) hrest
  | obj fields ih =>
    obtain ⟨ys, rfl⟩ := h.obj
    obtain ⟨zs, rfl⟩ := h'.obj
    rw [equal_obj_iff hx.keys hy.keys] at h
    rw [equal_obj_iff hy.keys hz.keys] at h'
    rw [equal_obj_iff hx.keys hz.keys]
    intro key
    have hrel := h key
    have hrel' := h' key
    cases hlx : fields.lookup key with
    | none =>
      rw [hlx] at hrel
      rw [rel_none hrel] at hrel'
      exact hrel'
    | some x =>
      rw [hlx] at hrel
      obtain ⟨y, hly, hxy⟩ := rel_some hrel
      rw [hly] at hrel'
      obtain ⟨z, hlz, hyz⟩ := rel_some hrel'
      rw [hlz]
      exact .some (ih _ (lookup_mem hlx) (lookup_distinct hx hlx) (lookup_distinct hy hly)
        (lookup_distinct hz hlz) hxy hyz)

end Sieve.Event
