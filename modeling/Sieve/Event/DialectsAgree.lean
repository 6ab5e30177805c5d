import Sieve.Event.DiffPairs
import Sieve.Event.PartOf

/-!
# Where the two languages agree

The learner and the coordinator compute the same differences and the same parts, except that Python
takes a truth value for the number 0 or 1:

* `Meets`: a truth value stands against its number, at a place where two values are compared;
* `Departs`: one value is not a part of the other, in either language;
* `diffValue_agree_iff`: the differences are the same;
* `partOfValue_python_iff`, `partOfValue_go_iff`: what the two languages take for a part.
-/

namespace Sieve.Event

/-- A truth value stands against its number, at a place where the two values are compared. -/
inductive Meets : Json → Json → Prop where
  | bool (b : Bool) : Meets (.bool b) (.num (if b then 1 else 0))
  | num (b : Bool) : Meets (.num (if b then 1 else 0)) (.bool b)
  | obj {prev cur : Fields} {key : String} {p c : Json} (hprev : prev.lookup key = some p)
      (hcur : cur.lookup key = some c) (h : Meets p c) : Meets (.obj prev) (.obj cur)
  | arr {prev cur : List Json} {p c : Json} (hmem : (p, c) ∈ prev.zip cur) (h : Meets p c) :
      Meets (.arr prev) (.arr cur)

/-- `a` is not a part of `b`, whatever the language: a missing key, lists of different lengths, or
values that Python tells apart too. -/
inductive Departs : Json → Json → Prop where
  | apart {a b : Json} (hapart : ¬ Together a b) (hne : ¬ Json.Equal pythonScalarEqual a b) :
      Departs a b
  | missing {a b : Fields} {key : String} {x : Json} (ha : a.lookup key = some x)
      (hb : b.lookup key = none) : Departs (.obj a) (.obj b)
  | obj {a b : Fields} {key : String} {x y : Json} (ha : a.lookup key = some x)
      (hb : b.lookup key = some y) (h : Departs x y) : Departs (.obj a) (.obj b)
  | length {a b : List Json} (h : a.length ≠ b.length) : Departs (.arr a) (.arr b)
  | arr {a b : List Json} {x y : Json} (hmem : (x, y) ∈ a.zip b) (hskip : x ≠ .str SIEVE_IDX_SKIP)
      (h : Departs x y) : Departs (.arr a) (.arr b)

/-! ### Scalars -/

/-- Python's equality is Go's, and a truth value equals its number. -/
theorem equal_python_iff {p c : Json} (hapart : ¬ Together p c) :
    Json.Equal pythonScalarEqual p c ↔ Json.Equal goScalarEqual p c ∨ Meets p c := by
  by_cases hscalar : p.IsScalar
  · rw [equal_scalar_iff hscalar, equal_scalar_iff hscalar]
    constructor
    · intro h
      cases p with
      | bool a =>
        cases c with
        | num q =>
          rw [pythonScalarEqual, beq_iff_eq] at h
          exact .inr (h ▸ .bool a)
        | _ => exact .inl h
      | num q =>
        cases c with
        | bool b =>
          rw [pythonScalarEqual, beq_iff_eq] at h
          exact .inr (h ▸ .num b)
        | _ => exact .inl h
      | _ => exact .inl h
    · rintro (h | h)
      · rw [pythonScalarEqual_eq]
        cases p <;> cases c <;> simp_all [goScalarEqual, Json.asNumber]
      · cases h with
        | bool b => simp [pythonScalarEqual]
        | num b => simp [pythonScalarEqual]
        | obj => exact hscalar.elim
        | arr => exact hscalar.elim
  · have hnot : ∀ eq, ¬ Json.Equal eq p c := by
      intro eq h
      cases p with
      | arr items =>
        obtain ⟨ys, rfl⟩ := h.arr
        exact hapart (.arr items ys)
      | obj fields =>
        obtain ⟨ys, rfl⟩ := h.obj
        exact hapart (.obj fields ys)
      | _ => exact hscalar trivial
    refine iff_of_false (hnot _) ?_
    rintro (h | h)
    · exact hnot _ h
    · cases h with
      | bool b => exact hscalar trivial
      | num b => exact hscalar trivial
      | obj => exact hapart (.obj _ _)
      | arr => exact hapart (.arr _ _)

/-- Go never takes a truth value for a number. -/
theorem Meets.not_equal {p c : Json} (hapart : ¬ Together p c) (h : Meets p c) :
    ¬ Json.Equal goScalarEqual p c := by
  cases h with
  | bool b => exact nofun
  | num b => exact nofun
  | obj => exact absurd (.obj _ _) hapart
  | arr => exact absurd (.arr _ _) hapart

theorem meets_obj_iff {prev cur : Fields} : Meets (.obj prev) (.obj cur) ↔
    ∃ key p c, prev.lookup key = some p ∧ cur.lookup key = some c ∧ Meets p c := by
  constructor
  · intro h
    cases h with
    | obj hprev hcur h => exact ⟨_, _, _, hprev, hcur, h⟩
  · rintro ⟨key, p, c, hprev, hcur, h⟩
    exact .obj hprev hcur h

theorem meets_arr_iff {prev cur : List Json} : Meets (.arr prev) (.arr cur) ↔
    ∃ pair ∈ prev.zip cur, Meets pair.1 pair.2 := by
  constructor
  · intro h
    cases h with
    | arr hmem h => exact ⟨_, hmem, h⟩
  · rintro ⟨pair, hmem, h⟩
    exact .arr hmem h

/-! ### Differences -/

/-- The two languages find the same difference. -/
def SameDiff (p c : Json) : Prop :=
  Option.Rel (SameSides go) (diffValue go p c) (diffValue python p c)

theorem diffItems_agree {prev cur : List Json} (hp : ∀ p ∈ prev, p.Distinct)
    (hc : ∀ c ∈ cur, c.Distinct) :
    SameItems (diffItems go prev cur).1 (diffItems python prev cur).1 ∧
      SameItems (diffItems go prev cur).2 (diffItems python prev cur).2 ↔
    ∀ pair ∈ prev.zip cur, SameDiff pair.1 pair.2 := by
  induction prev generalizing cur with
  | nil =>
    rw [diffItems_nil_left, diffItems_nil_left]
    exact iff_of_true ⟨.nil, sameItems_self hc⟩ nofun
  | cons p prev ih =>
    cases cur with
    | nil =>
      rw [diffItems_nil_right, diffItems_nil_right]
      exact iff_of_true ⟨sameItems_self hp, .nil⟩ nofun
    | cons c cur =>
      obtain ⟨hpx, hprev⟩ := List.forall_mem_cons.mp hp
      obtain ⟨hcx, hcur⟩ := List.forall_mem_cons.mp hc
      have hitem : SameSides go (itemSides go p c) (itemSides python p c) ↔ SameDiff p c :=
        itemSides_same go_lawful python_lawful hpx hcx hpx hcx
      rw [List.zip_cons_cons, List.forall_mem_cons, ← ih hprev hcur, ← hitem]
      simp only [diffItems_cons, SameItems, List.forall₂_cons, SameSides]
      exact and_and_and_comm

/-- The lists agree when their items do. -/
theorem sameDiff_arr_iff {prev cur : List Json} (hp : ∀ p ∈ prev, p.Distinct)
    (hc : ∀ c ∈ cur, c.Distinct) : SameDiff (.arr prev) (.arr cur) ↔
      ∀ pair ∈ prev.zip cur, SameDiff pair.1 pair.2 := by
  rw [← diffItems_agree hp hc]
  exact sameDiffs_arr_iff go_lawful python_lawful rfl rfl

/-- The objects agree when the values under common keys do. -/
theorem sameDiff_obj_iff {prev cur : Fields} (hp : Json.Distinct (.obj prev))
    (hc : Json.Distinct (.obj cur)) : SameDiff (.obj prev) (.obj cur) ↔
      ∀ key p c, prev.lookup key = some p → cur.lookup key = some c → SameDiff p c := by
  refine (sameDiffs_obj_iff hp hc hp hc (fun _ => rfl) fun _ => rfl).trans ?_
  refine forall_congr' fun key => ?_
  cases hlp : prev.lookup key with
  | none =>
    refine iff_of_true ?_ nofun
    cases hlc : cur.lookup key with
    | none => exact .missing
    | some c => exact .cur (.refl go_lawful (lookup_distinct hc hlc))
  | some p =>
    cases hlc : cur.lookup key with
    | none => exact iff_of_true (.prev (.refl go_lawful (lookup_distinct hp hlp))) nofun
    | some c =>
      rw [sameKey_both_iff]
      exact ⟨fun h q x hq hx => Option.some.inj hq ▸ Option.some.inj hx ▸ h,
        fun h => h p c rfl rfl⟩

/-- **The two languages find the same difference** exactly when no truth value stands against its
number. -/
theorem diffValue_agree_iff {p c : Json} (hp : p.Distinct) (hc : c.Distinct) :
    SameDiff p c ↔ ¬ Meets p c := by
  induction p, c using together_induct with
  | apart p c hapart =>
    rw [SameDiff, diffValue_apart hapart, diffValue_apart hapart]
    show Option.Rel _ (if p.equal goScalarEqual c = true then none else some (p, c))
      (if p.equal pythonScalarEqual c = true then none else some (p, c)) ↔ _
    have hequal := equal_python_iff hapart
    rw [Json.Equal, Json.Equal] at hequal
    by_cases hgo : p.equal goScalarEqual c = true
    · rw [if_pos hgo, if_pos (hequal.mpr (.inl hgo))]
      exact iff_of_true .none fun hmeets => hmeets.not_equal hapart hgo
    · rw [if_neg hgo]
      by_cases hpython : p.equal pythonScalarEqual c = true
      · rw [if_pos hpython]
        refine iff_of_false (fun h => by cases h) fun hnot => ?_
        exact (hequal.mp hpython).elim hgo hnot
      · rw [if_neg hpython]
        exact iff_of_true (.some ⟨.refl go_lawful hp, .refl go_lawful hc⟩)
          fun hmeets => hpython (hequal.mpr (.inr hmeets))
  | arr prev cur ih =>
    rw [sameDiff_arr_iff hp.items hc.items, meets_arr_iff]
    push Not
    refine forall₂_congr fun pair hmem => ?_
    obtain ⟨hpmem, hcmem⟩ := List.of_mem_zip hmem
    exact ih _ hpmem _ hcmem (hp.items _ hpmem) (hc.items _ hcmem)
  | obj prev cur ih =>
    rw [sameDiff_obj_iff hp hc, meets_obj_iff]
    push Not
    refine forall_congr' fun key => forall_congr' fun p => forall_congr' fun c =>
      forall₂_congr fun hlp hlc => ?_
    exact ih key p c hlp hlc (lookup_distinct hp hlp) (lookup_distinct hc hlc)

/-! ### Parts -/

theorem departs_obj_iff {a b : Fields} : Departs (.obj a) (.obj b) ↔
    ∃ key x, a.lookup key = some x ∧ ∀ y, b.lookup key = some y → Departs x y := by
  constructor
  · intro h
    cases h with
    | apart hapart _ => exact absurd (.obj a b) hapart
    | missing ha hb => exact ⟨_, _, ha, by rw [hb]; exact nofun⟩
    | obj ha hb h =>
      refine ⟨_, _, ha, fun y hy => ?_⟩
      rw [hb] at hy
      exact Option.some.inj hy ▸ h
  · rintro ⟨key, x, ha, h⟩
    cases hb : b.lookup key with
    | none => exact .missing ha hb
    | some y => exact .obj ha hb (h y hb)

theorem departs_arr_iff {a b : List Json} : Departs (.arr a) (.arr b) ↔
    (a.length = b.length →
      ∃ pair ∈ a.zip b, pair.1 ≠ .str SIEVE_IDX_SKIP ∧ Departs pair.1 pair.2) := by
  constructor
  · intro h hlen
    cases h with
    | apart hapart _ => exact absurd (.arr a b) hapart
    | length h => exact absurd hlen h
    | arr hmem hskip h => exact ⟨_, hmem, hskip, h⟩
  · intro h
    by_cases hlen : a.length = b.length
    · obtain ⟨pair, hmem, hskip, hdeparts⟩ := h hlen
      exact .arr hmem hskip hdeparts
    · exact .length hlen

theorem departs_apart_iff {a b : Json} (hapart : ¬ Together a b) :
    Departs a b ↔ ¬ Json.Equal pythonScalarEqual a b := by
  constructor
  · intro h
    cases h with
    | apart _ hne => exact hne
    | missing => exact absurd (.obj _ _) hapart
    | obj => exact absurd (.obj _ _) hapart
    | length => exact absurd (.arr _ _) hapart
    | arr => exact absurd (.arr _ _) hapart
  · exact fun hne => .apart hapart hne

/-- What Python takes for a part. -/
theorem partOfValue_python_iff {a b : Json} (ha : a.Distinct) :
    partOfValue python a b = true ↔ ¬ Departs a b := by
  induction a, b using together_induct with
  | apart a b hapart =>
    rw [partOfValue_apart hapart, departs_apart_iff hapart, not_not]
    exact Iff.rfl
  | arr as bs ih =>
    rw [partOfValue_arr_iff python_lawful, List.forall₂_iff_zip, departs_arr_iff]
    push Not
    refine and_congr_right fun hlen => ⟨fun h pair hmem hskip => ?_, fun h x y hmem => ?_⟩
    · obtain ⟨hx, hy⟩ := List.of_mem_zip hmem
      exact (ih _ hx _ hy (ha.items _ hx)).mp ((h hmem).resolve_left hskip)
    · obtain ⟨hx, hy⟩ := List.of_mem_zip hmem
      by_cases hskip : x = .str SIEVE_IDX_SKIP
      · exact .inl hskip
      · exact .inr ((ih _ hx _ hy (ha.items _ hx)).mpr (h _ hmem hskip))
  | obj a b ih =>
    rw [partOfValue_obj, partOfEventAsMap_iff_lookup ha.keys, departs_obj_iff]
    push Not
    refine forall_congr' fun key => forall_congr' fun x => forall_congr' fun hx => ?_
    refine exists_congr fun y => and_congr_right fun hy => ?_
    exact ih key x y hx hy (lookup_distinct ha hx)

/-- What Go takes for a part: no truth value stands against its number either. -/
theorem partOfValue_go_iff {a b : Json} (ha : a.Distinct) :
    partOfValue go a b = true ↔ ¬ Departs a b ∧ ¬ Meets a b := by
  induction a, b using together_induct with
  | apart a b hapart =>
    rw [partOfValue_apart hapart, departs_apart_iff hapart, not_not, equal_python_iff hapart]
    constructor
    · exact fun hgo => ⟨.inl hgo, fun hmeets => hmeets.not_equal hapart hgo⟩
    · exact fun h => h.1.resolve_right h.2
  | arr as bs ih =>
    rw [partOfValue_arr_iff go_lawful, List.forall₂_iff_zip, departs_arr_iff, meets_arr_iff]
    push Not
    constructor
    · rintro ⟨hlen, h⟩
      refine ⟨⟨hlen, fun pair hmem hskip => ?_⟩, fun pair hmem hmeets => ?_⟩
      · obtain ⟨hx, hy⟩ := List.of_mem_zip hmem
        exact ((ih _ hx _ hy (ha.items _ hx)).mp ((h hmem).resolve_left hskip)).1
      · obtain ⟨hx, hy⟩ := List.of_mem_zip hmem
        rcases h hmem with hskip | hpart
        · rw [hskip] at hmeets
          cases hmeets
        · exact ((ih _ hx _ hy (ha.items _ hx)).mp hpart).2 hmeets
    · rintro ⟨⟨hlen, hdeparts⟩, hmeets⟩
      refine ⟨hlen, fun {x y} hmem => ?_⟩
      obtain ⟨hx, hy⟩ := List.of_mem_zip hmem
      by_cases hskip : x = .str SIEVE_IDX_SKIP
      · exact .inl hskip
      · exact .inr ((ih _ hx _ hy (ha.items _ hx)).mpr ⟨hdeparts _ hmem hskip, hmeets _ hmem⟩)
  | obj a b ih =>
    rw [partOfValue_obj, partOfEventAsMap_iff_lookup ha.keys, departs_obj_iff, meets_obj_iff]
    push Not
    constructor
    · intro h
      refine ⟨fun key x hx => ?_, fun key x y hx hy => ?_⟩
      · obtain ⟨y, hy, hpart⟩ := h key x hx
        exact ⟨y, hy, ((ih key x y hx hy (lookup_distinct ha hx)).mp hpart).1⟩
      · obtain ⟨y', hy', hpart⟩ := h key x hx
        rw [hy] at hy'
        obtain rfl := Option.some.inj hy'
        exact ((ih key x y hx hy (lookup_distinct ha hx)).mp hpart).2
    · rintro ⟨hdeparts, hmeets⟩ key x hx
      obtain ⟨y, hy, hnot⟩ := hdeparts key x hx
      exact ⟨y, hy, (ih key x y hx hy (lookup_distinct ha hx)).mpr ⟨hnot, hmeets key x y hx hy⟩⟩

/-! ### The two copies -/

/-- **The learner and the coordinator agree** on a difference exactly when no truth value stands
against its number, and on a part also when the states depart from each other elsewhere. -/
theorem dialects_agree_iff (prev cur a b : JsonObject) :
    (EqualPairs go (diffEventAsMap go prev.1 cur.1) (diffEventAsMap python prev.1 cur.1) ↔
      ¬ Meets (.obj prev.1) (.obj cur.1)) ∧
    (partOfEventAsMap go a.1 b.1 = partOfEventAsMap python a.1 b.1 ↔
      (Meets (.obj a.1) (.obj b.1) → Departs (.obj a.1) (.obj b.1))) := by
  refine ⟨?_, ?_⟩
  · rw [← diffValue_agree_iff prev.2 cur.2, SameDiff, diffValue_obj, diffValue_obj, EqualPairs]
    cases diffEventAsMap go prev.1 cur.1 with
    | none =>
      cases diffEventAsMap python prev.1 cur.1 with
      | none => exact iff_of_true .none .none
      | some diff => exact iff_of_false nofun nofun
    | some diff =>
      cases diffEventAsMap python prev.1 cur.1 with
      | none => exact iff_of_false nofun nofun
      | some diff' =>
        rw [Option.map_some, Option.map_some, Option.rel_some_some, Option.rel_some_some]
        exact Iff.rfl
  · rw [Bool.eq_iff_iff, ← partOfValue_obj, ← partOfValue_obj, partOfValue_go_iff a.2,
      partOfValue_python_iff a.2]
    tauto

/-- A truth value against its number: only the coordinator sees that it changed. -/
theorem dialects_disagree :
    Json.Distinct (.obj [("ready", .bool true)]) ∧ Json.Distinct (.obj [("ready", .num 1)]) ∧
      diffEventAsMap go [("ready", .bool true)] [("ready", .num 1)] =
        some ([("ready", .bool true)], [("ready", .num 1)]) ∧
      diffEventAsMap python [("ready", .bool true)] [("ready", .num 1)] = none ∧
      partOfEventAsMap go [("ready", .bool true)] [("ready", .num 1)] = false ∧
      partOfEventAsMap python [("ready", .bool true)] [("ready", .num 1)] = true := by
  have hfield : ∀ x : Json, x.IsScalar → Json.Distinct (.obj [("ready", x)]) := by
    intro x hx
    refine .obj (by simp) fun field hmem => ?_
    rw [List.mem_singleton.mp hmem]
    exact .scalar hx
  exact ⟨hfield _ trivial, hfield _ trivial, rfl, rfl, rfl, rfl⟩

end Sieve.Event
