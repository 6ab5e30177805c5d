import Sieve.Event.DiffPairs
import Sieve.Event.Readings

/-!
# Differences of states that are read twice

Two states, each read in two ways: when are the differences after the first readings those after the
second?

* `sameDiffs_apart_iff`: two pairs, one of which is not compared inside;
* `diffItems_map_same`: item by item;
* `Shows`: somewhere the readings do not agree, and the differences show it;
* `readSame_iff`: the differences are the same exactly when nothing shows.
-/

namespace Sieve.Event

/-! ### Pairs that are not compared inside -/

theorem diffValue_none_iff {p c : Json} (hp : p.Distinct) (hc : c.Distinct) :
    diffValue go p c = none ↔ Json.Equal goScalarEqual p c := (apart go_lawful hp hc).1

theorem Together.of_equal {p c p' c' : Json} (h : Together p c) (hp : Json.Equal goScalarEqual p p')
    (hc : Json.Equal goScalarEqual c c') : Together p' c' := by
  cases h with
  | obj prev cur =>
    obtain ⟨prev', rfl⟩ := hp.obj
    obtain ⟨cur', rfl⟩ := hc.obj
    exact .obj prev' cur'
  | arr prev cur =>
    obtain ⟨prev', rfl⟩ := hp.arr
    obtain ⟨cur', rfl⟩ := hc.arr
    exact .arr prev' cur'

/-- The sides of a difference are compared inside when the values are. -/
theorem together_of_diff {p c x y : Json} (h : Together p c) (hdiff : diffValue go p c = some (x, y)) :
    Together x y := by
  cases h with
  | obj prev cur =>
    obtain ⟨rfl, rfl, -⟩ := diffValue_obj_some hdiff
    exact .obj _ _
  | arr prev cur =>
    obtain ⟨rfl, rfl, -⟩ := diffValue_arr_some hdiff
    exact .arr _ _

/-- Two pairs of values, compared as wholes. -/
def SameWholes (p c p' c' : Json) : Prop :=
  (Json.Equal goScalarEqual p c ↔ Json.Equal goScalarEqual p' c') ∧
    (¬ Json.Equal goScalarEqual p c → Json.Equal goScalarEqual p p' ∧ Json.Equal goScalarEqual c c')

/-- Two pairs that differ, the first of which is not compared inside. -/
theorem sameSides_apart_iff {p c p' c' x' y' : Json} (hp : p.Distinct) (hc : c.Distinct)
    (hp' : p'.Distinct) (hc' : c'.Distinct) (hapart : ¬ Together p c)
    (hdiff' : diffValue go p' c' = some (x', y')) :
    SameSides go (p, c) (x', y') ↔ Json.Equal goScalarEqual p p' ∧ Json.Equal goScalarEqual c c' := by
  by_cases htogether : Together p' c'
  · obtain ⟨hx', hy'⟩ := diffValue_distinct hp' hc' hdiff'
    refine iff_of_false (fun h => hapart ?_) fun h => hapart ?_
    · exact (together_of_diff htogether hdiff').of_equal (h.1.symm go_lawful hp hx')
        (h.2.symm go_lawful hc hy')
    · exact htogether.of_equal (h.1.symm go_lawful hp hp') (h.2.symm go_lawful hc hc')
  · obtain ⟨rfl, rfl, -⟩ := diffValue_apart_some htogether hdiff'
    exact Iff.rfl

/-- **Two pairs, one of which is not compared inside**: their differences are the same when the pairs
are, as wholes. -/
theorem sameDiffs_apart_iff {p c p' c' : Json} (hp : p.Distinct) (hc : c.Distinct) (hp' : p'.Distinct)
    (hc' : c'.Distinct) (hapart : ¬ Together p c ∨ ¬ Together p' c') :
    SameDiffs go go p c p' c' ↔ SameWholes p c p' c' := by
  have hnone := diffValue_none_iff hp hc
  have hnone' := diffValue_none_iff hp' hc'
  rw [SameDiffs, SameWholes, ← hnone, ← hnone']
  cases hdiff : diffValue go p c with
  | none =>
    cases hdiff' : diffValue go p' c' with
    | none => exact iff_of_true .none ⟨Iff.rfl, fun h => absurd rfl h⟩
    | some sides' => exact iff_of_false (fun h => by cases h) fun h => by cases h.1.mp rfl
  | some sides =>
    cases hdiff' : diffValue go p' c' with
    | none => exact iff_of_false (fun h => by cases h) fun h => by cases h.1.mpr rfl
    | some sides' =>
      obtain ⟨x, y⟩ := sides
      obtain ⟨x', y'⟩ := sides'
      have hsides : SameSides go (x, y) (x', y') ↔
          Json.Equal goScalarEqual p p' ∧ Json.Equal goScalarEqual c c' := by
        by_cases htogether : Together p c
        · have hapart' : ¬ Together p' c' := hapart.resolve_left (not_not.mpr htogether)
          obtain ⟨hx, hy⟩ := diffValue_distinct hp hc hdiff
          obtain ⟨rfl, rfl, -⟩ := diffValue_apart_some hapart' hdiff'
          refine iff_of_false (fun h => hapart' ?_) fun h => hapart' (htogether.of_equal h.1 h.2)
          exact (together_of_diff htogether hdiff).of_equal h.1 h.2
        · obtain ⟨rfl, rfl, -⟩ := diffValue_apart_some htogether hdiff
          exact sameSides_apart_iff hp hc hp' hc' htogether hdiff'
      rw [Option.rel_some_some, hsides]
      simp

/-! ### Items -/

/-- Functions on the items of the lists: the differences are the same when those of the pairs are, and
the functions agree on the items in excess. -/
theorem diffItems_map_same {f g f' g' : Json → Json} {prev cur : List Json}
    (hp : ∀ x ∈ prev, (f x).Distinct ∧ (f' x).Distinct) (hc : ∀ x ∈ cur, (g x).Distinct ∧ (g' x).Distinct) :
    SameItems (diffItems go (prev.map f) (cur.map g)).1 (diffItems go (prev.map f') (cur.map g')).1 ∧
        SameItems (diffItems go (prev.map f) (cur.map g)).2 (diffItems go (prev.map f') (cur.map g')).2 ↔
      (∀ pair ∈ prev.zip cur, SameDiffs go go (f pair.1) (g pair.2) (f' pair.1) (g' pair.2)) ∧
        (∀ x ∈ prev.drop cur.length, Json.Equal goScalarEqual (f x) (f' x)) ∧
        ∀ x ∈ cur.drop prev.length, Json.Equal goScalarEqual (g x) (g' x) := by
  have hexcess : ∀ {f f' : Json → Json} (items : List Json), SameItems (items.map f) (items.map f') ↔
      ∀ x ∈ items, Json.Equal goScalarEqual (f x) (f' x) := by
    intro f f' items
    rw [SameItems, List.forall₂_map_left_iff, List.forall₂_map_right_iff, List.forall₂_same]
  induction prev generalizing cur with
  | nil => simp [diffItems_nil_left, hexcess]
  | cons p prev ih =>
    cases cur with
    | nil =>
      rw [List.map_nil, List.map_nil, diffItems_nil_right, diffItems_nil_right, hexcess]
      simp
    | cons c cur =>
      obtain ⟨hpx, hprev⟩ := List.forall_mem_cons.mp hp
      obtain ⟨hcx, hcur⟩ := List.forall_mem_cons.mp hc
      have hitem : SameSides go (itemSides go (f p) (g c)) (itemSides go (f' p) (g' c)) ↔
          SameDiffs go go (f p) (g c) (f' p) (g' c) :=
        itemSides_same go_lawful go_lawful hpx.1 hcx.1 hpx.2 hcx.2
      have hrest : _ ↔ _ := @ih cur hprev hcur
      rw [List.zip_cons_cons, List.forall_mem_cons, List.length_cons, List.length_cons,
        List.drop_succ_cons, List.drop_succ_cons, and_assoc, ← hrest, ← hitem]
      simp only [List.map_cons, diffItems_cons, SameItems, List.forall₂_cons, SameSides]
      exact and_and_and_comm

/-! ### Two readings of two states -/

/-- How the previous and the current state are read. -/
structure Readings where
  prev : Reading
  cur : Reading

def Readings.below (l : Readings) (key : String) : Readings := ⟨l.prev.below key, l.cur.below key⟩

/-- The field is masked in one of the states at least. -/
def Readings.Hides (l : Readings) (key : String) : Prop := l.prev.Hides key ∨ l.cur.Hides key

def Readings.HidesItems (l : Readings) : Prop := l.prev.HidesItems ∨ l.cur.HidesItems

/-- The readings tell two values, as wholes, apart in other ways. -/
def Changes (l l' : Readings) (p c : Json) : Prop :=
  ¬ ((Unlike l.prev l.cur p c ↔ Unlike l'.prev l'.cur p c) ∧
    (Unlike l.prev l.cur p c → ¬ Unlike l.prev l'.prev p p ∧ ¬ Unlike l.cur l'.cur c c))

/-- Somewhere the readings do not agree, and the differences show it: a value that stands against none
of its kind is not read the same in both, or something is masked and the values that are left are told
apart in other ways. -/
inductive Shows : Readings → Readings → Json → Json → Prop where
  | apart {l l' : Readings} {p c : Json} (hapart : ¬ Together p c) (h : Changes l l' p c) :
      Shows l l' p c
  | prevField {l l' : Readings} {key : String} {prev cur : Fields} {p : Json}
      (hp : prev.lookup key = some p) (hc : cur.lookup key = none)
      (h : Unlike l.prev l'.prev (.obj [(key, p)]) (.obj [(key, p)])) : Shows l l' (.obj prev) (.obj cur)
  | curField {l l' : Readings} {key : String} {prev cur : Fields} {c : Json}
      (hp : prev.lookup key = none) (hc : cur.lookup key = some c)
      (h : Unlike l.cur l'.cur (.obj [(key, c)]) (.obj [(key, c)])) : Shows l l' (.obj prev) (.obj cur)
  | hiddenField {l l' : Readings} {key : String} {prev cur : Fields} {p c : Json}
      (hp : prev.lookup key = some p) (hc : cur.lookup key = some c) (hM : l.Hides key ∨ l'.Hides key)
      (h : Changes l l' (.obj [(key, p)]) (.obj [(key, c)])) : Shows l l' (.obj prev) (.obj cur)
  | field {l l' : Readings} {key : String} {prev cur : Fields} {p c : Json}
      (hp : prev.lookup key = some p) (hc : cur.lookup key = some c) (hM : ¬ (l.Hides key ∨ l'.Hides key))
      (h : Shows (l.below key) (l'.below key) p c) : Shows l l' (.obj prev) (.obj cur)
  | prevItem {l l' : Readings} {prev cur : List Json} {p : Json} (hp : p ∈ prev.drop cur.length)
      (h : Unlike l.prev l'.prev (.arr [p]) (.arr [p])) : Shows l l' (.arr prev) (.arr cur)
  | curItem {l l' : Readings} {prev cur : List Json} {c : Json} (hc : c ∈ cur.drop prev.length)
      (h : Unlike l.cur l'.cur (.arr [c]) (.arr [c])) : Shows l l' (.arr prev) (.arr cur)
  | hiddenItem {l l' : Readings} {prev cur : List Json} {p c : Json} (hmem : (p, c) ∈ prev.zip cur)
      (hM : l.HidesItems ∨ l'.HidesItems) (h : Changes l l' (.arr [p]) (.arr [c])) :
      Shows l l' (.arr prev) (.arr cur)
  | item {l l' : Readings} {prev cur : List Json} {p c : Json} (hmem : (p, c) ∈ prev.zip cur)
      (hM : ¬ (l.HidesItems ∨ l'.HidesItems)) (h : Shows (l.below "*") (l'.below "*") p c) :
      Shows l l' (.arr prev) (.arr cur)

variable {l l' : Readings}

theorem not_changes_iff {p c : Json} : ¬ Changes l l' p c ↔
    (¬ Unlike l.prev l.cur p c ↔ ¬ Unlike l'.prev l'.cur p c) ∧
      (¬ ¬ Unlike l.prev l.cur p c → ¬ Unlike l.prev l'.prev p p ∧ ¬ Unlike l.cur l'.cur c c) := by
  rw [Changes, not_not, not_iff_not, not_not]

/-- What `Shows` leaves out at one key. -/
inductive KeySilent (l l' : Readings) (key : String) : Option Json → Option Json → Prop where
  | missing : KeySilent l l' key none none
  | prev {p : Json} (h : ¬ Unlike l.prev l'.prev (.obj [(key, p)]) (.obj [(key, p)])) :
      KeySilent l l' key (some p) none
  | cur {c : Json} (h : ¬ Unlike l.cur l'.cur (.obj [(key, c)]) (.obj [(key, c)])) :
      KeySilent l l' key none (some c)
  | both {p c : Json}
      (hM : l.Hides key ∨ l'.Hides key → ¬ Changes l l' (.obj [(key, p)]) (.obj [(key, c)]))
      (h : ¬ (l.Hides key ∨ l'.Hides key) → ¬ Shows (l.below key) (l'.below key) p c) :
      KeySilent l l' key (some p) (some c)

theorem not_shows_obj_iff {prev cur : Fields} : ¬ Shows l l' (.obj prev) (.obj cur) ↔
    ∀ key, KeySilent l l' key (prev.lookup key) (cur.lookup key) := by
  constructor
  · intro hnot key
    cases hp : prev.lookup key with
    | none =>
      cases hc : cur.lookup key with
      | none => exact .missing
      | some c => exact .cur fun h => hnot (.curField hp hc h)
    | some p =>
      cases hc : cur.lookup key with
      | none => exact .prev fun h => hnot (.prevField hp hc h)
      | some c =>
        exact .both (fun hM h => hnot (.hiddenField hp hc hM h)) fun hM h => hnot (.field hp hc hM h)
  · intro hall h
    cases h with
    | apart hapart _ => exact hapart (.obj prev cur)
    | @prevField _ _ key _ _ _ hp hc h =>
      have hkey := hall key
      rw [hp, hc] at hkey
      cases hkey with
      | prev hnot => exact hnot h
    | @curField _ _ key _ _ _ hp hc h =>
      have hkey := hall key
      rw [hp, hc] at hkey
      cases hkey with
      | cur hnot => exact hnot h
    | @hiddenField _ _ key _ _ _ _ hp hc hM h =>
      have hkey := hall key
      rw [hp, hc] at hkey
      cases hkey with
      | both hnot _ => exact hnot hM h
    | @field _ _ key _ _ _ _ hp hc hM h =>
      have hkey := hall key
      rw [hp, hc] at hkey
      cases hkey with
      | both _ hnot => exact hnot hM h

theorem not_shows_arr_iff {prev cur : List Json} : ¬ Shows l l' (.arr prev) (.arr cur) ↔
    (∀ pair ∈ prev.zip cur,
      (l.HidesItems ∨ l'.HidesItems → ¬ Changes l l' (.arr [pair.1]) (.arr [pair.2])) ∧
        (¬ (l.HidesItems ∨ l'.HidesItems) → ¬ Shows (l.below "*") (l'.below "*") pair.1 pair.2)) ∧
      (∀ x ∈ prev.drop cur.length, ¬ Unlike l.prev l'.prev (.arr [x]) (.arr [x])) ∧
      ∀ x ∈ cur.drop prev.length, ¬ Unlike l.cur l'.cur (.arr [x]) (.arr [x]) := by
  constructor
  · intro hnot
    exact ⟨fun pair hmem => ⟨fun hM h => hnot (.hiddenItem hmem hM h), fun hM h => hnot (.item hmem hM h)⟩,
      fun x hx h => hnot (.prevItem hx h), fun x hx h => hnot (.curItem hx h)⟩
  · rintro ⟨hpairs, hprev, hcur⟩ h
    cases h with
    | apart hapart _ => exact hapart (.arr prev cur)
    | prevItem hp h => exact hprev _ hp h
    | curItem hc h => exact hcur _ hc h
    | hiddenItem hmem hM h => exact (hpairs _ hmem).1 hM h
    | item hmem hM h => exact (hpairs _ hmem).2 hM h

/-! ### One field, one item -/

theorem single_obj {key : String} {x : Json} (hx : x.Distinct) : Json.Distinct (.obj [(key, x)]) := by
  refine .obj (List.nodup_singleton key) fun field hmem => ?_
  rw [List.mem_singleton.mp hmem]
  exact hx

theorem single_arr {x : Json} (hx : x.Distinct) : Json.Distinct (.arr [x]) := by
  refine .arr fun y hmem => ?_
  rw [List.mem_singleton.mp hmem]
  exact hx

theorem under_equal_iff {r r' : Reading} {key : String} {p c : Json} (hp : p.Distinct) (hc : c.Distinct) :
    Json.Equal goScalarEqual (r.under key p) (r'.under key c) ↔
      ¬ Unlike r r' (.obj [(key, p)]) (.obj [(key, c)]) := by
  rw [← value_equal_iff (single_obj hp) (single_obj hc), value_obj, value_obj, Reading.fields,
    Reading.fields, canonicalizeEventAsMap_eq, canonicalizeEventAsMap_eq]
  simp [Json.Equal, Json.equal, equalFields, Reading.under]

theorem item_equal_iff {r r' : Reading} {p c : Json} (hp : p.Distinct) (hc : c.Distinct) :
    Json.Equal goScalarEqual (r.item p) (r'.item c) ↔ ¬ Unlike r r' (.arr [p]) (.arr [c]) := by
  rw [← value_equal_iff (single_arr hp) (single_arr hc), value_arr, value_arr]
  simp [Json.Equal, Json.equal, equalItems]

/-- A masked value is not compared inside. -/
theorem hides_apart {key : String} (h : l.Hides key) (p c : Json) :
    ¬ Together (l.prev.under key p) (l.cur.under key c) := by
  obtain hprev | hcur := h
  · rw [under_of_hides hprev]
    exact not_together_of_scalar (.inl trivial)
  · rw [under_of_hides hcur]
    exact not_together_of_scalar (.inr trivial)

theorem hidesItems_apart (h : l.HidesItems) (p c : Json) :
    ¬ Together (l.prev.item p) (l.cur.item c) := by
  obtain hprev | hcur := h
  · rw [item_of_hides hprev]
    exact not_together_of_scalar (.inl trivial)
  · rw [item_of_hides hcur]
    exact not_together_of_scalar (.inr trivial)

/-- What the readings say of a pair of values. -/
def ReadSame (l l' : Readings) (p c : Json) : Prop :=
  SameDiffs go go (l.prev.value p) (l.cur.value c) (l'.prev.value p) (l'.cur.value c)

theorem under_same_iff {key : String} {p c : Json} (hp : p.Distinct) (hc : c.Distinct)
    (ih : ReadSame (l.below key) (l'.below key) p c ↔ ¬ Shows (l.below key) (l'.below key) p c) :
    SameDiffs go go (l.prev.under key p) (l.cur.under key c) (l'.prev.under key p) (l'.cur.under key c) ↔
      (l.Hides key ∨ l'.Hides key → ¬ Changes l l' (.obj [(key, p)]) (.obj [(key, c)])) ∧
        (¬ (l.Hides key ∨ l'.Hides key) → ¬ Shows (l.below key) (l'.below key) p c) := by
  by_cases hM : l.Hides key ∨ l'.Hides key
  · rw [sameDiffs_apart_iff (under_distinct _ key hp) (under_distinct _ key hc) (under_distinct _ key hp)
        (under_distinct _ key hc) (hM.imp (fun h => hides_apart h p c) fun h => hides_apart h p c),
      SameWholes, under_equal_iff hp hc, under_equal_iff hp hc, under_equal_iff hp hp,
      under_equal_iff hc hc, ← not_changes_iff]
    exact ⟨fun h => ⟨fun _ => h, fun hM' => absurd hM hM'⟩, fun h => h.1 hM⟩
  · have hprev : ∀ {l : Readings}, ¬ l.Hides key → l.prev.under key p = (l.below key).prev.value p :=
      fun h => under_of_not_hides (not_or.mp h).1 p
    have hcur : ∀ {l : Readings}, ¬ l.Hides key → l.cur.under key c = (l.below key).cur.value c :=
      fun h => under_of_not_hides (not_or.mp h).2 c
    obtain ⟨hleft, hright⟩ := not_or.mp hM
    rw [hprev hleft, hcur hleft, hprev hright, hcur hright, ← ih, ReadSame]
    exact ⟨fun h => ⟨fun hM' => absurd hM' hM, fun _ => h⟩, fun h => h.2 hM⟩

theorem item_same_iff {p c : Json} (hp : p.Distinct) (hc : c.Distinct)
    (ih : ReadSame (l.below "*") (l'.below "*") p c ↔ ¬ Shows (l.below "*") (l'.below "*") p c) :
    SameDiffs go go (l.prev.item p) (l.cur.item c) (l'.prev.item p) (l'.cur.item c) ↔
      (l.HidesItems ∨ l'.HidesItems → ¬ Changes l l' (.arr [p]) (.arr [c])) ∧
        (¬ (l.HidesItems ∨ l'.HidesItems) → ¬ Shows (l.below "*") (l'.below "*") p c) := by
  by_cases hM : l.HidesItems ∨ l'.HidesItems
  · rw [sameDiffs_apart_iff (item_distinct _ hp) (item_distinct _ hc) (item_distinct _ hp)
        (item_distinct _ hc) (hM.imp (fun h => hidesItems_apart h p c) fun h => hidesItems_apart h p c),
      SameWholes, item_equal_iff hp hc, item_equal_iff hp hc, item_equal_iff hp hp,
      item_equal_iff hc hc, ← not_changes_iff]
    exact ⟨fun h => ⟨fun _ => h, fun hM' => absurd hM hM'⟩, fun h => h.1 hM⟩
  · have hprev : ∀ {l : Readings}, ¬ l.HidesItems → l.prev.item p = (l.below "*").prev.value p :=
      fun h => item_of_not_hides (not_or.mp h).1 p
    have hcur : ∀ {l : Readings}, ¬ l.HidesItems → l.cur.item c = (l.below "*").cur.value c :=
      fun h => item_of_not_hides (not_or.mp h).2 c
    obtain ⟨hleft, hright⟩ := not_or.mp hM
    rw [hprev hleft, hcur hleft, hprev hright, hcur hright, ← ih, ReadSame]
    exact ⟨fun h => ⟨fun hM' => absurd hM' hM, fun _ => h⟩, fun h => h.2 hM⟩

/-! ### Two states -/

/-- What stands under one key of the two states. -/
theorem keySilent_iff {key : String} {o o' : Option Json} (hp : ∀ p, o = some p → p.Distinct)
    (hc : ∀ c, o' = some c → c.Distinct)
    (ih : ∀ p c, o = some p → o' = some c →
      (ReadSame (l.below key) (l'.below key) p c ↔ ¬ Shows (l.below key) (l'.below key) p c)) :
    SameKey go go (o.map (l.prev.under key)) (o'.map (l.cur.under key)) (o.map (l'.prev.under key))
      (o'.map (l'.cur.under key)) ↔ KeySilent l l' key o o' := by
  cases o with
  | none =>
    cases o' with
    | none => exact iff_of_true .missing .missing
    | some c =>
      have hread := @under_equal_iff l.cur l'.cur key c c (hc c rfl) (hc c rfl)
      rw [Option.map_none, Option.map_none, Option.map_some, Option.map_some, sameKey_cur_iff, hread]
      refine ⟨.cur, fun h => ?_⟩
      cases h with
      | cur h => exact h
  | some p =>
    cases o' with
    | none =>
      have hread := @under_equal_iff l.prev l'.prev key p p (hp p rfl) (hp p rfl)
      rw [Option.map_none, Option.map_none, Option.map_some, Option.map_some, sameKey_prev_iff, hread]
      refine ⟨.prev, fun h => ?_⟩
      cases h with
      | prev h => exact h
    | some c =>
      rw [Option.map_some, Option.map_some, Option.map_some, Option.map_some, sameKey_both_iff,
        under_same_iff (hp p rfl) (hc c rfl) (ih p c rfl rfl)]
      refine ⟨fun h => .both h.1 h.2, fun h => ?_⟩
      cases h with
      | both hM h => exact ⟨hM, h⟩

theorem readSame_apart_iff {p c : Json} (hp : p.Distinct) (hc : c.Distinct) (hapart : ¬ Together p c) :
    ReadSame l l' p c ↔ ¬ Shows l l' p c := by
  have hshows : Shows l l' p c ↔ Changes l l' p c := by
    refine ⟨fun h => ?_, .apart hapart⟩
    cases h with
    | apart _ h => exact h
    | prevField | curField | hiddenField | field => exact absurd (.obj _ _) hapart
    | prevItem | curItem | hiddenItem | item => exact absurd (.arr _ _) hapart
  rw [hshows, ReadSame, sameDiffs_apart_iff (value_distinct _ hp) (value_distinct _ hc)
      (value_distinct _ hp) (value_distinct _ hc) (.inl (together_value_iff.not.mpr hapart)),
    SameWholes, value_equal_iff hp hc, value_equal_iff hp hc, value_equal_iff hp hp,
    value_equal_iff hc hc, not_changes_iff]

/-- **The differences of two states that are read twice** are the same exactly when nothing shows. -/
theorem readSame_iff {p c : Json} (hp : p.Distinct) (hc : c.Distinct) :
    ReadSame l l' p c ↔ ¬ Shows l l' p c := by
  induction p, c using together_induct generalizing l l' with
  | apart p c hapart => exact readSame_apart_iff hp hc hapart
  | arr prev cur ih =>
    rw [ReadSame, value_arr, value_arr, value_arr, value_arr,
      sameDiffs_arr_iff go_lawful go_lawful (by simp) (by simp),
      diffItems_map_same (fun x hx => ⟨item_distinct _ (hp.items x hx), item_distinct _ (hp.items x hx)⟩)
        (fun x hx => ⟨item_distinct _ (hc.items x hx), item_distinct _ (hc.items x hx)⟩),
      not_shows_arr_iff]
    refine and_congr (forall₂_congr fun pair hmem => ?_) (and_congr ?_ ?_)
    · obtain ⟨hpmem, hcmem⟩ := List.of_mem_zip hmem
      have hpx := hp.items _ hpmem
      have hcx := hc.items _ hcmem
      exact item_same_iff hpx hcx (ih _ hpmem _ hcmem hpx hcx)
    · refine forall₂_congr fun x hx => ?_
      have hx' := hp.items x (List.mem_of_mem_drop hx)
      exact item_equal_iff hx' hx'
    · refine forall₂_congr fun x hx => ?_
      have hx' := hc.items x (List.mem_of_mem_drop hx)
      exact item_equal_iff hx' hx'
  | obj prev cur ih =>
    have hkeys : ∀ {r : Reading} {event : Fields} (key : String),
        ((r.fields event).lookup key).isSome = (event.lookup key).isSome := by
      intro r event key
      rw [fields_lookup, Option.isSome_map]
    rw [ReadSame, value_obj, value_obj, value_obj, value_obj,
      sameDiffs_obj_iff (fields_distinct _ hp) (fields_distinct _ hc) (fields_distinct _ hp)
        (fields_distinct _ hc) (fun key => (hkeys key).trans (hkeys key).symm)
        (fun key => (hkeys key).trans (hkeys key).symm),
      not_shows_obj_iff]
    refine forall_congr' fun key => ?_
    rw [fields_lookup, fields_lookup, fields_lookup, fields_lookup]
    exact keySilent_iff (fun p hlp => lookup_distinct hp hlp) (fun c hlc => lookup_distinct hc hlc)
      fun p c hlp hlc => ih key p c hlp hlc (lookup_distinct hp hlp) (lookup_distinct hc hlc)

end Sieve.Event
