import Sieve.Oracle.MaskPaths
import Sieve.Server.APIDiffs

/-!
# Keys without slashes

Where no key has a slash, the paths of a state in the two forms are the same keys in two spellings, and a
masked path is converted part by part.

* `value_congr`: two readings that agree on what they mask give the same canonical values;
* `goJoin_segments`: how paths grow;
* `mem_apiPaths_joined`: which paths a converted mask holds;
* `apiForm_commutes_of_plain`: converting and comparing commute.
-/

namespace Sieve.Server

open Sieve.Event

/-! ### Readings that agree -/

section Congr

variable {P : String → Prop} {C : Reading → Reading → Prop}

/-- Readings that agree on every key of a kind and on items, here and below. -/
theorem value_congr (hmasked : ∀ r r', C r r' → r.d.atEnd = r'.d.atEnd)
    (hfield : ∀ r r', C r r' → ∀ key, P key → (r.Hides key ↔ r'.Hides key) ∧ C (r.below key) (r'.below key))
    (hitem : ∀ r r', C r r' → (r.HidesItems ↔ r'.HidesItems) ∧ C (r.below "*") (r'.below "*"))
    {r r' : Reading} (h : C r r') {x : Json} (hx : x.AllKeys P) : r.value x = r'.value x := by
  induction x using Json.induct generalizing r r' with
  | scalar x hscalar =>
    have hisMasked : ∀ s, r.d.isMasked s = r'.d.isMasked s := by
      intro s
      rw [Dialect.isMasked, Dialect.isMasked, hmasked r r' h]
    have hbecomes : BecomesMask r.d x ↔ BecomesMask r'.d x := by
      simp only [BecomesMask, hisMasked]
    obtain ⟨hm, heq⟩ | ⟨hm, heq⟩ := value_of_scalar r hscalar
    · obtain ⟨-, heq'⟩ | ⟨hm', -⟩ := value_of_scalar r' hscalar
      · rw [heq, heq']
      · exact absurd (hbecomes.mp hm) hm'
    · obtain ⟨hm', -⟩ | ⟨-, heq'⟩ := value_of_scalar r' hscalar
      · exact absurd (hbecomes.mpr hm') hm
      · rw [heq, heq']
  | arr items ih =>
    obtain ⟨hhides, hbelow⟩ := hitem r r' h
    rw [value_arr, value_arr]
    congr 1
    refine List.map_congr_left fun x hmem => ?_
    by_cases hmask : r.HidesItems
    · rw [item_of_hides hmask, item_of_hides (hhides.mp hmask)]
    · rw [item_of_not_hides hmask, item_of_not_hides (hhides.not.mp hmask)]
      exact ih x hmem hbelow (hx.items x hmem)
  | obj fields ih =>
    rw [value_obj, value_obj, Reading.fields, Reading.fields, canonicalizeEventAsMap_eq,
      canonicalizeEventAsMap_eq]
    congr 1
    refine List.map_congr_left fun field hmem => ?_
    obtain ⟨hhides, hbelow⟩ := hfield r r' h field.1 (hx.keys field hmem)
    have hunder : r.under field.1 field.2 = r'.under field.1 field.2 := by
      by_cases hmask : r.Hides field.1
      · rw [under_of_hides hmask, under_of_hides (hhides.mp hmask)]
      · rw [under_of_not_hides hmask, under_of_not_hides (hhides.not.mp hmask)]
        exact ih field hmem hbelow (hx.values field hmem)
    exact congrArg (field.1, ·) hunder

end Congr

/-! ### Paths of segments -/

/-- The path through some segments. -/
def joinedPath (segments : List String) : String :=
  String.ofList (['/'].intercalate (segments.map String.toList))

theorem joinedPath_ne_empty {segments : List String} (hne : segments ≠ [])
    (h : ∀ segment ∈ segments, IsSegment segment.toList) : joinedPath segments ≠ "" := by
  obtain ⟨first, rest, rfl⟩ := List.exists_cons_of_ne_nil hne
  intro hempty
  have hlist := congrArg String.toList hempty
  rw [joinedPath, String.toList_ofList, List.map_cons] at hlist
  have hfirst := (h first (by simp)).1
  cases rest with
  | nil => exact hfirst (by simpa using hlist)
  | cons second rest => simp [List.intercalate_cons_cons, hfirst] at hlist

theorem joinedPath_concat {segments : List String} (hne : segments ≠ []) (key : String) :
    (joinedPath (segments ++ [key])).toList = (joinedPath segments).toList ++ '/' :: key.toList := by
  obtain ⟨first, rest, rfl⟩ := List.exists_cons_of_ne_nil hne
  clear hne
  rw [joinedPath, joinedPath, String.toList_ofList, String.toList_ofList]
  induction rest generalizing first with
  | nil => simp [List.intercalate_cons_cons]
  | cons second rest ih =>
    have hrest := ih second
    simp only [List.cons_append, List.map_cons] at hrest ⊢
    rw [List.intercalate_cons_cons, hrest, List.intercalate_cons_cons]
    simp only [List.append_assoc]

/-- **Segments are joined as they are.** -/
theorem goJoin_segments {segments : List String} {key : String}
    (h : ∀ segment ∈ segments, IsSegment segment.toList) (hkey : IsSegment key.toList) :
    goJoin (joinedPath segments) key = joinedPath (segments ++ [key]) := by
  cases segments with
  | nil =>
    have hsingle : String.ofList (['/'].intercalate [key.toList]) = key := by simp
    have hclean := @goClean_intercalate key.toList [] hkey (by simp)
    have hne : (key == "") = false := by
      rw [beq_eq_false_iff_ne]
      rintro rfl
      exact hkey.1 rfl
    rw [List.filter_nil, hsingle] at hclean
    rw [goJoin]
    simp [joinedPath, hne, hclean]
  | cons first rest =>
    have hne := joinedPath_ne_empty (List.cons_ne_nil first rest) h
    have hpath : joinedPath (first :: rest) ++ "/" ++ key =
        String.ofList (['/'].intercalate (first.toList :: (rest ++ [key]).map String.toList)) := by
      rw [← String.toList_inj, String.toList_append, String.toList_append, String.toList_ofList]
      have hconcat := joinedPath_concat (List.cons_ne_nil first rest) key
      rw [joinedPath, String.toList_ofList, List.cons_append, List.map_cons] at hconcat
      rw [hconcat]
      simp
    have hrest : ∀ segment ∈ (rest ++ [key]).map String.toList, segment = [] ∨ IsSegment segment := by
      intro segment hmem
      obtain ⟨text, htext, rfl⟩ := List.mem_map.mp hmem
      obtain hmem' | hmem' := List.mem_append.mp htext
      · exact .inr (h text (List.mem_cons_of_mem first hmem'))
      · rw [List.mem_singleton.mp hmem']
        exact .inr hkey
    have hfilter : ((rest ++ [key]).map String.toList).filter (fun segment => segment ≠ []) =
        (rest ++ [key]).map String.toList := by
      rw [List.filter_eq_self]
      intro segment hmem
      obtain ⟨text, htext, rfl⟩ := List.mem_map.mp hmem
      obtain hmem' | hmem' := List.mem_append.mp htext
      · simpa using (h text (List.mem_cons_of_mem first hmem')).1
      · rw [List.mem_singleton.mp hmem']
        simpa using hkey.1
    rw [goJoin, beq_eq_false_iff_ne.mpr hne]
    simp only [Bool.false_eq_true, if_false]
    rw [hpath, goClean_intercalate (h first (by simp)) hrest, hfilter]
    rfl

theorem goJoin_first {key : String} (hkey : IsSegment key.toList) : goJoin "" key = joinedPath [key] := by
  have hempty : joinedPath [] = "" := by decide
  have hjoin := @goJoin_segments [] key (by simp) hkey
  rwa [hempty] at hjoin

theorem splitSlash_joinedPath {segments : List String} (hne : segments ≠ [])
    (h : ∀ segment ∈ segments, '/' ∉ segment.toList) :
    splitSlash (joinedPath segments).toList = segments.map String.toList := by
  rw [joinedPath, String.toList_ofList, splitSlash_eq]
  exact List.splitOn_intercalate _ (List.forall_mem_map.mpr h) (by simpa using hne)

theorem joinedPath_injective {segments segments' : List String} (hne : segments ≠ []) (hne' : segments' ≠ [])
    (h : ∀ segment ∈ segments, '/' ∉ segment.toList) (h' : ∀ segment ∈ segments', '/' ∉ segment.toList)
    (heq : joinedPath segments = joinedPath segments') : segments = segments' := by
  have hsplit := splitSlash_joinedPath hne h
  rw [heq, splitSlash_joinedPath hne' h'] at hsplit
  exact (List.map_injective_iff.mpr fun _ _ => String.toList_inj.mp) hsplit.symm

/-! ### Plain keys -/

/-- A key that begins with a lower-case letter and has no slash. -/
def IsPlainKey (key : String) : Prop := IsLowerKey key ∧ '/' ∉ key.toList

/-- A part of a masked path. -/
def IsPlainPart (part : String) : Prop := part = "*" ∨ IsPlainKey part

/-- A masked path through plain keys. -/
def IsPlainPath (path : String) : Prop :=
  ∃ parts, parts ≠ [] ∧ (∀ part ∈ parts, IsPlainPart part) ∧ path = joinedPath parts

theorem lower_isSegment {key : String} (h : IsPlainKey key) : IsSegment key.toList := by
  obtain ⟨⟨c, rest, hkey, hlower⟩, hslash⟩ := h
  refine ⟨?_, hslash, ?_, ?_⟩
  · rw [hkey]
    exact List.cons_ne_nil c rest
  · intro heq
    rw [heq] at hkey
    rw [← (List.cons.inj hkey).1] at hlower
    cases hlower
  · intro heq
    rw [heq] at hkey
    rw [← (List.cons.inj hkey).1] at hlower
    cases hlower

theorem capital_isSegment {key : String} (h : IsPlainKey key) : IsSegment (swapFirst key).toList := by
  obtain ⟨⟨c, rest, hkey, hlower⟩, hslash⟩ := h
  have halpha : c.toUpper.isAlpha = true := by simp [Char.isAlpha, hlower]
  have hcapital : (swapFirst key).toList = c.toUpper :: rest := by
    rw [swapFirst_toList, hkey, List.modifyHead_cons, swapCase, if_pos hlower]
  have hne : ∀ d : Char, d.isAlpha = false → c.toUpper ≠ d := by
    intro d hd heq
    rw [heq, hd] at halpha
    cases halpha
  rw [hkey, List.mem_cons, not_or] at hslash
  rw [hcapital]
  refine ⟨List.cons_ne_nil _ _, ?_, ?_, ?_⟩
  · rw [List.mem_cons, not_or]
    exact ⟨Ne.symm (hne '/' (by decide)), hslash.2⟩
  · exact fun heq => hne '.' (by decide) (List.cons.inj heq).1
  · exact fun heq => hne '.' (by decide) (List.cons.inj heq).1

theorem star_not_lower : ¬ IsLowerKey "*" := by decide

theorem swapFirst_star : swapFirst "*" = "*" := by decide

theorem part_isSegment {part : String} (h : IsPlainPart part) :
    IsSegment part.toList ∧ IsSegment (swapFirst part).toList := by
  obtain rfl | h := h
  · exact ⟨by decide, by decide⟩
  · exact ⟨lower_isSegment h, capital_isSegment h⟩

theorem capitalizeFirst_part {part : String} (h : IsPlainPart part) :
    capitalizeFirst part.toList = some (goText (swapFirst part).toList) := by
  obtain rfl | ⟨⟨c, rest, hkey, hlower⟩, -⟩ := h
  · decide
  · rw [swapFirst_toList, hkey, capitalizeFirst, if_pos (isLower_ascii hlower), List.modifyHead_cons, swapCase,
      if_pos hlower]

/-! ### Converted paths -/

/-- What becomes of the parts of a masked path. -/
def convertParts : List String → List String
  | "metadata" :: second :: rest => second :: rest
  | parts => parts.map swapFirst

/-- **A masked path is converted part by part.** -/
theorem convertMaskedPath_joined {parts : List String} (hne : parts ≠ [])
    (h : ∀ part ∈ parts, IsPlainPart part) :
    convertMaskedPath (joinedPath parts).toList = some (goText (joinedPath (convertParts parts)).toList) := by
  have hslash : ∀ part ∈ parts, '/' ∉ part.toList := fun part hmem => (part_isSegment (h part hmem)).1.2.1
  have hsplit := splitSlash_joinedPath hne hslash
  have hstart := @prefix_slash_iff "metadata".toList (joinedPath parts).toList (by decide)
  rw [hsplit] at hstart
  rw [convertMaskedPath]
  split
  · rename_i hmetadata
    rw [List.isPrefixOf_iff_prefix] at hmetadata
    obtain ⟨second, rest, heq⟩ := hstart.mp hmetadata
    obtain ⟨first, parts, rfl⟩ := List.exists_cons_of_ne_nil hne
    obtain ⟨hfirst, hrest⟩ := List.cons.inj heq
    obtain ⟨second', rest', rfl⟩ : ∃ second' rest', parts = second' :: rest' := by
      cases parts with
      | nil => cases hrest
      | cons second' rest' => exact ⟨second', rest', rfl⟩
    obtain rfl := String.toList_inj.mp hfirst
    rw [convertParts, joinedPath, joinedPath, String.toList_ofList, String.toList_ofList]
    congr 2
  · rename_i hmetadata
    rw [List.isPrefixOf_iff_prefix] at hmetadata
    have hparts : convertParts parts = parts.map swapFirst := by
      unfold convertParts
      split
      · exact absurd (hstart.mpr ⟨_, _, rfl⟩) hmetadata
      · rfl
    have hcapital : (parts.map String.toList).mapM capitalizeFirst =
        some (parts.map fun part => goText (swapFirst part).toList) := by
      rw [Oracle.mapM_eq_some_iff, List.forall₂_map_left_iff, List.forall₂_map_right_iff, List.forall₂_same]
      exact fun part hmem => capitalizeFirst_part (h part hmem)
    rw [hsplit, hcapital, Option.map_some, hparts, joinedPath, String.toList_ofList, Oracle.goText_intercalate,
      List.map_map, List.map_map]
    rfl

theorem convertParts_ne_nil {parts : List String} (hne : parts ≠ []) : convertParts parts ≠ [] := by
  unfold convertParts
  split
  · exact List.cons_ne_nil _ _
  · simpa using hne

theorem convertParts_isSegment {parts : List String} (h : ∀ part ∈ parts, IsPlainPart part) :
    ∀ part ∈ convertParts parts, IsSegment part.toList := by
  unfold convertParts
  split
  · exact fun part hmem => (part_isSegment (h part (List.mem_cons_of_mem _ hmem))).1
  · intro part hmem
    obtain ⟨part', hmem', rfl⟩ := List.mem_map.mp hmem
    exact (part_isSegment (h part' hmem')).2

/-- The paths of a converted mask are the converted paths. -/
theorem mem_apiPaths_joined {fieldPathMask : Finset String} (hmask : ∀ path ∈ fieldPathMask, IsPlainPath path)
    {segments : List String} (hne : segments ≠ []) (h : ∀ segment ∈ segments, '/' ∉ segment.toList) :
    joinedPath segments ∈ apiPaths fieldPathMask ↔ ∃ parts, parts ≠ [] ∧
      (∀ part ∈ parts, IsPlainPart part) ∧ joinedPath parts ∈ fieldPathMask ∧ convertParts parts = segments := by
  rw [apiPaths, Finset.mem_eraseNone, Finset.mem_image]
  constructor
  · rintro ⟨path, hmem, hpath⟩
    obtain ⟨parts, hpne, hparts, rfl⟩ := hmask path hmem
    rw [convertMaskedPath_joined hpne hparts, Option.bind_some, textOf_goText, Option.map_some,
      String.ofList_toList, Option.some.injEq] at hpath
    exact ⟨parts, hpne, hparts, hmem, joinedPath_injective (convertParts_ne_nil hpne) hne
      (fun part hmem => (convertParts_isSegment hparts part hmem).2.1) h hpath⟩
  · rintro ⟨parts, hpne, hparts, hmem, rfl⟩
    exact ⟨_, hmem, by rw [convertMaskedPath_joined hpne hparts, Option.bind_some, textOf_goText,
      Option.map_some, String.ofList_toList]⟩

/-! ### The two forms agree -/

section Agree

variable {f : String → String} {A B : List String → List String} {S : List String → Prop}
  {fieldKeyMask M M' : Finset String}

/-- Two spellings of the same parts, masked alike at all of them. -/
structure Spellings (f : String → String) (A B : List String → List String) (S : List String → Prop)
    (M M' : Finset String) : Prop where
  star : f "*" = "*"
  segment : ∀ part, IsPlainPart part → IsSegment (f part).toList
  grow : ∀ parts part, S parts → IsPlainPart part →
    S (parts ++ [part]) ∧ A (parts ++ [part]) = A parts ++ [f part] ∧ B (parts ++ [part]) = B parts ++ [part]
  segments : ∀ parts, S parts →
    (∀ part ∈ A parts, IsSegment part.toList) ∧ ∀ part ∈ B parts, IsSegment part.toList
  masked : ∀ parts, S parts → (joinedPath (A parts) ∈ M' ↔ joinedPath (B parts) ∈ M)

/-- The readings at the same parts. -/
def AtParts (f : String → String) (A B : List String → List String) (S : List String → Prop)
    (fieldKeyMask M M' : Finset String) (r r' : Reading) : Prop :=
  ∃ parts, S parts ∧ r = ⟨go.renamed f, ⟨fieldKeyMask, M'⟩, joinedPath (A parts)⟩ ∧
    r' = ⟨go, ⟨fieldKeyMask, M⟩, joinedPath (B parts)⟩

theorem AtParts.below (h : Spellings f A B S M M') {r r' : Reading}
    (hr : AtParts f A B S fieldKeyMask M M' r r') {part : String} (hpart : IsPlainPart part) :
    (r.d.joinPath r.path part ∈ M' ↔ r'.d.joinPath r'.path part ∈ M) ∧
      AtParts f A B S fieldKeyMask M M' (r.below part) (r'.below part) := by
  obtain ⟨parts, hparts, rfl, rfl⟩ := hr
  obtain ⟨hgrow, hA, hB⟩ := h.grow parts part hparts hpart
  obtain ⟨hsegA, hsegB⟩ := h.segments parts hparts
  have hleft : goJoin (joinedPath (A parts)) (f part) = joinedPath (A (parts ++ [part])) := by
    rw [goJoin_segments hsegA (h.segment part hpart), hA]
  have hright : goJoin (joinedPath (B parts)) part = joinedPath (B (parts ++ [part])) := by
    rw [goJoin_segments hsegB (part_isSegment hpart).1, hB]
  refine ⟨?_, parts ++ [part], hgrow, ?_, ?_⟩
  · show goJoin (joinedPath (A parts)) (f part) ∈ M' ↔ goJoin (joinedPath (B parts)) part ∈ M
    rw [hleft, hright]
    exact h.masked _ hgrow
  · show Reading.mk (go.renamed f) ⟨fieldKeyMask, M'⟩ (goJoin (joinedPath (A parts)) (f part)) = _
    rw [hleft]
  · show Reading.mk go ⟨fieldKeyMask, M⟩ (goJoin (joinedPath (B parts)) part) = _
    rw [hright]

/-- **Readings at the same parts** give the same canonical values. -/
theorem Spellings.value_eq (h : Spellings f A B S M M') {r r' : Reading}
    (hr : AtParts f A B S fieldKeyMask M M' r r') {x : Json} (hx : x.AllKeys IsPlainKey) :
    r.value x = r'.value x := by
  have hmasks : ∀ r r', AtParts f A B S fieldKeyMask M M' r r' →
      r.masks = ⟨fieldKeyMask, M'⟩ ∧ r'.masks = ⟨fieldKeyMask, M⟩ := by
    rintro r r' ⟨parts, -, rfl, rfl⟩
    exact ⟨rfl, rfl⟩
  refine value_congr ?_ (fun r r' hr key hkey => ?_) (fun r r' hr => ?_) hr hx
  · rintro r r' ⟨parts, -, rfl, rfl⟩
    rfl
  · obtain ⟨hmasked, hbelow⟩ := hr.below h (.inr hkey)
    obtain ⟨hm, hm'⟩ := hmasks r r' hr
    refine ⟨?_, hbelow⟩
    rw [Reading.Hides, Reading.Hides, MaskedAt, MaskedAt, hm, hm']
    exact or_congr Iff.rfl hmasked
  · obtain ⟨hmasked, hbelow⟩ := hr.below h (.inl rfl)
    obtain ⟨hm, hm'⟩ := hmasks r r' hr
    refine ⟨?_, hbelow⟩
    rw [Reading.HidesItems, Reading.HidesItems, ItemsMasked, ItemsMasked, hm, hm']
    exact hmasked

end Agree

/-- The parts outside `metadata`. -/
def OutsideParts (parts : List String) : Prop :=
  ∃ key rest, parts = key :: rest ∧ IsPlainKey key ∧ key ≠ "metadata" ∧ ∀ part ∈ rest, IsPlainPart part

/-- The parts inside `metadata`. -/
def InsideParts (parts : List String) : Prop :=
  ∃ key rest, parts = key :: rest ∧ IsPlainKey key ∧ ∀ part ∈ rest, IsPlainPart part

theorem part_not_capital {key part : String} (hkey : IsPlainKey key) (hpart : IsPlainPart part) :
    part ≠ swapFirst key := by
  rintro rfl
  obtain hstar | hlower := hpart
  · rw [← swapFirst_star] at hstar
    rw [swapFirst_injective hstar] at hkey
    exact star_not_lower hkey.1
  · exact swapFirst_not_lower hkey.1 hlower.1

theorem outside_spellings {M : Finset String} (hmask : ∀ path ∈ M, IsPlainPath path) :
    Spellings swapFirst (List.map swapFirst) id OutsideParts M (apiPaths M) where
  star := swapFirst_star
  segment part hpart := (part_isSegment hpart).2
  grow := by
    rintro parts part ⟨key, rest, rfl, hkey, hne, hrest⟩ hpart
    refine ⟨⟨key, rest ++ [part], rfl, hkey, hne, ?_⟩, by simp, rfl⟩
    exact List.forall_mem_append.mpr ⟨hrest, by simpa using hpart⟩
  segments := by
    rintro parts ⟨key, rest, rfl, hkey, -, hrest⟩
    have hall : ∀ part ∈ key :: rest, IsPlainPart part := List.forall_mem_cons.mpr ⟨.inr hkey, hrest⟩
    refine ⟨fun part hmem => ?_, fun part hmem => (part_isSegment (hall part hmem)).1⟩
    obtain ⟨part', hmem', rfl⟩ := List.mem_map.mp hmem
    exact (part_isSegment (hall part' hmem')).2
  masked := by
    rintro parts ⟨key, rest, rfl, hkey, hne, hrest⟩
    have hall : ∀ part ∈ key :: rest, IsPlainPart part := List.forall_mem_cons.mpr ⟨.inr hkey, hrest⟩
    rw [mem_apiPaths_joined hmask (by simp) fun segment hmem => by
      obtain ⟨part, hmem', rfl⟩ := List.mem_map.mp hmem
      exact (part_isSegment (hall part hmem')).2.2.1]
    constructor
    · rintro ⟨parts, -, hparts, hmem, hconvert⟩
      unfold convertParts at hconvert
      split at hconvert
      · rename_i second rest'
        refine absurd (List.cons.inj hconvert).1 (part_not_capital hkey (hparts second ?_))
        exact List.mem_cons_of_mem _ List.mem_cons_self
      · rwa [List.map_injective_iff.mpr swapFirst_injective hconvert] at hmem
    · intro hmem
      refine ⟨key :: rest, List.cons_ne_nil key rest, hall, hmem, ?_⟩
      unfold convertParts
      split
      · rename_i heq
        exact absurd (List.cons.inj heq).1 hne
      · rfl

theorem inside_spellings {M : Finset String} (hmask : ∀ path ∈ M, IsPlainPath path) :
    Spellings id id ("metadata" :: ·) InsideParts M (apiPaths M) where
  star := rfl
  segment part hpart := (part_isSegment hpart).1
  grow := by
    rintro parts part ⟨key, rest, rfl, hkey, hrest⟩ hpart
    refine ⟨⟨key, rest ++ [part], rfl, hkey, ?_⟩, rfl, rfl⟩
    exact List.forall_mem_append.mpr ⟨hrest, by simpa using hpart⟩
  segments := by
    rintro parts ⟨key, rest, rfl, hkey, hrest⟩
    have hall : ∀ part ∈ key :: rest, IsSegment part.toList := fun part hmem =>
      (part_isSegment (List.forall_mem_cons.mpr ⟨.inr hkey, hrest⟩ part hmem)).1
    exact ⟨hall, List.forall_mem_cons.mpr ⟨by decide, hall⟩⟩
  masked := by
    rintro parts ⟨key, rest, rfl, hkey, hrest⟩
    have hall : ∀ part ∈ key :: rest, IsPlainPart part := List.forall_mem_cons.mpr ⟨.inr hkey, hrest⟩
    have hmetadata : IsPlainPart "metadata" := .inr ⟨by decide, by decide⟩
    rw [id, mem_apiPaths_joined hmask (List.cons_ne_nil key rest) fun segment hmem =>
      (part_isSegment (hall segment hmem)).1.2.1]
    constructor
    · rintro ⟨parts, hne, hparts, hmem, hconvert⟩
      unfold convertParts at hconvert
      split at hconvert
      · rwa [hconvert] at hmem
      · obtain ⟨first, parts, rfl⟩ := List.exists_cons_of_ne_nil hne
        rw [List.map_cons] at hconvert
        have hfirst : first = swapFirst key := by
          rw [← (List.cons.inj hconvert).1, swapFirst_swapFirst]
        exact absurd hfirst (part_not_capital hkey (hparts first (by simp)))
    · intro hmem
      exact ⟨"metadata" :: key :: rest, List.cons_ne_nil _ _, List.forall_mem_cons.mpr ⟨hmetadata, hall⟩, hmem,
        rfl⟩

/-! ### Converting and comparing -/

theorem sameDiffs_self {x y : Json} (hx : x.Distinct) (hy : y.Distinct) : SameDiffs go go x y x y := by
  rw [SameDiffs]
  cases hdiff : diffValue go x y with
  | none => exact .none
  | some sides =>
    obtain ⟨hfst, hsnd⟩ := diffValue_distinct hx hy hdiff
    exact .some ⟨.refl go_lawful hfst, .refl go_lawful hsnd⟩

/-- Fields that are read the same one by one. -/
theorem value_eq_of_under {r r' : Reading} {event : Fields}
    (h : ∀ field ∈ event, r.under field.1 field.2 = r'.under field.1 field.2) :
    r.value (.obj event) = r'.value (.obj event) := by
  rw [value_obj, value_obj, Reading.fields, Reading.fields, canonicalizeEventAsMap_eq,
    canonicalizeEventAsMap_eq]
  congr 1
  exact List.map_congr_left fun field hmem => congrArg (field.1, ·) (h field hmem)

/-- Nothing shows in states that are read the same. -/
theorem not_shows_of_value_eq {l l' : Readings} {p c : Json} (hp : p.Distinct) (hc : c.Distinct)
    (hprev : l.prev.value p = l'.prev.value p) (hcur : l.cur.value c = l'.cur.value c) :
    ¬ Shows l l' p c := by
  rw [← readSame_iff hp hc, ReadSame, hprev, hcur]
  exact sameDiffs_self (value_distinct _ hp) (value_distinct _ hc)

theorem outside_mem {event : Fields} {field : String × Json} (h : field ∈ outside event) :
    field ∈ event ∧ field.1 ≠ "metadata" := by
  obtain ⟨hmem, -⟩ := List.mem_filter.mp h
  obtain ⟨hmem, hne⟩ := List.mem_filter.mp hmem
  exact ⟨hmem, by simpa using hne⟩

theorem outside_value_eq (m : ControllerMasks) {event : Fields}
    (h : Json.AllKeys IsPlainKey (.obj event)) (hmarker : event.lookup (swapFirst SIEVE_CAN_MARKER) = none)
    (hpaths : ∀ path ∈ m.masks.fieldPathMask, IsPlainPath path) :
    (apiReading m.masks (go.renamed swapFirst) event).value (.obj (outside event)) =
      Reading.value ⟨go, m.masks, ""⟩ (.obj (outside event)) := by
  have hspell := outside_spellings hpaths
  refine value_eq_of_under fun field hfield => ?_
  obtain ⟨hmem, hne⟩ := outside_mem hfield
  have hkey := h.keys field hmem
  have hparts : OutsideParts [field.1] := ⟨field.1, [], rfl, hkey, hne, by simp⟩
  have hleft : goJoin "" (swapFirst field.1) = joinedPath [swapFirst field.1] :=
    goJoin_first (capital_isSegment hkey)
  have hright : goJoin "" field.1 = joinedPath [field.1] := goJoin_first (lower_isSegment hkey)
  rw [apiReading, hmarker]
  have hhides : Reading.Hides ⟨go.renamed swapFirst,
      ⟨m.masks.fieldKeyMask, apiPaths m.masks.fieldPathMask⟩, ""⟩ field.1 ↔
      Reading.Hides ⟨go, m.masks, ""⟩ field.1 := by
    refine or_congr Iff.rfl ?_
    show goJoin "" (swapFirst field.1) ∈ apiPaths m.masks.fieldPathMask ↔
      goJoin "" field.1 ∈ m.masks.fieldPathMask
    rw [hleft, hright]
    exact hspell.masked [field.1] hparts
  have hbelow : AtParts swapFirst (List.map swapFirst) id OutsideParts m.masks.fieldKeyMask
      m.masks.fieldPathMask (apiPaths m.masks.fieldPathMask)
      (Reading.below ⟨go.renamed swapFirst, ⟨m.masks.fieldKeyMask, apiPaths m.masks.fieldPathMask⟩, ""⟩ field.1)
      (Reading.below ⟨go, m.masks, ""⟩ field.1) := by
    refine ⟨[field.1], hparts, ?_, ?_⟩
    · show Reading.mk _ _ (goJoin "" (swapFirst field.1)) = _
      rw [hleft]
      rfl
    · show Reading.mk _ _ (goJoin "" field.1) = _
      rw [hright]
      rfl
  show Reading.under ⟨go.renamed swapFirst, ⟨m.masks.fieldKeyMask, apiPaths m.masks.fieldPathMask⟩, ""⟩
    field.1 field.2 = _
  by_cases hmask : Reading.Hides ⟨go, m.masks, ""⟩ field.1
  · rw [under_of_hides hmask, under_of_hides (hhides.mpr hmask)]
  · rw [under_of_not_hides hmask, under_of_not_hides (hhides.not.mpr hmask)]
    exact hspell.value_eq hbelow (h.values field hmem)

theorem inside_value_eq (m : ControllerMasks) {event : Fields}
    (h : Json.AllKeys IsPlainKey (.obj event)) (hmarker : event.lookup (swapFirst SIEVE_CAN_MARKER) = none)
    (hpaths : ∀ path ∈ m.masks.fieldPathMask, IsPlainPath path) :
    (apiReading m.masks go event).value (.obj (metadataOf event)) =
      Reading.value ⟨go, m.masks, "metadata"⟩ (.obj (metadataOf event)) := by
  have hspell := inside_spellings hpaths
  have hmetadata : Json.AllKeys IsPlainKey (.obj (metadataOf event)) := by
    rw [metadataOf]
    split
    · rename_i metadataMap hlookup
      exact (lookup_allKeys h hlookup).2
    · exact .obj (by simp) (by simp)
  refine value_eq_of_under fun field hmem => ?_
  have hkey := hmetadata.keys field hmem
  have hparts : InsideParts [field.1] := ⟨field.1, [], rfl, hkey, by simp⟩
  have hleft : goJoin "" field.1 = joinedPath [field.1] := goJoin_first (lower_isSegment hkey)
  have hright : goJoin "metadata" field.1 = joinedPath ["metadata", field.1] := by
    have hjoined : joinedPath ["metadata"] = "metadata" := by decide
    have hgrown := @goJoin_segments ["metadata"] field.1 (by decide) (lower_isSegment hkey)
    rwa [hjoined] at hgrown
  rw [apiReading, hmarker]
  have hhides : Reading.Hides ⟨go, ⟨m.masks.fieldKeyMask, apiPaths m.masks.fieldPathMask⟩, ""⟩ field.1 ↔
      Reading.Hides ⟨go, m.masks, "metadata"⟩ field.1 := by
    refine or_congr Iff.rfl ?_
    show goJoin "" field.1 ∈ apiPaths m.masks.fieldPathMask ↔ goJoin "metadata" field.1 ∈ m.masks.fieldPathMask
    rw [hleft, hright]
    exact hspell.masked [field.1] hparts
  have hbelow : AtParts id id ("metadata" :: ·) InsideParts m.masks.fieldKeyMask m.masks.fieldPathMask
      (apiPaths m.masks.fieldPathMask)
      (Reading.below ⟨go, ⟨m.masks.fieldKeyMask, apiPaths m.masks.fieldPathMask⟩, ""⟩ field.1)
      (Reading.below ⟨go, m.masks, "metadata"⟩ field.1) := by
    refine ⟨[field.1], hparts, ?_, ?_⟩
    · show Reading.mk _ _ (goJoin "" field.1) = _
      rw [hleft]
      rfl
    · show Reading.mk _ _ (goJoin "metadata" field.1) = _
      rw [hright]
  show Reading.under ⟨go, ⟨m.masks.fieldKeyMask, apiPaths m.masks.fieldPathMask⟩, ""⟩ field.1 field.2 = _
  by_cases hmask : Reading.Hides ⟨go, m.masks, "metadata"⟩ field.1
  · rw [under_of_hides hmask, under_of_hides (hhides.mpr hmask)]
  · rw [under_of_not_hides hmask, under_of_not_hides (hhides.not.mpr hmask)]
    exact hspell.value_eq hbelow (hmetadata.values field hmem)

/-- **Where no key has a slash, converting and comparing commute**, whatever the masks hide. -/
theorem apiForm_commutes_of_plain (prev cur : ControllerObject) (m : ControllerMasks)
    (hprev : Json.AllKeys IsPlainKey (.obj prev.event)) (hcur : Json.AllKeys IsPlainKey (.obj cur.event))
    (hpmarker : prev.event.lookup "sIEVE-CAN" = none) (hcmarker : cur.event.lookup "sIEVE-CAN" = none)
    (hpaths : ∀ path ∈ m.masks.fieldPathMask, IsPlainPath path) :
    APIFormCommutes (some prev.event) (some cur.event) m.masks := by
  have hmarker : swapFirst SIEVE_CAN_MARKER = "sIEVE-CAN" := by decide
  rw [← hmarker] at hpmarker hcmarker
  rw [apiForm_commutes_iff]
  refine ⟨fun path hmem => ?_, ?_, ?_⟩
  · obtain ⟨parts, hne, hparts, rfl⟩ := hpaths path hmem
    rw [← convertMaskedPath_isSome_iff, convertMaskedPath_joined hne hparts]
    rfl
  · exact not_shows_of_value_eq (metadataOf_form prev.form).1 (metadataOf_form cur.form).1
      (inside_value_eq m hprev hpmarker hpaths) (inside_value_eq m hcur hcmarker hpaths)
  · exact not_shows_of_value_eq (outside_distinct prev.form) (outside_distinct cur.form)
      (outside_value_eq m hprev hpmarker hpaths) (outside_value_eq m hcur hcmarker hpaths)

def deploymentFields (app : String) (replicas : Rat) : Fields :=
  [("metadata", .obj [("labels", .obj [("app", .str app)]), ("uid", .str app)]),
    ("spec", .obj [("replicas", .num replicas), ("hosts", .arr [.str app])])]

theorem deployment_distinct (app : String) (replicas : Rat) :
    Json.Distinct (.obj (deploymentFields app replicas)) := by
  have hlabels : Json.Distinct (.obj [("app", .str app)]) := .obj (by simp) (by simpa using .scalar trivial)
  have hmetadata : Json.Distinct (.obj [("labels", .obj [("app", .str app)]), ("uid", .str app)]) :=
    .obj (by simp) (by simpa using ⟨hlabels, .scalar trivial⟩)
  have hhosts : Json.Distinct (.arr [.str app]) := .arr (by simpa using .scalar trivial)
  have hspec : Json.Distinct (.obj [("replicas", .num replicas), ("hosts", .arr [.str app])]) :=
    .obj (by simp) (by simpa using ⟨.scalar trivial, hhosts⟩)
  exact .obj (by simp [deploymentFields]) (by simpa [deploymentFields] using ⟨hmetadata, hspec⟩)

theorem deployment_keys {P : String → Prop} (app : String) (replicas : Rat)
    (h : ∀ key ∈ ["metadata", "labels", "app", "uid", "spec", "replicas", "hosts"], P key) :
    Json.AllKeys P (.obj (deploymentFields app replicas)) := by
  simp only [List.forall_mem_cons] at h
  obtain ⟨hmetadata, hlabels, happ, huid, hspec, hreplicas, hhosts, -⟩ := h
  have hlabels' : Json.AllKeys P (.obj [("app", .str app)]) :=
    .obj (by simpa using happ) (by simpa using .scalar trivial)
  have hmetadata' : Json.AllKeys P (.obj [("labels", .obj [("app", .str app)]), ("uid", .str app)]) :=
    .obj (by simpa using ⟨hlabels, huid⟩) (by simpa using ⟨hlabels', .scalar trivial⟩)
  have hhosts' : Json.AllKeys P (.arr [.str app]) := .arr (by simpa using .scalar trivial)
  have hspec' : Json.AllKeys P (.obj [("replicas", .num replicas), ("hosts", .arr [.str app])]) :=
    .obj (by simpa using ⟨hreplicas, hhosts⟩) (by simpa using ⟨.scalar trivial, hhosts'⟩)
  exact .obj (by simpa [deploymentFields] using ⟨hmetadata, hspec⟩)
    (by simpa [deploymentFields] using ⟨hmetadata', hspec'⟩)

def deployment (app : String) (replicas : Rat) : ControllerObject where
  event := deploymentFields app replicas
  form := {
    distinct := deployment_distinct app replicas
    keys := deployment_keys app replicas (by decide)
    metadata := fun x hx => ⟨_, (Option.some.inj hx).symm⟩ }

def deploymentMasks : ControllerMasks where
  masks := ⟨{"uid"}, {"metadata/labels/app", "spec/hosts/*"}⟩
  keys := by decide
  metadataKey := by decide
  metadataPath := by decide

theorem apiForm_commutes_deployment :
    APIFormCommutes (some (deployment "web" 1).event) (some (deployment "shop" 2).event)
      deploymentMasks.masks := by
  have hplain : ∀ key ∈ ["metadata", "labels", "app", "uid", "spec", "replicas", "hosts"], IsPlainKey key := by
    intro key hmem
    exact ⟨(by decide : ∀ key ∈ ["metadata", "labels", "app", "uid", "spec", "replicas", "hosts"],
        IsLowerKey key) key hmem,
      (by decide : ∀ key ∈ ["metadata", "labels", "app", "uid", "spec", "replicas", "hosts"],
        '/' ∉ key.toList) key hmem⟩
  refine apiForm_commutes_of_plain (deployment "web" 1) (deployment "shop" 2) deploymentMasks
    (deployment_keys _ _ hplain) (deployment_keys _ _ hplain) rfl rfl fun path hmem => ?_
  rw [deploymentMasks, Finset.mem_insert, Finset.mem_singleton] at hmem
  obtain rfl | rfl := hmem
  · refine ⟨["metadata", "labels", "app"], by simp, fun part hmem => .inr (hplain part ?_), by decide⟩
    revert part
    decide
  · refine ⟨["spec", "hosts", "*"], by simp, fun part hmem => ?_, by decide⟩
    obtain rfl | rfl | rfl : part = "spec" ∨ part = "hosts" ∨ part = "*" := by simpa using hmem
    · exact .inr (hplain _ (by simp))
    · exact .inr (hplain _ (by simp))
    · exact .inl rfl

end Sieve.Server
