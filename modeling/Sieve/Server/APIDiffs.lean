import Sieve.Event.CanonicalPairs
import Sieve.Server.APIStates

/-!
# Differences in the form of the API server

An update trigger with `convertStateToAPIForm` compares the difference of two states of the API server, under
converted masks, with a converted difference of the learner.

* `diffInAPIForm`, `diffThenAPIForm`: the two ways from two states of the controller;
* `apiReading`: how a converted state is canonicalized, seen from the controller's state;
* `apiForm_commutes_iff`: the two ways agree exactly when the masks can be converted and nothing shows that
  only one of the two forms masks.
-/

namespace Sieve.Server

open Sieve.Event

/-! ### Converted masks -/

/-- The parts of the paths outside `metadata` are not empty. -/
def PathsConvert (fieldPathMask : Finset String) : Prop :=
  ∀ maskedPath ∈ fieldPathMask, "metadata/".toList.isPrefixOf maskedPath.toList = true ∨
    [] ∉ splitSlash maskedPath.toList

/-- The masked paths of the converted state. -/
def apiPaths (fieldPathMask : Finset String) : Finset String :=
  (fieldPathMask.image fun maskedPath =>
    ((convertMaskedPath maskedPath.toList).bind textOf).map String.ofList).eraseNone

theorem capitalizeFirst_isSome_iff {text : List Char} : (capitalizeFirst text).isSome ↔ text ≠ [] := by
  cases text with
  | nil => exact iff_of_false (by simp [capitalizeFirst]) (by simp)
  | cons c rest =>
    rw [capitalizeFirst]
    split <;> simp

theorem mapM_isSome_iff {α β : Type} {f : α → Option β} {xs : List α} :
    (xs.mapM f).isSome ↔ ∀ x ∈ xs, (f x).isSome := by
  induction xs with
  | nil => simp
  | cons x xs ih =>
    rw [List.mapM_cons, List.forall_mem_cons, ← ih]
    cases f x with
    | none => simp
    | some y => cases xs.mapM f <;> simp

theorem convertMaskedPath_isSome_iff {maskedPath : List Char} : (convertMaskedPath maskedPath).isSome ↔
    "metadata/".toList.isPrefixOf maskedPath = true ∨ [] ∉ splitSlash maskedPath := by
  rw [convertMaskedPath]
  split
  · rename_i hmetadata
    exact iff_of_true rfl (.inl hmetadata)
  · rename_i hmetadata
    rw [Option.isSome_map, mapM_isSome_iff]
    simp only [capitalizeFirst_isSome_iff]
    constructor
    · exact fun h => .inr fun hmem => h [] hmem rfl
    · intro h part hmem heq
      exact h.elim hmetadata fun hnot => hnot (heq ▸ hmem)

theorem convertFieldPathMask_eq (fieldPathMask : Finset String) :
    (PathsConvert fieldPathMask → ∃ paths, convertFieldPathMaskToAPIForm fieldPathMask = some paths ∧
      texts paths = apiPaths fieldPathMask) ∧
    (¬ PathsConvert fieldPathMask → convertFieldPathMaskToAPIForm fieldPathMask = none) := by
  have hconvert : (∀ maskedPath ∈ fieldPathMask, (convertMaskedPath maskedPath.toList).isSome) ↔
      PathsConvert fieldPathMask := by
    rw [PathsConvert]
    exact forall₂_congr fun maskedPath _ => convertMaskedPath_isSome_iff
  constructor
  · intro h
    refine ⟨_, if_pos (hconvert.mpr h), ?_⟩
    ext path
    rw [mem_texts, apiPaths, Finset.mem_eraseNone, Finset.mem_image, Finset.mem_image]
    refine exists_congr fun maskedPath => and_congr_right fun hmem => ?_
    obtain ⟨runes, hrunes⟩ := Option.isSome_iff_exists.mp (hconvert.mpr h maskedPath hmem)
    rw [hrunes, Option.getD_some, Option.bind_some]
    constructor
    · intro heq
      rw [heq, textOf_goText, Option.map_some, String.ofList_toList]
    · intro heq
      obtain ⟨chars, hchars, rfl⟩ := Option.map_eq_some_iff.mp heq
      rw [String.toList_ofList, ← textOf_eq_some hchars]
  · exact fun h => if_neg (hconvert.not.mpr h)

/-- A key mask for states of the controller. -/
theorem convertFieldKeyMask_eq {fieldKeyMask : Finset String} (h : ∀ key ∈ fieldKeyMask, IsLowerKey key) :
    ∃ keys, convertFieldKeyMaskToAPIForm fieldKeyMask = some keys ∧ ∀ key, IsLowerKey key →
      (key ∈ texts keys ↔ key ∈ fieldKeyMask) ∧ (swapFirst key ∈ texts keys ↔ key ∈ fieldKeyMask) := by
  have hcapital : ∀ key, IsLowerKey key →
      capitalizeFirst key.toList = some (goText (swapFirst key).toList) := by
    intro key hkey
    have hsome := capitalizeKey_lower hkey
    rw [capitalizeKey] at hsome
    obtain ⟨chars, hchars, heq⟩ := Option.map_eq_some_iff.mp hsome
    obtain ⟨runes, hrunes, htext⟩ := Option.bind_eq_some_iff.mp hchars
    rw [hrunes, textOf_eq_some htext, ← heq, String.toList_ofList]
  have hconvert : ∀ key ∈ fieldKeyMask, (capitalizeFirst key.toList).isSome := fun key hmem => by
    rw [hcapital key (h key hmem)]
    rfl
  refine ⟨_, if_pos hconvert, fun key hkey => ?_⟩
  have hmem : ∀ text : String, (goText text.toList ∈ fieldKeyMask.image (fun key => goText key.toList) ∪
      fieldKeyMask.image fun key => (capitalizeFirst key.toList).getD []) ↔
      text ∈ fieldKeyMask ∨ ∃ key ∈ fieldKeyMask, swapFirst key = text := by
    intro text
    rw [Finset.mem_union, Finset.mem_image, Finset.mem_image]
    refine or_congr ?_ (exists_congr fun key => and_congr_right fun hmem => ?_)
    · simp [goText_injective.eq_iff, String.toList_inj]
    · rw [hcapital key (h key hmem), Option.getD_some, goText_injective.eq_iff, String.toList_inj]
  rw [mem_texts, mem_texts, hmem, hmem]
  constructor
  · refine ⟨fun hor => hor.elim id fun hex => ?_, .inl⟩
    obtain ⟨key', hmem', rfl⟩ := hex
    exact absurd hkey (swapFirst_not_lower (h key' hmem'))
  · refine ⟨fun hor => hor.elim (fun hmem' => ?_) fun hex => ?_, fun hmem' => .inr ⟨key, hmem', rfl⟩⟩
    · exact absurd (h _ hmem') (swapFirst_not_lower hkey)
    · obtain ⟨key', hmem', heq⟩ := hex
      rw [← swapFirst_injective heq]
      exact hmem'

/-! ### Canonical states with the marker -/

/-- The canonical state with its marker. -/
def markedFields (masks : Masks) (event : Fields) : Fields :=
  if (event.lookup SIEVE_CAN_MARKER).isSome then event
  else Fields.insert (Reading.fields ⟨go, masks, ""⟩ event) SIEVE_CAN_MARKER (.str "")

/-- How the coordinator reads a state: as it is, when it has the marker. -/
def markedReading (masks : Masks) (event : Fields) : Reading :=
  if (event.lookup SIEVE_CAN_MARKER).isSome then ⟨unmasked, ⟨∅, ∅⟩, ""⟩ else ⟨go, masks, ""⟩

theorem canonicalizeEvent_marked (masks : Masks) (event : Fields) :
    canonicalizeEvent (some event) masks = .ok (some (markedFields masks event)) := by
  rw [canonicalizeEvent, markedFields]
  split <;> rfl

theorem unmasked_under (key : String) (x : Json) : Reading.under ⟨unmasked, ⟨∅, ∅⟩, ""⟩ key x = x := by
  rw [under_of_not_hides (by rintro (h | h) <;> cases h)]
  exact canonicalValue_unmasked _ x

theorem markedFields_lookup (masks : Masks) (event : Fields) {key : String} (hkey : key ≠ SIEVE_CAN_MARKER) :
    (markedFields masks event).lookup key = (event.lookup key).map ((markedReading masks event).under key) := by
  rw [markedFields, markedReading]
  split
  · have hid : Reading.under ⟨unmasked, ⟨∅, ∅⟩, ""⟩ key = id := funext (unmasked_under key)
    rw [hid, Option.map_id, id]
  · rw [lookup_insert_of_ne _ _ hkey, fields_lookup]

theorem markedFields_distinct (masks : Masks) {event : Fields} (h : Json.Distinct (.obj event)) :
    Json.Distinct (.obj (markedFields masks event)) := by
  rw [markedFields]
  split
  · exact h
  · exact insert_distinct (fields_distinct _ h) (.scalar trivial)

theorem diffCommonFields_marked {prev cur : Fields} (hprev : prev.lookup SIEVE_CAN_MARKER = none)
    (hcur : cur.lookup SIEVE_CAN_MARKER = none) :
    diffCommonFields go (prev ++ [(SIEVE_CAN_MARKER, .str "")]) (cur ++ [(SIEVE_CAN_MARKER, .str "")]) =
      diffCommonFields go prev cur := by
  induction prev with
  | nil =>
    have hnone : diffValue go (.str "") (.str "") = none := by decide
    have hlookup : (cur ++ [(SIEVE_CAN_MARKER, Json.str "")]).lookup SIEVE_CAN_MARKER = some (.str "") := by
      simp [List.lookup_append, hcur]
    simp [diffCommonFields, hlookup, hnone]
  | cons field prev ih =>
    obtain ⟨key, p⟩ := field
    rw [lookup_none_iff, List.map_cons, List.mem_cons, not_or] at hprev
    have hne : (key == SIEVE_CAN_MARKER) = false := beq_eq_false_iff_ne.mpr (Ne.symm hprev.1)
    have hlookup : (cur ++ [(SIEVE_CAN_MARKER, Json.str "")]).lookup key = cur.lookup key := by
      rw [List.lookup_append, List.lookup_cons, hne]
      cases cur.lookup key <;> rfl
    rw [List.cons_append, diffCommonFields, diffCommonFields, ih (lookup_none_iff.mpr hprev.2), hlookup]

/-- The markers of two states leave no trace in their difference. -/
theorem mapDiff_marked {prev cur : Fields} (hprev : prev.lookup SIEVE_CAN_MARKER = none)
    (hcur : cur.lookup SIEVE_CAN_MARKER = none) :
    mapDiff go (Fields.insert prev SIEVE_CAN_MARKER (.str "")) (Fields.insert cur SIEVE_CAN_MARKER (.str "")) =
      mapDiff go prev cur := by
  have hnew : newFields (prev ++ [(SIEVE_CAN_MARKER, .str "")]) (cur ++ [(SIEVE_CAN_MARKER, .str "")]) =
      newFields prev cur := by
    rw [newFields, List.filter_append]
    have hmarker : List.filter (fun field : String × Json =>
        ((prev ++ [(SIEVE_CAN_MARKER, Json.str "")]).lookup field.1).isNone) [(SIEVE_CAN_MARKER, .str "")] =
          [] := by
      simp [List.lookup_append, hprev]
    rw [hmarker, List.append_nil, newFields]
    refine List.filter_congr fun field hmem => ?_
    have hne : (field.1 == SIEVE_CAN_MARKER) = false := by
      rw [beq_eq_false_iff_ne]
      intro heq
      rw [lookup_none_iff] at hcur
      exact hcur (heq ▸ List.mem_map_of_mem hmem)
    rw [List.lookup_append, List.lookup_cons, hne]
    cases prev.lookup field.1 <;> rfl
  rw [insert_fresh hprev, insert_fresh hcur, mapDiff, mapDiff, diffCommonFields_marked hprev hcur, hnew]

theorem diffEventAsMap_getD (prev cur : Fields) :
    (diffEventAsMap (some prev) (some cur)).1.getD [] = (mapDiff go prev cur).1 ∧
      (diffEventAsMap (some prev) (some cur)).2.getD [] = (mapDiff go prev cur).2 := by
  rw [diffEventAsMap, Option.getD_some, Option.getD_some, diffEventAsMap_eq]
  cases hfinish : finishMap (mapDiff go prev cur) with
  | none =>
    obtain ⟨hfst, hsnd⟩ := finishMap_none_iff.mp hfinish
    rw [hfst, hsnd]
    exact ⟨rfl, rfl⟩
  | some diff =>
    obtain ⟨rfl, -⟩ := finishMap_some hfinish
    exact ⟨rfl, rfl⟩

theorem diffEvent_marked (prev cur : Fields) (masks : Masks) :
    diffEvent (some prev) (some cur) masks =
      .ok (diffEventAsMap (some (markedFields masks prev)) (some (markedFields masks cur)),
        some (markedFields masks prev), some (markedFields masks cur)) := by
  rw [diffEvent, canonicalizeEvent_marked, canonicalizeEvent_marked]
  rfl

/-! ### The two ways -/

/-- The states are converted, then compared under the converted masks. -/
def diffInAPIForm (prevState curState : GoMap) (masks : Masks) : Option (GoMap × GoMap) := do
  let prevState ← convertObjectStateToAPIForm prevState
  let curState ← convertObjectStateToAPIForm curState
  let fieldKeyMask ← convertFieldKeyMaskToAPIForm masks.fieldKeyMask
  let fieldPathMask ← convertFieldPathMaskToAPIForm masks.fieldPathMask
  let result ← (diffEvent (some prevState) (some curState) ⟨texts fieldKeyMask, texts fieldPathMask⟩).toOption
  some result.1

/-- The states are compared, then both differences are converted. -/
def diffThenAPIForm (prevState curState : GoMap) (masks : Masks) : Option (Fields × Fields) := do
  let result ← (diffEvent prevState curState masks).toOption
  let diffPrevState ← convertObjectStateToAPIForm result.1.1
  let diffCurState ← convertObjectStateToAPIForm result.1.2
  some (diffPrevState, diffCurState)

/-- The same fields, up to the marker.  A nil map has none. -/
def SameButMarker (event : GoMap) (event' : Fields) : Prop :=
  EqualObjects go (Fields.erase (event.getD []) SIEVE_CAN_MARKER) (Fields.erase event' SIEVE_CAN_MARKER)

/-- The two ways lead to the same pair. -/
def APIFormCommutes (prevState curState : GoMap) (masks : Masks) : Prop :=
  ∃ diff diff', diffInAPIForm prevState curState masks = some diff ∧
    diffThenAPIForm prevState curState masks = some diff' ∧
    SameButMarker diff.1 diff'.1 ∧ SameButMarker diff.2 diff'.2

/-- A state in the form of the controller. -/
structure ControllerObject where
  event : Fields
  form : ControllerForm event

/-- Masks for such states, which do not mask `metadata` as a whole. -/
structure ControllerMasks where
  masks : Masks
  keys : ∀ key ∈ masks.fieldKeyMask, IsLowerKey key
  metadataKey : "metadata" ∉ masks.fieldKeyMask
  metadataPath : "metadata" ∉ masks.fieldPathMask

/-- How the converted state is read, where `d` joins the paths.  A key that becomes the marker makes the
coordinator leave the state as it is. -/
def apiReading (masks : Masks) (d : Dialect) (event : Fields) : Reading :=
  if (event.lookup (swapFirst SIEVE_CAN_MARKER)).isSome then ⟨unmasked, ⟨∅, ∅⟩, ""⟩
  else ⟨d, ⟨masks.fieldKeyMask, apiPaths masks.fieldPathMask⟩, ""⟩

def apiReadings (masks : Masks) (d : Dialect) (prev cur : Fields) : Readings :=
  ⟨apiReading masks d prev, apiReading masks d cur⟩

def goReadings (masks : Masks) (path : String) : Readings := ⟨⟨go, masks, path⟩, ⟨go, masks, path⟩⟩

/-- The fields outside `metadata`, without the one that becomes the marker. -/
def outside (event : Fields) : Fields :=
  Fields.erase (Fields.erase event "metadata") (swapFirst SIEVE_CAN_MARKER)

/-- Nothing shows that only one of the two forms masks: neither in `metadata`, where the paths lose their
first part, nor outside, where every key of a path gets a capital. -/
def MaskedAlike (prev cur : Fields) (masks : Masks) : Prop :=
  ¬ Shows (apiReadings masks go prev cur) (goReadings masks "metadata")
      (.obj (metadataOf prev)) (.obj (metadataOf cur)) ∧
    ¬ Shows (apiReadings masks (go.renamed swapFirst) prev cur) (goReadings masks "")
      (.obj (outside prev)) (.obj (outside cur))

/-! ### The converted states -/

theorem marker_not_lower : ¬ IsLowerKey SIEVE_CAN_MARKER := by decide

theorem marker_none {event : Fields} (h : ControllerForm event) : event.lookup SIEVE_CAN_MARKER = none :=
  lookup_lower h.keys marker_not_lower

theorem apiFields_marker {event : Fields} (h : ControllerForm event) :
    ((apiFields event).lookup SIEVE_CAN_MARKER).isSome =
      (event.lookup (swapFirst SIEVE_CAN_MARKER)).isSome := by
  have hne : swapFirst SIEVE_CAN_MARKER ≠ "metadata" := by decide
  rw [apiFields, lookup_merged_upper (metadataOf_form h).2 marker_not_lower, Option.isSome_map, lookup_erase,
    if_neg hne]

variable {masks : Masks} {keys : Finset String}

/-- The keys of the converted mask. -/
def KeysConverted (masks : Masks) (keys : Finset String) : Prop :=
  ∀ key, IsLowerKey key →
    (key ∈ keys ↔ key ∈ masks.fieldKeyMask) ∧ (swapFirst key ∈ keys ↔ key ∈ masks.fieldKeyMask)

theorem apiMarked_lower (hkeys : KeysConverted masks keys) {event : Fields} (h : ControllerForm event)
    {key : String} (hkey : IsLowerKey key) :
    (markedFields ⟨keys, apiPaths masks.fieldPathMask⟩ (apiFields event)).lookup key =
      ((metadataOf event).lookup key).map ((apiReading masks go event).under key) := by
  have hne : key ≠ SIEVE_CAN_MARKER := fun heq => marker_not_lower (heq ▸ hkey)
  rw [markedFields_lookup _ _ hne, markedReading, apiReading, apiFields_marker h, apiFields,
    lookup_merged_lower (allKeys_erase h.keys "metadata") hkey]
  split
  · rfl
  · refine Option.map_congr fun x hx => ?_
    have hunder := @under_mapKeys id _ _ _ (apiPaths masks.fieldPathMask) rfl
      (fun key hkey => (hkeys key hkey).1) _ hkey _ (lookup_allKeys (metadataOf_form h).2 hx).2 ""
    rw [mapKeys_id, mapKeys_id] at hunder
    exact hunder

theorem apiMarked_upper (hkeys : KeysConverted masks keys) {event : Fields} (h : ControllerForm event)
    {key : String} (hkey : ¬ IsLowerKey key) (hne : key ≠ SIEVE_CAN_MARKER) :
    (markedFields ⟨keys, apiPaths masks.fieldPathMask⟩ (apiFields event)).lookup key =
      (((Fields.erase event "metadata").lookup (swapFirst key)).map
        ((apiReading masks (go.renamed swapFirst) event).under (swapFirst key))).map
          (Json.mapKeys swapFirst) := by
  have hothers := allKeys_erase h.keys "metadata"
  rw [markedFields_lookup _ _ hne, markedReading, apiReading, apiFields_marker h, apiFields,
    lookup_merged_upper (metadataOf_form h).2 hkey, Option.map_map, Option.map_map]
  refine Option.map_congr fun x hx => ?_
  rw [Function.comp_apply, Function.comp_apply]
  split
  · rw [unmasked_under, unmasked_under]
  · have hunder := @under_mapKeys swapFirst _ _ _ (apiPaths masks.fieldPathMask) (by decide)
      (fun key hkey => (hkeys key hkey).2) _ (lookup_allKeys hothers hx).1 _ (lookup_allKeys hothers hx).2 ""
    rw [swapFirst_swapFirst] at hunder
    exact hunder

/-! ### The difference of the states -/

theorem prevSide_none_right (o : Option Json) : prevSide go o none = o := by cases o <;> rfl

theorem curSide_none_left (o : Option Json) : curSide go none o = o := by cases o <;> rfl

/-- What holds of no fields and of the sides of a difference. -/
theorem mapDiff_sides {Q : Json → Prop} {prev cur : Fields} (hnil : Q (.obj []))
    (h : ∀ x y, diffValue go (.obj prev) (.obj cur) = some (x, y) → Q x ∧ Q y) :
    Q (.obj (mapDiff go prev cur).1) ∧ Q (.obj (mapDiff go prev cur).2) := by
  cases hdiff : diffValue go (.obj prev) (.obj cur) with
  | none =>
    rw [diffValue_obj, Option.map_eq_none_iff, diffEventAsMap_eq, finishMap_none_iff] at hdiff
    rw [hdiff.1, hdiff.2]
    exact ⟨hnil, hnil⟩
  | some sides =>
    obtain ⟨hfst, hsnd, -⟩ := diffValue_obj_some hdiff
    rw [← hfst, ← hsnd]
    exact h _ _ hdiff

variable {m : ControllerMasks} {prev cur : Fields}

/-- `metadata` is read field by field. -/
theorem under_metadata (m : ControllerMasks) (metadataMap : Fields) :
    Reading.under ⟨go, m.masks, ""⟩ "metadata" (.obj metadataMap) =
      .obj (Reading.fields ⟨go, m.masks, "metadata"⟩ metadataMap) := by
  have hpath : goJoin "" "metadata" = "metadata" := by decide
  have hhides : ¬ Reading.Hides ⟨go, m.masks, ""⟩ "metadata" := by
    rintro (hkey | hmasked)
    · exact m.metadataKey hkey
    · have heq : go.joinPath "" "metadata" = "metadata" := hpath
      rw [heq] at hmasked
      exact m.metadataPath hmasked
  rw [under_of_not_hides hhides, value_obj, Reading.below]
  show Json.obj (Reading.fields ⟨go, m.masks, goJoin "" "metadata"⟩ metadataMap) = _
  rw [hpath]

/-- The difference of two states of the controller. -/
def controllerDiff (m : ControllerMasks) (prev cur : Fields) : Fields × Fields :=
  mapDiff go (Reading.fields ⟨go, m.masks, ""⟩ prev) (Reading.fields ⟨go, m.masks, ""⟩ cur)

theorem controllerDiff_lookup (hprev : ControllerForm prev) (key : String) :
    (controllerDiff m prev cur).1.lookup key =
        prevSide go ((prev.lookup key).map (Reading.under ⟨go, m.masks, ""⟩ key))
          ((cur.lookup key).map (Reading.under ⟨go, m.masks, ""⟩ key)) ∧
      (controllerDiff m prev cur).2.lookup key =
        curSide go ((prev.lookup key).map (Reading.under ⟨go, m.masks, ""⟩ key))
          ((cur.lookup key).map (Reading.under ⟨go, m.masks, ""⟩ key)) := by
  have hkeys := (fields_distinct ⟨go, m.masks, ""⟩ hprev.distinct).keys
  rw [controllerDiff, mapDiff_fst_lookup hkeys, mapDiff_snd_lookup hkeys, fields_lookup, fields_lookup]
  exact ⟨rfl, rfl⟩

/-- What stands under `metadata` in a state. -/
theorem metadata_cases {event : Fields} (h : ControllerForm event) :
    event.lookup "metadata" = none ∧ metadataOf event = [] ∨
      event.lookup "metadata" = some (.obj (metadataOf event)) := by
  cases hlookup : event.lookup "metadata" with
  | none =>
    rw [metadataOf, hlookup]
    exact .inl ⟨rfl, rfl⟩
  | some x =>
    obtain ⟨metadataMap, rfl⟩ := h.metadata x hlookup
    rw [metadataOf, hlookup]
    exact .inr rfl

theorem metadataOf_none {event : Fields} (h : event.lookup "metadata" = none) : metadataOf event = [] := by
  rw [metadataOf, h]

theorem metadataOf_some {event metadataMap : Fields}
    (h : event.lookup "metadata" = some (.obj metadataMap)) : metadataOf event = metadataMap := by
  rw [metadataOf, h]

/-- The fields of `metadata` in the difference, and that nothing else stands there. -/
theorem controllerDiff_metadata (hprev : ControllerForm prev) (hcur : ControllerForm cur) :
    ((controllerDiff m prev cur).1.lookup "metadata" = none ∧ metadataOf (controllerDiff m prev cur).1 = [] ∨
      (controllerDiff m prev cur).1.lookup "metadata" =
        some (.obj (metadataOf (controllerDiff m prev cur).1))) ∧
    ((controllerDiff m prev cur).2.lookup "metadata" = none ∧ metadataOf (controllerDiff m prev cur).2 = [] ∨
      (controllerDiff m prev cur).2.lookup "metadata" =
        some (.obj (metadataOf (controllerDiff m prev cur).2))) ∧
    ∀ key, (metadataOf (controllerDiff m prev cur).1).lookup key =
        prevSide go (((metadataOf prev).lookup key).map (Reading.under ⟨go, m.masks, "metadata"⟩ key))
          (((metadataOf cur).lookup key).map (Reading.under ⟨go, m.masks, "metadata"⟩ key)) ∧
      (metadataOf (controllerDiff m prev cur).2).lookup key =
        curSide go (((metadataOf prev).lookup key).map (Reading.under ⟨go, m.masks, "metadata"⟩ key))
          (((metadataOf cur).lookup key).map (Reading.under ⟨go, m.masks, "metadata"⟩ key)) := by
  obtain ⟨hfst, hsnd⟩ := @controllerDiff_lookup m prev cur hprev "metadata"
  obtain ⟨hp, hpm⟩ | hp := metadata_cases hprev
  · obtain ⟨hc, hcm⟩ | hc := metadata_cases hcur
    · rw [hp, hc, Option.map_none, prevSide_none_right] at hfst
      rw [hp, hc, Option.map_none, curSide_none_left] at hsnd
      rw [metadataOf_none hfst, metadataOf_none hsnd, hpm, hcm]
      exact ⟨.inl ⟨hfst, rfl⟩, .inl ⟨hsnd, rfl⟩, fun key => ⟨rfl, rfl⟩⟩
    · rw [hp, hc, Option.map_none, Option.map_some, under_metadata] at hfst hsnd
      rw [curSide_none_left] at hsnd
      rw [metadataOf_none hfst, metadataOf_some hsnd, hpm]
      refine ⟨.inl ⟨hfst, rfl⟩, .inr hsnd, fun key => ⟨rfl, ?_⟩⟩
      rw [List.lookup_nil, Option.map_none, curSide_none_left, fields_lookup]
  · obtain ⟨hc, hcm⟩ | hc := metadata_cases hcur
    · rw [hp, hc, Option.map_none, Option.map_some, under_metadata] at hfst hsnd
      rw [prevSide_none_right] at hfst
      rw [metadataOf_some hfst, metadataOf_none hsnd, hcm]
      refine ⟨.inr hfst, .inl ⟨hsnd, rfl⟩, fun key => ⟨?_, rfl⟩⟩
      rw [List.lookup_nil, Option.map_none, prevSide_none_right, fields_lookup]
    · have hkeys := (fields_distinct ⟨go, m.masks, "metadata"⟩ (metadataOf_form hprev).1).keys
      rw [hp, hc, Option.map_some, Option.map_some, under_metadata, under_metadata] at hfst hsnd
      have hsides := @mapDiff_fst_lookup go _ hkeys
        (Reading.fields ⟨go, m.masks, "metadata"⟩ (metadataOf cur))
      have hsides' := @mapDiff_snd_lookup go _ hkeys
        (Reading.fields ⟨go, m.masks, "metadata"⟩ (metadataOf cur))
      simp only [fields_lookup] at hsides hsides'
      simp only [← hsides, ← hsides']
      simp only [prevSide, curSide] at hfst hsnd
      cases hdiff : diffValue go (.obj (Reading.fields ⟨go, m.masks, "metadata"⟩ (metadataOf prev)))
          (.obj (Reading.fields ⟨go, m.masks, "metadata"⟩ (metadataOf cur))) with
      | none =>
        rw [hdiff] at hfst hsnd
        rw [diffValue_obj, Option.map_eq_none_iff, diffEventAsMap_eq, finishMap_none_iff] at hdiff
        rw [metadataOf_none hfst, metadataOf_none hsnd, hdiff.1, hdiff.2]
        exact ⟨.inl ⟨hfst, rfl⟩, .inl ⟨hsnd, rfl⟩, fun key => ⟨rfl, rfl⟩⟩
      | some sides =>
        rw [hdiff] at hfst hsnd
        obtain ⟨hx, hy, -⟩ := diffValue_obj_some hdiff
        rw [Option.map_some, hx] at hfst
        rw [Option.map_some, hy] at hsnd
        rw [metadataOf_some hfst, metadataOf_some hsnd]
        exact ⟨.inr hfst, .inr hsnd, fun key => ⟨rfl, rfl⟩⟩

/-- Both sides of the difference are in the form of the controller. -/
theorem controllerDiff_form (m : ControllerMasks) (hprev : ControllerForm prev) (hcur : ControllerForm cur) :
    ControllerForm (controllerDiff m prev cur).1 ∧ ControllerForm (controllerDiff m prev cur).2 := by
  have hp := fields_distinct ⟨go, m.masks, ""⟩ hprev.distinct
  have hc := fields_distinct ⟨go, m.masks, ""⟩ hcur.distinct
  have hkeys : ∀ {event : Fields}, ControllerForm event →
      Json.AllKeys IsLowerKey (.obj (Reading.fields ⟨go, m.masks, ""⟩ event)) := by
    intro event h
    rw [← value_obj]
    exact canonicalValue_allKeys h.keys ""
  obtain ⟨hd, hd'⟩ := mapDiff_sides (Q := Json.Distinct) (.obj List.nodup_nil (by simp))
    fun x y hdiff => diffValue_distinct hp hc hdiff
  obtain ⟨hk, hk'⟩ := mapDiff_sides (Q := Json.AllKeys IsLowerKey) (.obj (by simp) (by simp))
    fun x y hdiff => diffValue_allKeys hp hc (hkeys hprev) (hkeys hcur) hdiff
  obtain ⟨hmetadata, hmetadata', -⟩ := @controllerDiff_metadata m _ _ hprev hcur
  have hobject : ∀ {event : Fields} {x : Json}, event.lookup "metadata" = none ∧ metadataOf event = [] ∨
      event.lookup "metadata" = some (.obj (metadataOf event)) → event.lookup "metadata" = some x →
      ∃ fields, x = .obj fields := by
    intro event x h hx
    obtain ⟨hnone, -⟩ | hsome := h
    · rw [hnone] at hx
      cases hx
    · rw [hsome] at hx
      exact ⟨_, (Option.some.inj hx).symm⟩
  exact ⟨⟨hd, hk, fun x hx => hobject hmetadata hx⟩, ⟨hd', hk', fun x hx => hobject hmetadata' hx⟩⟩

/-! ### Key by key -/

/-- The sides under other names. -/
theorem keySides_mapKeys {o o' : Option Json} (hp : ∀ p, o = some p → p.Distinct)
    (hc : ∀ c, o' = some c → c.Distinct) :
    prevSide go (o.map (Json.mapKeys swapFirst)) (o'.map (Json.mapKeys swapFirst)) =
        (prevSide go o o').map (Json.mapKeys swapFirst) ∧
      curSide go (o.map (Json.mapKeys swapFirst)) (o'.map (Json.mapKeys swapFirst)) =
        (curSide go o o').map (Json.mapKeys swapFirst) := by
  cases o with
  | none => cases o' <;> exact ⟨rfl, rfl⟩
  | some p =>
    cases o' with
    | none => exact ⟨rfl, rfl⟩
    | some c =>
      have hdiff := diffValue_mapKeys swapFirst_injective (hp p rfl) (hc c rfl)
      rw [DiffMaps] at hdiff
      simp only [Option.map_some, prevSide, curSide, hdiff, Option.map_map]
      exact ⟨rfl, rfl⟩

theorem rel_mapKeys_iff {o o' : Option Json} :
    Option.Rel (Json.Equal goScalarEqual) (o.map (Json.mapKeys swapFirst)) (o'.map (Json.mapKeys swapFirst)) ↔
      Option.Rel (Json.Equal goScalarEqual) o o' := by
  cases o with
  | none =>
    cases o' with
    | none => exact iff_of_true .none .none
    | some c => exact iff_of_false (fun h => by cases h) fun h => by cases h
  | some p =>
    cases o' with
    | none => exact iff_of_false (fun h => by cases h) fun h => by cases h
    | some c =>
      rw [Option.map_some, Option.map_some, Option.rel_some_some, Option.rel_some_some,
        equal_mapKeys_iff swapFirst_injective]

/-- Both sides of two differences under one key. -/
def SidesSameAt (diff diff' : Fields × Fields) (key : String) : Prop :=
  Option.Rel (Json.Equal goScalarEqual) (diff.1.lookup key) (diff'.1.lookup key) ∧
    Option.Rel (Json.Equal goScalarEqual) (diff.2.lookup key) (diff'.2.lookup key)

/-- What the readings of the states say of the key of one field. -/
theorem keyRead_iff {l l' : Readings} {event event' : Fields} (h : Json.Distinct (.obj event))
    (h' : Json.Distinct (.obj event')) (key : String) :
    Option.Rel (Json.Equal goScalarEqual)
          (prevSide go ((event.lookup key).map (l.prev.under key)) ((event'.lookup key).map (l.cur.under key)))
          (prevSide go ((event.lookup key).map (l'.prev.under key)) ((event'.lookup key).map (l'.cur.under key))) ∧
        Option.Rel (Json.Equal goScalarEqual)
          (curSide go ((event.lookup key).map (l.prev.under key)) ((event'.lookup key).map (l.cur.under key)))
          (curSide go ((event.lookup key).map (l'.prev.under key)) ((event'.lookup key).map (l'.cur.under key))) ↔
      KeySilent l l' key (event.lookup key) (event'.lookup key) := by
  rw [keySides_same (by rw [Option.isSome_map, Option.isSome_map]) (by rw [Option.isSome_map, Option.isSome_map])]
  exact keySilent_iff (fun p hlp => lookup_distinct h hlp) (fun c hlc => lookup_distinct h' hlc)
    fun p c hlp hlc => readSame_iff (lookup_distinct h hlp) (lookup_distinct h' hlc)

/-- The difference of the converted states. -/
def apiDiff (masks : Masks) (prev cur : Fields) : Fields × Fields :=
  mapDiff go (markedFields masks (apiFields prev)) (markedFields masks (apiFields cur))

theorem apiFields_distinct {event : Fields} (h : ControllerForm event) :
    Json.Distinct (.obj (apiFields event)) := by
  obtain ⟨hmetadata, hlower⟩ := metadataOf_form h
  have hothers := mapKeys_distinct swapFirst_injective (erase_distinct h.distinct : Json.Distinct
    (.obj (Fields.erase event "metadata")))
  rw [mapKeys_obj] at hothers
  refine .obj ?_ fun field hmem => ?_
  · rw [apiFields, merged, List.map_append, List.nodup_append]
    refine ⟨hmetadata.keys, hothers.keys, fun key hkey key' hkey' heq => ?_⟩
    have hnone := merged_fresh hlower (allKeys_erase h.keys "metadata") key' hkey'
    rw [lookup_none_iff] at hnone
    exact hnone (heq ▸ hkey)
  · obtain hmem | hmem := List.mem_append.mp hmem
    · exact hmetadata.values field hmem
    · exact hothers.values field hmem

/-- The converted difference. -/
def convertedDiff (m : ControllerMasks) (prev cur : Fields) : Fields × Fields :=
  (apiFields (controllerDiff m prev cur).1, apiFields (controllerDiff m prev cur).2)

/-- A key that begins with a lower-case letter. -/
theorem sidesSameAt_lower_iff (hkeys : KeysConverted m.masks keys) (hprev : ControllerForm prev)
    (hcur : ControllerForm cur) {key : String} (hkey : IsLowerKey key) :
    SidesSameAt (apiDiff ⟨keys, apiPaths m.masks.fieldPathMask⟩ prev cur) (convertedDiff m prev cur) key ↔
      KeySilent (apiReadings m.masks go prev cur) (goReadings m.masks "metadata") key
        ((metadataOf prev).lookup key) ((metadataOf cur).lookup key) := by
  have hp := (markedFields_distinct ⟨keys, apiPaths m.masks.fieldPathMask⟩ (apiFields_distinct hprev)).keys
  obtain ⟨hform, hform'⟩ := controllerDiff_form m hprev hcur
  obtain ⟨-, -, hmetadata⟩ := @controllerDiff_metadata m _ _ hprev hcur
  rw [← keyRead_iff (metadataOf_form hprev).1 (metadataOf_form hcur).1 key, SidesSameAt, apiDiff, convertedDiff,
    mapDiff_fst_lookup hp, mapDiff_snd_lookup hp, apiMarked_lower hkeys hprev hkey,
    apiMarked_lower hkeys hcur hkey, apiFields, apiFields,
    lookup_merged_lower (allKeys_erase hform.keys "metadata") hkey,
    lookup_merged_lower (allKeys_erase hform'.keys "metadata") hkey, (hmetadata key).1, (hmetadata key).2]
  exact Iff.rfl

/-- Any other key but the marker. -/
theorem sidesSameAt_upper_iff (hkeys : KeysConverted m.masks keys) (hprev : ControllerForm prev)
    (hcur : ControllerForm cur) {key : String} (hkey : ¬ IsLowerKey key) (hne : key ≠ SIEVE_CAN_MARKER) :
    SidesSameAt (apiDiff ⟨keys, apiPaths m.masks.fieldPathMask⟩ prev cur) (convertedDiff m prev cur) key ↔
      KeySilent (apiReadings m.masks (go.renamed swapFirst) prev cur) (goReadings m.masks "") (swapFirst key)
        ((Fields.erase prev "metadata").lookup (swapFirst key))
        ((Fields.erase cur "metadata").lookup (swapFirst key)) := by
  have hp := (markedFields_distinct ⟨keys, apiPaths m.masks.fieldPathMask⟩ (apiFields_distinct hprev)).keys
  have hdprev : Json.Distinct (.obj (Fields.erase prev "metadata")) := erase_distinct hprev.distinct
  have hdcur : Json.Distinct (.obj (Fields.erase cur "metadata")) := erase_distinct hcur.distinct
  obtain ⟨hform, hform'⟩ := controllerDiff_form m hprev hcur
  obtain ⟨hlookup, hlookup'⟩ := @controllerDiff_lookup m prev cur hprev (swapFirst key)
  -- the difference without its metadata is that of the states without theirs
  have herase : (Fields.erase (controllerDiff m prev cur).1 "metadata").lookup (swapFirst key) =
        prevSide go (((Fields.erase prev "metadata").lookup (swapFirst key)).map
          (Reading.under ⟨go, m.masks, ""⟩ (swapFirst key)))
          (((Fields.erase cur "metadata").lookup (swapFirst key)).map
            (Reading.under ⟨go, m.masks, ""⟩ (swapFirst key))) ∧
      (Fields.erase (controllerDiff m prev cur).2 "metadata").lookup (swapFirst key) =
        curSide go (((Fields.erase prev "metadata").lookup (swapFirst key)).map
          (Reading.under ⟨go, m.masks, ""⟩ (swapFirst key)))
          (((Fields.erase cur "metadata").lookup (swapFirst key)).map
            (Reading.under ⟨go, m.masks, ""⟩ (swapFirst key))) := by
    simp only [lookup_erase, hlookup, hlookup']
    split
    · exact ⟨rfl, rfl⟩
    · exact ⟨rfl, rfl⟩
  have hunder : ∀ {event : Fields} (r : Reading), Json.Distinct (.obj event) → ∀ x,
      (event.lookup (swapFirst key)).map (r.under (swapFirst key)) = some x → x.Distinct := by
    intro event r h x hx
    obtain ⟨y, hy, rfl⟩ := Option.map_eq_some_iff.mp hx
    exact under_distinct r _ (lookup_distinct h hy)
  obtain ⟨hfst, hsnd⟩ := keySides_mapKeys
    (hunder (apiReading m.masks (go.renamed swapFirst) prev) hdprev)
    (hunder (apiReading m.masks (go.renamed swapFirst) cur) hdcur)
  rw [← keyRead_iff hdprev hdcur (swapFirst key), SidesSameAt, apiDiff, convertedDiff, mapDiff_fst_lookup hp,
    mapDiff_snd_lookup hp, apiMarked_upper hkeys hprev hkey hne, apiMarked_upper hkeys hcur hkey hne,
    apiFields, apiFields, lookup_merged_upper (metadataOf_form hform).2 hkey,
    lookup_merged_upper (metadataOf_form hform').2 hkey, hfst, hsnd, herase.1, herase.2, rel_mapKeys_iff,
    rel_mapKeys_iff]
  exact Iff.rfl

/-! ### The two ways agree -/

theorem equal_butMarker_iff {a b : Fields} (ha : Json.Distinct (.obj a)) (hb : Json.Distinct (.obj b)) :
    EqualObjects go (Fields.erase a SIEVE_CAN_MARKER) (Fields.erase b SIEVE_CAN_MARKER) ↔
      ∀ key, key ≠ SIEVE_CAN_MARKER →
        Option.Rel (Json.Equal goScalarEqual) (a.lookup key) (b.lookup key) := by
  rw [EqualObjects, equal_obj_iff (erase_distinct ha).keys (erase_distinct hb).keys]
  refine forall_congr' fun key => ?_
  rw [lookup_erase, lookup_erase]
  by_cases hkey : key = SIEVE_CAN_MARKER
  · rw [if_pos hkey, if_pos hkey]
    exact iff_of_true .none fun hne => absurd hkey hne
  · rw [if_neg hkey, if_neg hkey]
    exact ⟨fun h _ => h, fun h => h hkey⟩

theorem outside_lookup {event : Fields} {key : String} (hkey : key ≠ swapFirst SIEVE_CAN_MARKER) :
    (outside event).lookup key = (Fields.erase event "metadata").lookup key := by
  rw [outside, lookup_erase, if_neg hkey]

theorem outside_distinct {event : Fields} (h : ControllerForm event) :
    Json.Distinct (.obj (outside event)) := erase_distinct (erase_distinct h.distinct)

/-- Key by key, nothing shows. -/
theorem maskedAlike_iff (hprev : ControllerForm prev) (hcur : ControllerForm cur)
    (hkeys : KeysConverted m.masks keys) : MaskedAlike prev cur m.masks ↔
      ∀ key, key ≠ SIEVE_CAN_MARKER → SidesSameAt (apiDiff ⟨keys, apiPaths m.masks.fieldPathMask⟩ prev cur)
        (convertedDiff m prev cur) key := by
  rw [MaskedAlike, not_shows_obj_iff, not_shows_obj_iff]
  constructor
  · rintro ⟨hmetadata, hothers⟩ key hne
    by_cases hkey : IsLowerKey key
    · exact (sidesSameAt_lower_iff hkeys hprev hcur hkey).mpr (hmetadata key)
    · rw [sidesSameAt_upper_iff hkeys hprev hcur hkey hne]
      have hkey' := hothers (swapFirst key)
      have hne' : swapFirst key ≠ swapFirst SIEVE_CAN_MARKER := swapFirst_injective.ne hne
      rwa [outside_lookup hne', outside_lookup hne'] at hkey'
  · intro hsame
    constructor
    · intro key
      by_cases hkey : IsLowerKey key
      · have hne : key ≠ SIEVE_CAN_MARKER := fun heq => marker_not_lower (heq ▸ hkey)
        exact (sidesSameAt_lower_iff hkeys hprev hcur hkey).mp (hsame key hne)
      · rw [lookup_lower (metadataOf_form hprev).2 hkey, lookup_lower (metadataOf_form hcur).2 hkey]
        exact .missing
    · intro key
      by_cases hne : key = swapFirst SIEVE_CAN_MARKER
      · have hnone : ∀ event, (outside event).lookup key = none := fun event => by
          rw [outside, lookup_erase, if_pos hne]
        rw [hnone, hnone]
        exact .missing
      rw [outside_lookup hne, outside_lookup hne]
      by_cases hkey : IsLowerKey key
      · have hupper := swapFirst_not_lower hkey
        have hne' : swapFirst key ≠ SIEVE_CAN_MARKER := by
          intro heq
          exact hne (by rw [← heq, swapFirst_swapFirst])
        have hsilent := (sidesSameAt_upper_iff hkeys hprev hcur hupper hne').mp (hsame _ hne')
        rwa [swapFirst_swapFirst] at hsilent
      · rw [lookup_lower (allKeys_erase hprev.keys "metadata") hkey,
          lookup_lower (allKeys_erase hcur.keys "metadata") hkey]
        exact .missing

theorem diffThenAPIForm_eq (m : ControllerMasks) (hprev : ControllerForm prev) (hcur : ControllerForm cur) :
    diffThenAPIForm (some prev) (some cur) m.masks = some (convertedDiff m prev cur) := by
  obtain ⟨hform, hform'⟩ := controllerDiff_form m hprev hcur
  have hmarked : mapDiff go (markedFields m.masks prev) (markedFields m.masks cur) =
      controllerDiff m prev cur := by
    have hnone : ∀ {event : Fields}, ControllerForm event →
        (Reading.fields ⟨go, m.masks, ""⟩ event).lookup SIEVE_CAN_MARKER = none := by
      intro event h
      rw [fields_lookup, marker_none h, Option.map_none]
    rw [markedFields, markedFields, marker_none hprev, marker_none hcur]
    exact mapDiff_marked (hnone hprev) (hnone hcur)
  obtain ⟨hfst, hsnd⟩ := diffEventAsMap_getD (markedFields m.masks prev) (markedFields m.masks cur)
  rw [hmarked] at hfst hsnd
  rw [← hfst] at hform
  rw [← hsnd] at hform'
  rw [diffThenAPIForm, diffEvent_marked]
  simp only [Except.toOption, convertObjectStateToAPIForm_eq hform, convertObjectStateToAPIForm_eq hform',
    Option.bind_eq_bind, Option.bind_some, hfst, hsnd, convertedDiff]

/-- **Converting and comparing commute** exactly when the masked paths can be converted and nothing shows
that only one of the two forms masks. -/
theorem apiForm_commutes_iff (prev cur : ControllerObject) (m : ControllerMasks) :
    APIFormCommutes (some prev.event) (some cur.event) m.masks ↔
      PathsConvert m.masks.fieldPathMask ∧ MaskedAlike prev.event cur.event m.masks := by
  obtain ⟨keys, hkeymask, hkeys⟩ := convertFieldKeyMask_eq m.keys
  obtain ⟨hconvert, hpanic⟩ := convertFieldPathMask_eq m.masks.fieldPathMask
  have hprev := @convertObjectStateToAPIForm_eq (some prev.event) prev.form
  have hcur := @convertObjectStateToAPIForm_eq (some cur.event) cur.form
  rw [Option.getD_some] at hprev hcur
  by_cases hpaths : PathsConvert m.masks.fieldPathMask
  · obtain ⟨paths, hpathmask, htexts⟩ := hconvert hpaths
    have hin : diffInAPIForm (some prev.event) (some cur.event) m.masks =
        some (diffEventAsMap (some (markedFields ⟨texts keys, apiPaths m.masks.fieldPathMask⟩
            (apiFields prev.event)))
          (some (markedFields ⟨texts keys, apiPaths m.masks.fieldPathMask⟩ (apiFields cur.event)))) := by
      rw [diffInAPIForm, hprev, hcur, hkeymask, hpathmask]
      simp only [Option.bind_eq_bind, Option.bind_some, diffEvent_marked, htexts, Except.toOption]
    obtain ⟨hfst, hsnd⟩ := diffEventAsMap_getD
      (markedFields ⟨texts keys, apiPaths m.masks.fieldPathMask⟩ (apiFields prev.event))
      (markedFields ⟨texts keys, apiPaths m.masks.fieldPathMask⟩ (apiFields cur.event))
    have hp := markedFields_distinct ⟨texts keys, apiPaths m.masks.fieldPathMask⟩ (apiFields_distinct prev.form)
    have hc := markedFields_distinct ⟨texts keys, apiPaths m.masks.fieldPathMask⟩ (apiFields_distinct cur.form)
    obtain ⟨hd, hd'⟩ : Json.Distinct
          (.obj (apiDiff ⟨texts keys, apiPaths m.masks.fieldPathMask⟩ prev.event cur.event).1) ∧
        Json.Distinct (.obj (apiDiff ⟨texts keys, apiPaths m.masks.fieldPathMask⟩ prev.event cur.event).2) :=
      mapDiff_sides (.obj List.nodup_nil (by simp)) fun x y hdiff => diffValue_distinct hp hc hdiff
    obtain ⟨hform, hform'⟩ := controllerDiff_form m prev.form cur.form
    have hd₁ : Json.Distinct (.obj (convertedDiff m prev.event cur.event).1) := apiFields_distinct hform
    have hd₂ : Json.Distinct (.obj (convertedDiff m prev.event cur.event).2) := apiFields_distinct hform'
    have hsides : APIFormCommutes (some prev.event) (some cur.event) m.masks ↔
        (∀ key, key ≠ SIEVE_CAN_MARKER → Option.Rel (Json.Equal goScalarEqual)
          ((apiDiff ⟨texts keys, apiPaths m.masks.fieldPathMask⟩ prev.event cur.event).1.lookup key)
          ((convertedDiff m prev.event cur.event).1.lookup key)) ∧
        ∀ key, key ≠ SIEVE_CAN_MARKER → Option.Rel (Json.Equal goScalarEqual)
          ((apiDiff ⟨texts keys, apiPaths m.masks.fieldPathMask⟩ prev.event cur.event).2.lookup key)
          ((convertedDiff m prev.event cur.event).2.lookup key) := by
      rw [← equal_butMarker_iff hd hd₁, ← equal_butMarker_iff hd' hd₂, APIFormCommutes, hin, diffThenAPIForm_eq m prev.form cur.form]
      simp only [Option.some.injEq, exists_and_left, exists_eq_left', SameButMarker, hfst, hsnd]
      exact Iff.rfl
    rw [hsides, and_iff_right hpaths, maskedAlike_iff prev.form cur.form hkeys, ← forall_and]
    refine forall_congr' fun key => ?_
    rw [SidesSameAt, ← imp_and]
  · refine iff_of_false ?_ fun h => hpaths h.1
    rintro ⟨diff, diff', hin, -⟩
    rw [diffInAPIForm, hprev, hcur, hkeymask, hpanic hpaths] at hin
    cases hin

end Sieve.Server
