import Mathlib.Data.Finset.Option
import Sieve.Event.MapKeys
import Sieve.Server.APIForm
import Sieve.Server.Event

/-!
# States and masks in the form of the API server

* `convertObjectStateToAPIForm`: the fields of `metadata` stand outside, and every other key, at every level,
  begins with a capital;
* `convertFieldPathMaskToAPIForm`, `convertFieldKeyMaskToAPIForm`: the masks of one resource;
* `ControllerState`: a state in the form of the controller, with `convertObjectStateToAPIForm_eq`;
* `lookup_apiFields`: what stands under a key of the converted state.
-/

namespace Sieve.Server

open Sieve.Event

/-! ### Keys -/

/-- The characters of a Go string in which every byte belongs to one. -/
def textOf : List GoRune → Option (List Char)
  | [] => some []
  | .char c :: runes => (textOf runes).map (c :: ·)
  | .byte _ :: _ => none

theorem textOf_goText (text : List Char) : textOf (goText text) = some text := by
  induction text with
  | nil => rfl
  | cons c text ih =>
    show (textOf (goText text)).map (c :: ·) = _
    rw [ih, Option.map_some]

theorem textOf_eq_some {runes : List GoRune} {text : List Char} (h : textOf runes = some text) :
    runes = goText text := by
  induction runes generalizing text with
  | nil =>
    rw [textOf, Option.some.injEq] at h
    rw [← h]
    rfl
  | cons rune runes ih =>
    cases rune with
    | byte b => cases h
    | char c =>
      rw [textOf] at h
      obtain ⟨rest, hrest, rfl⟩ := Option.map_eq_some_iff.mp h
      rw [ih hrest]
      rfl

/-- `none` where it panics.  A key that falls apart is no text, and is none either. -/
def capitalizeKey (key : String) : Option String :=
  ((capitalizeFirst key.toList).bind textOf).map String.ofList

/-- The key begins with a lower-case letter. -/
def IsLowerKey (key : String) : Prop := ∃ c rest, key.toList = c :: rest ∧ c.isLower = true

def swapCase (c : Char) : Char := if c.isLower then c.toUpper else c.toLower

/-- The first letter in the other case. -/
def swapFirst (key : String) : String :=
  match key.toList with
  | [] => ""
  | c :: rest => String.ofList (swapCase c :: rest)

theorem swapCase_swapCase (c : Char) : swapCase (swapCase c) = c := by
  by_cases hlower : c.isLower
  · have hupper : ¬ c.isUpper := Char.not_isUpper_of_isLower hlower
    have hfirst : swapCase c = c.toUpper := if_pos hlower
    rw [hfirst, swapCase, if_neg (by simp), Char.toLower_toUpper_eq_toLower,
      Char.toLower_eq_of_not_isUpper hupper]
  · have hfirst : swapCase c = c.toLower := if_neg hlower
    rw [hfirst, swapCase]
    split
    · rw [Char.toUpper_toLower_eq_toUpper, Char.toUpper_eq_of_not_isLower hlower]
    · rename_i hlower'
      have hupper : ¬ c.isUpper := by
        intro hupper
        simp [Char.isAlpha, hupper] at hlower'
      rw [Char.toLower_toLower_eq_toLower, Char.toLower_eq_of_not_isUpper hupper]

theorem swapFirst_toList (key : String) : (swapFirst key).toList = key.toList.modifyHead swapCase := by
  rw [swapFirst]
  split
  · rename_i h
    rw [h]
    rfl
  · rename_i c rest h
    rw [h, String.toList_ofList, List.modifyHead_cons]

theorem swapFirst_swapFirst (key : String) : swapFirst (swapFirst key) = key := by
  rw [← String.toList_inj, swapFirst_toList, swapFirst_toList, List.modifyHead_modifyHead]
  have hid : swapCase ∘ swapCase = id := funext swapCase_swapCase
  rw [hid]
  cases key.toList <;> rfl

theorem swapFirst_injective : swapFirst.Injective := fun key key' h => by
  rw [← swapFirst_swapFirst key, h, swapFirst_swapFirst]

/-- A lower-case letter is ASCII. -/
theorem isLower_ascii {c : Char} (h : c.isLower = true) : c.toNat < 128 := by
  simp only [Char.isLower, Bool.and_eq_true, decide_eq_true_eq, UInt32.le_iff_toNat_le] at h
  have hle : c.toNat ≤ 122 := h.2
  omega

theorem capitalizeKey_lower {key : String} (h : IsLowerKey key) :
    capitalizeKey key = some (swapFirst key) := by
  obtain ⟨c, rest, hkey, hlower⟩ := h
  rw [capitalizeKey, hkey, capitalizeFirst, if_pos (isLower_ascii hlower), Option.bind_some, textOf_goText,
    Option.map_some, Option.some.injEq, ← String.toList_inj, swapFirst_toList, hkey, String.toList_ofList,
    List.modifyHead_cons, swapCase, if_pos hlower]

/-- The other case is not lower. -/
theorem swapFirst_not_lower {key : String} (h : IsLowerKey key) : ¬ IsLowerKey (swapFirst key) := by
  obtain ⟨c, rest, hkey, hlower⟩ := h
  rintro ⟨c', rest', hkey', hlower'⟩
  rw [swapFirst_toList, hkey, List.modifyHead_cons, swapCase, if_pos hlower] at hkey'
  rw [← (List.cons.inj hkey').1, Char.isLower_toUpper_eq_false] at hlower'
  cases hlower'

instance : DecidablePred IsLowerKey := fun key =>
  match h : key.toList with
  | [] => isFalse fun ⟨c, rest, hkey, _⟩ => by rw [h] at hkey; cases hkey
  | c :: rest =>
    if hc : c.isLower = true then isTrue ⟨c, rest, h, hc⟩
    else isFalse fun ⟨c', rest', hkey, hc'⟩ => by
      rw [h] at hkey
      exact hc ((List.cons.inj hkey).1 ▸ hc')

/-! ### States -/

mutual

/-- The type switch of the two functions. -/
def capitalizeValue : Json → Option Json
  | .obj event => (capitalizeEventAsMap event []).map .obj
  | .arr event => (capitalizeEventAsList event).map .arr
  | val => some val

def capitalizeEventAsList : List Json → Option (List Json)
  | [] => some []
  | val :: event => do
    let val ← capitalizeValue val
    let capitalizedEvent ← capitalizeEventAsList event
    some (val :: capitalizedEvent)

/-- `capitalizedEvent` holds the fields so far. -/
def capitalizeEventAsMap : Fields → Fields → Option Fields
  | [], capitalizedEvent => some capitalizedEvent
  | (key, val) :: event, capitalizedEvent => do
    let key ← capitalizeKey key
    let val ← capitalizeValue val
    capitalizeEventAsMap event (Fields.insert capitalizedEvent key val)

end

/-- `for key, val := range event { conformedEvent[key] = val }`. -/
def insertAll (conformedEvent event : Fields) : Fields :=
  event.foldl (fun conformedEvent field => Fields.insert conformedEvent field.1 field.2) conformedEvent

/-- `none` is where it panics.  The argument loses its `metadata`, which no caller reads again. -/
def convertObjectStateToAPIForm (event : GoMap) : Option Fields := do
  let event := event.getD []
  let conformedEvent ←
    match event.lookup "metadata" with
    | none => some []
    | some (.obj metadataMap) => some (insertAll [] metadataMap)
    | some _ => none
  let capitalizedEvent ← capitalizeEventAsMap (Fields.erase event "metadata") []
  some (insertAll conformedEvent capitalizedEvent)

/-! ### Masks -/

/-- The masked paths of one resource; `none` is where it panics. -/
def convertFieldPathMaskToAPIForm (fieldPathMask : Finset String) : Option (Finset (List GoRune)) :=
  if ∀ maskedPath ∈ fieldPathMask, (convertMaskedPath maskedPath.toList).isSome then
    some (fieldPathMask.image fun maskedPath => (convertMaskedPath maskedPath.toList).getD [])
  else none

/-- The masked keys of one resource: each as it is, and with a capital. -/
def convertFieldKeyMaskToAPIForm (fieldKeyMask : Finset String) : Option (Finset (List GoRune)) :=
  if ∀ key ∈ fieldKeyMask, (capitalizeFirst key.toList).isSome then
    some (fieldKeyMask.image (fun key => goText key.toList) ∪
      fieldKeyMask.image fun key => (capitalizeFirst key.toList).getD [])
  else none

/-- The texts of a set of Go strings: only these are keys or paths of a state. -/
def texts (mask : Finset (List GoRune)) : Finset String :=
  (mask.image fun runes => (textOf runes).map String.ofList).eraseNone

theorem mem_texts {mask : Finset (List GoRune)} {text : String} :
    text ∈ texts mask ↔ goText text.toList ∈ mask := by
  rw [texts, Finset.mem_eraseNone, Finset.mem_image]
  constructor
  · rintro ⟨runes, hmem, htext⟩
    obtain ⟨chars, hchars, rfl⟩ := Option.map_eq_some_iff.mp htext
    rw [String.toList_ofList, ← textOf_eq_some hchars]
    exact hmem
  · intro hmem
    exact ⟨_, hmem, by rw [textOf_goText, Option.map_some, String.ofList_toList]⟩

/-! ### States in the form of the controller -/

/-- Distinct keys that begin with a lower-case letter, at every level, and `metadata` is an object. -/
structure ControllerForm (event : Fields) : Prop where
  distinct : Json.Distinct (.obj event)
  keys : Json.AllKeys IsLowerKey (.obj event)
  metadata : ∀ x, event.lookup "metadata" = some x → ∃ fields, x = .obj fields

/-- The fields of `metadata`. -/
def metadataOf (event : Fields) : Fields :=
  match event.lookup "metadata" with
  | some (.obj metadataMap) => metadataMap
  | _ => []

/-- Fields as they are, and fields whose keys get capitals at every level. -/
def merged (metadataMap others : Fields) : Fields := metadataMap ++ mapKeysFields swapFirst others

/-- Fields with other keys are appended. -/
theorem insertAll_eq {conformedEvent event : Fields} (hevent : (event.map Prod.fst).Nodup)
    (h : ∀ key ∈ event.map Prod.fst, conformedEvent.lookup key = none) :
    insertAll conformedEvent event = conformedEvent ++ event := by
  induction event generalizing conformedEvent with
  | nil => simp [insertAll]
  | cons field event ih =>
    obtain ⟨key, value⟩ := field
    rw [List.map_cons, List.nodup_cons] at hevent
    obtain ⟨hkey, hrest⟩ := List.forall_mem_cons.mp h
    have hstep : insertAll conformedEvent ((key, value) :: event) =
        insertAll (conformedEvent ++ [(key, value)]) event := by
      rw [← insert_fresh hkey value]
      rfl
    rw [hstep, ih hevent.2 fun key' hmem => ?_, List.append_assoc, List.singleton_append]
    have hne : key' ≠ key := fun heq => hevent.1 (heq ▸ hmem)
    rw [List.lookup_append, hrest key' hmem, List.lookup_cons, beq_eq_false_iff_ne.mpr hne]
    rfl

theorem capitalizeEventAsList_eq {event : List Json}
    (h : ∀ x ∈ event, capitalizeValue x = some (x.mapKeys swapFirst)) :
    capitalizeEventAsList event = some (event.map (Json.mapKeys swapFirst)) := by
  induction event with
  | nil => rfl
  | cons x event ih =>
    obtain ⟨hx, hrest⟩ := List.forall_mem_cons.mp h
    rw [capitalizeEventAsList, hx, ih hrest]
    rfl

theorem capitalizeEventAsMap_eq {event capitalizedEvent : Fields} (hkeys : (event.map Prod.fst).Nodup)
    (hlower : ∀ field ∈ event, IsLowerKey field.1)
    (h : ∀ field ∈ event, capitalizeValue field.2 = some (field.2.mapKeys swapFirst))
    (hfresh : ∀ key ∈ event.map Prod.fst, capitalizedEvent.lookup (swapFirst key) = none) :
    capitalizeEventAsMap event capitalizedEvent = some (merged capitalizedEvent event) := by
  induction event generalizing capitalizedEvent with
  | nil => simp [capitalizeEventAsMap, merged, mapKeysFields]
  | cons field event ih =>
    obtain ⟨key, x⟩ := field
    obtain ⟨hkey, hlower⟩ := List.forall_mem_cons.mp hlower
    obtain ⟨hx, h⟩ := List.forall_mem_cons.mp h
    obtain ⟨hfirst, hfresh⟩ := List.forall_mem_cons.mp hfresh
    rw [List.map_cons, List.nodup_cons] at hkeys
    have hstep : capitalizeEventAsMap ((key, x) :: event) capitalizedEvent =
        capitalizeEventAsMap event (capitalizedEvent ++ [(swapFirst key, x.mapKeys swapFirst)]) := by
      rw [capitalizeEventAsMap, capitalizeKey_lower hkey, hx, ← insert_fresh hfirst]
      rfl
    rw [hstep, ih hkeys.2 hlower h fun key' hmem => ?_, merged, merged, mapKeysFields, List.append_assoc,
      List.singleton_append]
    have hne : swapFirst key' ≠ swapFirst key := fun heq => hkeys.1 (swapFirst_injective heq ▸ hmem)
    rw [List.lookup_append, hfresh key' hmem, List.lookup_cons, beq_eq_false_iff_ne.mpr hne]
    rfl

/-- At every level the keys get capitals. -/
theorem capitalizeValue_eq {x : Json} (hx : x.Distinct) (hlower : x.AllKeys IsLowerKey) :
    capitalizeValue x = some (x.mapKeys swapFirst) := by
  induction x using Json.induct with
  | scalar x hscalar =>
    rw [mapKeys_scalar hscalar]
    cases x with
    | arr items => exact hscalar.elim
    | obj fields => exact hscalar.elim
    | _ => rw [capitalizeValue] <;> exact nofun
  | arr items ih =>
    rw [capitalizeValue, mapKeys_arr,
      capitalizeEventAsList_eq fun x hmem => ih x hmem (hx.items x hmem) (hlower.items x hmem)]
    rfl
  | obj fields ih =>
    rw [capitalizeValue, mapKeys_obj, capitalizeEventAsMap_eq hx.keys hlower.keys
      (fun field hmem => ih field hmem (hx.values field hmem) (hlower.values field hmem)) fun _ _ => rfl]
    rfl

theorem allKeys_erase {P : String → Prop} {fields : Fields} (h : Json.AllKeys P (.obj fields))
    (key : String) : Json.AllKeys P (.obj (Fields.erase fields key)) :=
  .obj (fun field hmem => h.keys field (List.mem_of_mem_filter hmem))
    fun field hmem => h.values field (List.mem_of_mem_filter hmem)

theorem metadataOf_form {event : Fields} (h : ControllerForm event) :
    Json.Distinct (.obj (metadataOf event)) ∧ Json.AllKeys IsLowerKey (.obj (metadataOf event)) := by
  rw [metadataOf]
  split
  · rename_i metadataMap hlookup
    have hmem := lookup_mem hlookup
    exact ⟨h.distinct.values _ hmem, h.keys.values _ hmem⟩
  · exact ⟨.obj List.nodup_nil (by simp), .obj (by simp) (by simp)⟩

/-- The converted state. -/
def apiFields (event : Fields) : Fields := merged (metadataOf event) (Fields.erase event "metadata")

/-- Keys that get capitals are not among those that stay. -/
theorem merged_fresh {metadataMap others : Fields} (hmetadata : Json.AllKeys IsLowerKey (.obj metadataMap))
    (hothers : Json.AllKeys IsLowerKey (.obj others)) :
    ∀ key ∈ (mapKeysFields swapFirst others).map Prod.fst, metadataMap.lookup key = none := by
  intro key hmem
  rw [mapKeys_keys, List.map_map] at hmem
  obtain ⟨field, hfield, rfl⟩ := List.mem_map.mp hmem
  rw [lookup_none_iff]
  intro hex
  obtain ⟨field', hfield', heq⟩ := List.mem_map.mp hex
  refine swapFirst_not_lower (hothers.keys field hfield) ?_
  have hlower := hmetadata.keys field' hfield'
  rw [heq] at hlower
  exact hlower

theorem convertObjectStateToAPIForm_eq {event : GoMap} (h : ControllerForm (event.getD [])) :
    convertObjectStateToAPIForm event = some (apiFields (event.getD [])) := by
  have hothers := allKeys_erase h.keys "metadata"
  have hdistinct := @erase_distinct _ "metadata" h.distinct
  have hcapital : capitalizeEventAsMap (Fields.erase (event.getD []) "metadata") [] =
      some (mapKeysFields swapFirst (Fields.erase (event.getD []) "metadata")) :=
    capitalizeEventAsMap_eq hdistinct.keys hothers.keys
      (fun field hmem => capitalizeValue_eq (hdistinct.values field hmem) (hothers.values field hmem))
      fun _ _ => rfl
  obtain ⟨hmetadata, hlower⟩ := metadataOf_form h
  have hinsert : insertAll (metadataOf (event.getD []))
      (mapKeysFields swapFirst (Fields.erase (event.getD []) "metadata")) = apiFields (event.getD []) := by
    refine insertAll_eq ?_ (merged_fresh hlower hothers)
    rw [mapKeys_keys]
    exact hdistinct.keys.map swapFirst_injective
  rw [convertObjectStateToAPIForm]
  cases hlookup : (event.getD []).lookup "metadata" with
  | none =>
    have hmoved : metadataOf (event.getD []) = [] := by rw [metadataOf, hlookup]
    rw [hmoved] at hinsert
    simp only [hcapital, hinsert, Option.bind_eq_bind, Option.bind_some]
  | some x =>
    obtain ⟨metadataMap, rfl⟩ := h.metadata x hlookup
    have hmoved : insertAll [] metadataMap = metadataOf (event.getD []) := by
      rw [metadataOf, hlookup] at hmetadata ⊢
      exact insertAll_eq hmetadata.keys fun _ _ => rfl
    simp only [hmoved, hcapital, hinsert, Option.bind_eq_bind, Option.bind_some]

/-! ### Keys of the converted state -/

theorem lookup_lower {P : String → Prop} {fields : Fields} (h : Json.AllKeys P (.obj fields)) {key : String}
    (hkey : ¬ P key) : fields.lookup key = none := by
  rw [lookup_none_iff]
  intro hmem
  obtain ⟨field, hfield, rfl⟩ := List.mem_map.mp hmem
  exact hkey (h.keys field hfield)

/-- A key that begins with a lower-case letter is a field of `metadata`. -/
theorem lookup_merged_lower {metadataMap others : Fields} (hothers : Json.AllKeys IsLowerKey (.obj others))
    {key : String} (hkey : IsLowerKey key) : (merged metadataMap others).lookup key = metadataMap.lookup key := by
  have hnone : (mapKeysFields swapFirst others).lookup key = none := by
    have hlookup := lookup_mapKeys swapFirst_injective others (swapFirst key)
    rw [swapFirst_swapFirst, lookup_lower hothers (swapFirst_not_lower hkey)] at hlookup
    exact hlookup
  rw [merged, List.lookup_append, hnone, Option.or_none]

/-- Any other key is that of another field. -/
theorem lookup_merged_upper {metadataMap others : Fields}
    (hmetadata : Json.AllKeys IsLowerKey (.obj metadataMap)) {key : String} (hkey : ¬ IsLowerKey key) :
    (merged metadataMap others).lookup key =
      (others.lookup (swapFirst key)).map (Json.mapKeys swapFirst) := by
  have hlookup := lookup_mapKeys swapFirst_injective others (swapFirst key)
  rw [swapFirst_swapFirst] at hlookup
  rw [merged, List.lookup_append, lookup_lower hmetadata hkey, Option.none_or, hlookup]

end Sieve.Server
