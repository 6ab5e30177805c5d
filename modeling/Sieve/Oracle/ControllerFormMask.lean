import Mathlib.Algebra.Order.BigOperators.Group.Finset
import Sieve.Event.Dialect
import Sieve.Oracle.MaskPaths
import Sieve.Server.MaskedData

/-!
# Learned masks of objects in the controller's form

Custom resources are recorded as the controller sees them; `generate_state_mask` translates their masked
paths all the same.

* `ControllerForm`: the translation leaves the path alone;
* `mem_mask_iff`: when all masked paths are in the mask;
* `ReplacesLeaf`, `canonicalize_replacesLeaf`: a masked place with another value;
* `maskHides_iff`: when the mask has all masked paths and hides what stands there.
-/

namespace Sieve.Oracle

open Sieve.Event

/-! ### Maps of a finite set onto more than the set -/

/-- A map that covers a finite set from itself, and makes nothing smaller, keeps the elements apart and
their sizes. -/
theorem injOn_of_subset_image {α : Type} [DecidableEq α] {S : Finset α} (f : α → α) (size : α → ℕ)
    (hcover : S ⊆ S.image f) (hsize : ∀ x ∈ S, size x ≤ size (f x)) :
    S.image f = S ∧ Set.InjOn f S ∧ ∀ x ∈ S, size (f x) = size x := by
  have himage : S = S.image f := Finset.eq_of_subset_of_card_le hcover Finset.card_image_le
  have hinj : Set.InjOn f S := Finset.card_image_iff.mp (by rw [← himage])
  have hsum : ∑ x ∈ S, size (f x) = ∑ x ∈ S, size x := by
    rw [← Finset.sum_image (f := size) hinj, ← himage]
  refine ⟨himage.symm, hinj, fun x hx => ?_⟩
  exact ((Finset.sum_eq_sum_iff_of_le hsize).mp hsum.symm x hx).symm

/-! ### The mask -/

/-- The mask of the object. -/
def stateMaskOf (python : PythonLower) (data : Fields) (key : String) : List (List String) :=
  ((generateStateMask python data).lookup key).getD []

/-- No component begins with a letter that has another lower case, and the first one is not a field of
the metadata. -/
def ControllerForm (python : PythonLower) (path : List String) : Prop :=
  (∀ component ∈ path, python.lowerFirst component.toList = component.toList) ∧
    ∀ first, path.head? = some first → first ∉ METADATA_FIELDS

/-- What has been lowered is in lower case. -/
def PythonLower.Stable (python : PythonLower) : Prop :=
  ∀ component, python.lowerFirst (python.lowerFirst component) = python.lowerFirst component

section Translation

variable {python : PythonLower} {path : List String}

theorem length_le_translate (path : List String) :
    path.length ≤ (translateMaskedFieldPath python path).length := by
  cases path with
  | nil => simp [translateMaskedFieldPath]
  | cons first rest =>
    rw [translateMaskedFieldPath]
    split <;> simp

theorem translate_eq_self_iff :
    translateMaskedFieldPath python path = path ↔ ControllerForm python path := by
  cases path with
  | nil => simp [translateMaskedFieldPath, ControllerForm]
  | cons first rest =>
    rw [translateMaskedFieldPath]
    by_cases hmetadata : first ∈ METADATA_FIELDS
    · refine iff_of_false ?_ fun h => h.2 first rfl hmetadata
      rw [if_pos hmetadata]
      intro heq
      have hlength := congrArg List.length heq
      simp at hlength
    · have hcomponent : ∀ component : String,
          String.ofList (python.lowerFirst component.toList) = component ↔
            python.lowerFirst component.toList = component.toList := by
        intro component
        rw [← String.toList_inj, String.toList_ofList]
      have hmap : ((first :: rest).map fun component =>
          String.ofList (python.lowerFirst component.toList)) = (first :: rest).map id ↔
          ∀ component ∈ first :: rest, String.ofList (python.lowerFirst component.toList) = component :=
        List.map_inj_left
      rw [List.map_id] at hmap
      rw [if_neg hmetadata, ControllerForm, hmap]
      simp [hcomponent, hmetadata]

/-- A second translation changes nothing that the first has left outside the metadata. -/
theorem translate_twice (hstable : python.Stable)
    (hlength : (translateMaskedFieldPath python path).length = path.length)
    (hlength' : (translateMaskedFieldPath python (translateMaskedFieldPath python path)).length =
      (translateMaskedFieldPath python path).length) :
    translateMaskedFieldPath python (translateMaskedFieldPath python path) =
      translateMaskedFieldPath python path := by
  cases path with
  | nil => rfl
  | cons first rest =>
    by_cases hmetadata : first ∈ METADATA_FIELDS
    · rw [translateMaskedFieldPath, if_pos hmetadata] at hlength
      simp at hlength
    · rw [translate_eq_self_iff]
      rw [translateMaskedFieldPath, if_neg hmetadata] at hlength' ⊢
      refine ⟨fun component hcomponent => ?_, fun first' hfirst' hmetadata' => ?_⟩
      · obtain ⟨part, _, rfl⟩ := List.mem_map.mp hcomponent
        rw [String.toList_ofList, hstable]
      · rw [List.map_cons] at hlength' hfirst'
        rw [translateMaskedFieldPath, if_pos (Option.some.inj hfirst' ▸ hmetadata')] at hlength'
        simp at hlength'

end Translation

section Mask

variable {python : PythonLower} {data : Fields} {key : String} {obj : Fields}

theorem mem_stateMaskOf (hkeys : (data.map Prod.fst).Nodup) (hmem : (key, .obj obj) ∈ data)
    (path : List String) : path ∈ stateMaskOf python data key ↔
      ∃ masked, MaskedPlace (.obj obj) masked ∧ translateMaskedFieldPath python masked = path := by
  have hlookup : ∀ {data : Fields}, (data.map Prod.fst).Nodup → (key, .obj obj) ∈ data →
      (generateStateMask python data).lookup key =
        some (((generateStateMaskHelper [] (.obj obj) []).map
          (translateMaskedFieldPath python)).insertionSort (· ≤ ·)) := by
    intro data hkeys hmem
    induction data with
    | nil => cases hmem
    | cons object data ih =>
      obtain ⟨hnot, hkeys⟩ := List.nodup_cons.mp hkeys
      rcases List.mem_cons.mp hmem with rfl | hmem
      · simp [generateStateMask, isLearnMask]
      · have hne : key ≠ object.1 := by
          rintro rfl
          exact hnot (List.mem_map.mpr ⟨_, hmem, rfl⟩)
        rw [generateStateMask, List.filterMap_cons]
        split
        · exact ih hkeys hmem
        · rename_i masks hmasks
          split at hmasks
          · cases hmasks
          · rw [← Option.some.inj hmasks, List.lookup_cons, beq_false_of_ne hne]
            exact ih hkeys hmem
  rw [stateMaskOf, hlookup hkeys hmem, Option.getD_some, List.mem_insertionSort, List.mem_map]
  simp [mem_generateStateMaskHelper]

/-- **All masked paths are in the mask if and only if the translation leaves them alone.** -/
theorem mem_mask_iff (hstable : python.Stable) (hkeys : (data.map Prod.fst).Nodup)
    (hmem : (key, .obj obj) ∈ data) :
    (∀ path, MaskedPlace (.obj obj) path → path ∈ stateMaskOf python data key) ↔
      ∀ path, MaskedPlace (.obj obj) path → ControllerForm python path := by
  have hplaces : ∀ path, path ∈ (generateStateMaskHelper [] (.obj obj) []).toFinset ↔
      MaskedPlace (.obj obj) path := by
    intro path
    simp [mem_generateStateMaskHelper]
  simp only [mem_stateMaskOf hkeys hmem]
  constructor
  · intro h path hpath
    have hcover : (generateStateMaskHelper [] (.obj obj) []).toFinset ⊆
        (generateStateMaskHelper [] (.obj obj) []).toFinset.image (translateMaskedFieldPath python) := by
      intro path hpath
      obtain ⟨masked, hmasked, htranslated⟩ := h path ((hplaces path).mp hpath)
      exact Finset.mem_image.mpr ⟨masked, (hplaces masked).mpr hmasked, htranslated⟩
    obtain ⟨himage, hinj, hsize⟩ := injOn_of_subset_image (translateMaskedFieldPath python) List.length
      hcover fun path _ => length_le_translate path
    have hpath' := (hplaces path).mpr hpath
    have htranslated : translateMaskedFieldPath python path ∈
        (generateStateMaskHelper [] (.obj obj) []).toFinset := by
      have hin := Finset.mem_image_of_mem (translateMaskedFieldPath python) hpath'
      rwa [himage] at hin
    exact translate_eq_self_iff.mp
      (hinj htranslated hpath' (translate_twice hstable (hsize _ hpath') (hsize _ htranslated)))
  · intro h path hpath
    exact ⟨path, hpath, translate_eq_self_iff.mpr (h path hpath)⟩

end Mask

/-! ### What the mask hides -/

/-- What stands at a masked place of the object is replaced. -/
inductive ReplacesLeaf : Json → Json → Json → Prop where
  | here (x x' : Json) : ReplacesLeaf (.str SIEVE_LEARN_VALUE_MASK) x x'
  | item {obj before after : List Json} {val x x' : Json} (hval : obj[before.length]? = some val)
      (h : ReplacesLeaf val x x') :
      ReplacesLeaf (.arr obj) (.arr (before ++ x :: after)) (.arr (before ++ x' :: after))
  | field {obj before after : Fields} {key : String} {val x x' : Json} (hval : (key, val) ∈ obj)
      (h : ReplacesLeaf val x x') :
      ReplacesLeaf (.obj obj) (.obj (before ++ (key, x) :: after)) (.obj (before ++ (key, x') :: after))

/-- Two versions of the object that differ only at its masked places. -/
def DifferOnlyAtLeaves (obj event event' : Fields) : Prop :=
  Relation.ReflTransGen (ReplacesLeaf (.obj obj)) (.obj event) (.obj event')

/-- One of the paths to the place, as `os.path.join` makes them on the way, is such a path. -/
def OnTheWay (isMasked : String → Prop) : String → List String → Prop
  | _, [] => False
  | parentPath, component :: path => isMasked (pythonJoin parentPath component) ∨
    OnTheWay isMasked (pythonJoin parentPath component) path

theorem OnTheWay.mono {isMasked isMasked' : String → Prop} (h : ∀ path, isMasked path → isMasked' path)
    {parentPath : String} {path : List String} (hway : OnTheWay isMasked parentPath path) :
    OnTheWay isMasked' parentPath path := by
  induction path generalizing parentPath with
  | nil => exact hway
  | cons component path ih => exact hway.imp (h _) ih

/-- The masked paths of the object, as they are written. -/
def IsWritten (obj : Fields) (path : String) : Prop :=
  ∃ masked, MaskedPlace (.obj obj) masked ∧ "/".intercalate masked = path

/-- `os.path.join` puts a slash before and after such a component. -/
def IsPlain (component : String) : Prop :=
  component ≠ "" ∧ component.toList.head? ≠ some '/' ∧ component.toList.getLast? ≠ some '/'

instance (component : String) : Decidable (IsPlain component) := inferInstanceAs (Decidable (_ ∧ _))

theorem onTheWay_of_foldl {isMasked : String → Prop} {path : List String} (hne : path ≠ [])
    {parentPath : String} (h : isMasked (path.foldl pythonJoin parentPath)) :
    OnTheWay isMasked parentPath path := by
  induction path generalizing parentPath with
  | nil => exact absurd rfl hne
  | cons component path ih =>
    by_cases hpath : path = []
    · rw [hpath] at h
      exact .inl h
    · exact .inr (ih hpath h)

/-- Plain components are joined as they are written. -/
theorem foldl_pythonJoin_eq {parentPath : String} {path : List String} (hparent : parentPath ≠ "")
    (hslash : parentPath.toList.getLast? ≠ some '/') (hplain : ∀ component ∈ path, IsPlain component) :
    path.foldl pythonJoin parentPath = "/".intercalate (parentPath :: path) := by
  induction path generalizing parentPath with
  | nil => rw [List.foldl_nil, String.intercalate_singleton]
  | cons component path ih =>
    rw [List.forall_mem_cons] at hplain
    obtain ⟨⟨hne, hhead, hlast⟩, hplain⟩ := hplain
    have hjoin : pythonJoin parentPath component = parentPath ++ "/" ++ component := by
      rw [pythonJoin, if_neg (by simpa using hhead), if_neg (by simp [hparent, hslash])]
    have hcomponent : component.toList ≠ [] := by simpa using hne
    rw [List.foldl_cons, hjoin, ih (by simp) ?_ hplain, ← String.toList_inj]
    · simp only [String.toList_intercalate, List.map_cons, String.toList_append]
      cases path with
      | nil => simp [List.intercalate_cons_cons]
      | cons second path => simp [List.intercalate_cons_cons]
    · rw [String.toList_append, List.getLast?_append_of_ne_nil _ hcomponent]
      exact hlast

theorem onTheWay_of_plain {obj : Fields} {path : List String} (h : MaskedPlace (.obj obj) path)
    (hplain : ∀ component ∈ path, IsPlain component) : OnTheWay (IsWritten obj) "" path := by
  cases path with
  | nil => cases h
  | cons first path =>
    rw [List.forall_mem_cons] at hplain
    obtain ⟨⟨hne, hhead, hlast⟩, hplain⟩ := hplain
    refine onTheWay_of_foldl (List.cons_ne_nil first path) ⟨first :: path, h, ?_⟩
    have hfirst : pythonJoin "" first = first := by
      rw [pythonJoin, if_neg (by simpa using hhead)]
      simp
    rw [List.foldl_cons, hfirst, foldl_pythonJoin_eq hne hlast hplain]

section Canonical

variable {fieldKeyMask fieldPathMask : Finset String}

/-- **Another value at a masked place does not change the canonical form** if a path on the way to it is
masked. -/
theorem canonicalize_replacesLeaf {obj x x' : Json} (h : ReplacesLeaf obj x x') (parentPath : String)
    (hmasked : ∀ path, MaskedPlace obj path → OnTheWay (· ∈ fieldPathMask) parentPath path) :
    canonicalizeField Event.python fieldKeyMask fieldPathMask parentPath x' =
      canonicalizeField Event.python fieldKeyMask fieldPathMask parentPath x := by
  induction h generalizing parentPath with
  | here x x' => exact (hmasked [] .here).elim
  | @item obj before after val x x' hval _ ih =>
    apply canonicalizeField_arr_congr
    rw [canonicalizeItem, canonicalizeItem]
    split
    · rfl
    · rename_i hitem
      refine ih _ fun path hpath => ?_
      exact (hmasked _ (.item (List.mem_of_getElem? hval) hpath)).resolve_left hitem
  | @field obj before after key val x x' hval _ ih =>
    apply canonicalizeField_obj_congr
    rw [canonicalizeUnder, canonicalizeUnder]
    split
    · rfl
    · rename_i hkey
      refine ih _ fun path hpath => ?_
      exact (hmasked _ (.field hval hpath)).resolve_left fun h => hkey (.inr h)

/-- Where no path on the way is masked, another value shows. -/
theorem exists_replacesLeaf {obj : Json} {path : List String} (h : MaskedPlace obj path)
    (parentPath : String) (hnot : ¬ OnTheWay (· ∈ fieldPathMask) parentPath path) :
    ∃ x', ReplacesLeaf obj obj x' ∧ canonicalizeField Event.python ∅ fieldPathMask parentPath x' ≠
      canonicalizeField Event.python ∅ fieldPathMask parentPath obj := by
  induction h generalizing parentPath with
  | here =>
    refine ⟨.null, .here _ _, ?_⟩
    rw [canonicalizeField_str, canonicalizeField]
    · simp
    all_goals
      intros
      contradiction
  | @item obj val path hmem _ ih =>
    rw [OnTheWay, not_or] at hnot
    obtain ⟨hitem, hbelow⟩ := hnot
    obtain ⟨val', hreplaces, hne⟩ := ih _ hbelow
    obtain ⟨before, after, rfl⟩ := List.append_of_mem hmem
    refine ⟨.arr (before ++ val' :: after), .item (by simp) hreplaces, fun heq => hne ?_⟩
    rw [canonicalizeField_arr, canonicalizeField_arr, List.map_append, List.map_append, List.map_cons,
      List.map_cons] at heq
    have hval := (List.cons.inj (List.append_cancel_left (Json.arr.inj heq))).1
    have hpath : Event.python.joinPath parentPath "*" ∉ fieldPathMask := hitem
    rwa [canonicalizeItem, canonicalizeItem, if_neg hpath, if_neg hpath] at hval
  | @field obj key val path hmem _ ih =>
    rw [OnTheWay, not_or] at hnot
    obtain ⟨hkey, hbelow⟩ := hnot
    obtain ⟨val', hreplaces, hne⟩ := ih _ hbelow
    obtain ⟨before, after, rfl⟩ := List.append_of_mem hmem
    refine ⟨.obj (before ++ (key, val') :: after), .field hmem hreplaces, fun heq => hne ?_⟩
    rw [canonicalizeField_obj, canonicalizeField_obj, canonicalizeEventAsMap_eq,
      canonicalizeEventAsMap_eq, List.map_append, List.map_append, List.map_cons, List.map_cons] at heq
    have hval := (List.cons.inj (List.append_cancel_left (Json.obj.inj heq))).1
    have hunder : ¬ (key ∈ (∅ : Finset String) ∨
        Event.python.joinPath parentPath key ∈ fieldPathMask) := by
      rintro (h | h)
      · simp at h
      · exact hkey h
    have hval' := congrArg Prod.snd hval
    rwa [canonicalizeUnder, canonicalizeUnder, if_neg hunder, if_neg hunder] at hval'

end Canonical

/-- The mask has every masked path, and two versions that differ only there have one canonical form. -/
structure MaskHides (python : PythonLower) (data : Fields) (key : String) (obj : Fields) : Prop where
  complete : ∀ path, MaskedPlace (.obj obj) path → path ∈ stateMaskOf python data key
  same : ∀ fieldKeyMask fieldPathMask : Finset String,
    (∀ path ∈ stateMaskOf python data key, "/".intercalate path ∈ fieldPathMask) →
      ∀ event event', DifferOnlyAtLeaves obj event event' →
        canonicalizeEventAsMap Event.python fieldKeyMask fieldPathMask "" event' =
          canonicalizeEventAsMap Event.python fieldKeyMask fieldPathMask "" event

/-- **The mask has all masked paths and hides what stands there** if and only if the paths are in the
controller's form and are joined as they are written. -/
theorem maskHides_iff {python : PythonLower} (hstable : python.Stable) {data : Fields} {key : String}
    {obj : Fields} (hkeys : (data.map Prod.fst).Nodup) (hmem : (key, .obj obj) ∈ data) :
    MaskHides python data key obj ↔ ∀ path, MaskedPlace (.obj obj) path →
      ControllerForm python path ∧ OnTheWay (IsWritten obj) "" path := by
  constructor
  · intro ⟨hcomplete, hsame⟩ path hpath
    have hform := (mem_mask_iff hstable hkeys hmem).mp hcomplete
    refine ⟨hform path hpath, ?_⟩
    by_contra hnot
    have hmask : ∀ written, written ∈ ((stateMaskOf python data key).map ("/".intercalate ·)).toFinset ↔
        IsWritten obj written := by
      intro written
      rw [List.mem_toFinset, List.mem_map]
      constructor
      · intro ⟨translated, htranslated, heq⟩
        obtain ⟨masked, hmasked, rfl⟩ := (mem_stateMaskOf hkeys hmem translated).mp htranslated
        rw [translate_eq_self_iff.mpr (hform masked hmasked)] at heq
        exact ⟨masked, hmasked, heq⟩
      · intro ⟨masked, hmasked, heq⟩
        exact ⟨masked, hcomplete masked hmasked, heq⟩
    obtain ⟨x', hreplaces, hne⟩ := exists_replacesLeaf hpath ""
      fun hway => hnot (hway.mono fun written => (hmask written).mp)
    obtain ⟨event', rfl⟩ : ∃ event', x' = .obj event' := by
      cases hreplaces with
      | field _ _ => exact ⟨_, rfl⟩
    refine hne ?_
    rw [canonicalizeField_obj, canonicalizeField_obj, hsame ∅ _
      (fun path hpath => List.mem_toFinset.mpr (List.mem_map_of_mem hpath)) obj event' (.single hreplaces)]
  · intro h
    have hcomplete := (mem_mask_iff hstable hkeys hmem).mpr fun path hpath => (h path hpath).1
    refine ⟨hcomplete, fun fieldKeyMask fieldPathMask hmask event event' hdiffer => ?_⟩
    have hway : ∀ path, MaskedPlace (.obj obj) path → OnTheWay (· ∈ fieldPathMask) "" path := by
      intro path hpath
      refine (h path hpath).2.mono fun written hwritten => ?_
      obtain ⟨masked, hmasked, rfl⟩ := hwritten
      exact hmask masked (hcomplete masked hmasked)
    have hall : ∀ x, Relation.ReflTransGen (ReplacesLeaf (.obj obj)) (.obj event) x →
        canonicalizeField Event.python fieldKeyMask fieldPathMask "" x =
          canonicalizeField Event.python fieldKeyMask fieldPathMask "" (.obj event) := by
      intro x hmany
      induction hmany with
      | refl => rfl
      | tail _ hstep ih => exact (canonicalize_replacesLeaf hstep "" hway).trans ih
    have hcanonical := hall _ hdiffer
    rw [canonicalizeField_obj, canonicalizeField_obj] at hcanonical
    exact Json.obj.inj hcanonical

/-! ### A custom resource -/

theorem asciiLower_stable : asciiLower.Stable := by
  intro component
  cases component with
  | nil => rfl
  | cons c rest =>
    show c.toLower.toLower :: rest = c.toLower :: rest
    rw [Char.toLower_toLower_eq_toLower]

def customResource (config : String) : Fields :=
  [("metadata", .obj [("name", .str "sample")]), ("spec", .obj [(config, .str SIEVE_LEARN_VALUE_MASK)])]

theorem maskedPlace_customResource {config : String} {path : List String}
    (h : MaskedPlace (.obj (customResource config)) path) : path = ["spec", config] := by
  have hname : "sample" ≠ SIEVE_LEARN_VALUE_MASK := by decide
  simpa [customResource, maskedPlace_obj_iff, maskedPlace_str_iff, hname] using h

/-- A key that begins with a small letter. -/
theorem maskHides_iff_replicas : MaskHides asciiLower
    [("rabbitmqcluster/default/sample", .obj (customResource "replicas"))] "rabbitmqcluster/default/sample"
      (customResource "replicas") := by
  refine (maskHides_iff asciiLower_stable (by simp) List.mem_cons_self).mpr fun path hpath => ?_
  obtain rfl := maskedPlace_customResource hpath
  refine ⟨⟨?_, ?_⟩, onTheWay_of_plain hpath ?_⟩
  · decide
  · decide
  · decide

/-- **A key that begins with a capital letter is masked under another name.** -/
theorem not_maskHides_capital : ¬ MaskHides asciiLower
    [("rabbitmqcluster/default/sample", .obj (customResource "Replicas"))] "rabbitmqcluster/default/sample"
      (customResource "Replicas") := by
  intro h
  have hplace : MaskedPlace (.obj (customResource "Replicas")) ["spec", "Replicas"] :=
    .field (List.mem_cons_of_mem _ List.mem_cons_self) (.field List.mem_cons_self .here)
  have hmask : stateMaskOf asciiLower
      [("rabbitmqcluster/default/sample", .obj (customResource "Replicas"))]
        "rabbitmqcluster/default/sample" = [["spec", "replicas"]] := by decide
  have hmem := h.complete _ hplace
  rw [hmask] at hmem
  simp at hmem

end Sieve.Oracle
