import Sieve.Event.CleanPaths
import Sieve.Oracle.StateMask

/-!
# Masked paths in both forms

Learning translates a masked path into the form of the controller, and the coordinator converts it back
into that of the API server:

* `KeepsSpelling`: every part of the path begins as the two translations leave it;
* `pathInAPIForm_iff`: the path comes back if and only if it keeps its spelling, or belongs to the
  metadata;
* `maskedPath_iff`: it then hides its place from the coordinator if and only if it is tidy;
* `mapKey_not_masked`: a key of a map that begins with a small letter.
-/

namespace Sieve.Oracle

open Sieve.Event Sieve.Server

/-- `"/".join(path)`. -/
def joinSlash (path : List String) : List Char := ['/'].intercalate (path.map String.toList)

/-- The path is in the metadata, or each of its parts begins with an ASCII character that is not a small
letter, and the first two are not in a field `Metadata`. -/
def KeepsSpelling : List String → Prop
  | [] => False
  | first :: rest =>
    first ∈ METADATA_FIELDS ∨
      (∀ part ∈ splitSlash (joinSlash (first :: rest)), IsCapital part) ∧
        ¬ "Metadata/".toList <+: joinSlash (first :: rest)

/-! ### Parts -/

section Parts

variable {python : PythonLower}

/-- The ASCII characters, one by one. -/
theorem toLower_ascii {c : Char} (hc : c.toNat < 128) :
    c.toLower.toNat < 128 ∧ c.toUpper.toNat < 128 ∧
      (c ≠ '/' → c.toLower ≠ '/' ∧ c.toUpper ≠ '/') := by
  have hall : ∀ n < 128, (Char.ofNat n).toLower.toNat < 128 ∧ (Char.ofNat n).toUpper.toNat < 128 ∧
      (Char.ofNat n ≠ '/' → (Char.ofNat n).toLower ≠ '/' ∧ (Char.ofNat n).toUpper ≠ '/') := by decide
  rw [← Char.ofNat_toNat c]
  exact hall c.toNat hc

theorem lowerFirst_ascii {c : Char} (hc : c.toNat < 128) (rest : List Char) :
    python.lowerFirst (c :: rest) = c.toLower :: rest := by
  rw [PythonLower.lowerFirst, python.ascii c hc, List.singleton_append]

/-- Only the first part of a component changes. -/
theorem splitSlash_lowerFirst (component : List Char) :
    splitSlash (python.lowerFirst component) =
      (splitSlash component).modifyHead python.lowerFirst := by
  cases component with
  | nil => rfl
  | cons c rest =>
    obtain ⟨part, parts, hparts⟩ := List.exists_cons_of_ne_nil (splitSlash_ne_nil rest)
    by_cases hslash : c = '/'
    · rw [hslash, lowerFirst_ascii (by decide), splitSlash_cons_slash]
      exact splitSlash_cons_slash rest
    · have hlower : '/' ∉ python.lower c := by
        by_cases hc : c.toNat < 128
        · rw [python.ascii c hc, List.mem_singleton]
          exact Ne.symm ((toLower_ascii hc).2.2 hslash).1
        · exact (python.other c hc).2
      rw [PythonLower.lowerFirst, splitSlash_append_of_not_mem hlower, splitSlash_cons hslash, hparts]
      rfl

/-- **A part that is put into lower case and capitalized again.** -/
theorem capitalizeFirst_lowerFirst_iff {part : List Char} :
    capitalizeFirst (python.lowerFirst part) = some (goText part) ↔ IsCapital part := by
  cases part with
  | nil => exact iff_of_false (by simp [PythonLower.lowerFirst, capitalizeFirst]) not_isCapital_nil
  | cons c rest =>
    rw [isCapital_cons]
    by_cases hc : c.toNat < 128
    · rw [lowerFirst_ascii hc, capitalizeFirst, if_pos (toLower_ascii hc).1, Option.some.injEq,
        goText_injective.eq_iff, List.cons.injEq, Char.toUpper_toLower_eq_toUpper, toUpper_eq_self_iff]
      simp [hc]
    · refine iff_of_false ?_ fun h => hc h.1
      obtain ⟨d, lowered, hlower⟩ := List.exists_cons_of_ne_nil (python.other c hc).1
      rw [PythonLower.lowerFirst, hlower, List.cons_append]
      by_cases hd : d.toNat < 128
      · rw [capitalizeFirst, if_pos hd, Option.some.injEq, goText_injective.eq_iff, List.cons.injEq]
        rintro ⟨rfl, -⟩
        exact hc (toLower_ascii hd).2.1
      · exact capitalizeFirst_ne_goText hd _ _

/-! ### Conversion -/

theorem mapM_eq_some_iff {α β : Type} {f : α → Option β} {elements : List α} {images : List β} :
    elements.mapM f = some images ↔ List.Forall₂ (fun x y => f x = some y) elements images := by
  induction elements generalizing images with
  | nil => simp [eq_comm]
  | cons x elements ih =>
    rw [List.mapM_cons]
    cases images with
    | nil => cases f x <;> cases elements.mapM f <;> simp
    | cons y images =>
      rw [List.forall₂_cons, ← ih]
      cases f x <;> cases elements.mapM f <;> simp

/-- Two lists whose elements correspond. -/
theorem forall₂_iff_forall {α β : Type} {R : α → β → Prop} {S : β → Prop} {xs : List α} {ys : List β}
    (h : List.Forall₂ (fun x y => R x y ↔ S y) xs ys) : List.Forall₂ R xs ys ↔ ∀ y ∈ ys, S y := by
  induction h with
  | nil => simp
  | cons hxy _ ih => rw [List.forall₂_cons, List.forall_mem_cons, hxy, ih]

/-- The parts of the translated path, against those of the path. -/
theorem capitalize_parts (path : List (List Char)) :
    List.Forall₂ (fun lowered part => capitalizeFirst lowered = some (goText part) ↔ IsCapital part)
      (path.flatMap fun component => splitSlash (python.lowerFirst component))
      (path.flatMap splitSlash) := by
  induction path with
  | nil => exact .nil
  | cons component path ih =>
    rw [List.flatMap_cons, List.flatMap_cons]
    refine List.rel_append ?_ ih
    obtain ⟨part, parts, hparts⟩ := List.exists_cons_of_ne_nil (splitSlash_ne_nil component)
    rw [splitSlash_lowerFirst, hparts]
    refine .cons capitalizeFirst_lowerFirst_iff ?_
    exact List.forall₂_same.mpr fun _ _ => capitalizeFirst_eq_iff

theorem slash_mem_goText {text : List Char} : GoRune.char '/' ∈ goText text ↔ '/' ∈ text := by
  simp [goText]

theorem slash_not_mem_capitalizeFirst {part : List Char} {runes : List GoRune} (hpart : '/' ∉ part)
    (h : capitalizeFirst part = some runes) : GoRune.char '/' ∉ runes := by
  cases part with
  | nil => cases h
  | cons c rest =>
    rw [List.mem_cons, not_or] at hpart
    rw [capitalizeFirst] at h
    split at h
    · rename_i hc
      rw [← Option.some.inj h, slash_mem_goText, List.mem_cons, not_or]
      exact ⟨Ne.symm ((toLower_ascii hc).2.2 (Ne.symm hpart.1)).2, hpart.2⟩
    · rw [← Option.some.inj h]
      have hbytes : ∀ bytes : List UInt8, GoRune.char '/' ∉ bytes.map .byte := by simp
      simp only [List.cons_append, List.mem_cons, List.mem_append, slash_mem_goText, not_or]
      exact ⟨by decide, hbytes _, hpart.2⟩

theorem goText_intercalate (parts : List (List Char)) :
    goText (['/'].intercalate parts) = [GoRune.char '/'].intercalate (parts.map goText) := by
  cases parts with
  | nil => rfl
  | cons first rest =>
    induction rest generalizing first with
    | nil => simp
    | cons second rest ih =>
      have hrest := ih second
      rw [List.map_cons] at hrest
      rw [List.intercalate_cons_cons, List.map_cons, List.map_cons, List.intercalate_cons_cons, ← hrest]
      simp [goText]

theorem exists_of_forall₂ {α β : Type} {R : α → β → Prop} {xs : List α} {ys : List β}
    (h : List.Forall₂ R xs ys) {y : β} (hy : y ∈ ys) : ∃ x ∈ xs, R x y := by
  induction h with
  | nil => cases hy
  | @cons x y' xs ys hxy _ ih =>
    obtain rfl | hy := List.mem_cons.mp hy
    · exact ⟨x, List.mem_cons_self, hxy⟩
    · obtain ⟨x', hmem, hR⟩ := ih hy
      exact ⟨x', List.mem_cons_of_mem _ hmem, hR⟩

/-- Joined parts are the same exactly when the parts are. -/
theorem capitalize_joined_iff {lowered parts : List (List Char)} (hlowered : lowered ≠ [])
    (hparts : parts ≠ []) (hslash : ∀ part ∈ lowered ++ parts, '/' ∉ part) :
    (lowered.mapM capitalizeFirst).map ([GoRune.char '/'].intercalate ·) =
        some (goText (['/'].intercalate parts)) ↔
      List.Forall₂ (fun lowered part => capitalizeFirst lowered = some (goText part)) lowered parts := by
  rw [goText_intercalate]
  constructor
  · intro h
    obtain ⟨images, himages, hjoined⟩ := Option.map_eq_some_iff.mp h
    rw [mapM_eq_some_iff] at himages
    have hnoslash : ∀ image ∈ images, GoRune.char '/' ∉ image := by
      intro image hmem
      obtain ⟨part, hpart, hcapital⟩ := exists_of_forall₂ himages hmem
      exact slash_not_mem_capitalizeFirst (hslash part (List.mem_append_left _ hpart)) hcapital
    have hgo : ∀ text ∈ parts.map goText, GoRune.char '/' ∉ text := by
      intro text hmem
      obtain ⟨part, hpart, rfl⟩ := List.mem_map.mp hmem
      rw [slash_mem_goText]
      exact hslash part (List.mem_append_right _ hpart)
    have hne : images ≠ [] := by
      rw [← List.length_pos_iff, ← himages.length_eq, List.length_pos_iff]
      exact hlowered
    have himages' : images = parts.map goText := by
      rw [← List.splitOn_intercalate _ hnoslash hne, hjoined,
        List.splitOn_intercalate _ hgo (by simpa using hparts)]
    rw [himages', List.forall₂_map_right_iff] at himages
    exact himages
  · intro h
    have himages : List.Forall₂ (fun part image => capitalizeFirst part = some image) lowered
        (parts.map goText) := List.forall₂_map_right_iff.mpr h
    rw [mapM_eq_some_iff.mpr himages, Option.map_some]

theorem joinSlash_cons (first : String) (rest : List String) : splitSlash (joinSlash (first :: rest)) =
    ((first :: rest).map String.toList).flatMap splitSlash := by
  rw [joinSlash, List.map_cons, splitSlash_intercalate]

/-- The parts of the path and those of its translation. -/
theorem splitSlash_translated (first : String) (rest : List String) :
    splitSlash (joinSlash ((first :: rest).map fun component =>
        String.ofList (python.lowerFirst component.toList))) =
      ((first :: rest).map String.toList).flatMap fun component =>
        splitSlash (python.lowerFirst component) := by
  rw [List.map_cons, joinSlash_cons]
  simp [List.flatMap_map]

theorem parts_cons (first : String) (rest : List String) :
    ∃ part parts lowered, splitSlash (joinSlash (first :: rest)) = part :: parts ∧
      splitSlash (joinSlash ((first :: rest).map fun component =>
        String.ofList (python.lowerFirst component.toList))) = python.lowerFirst part :: lowered ∧
      lowered.length = parts.length := by
  obtain ⟨part, parts, hparts⟩ := List.exists_cons_of_ne_nil (splitSlash_ne_nil first.toList)
  have hlength := (@capitalize_parts python ((first :: rest).map String.toList)).length_eq
  rw [← splitSlash_translated, ← joinSlash_cons] at hlength
  have hlowered : ∃ lowered, splitSlash (joinSlash ((first :: rest).map fun component =>
      String.ofList (python.lowerFirst component.toList))) = python.lowerFirst part :: lowered := by
    rw [splitSlash_translated, List.map_cons, List.flatMap_cons, splitSlash_lowerFirst, hparts]
    exact ⟨_, rfl⟩
  obtain ⟨lowered, hlowered⟩ := hlowered
  have hpath : splitSlash (joinSlash (first :: rest)) =
      part :: (parts ++ (rest.map String.toList).flatMap splitSlash) := by
    rw [joinSlash_cons, List.map_cons, List.flatMap_cons, hparts, List.cons_append]
  rw [hlowered, hpath] at hlength
  exact ⟨part, _, lowered, hpath, hlowered, Nat.succ.inj hlength⟩

end Parts

/-! ### The path that comes back -/

/-- The learned path, as the coordinator has it for states of the API server. -/
def pathInAPIForm (python : PythonLower) (path : List String) : Option (List GoRune) :=
  convertMaskedPath (joinSlash (translateMaskedFieldPath python path))

section

variable {python : PythonLower} {first : String} {rest : List String}

theorem pathInAPIForm_metadata (h : first ∈ METADATA_FIELDS) :
    pathInAPIForm python (first :: rest) = some (goText (joinSlash (first :: rest))) := by
  have hjoin : joinSlash ("metadata" :: first :: rest) =
      "metadata/".toList ++ joinSlash (first :: rest) := by
    simp [joinSlash, List.intercalate_cons_cons]
  rw [pathInAPIForm, translateMaskedFieldPath, if_pos h, hjoin, convertMaskedPath,
    if_pos (by simp)]
  rfl

/-- A path that the coordinator takes for one of the metadata loses a part. -/
theorem pathInAPIForm_initial (h : first ∉ METADATA_FIELDS)
    (hstarts : "metadata/".toList <+: joinSlash ((first :: rest).map fun component =>
      String.ofList (python.lowerFirst component.toList))) :
    pathInAPIForm python (first :: rest) ≠ some (goText (joinSlash (first :: rest))) := by
  obtain ⟨part, parts, lowered, hparts, hlowered, hlength⟩ := @parts_cons python first rest
  obtain ⟨path, hpath⟩ := hstarts
  rw [pathInAPIForm, translateMaskedFieldPath, if_neg h, ← hpath, convertMaskedPath,
    if_pos (by simp), ne_eq, Option.some.injEq, goText_injective.eq_iff]
  intro hdrop
  have hsame : path = joinSlash (first :: rest) := hdrop
  have hsplit : splitSlash ("metadata/".toList ++ path) = "metadata".toList :: splitSlash path :=
    splitSlash_append "metadata".toList path
  rw [hpath, hlowered, hsame, hparts] at hsplit
  have hcount := congrArg List.length hsplit
  simp only [List.length_cons] at hcount
  omega

/-- With capitals, only `Metadata` is taken for the metadata. -/
theorem metadata_prefix_iff
    (hcapital : ∀ part ∈ splitSlash (joinSlash (first :: rest)), IsCapital part) :
    "metadata/".toList <+: joinSlash ((first :: rest).map fun component =>
        String.ofList (python.lowerFirst component.toList)) ↔
      "Metadata/".toList <+: joinSlash (first :: rest) := by
  obtain ⟨part, parts, lowered, hparts, hlowered, hlength⟩ := @parts_cons python first rest
  obtain ⟨c, tail, rfl, hc, hlower⟩ := hcapital part (by rw [hparts]; exact List.mem_cons_self)
  have hsmall := @prefix_slash_iff "metadata".toList (joinSlash ((first :: rest).map fun component =>
    String.ofList (python.lowerFirst component.toList))) (by decide)
  have hlarge := @prefix_slash_iff "Metadata".toList (joinSlash (first :: rest)) (by decide)
  rw [hlowered, lowerFirst_ascii hc] at hsmall
  rw [hparts] at hlarge
  refine hsmall.trans (Iff.trans ?_ hlarge.symm)
  have hmore : (∃ second later, lowered = second :: later) ↔
      ∃ second later, parts = second :: later := by
    cases lowered <;> cases parts <;> simp at hlength ⊢
  have hc' : c.toLower = 'm' ↔ c = 'M' := by
    constructor
    · intro hm
      have hupper := Char.toUpper_toLower_eq_toUpper c
      rw [hm, toUpper_eq_self_iff.mpr hlower] at hupper
      exact hupper.symm
    · rintro rfl
      rfl
  have hhead : c.toLower :: tail = "metadata".toList ↔ c :: tail = "Metadata".toList := by
    show c.toLower :: tail = 'm' :: "etadata".toList ↔ c :: tail = 'M' :: "etadata".toList
    rw [List.cons.injEq, List.cons.injEq, hc']
  constructor
  · rintro ⟨second, later, heq⟩
    obtain ⟨hpart, hlater⟩ := List.cons.inj heq
    obtain ⟨second', later', hparts'⟩ := hmore.mp ⟨second, later, hlater⟩
    exact ⟨second', later', by rw [hhead.mp hpart, hparts']⟩
  · rintro ⟨second, later, heq⟩
    obtain ⟨hpart, hlater⟩ := List.cons.inj heq
    obtain ⟨second', later', hlowered'⟩ := hmore.mpr ⟨second, later, hlater⟩
    exact ⟨second', later', by rw [hhead.mpr hpart, hlowered']⟩

/-- **The path comes back if and only if it keeps its spelling.** -/
theorem pathInAPIForm_iff : pathInAPIForm python (first :: rest) =
    some (goText (joinSlash (first :: rest))) ↔ KeepsSpelling (first :: rest) := by
  by_cases hmetadata : first ∈ METADATA_FIELDS
  · exact iff_of_true (pathInAPIForm_metadata hmetadata) (.inl hmetadata)
  · rw [KeepsSpelling, or_iff_right hmetadata]
    by_cases hstarts : "metadata/".toList <+: joinSlash ((first :: rest).map fun component =>
      String.ofList (python.lowerFirst component.toList))
    · refine iff_of_false (pathInAPIForm_initial hmetadata hstarts) ?_
      rintro ⟨hcapital, hnot⟩
      exact hnot ((metadata_prefix_iff hcapital).mp hstarts)
    · have hconvert : pathInAPIForm python (first :: rest) =
          some (goText (joinSlash (first :: rest))) ↔
          ∀ part ∈ splitSlash (joinSlash (first :: rest)), IsCapital part := by
        have hjoined : joinSlash (first :: rest) =
            ['/'].intercalate (splitSlash (joinSlash (first :: rest))) := by
          rw [splitSlash_eq, List.intercalate_splitOn]
        have hslash : ∀ part ∈ splitSlash (joinSlash ((first :: rest).map fun component =>
            String.ofList (python.lowerFirst component.toList))) ++
              splitSlash (joinSlash (first :: rest)), '/' ∉ part := by
          intro part hmem
          obtain hmem | hmem := List.mem_append.mp hmem <;>
            exact slash_not_mem_of_mem_splitSlash hmem
        have hparts := @capitalize_parts python ((first :: rest).map String.toList)
        rw [← splitSlash_translated, ← joinSlash_cons] at hparts
        rw [pathInAPIForm, translateMaskedFieldPath, if_neg hmetadata, convertMaskedPath,
          if_neg (by simpa using hstarts), ← forall₂_iff_forall hparts,
          ← capitalize_joined_iff (splitSlash_ne_nil _) (splitSlash_ne_nil _) hslash, ← hjoined]
      rw [hconvert]
      refine ⟨fun hcapital => ⟨hcapital, fun hlarge => ?_⟩, And.left⟩
      exact hstarts ((metadata_prefix_iff hcapital).mpr hlarge)

end

/-- A path that comes back does not begin with a slash. -/
theorem KeepsSpelling.relative {first : String} {rest : List String} (h : KeepsSpelling (first :: rest)) :
    IsRelative first.toList ∧ first ≠ "" := by
  have hfields : ∀ field ∈ METADATA_FIELDS, field.toList.head? ≠ some '/' ∧ field ≠ "" := by decide
  obtain hmetadata | ⟨hcapital, -⟩ := h
  · exact hfields first hmetadata
  · rw [joinSlash_cons] at hcapital
    constructor
    · intro hslash
      obtain ⟨tail, htail⟩ := List.head?_eq_some_iff.mp hslash
      refine not_isCapital_nil (hcapital [] ?_)
      rw [List.map_cons, List.flatMap_cons, htail, splitSlash_cons_slash]
      exact List.mem_cons_self
    · rintro rfl
      exact not_isCapital_nil (hcapital [] List.mem_cons_self)

/-- **The path comes back and hides its place from the coordinator** if and only if it keeps its
spelling and is tidy. -/
theorem maskedPath_iff (python : PythonLower) {data : Fields} {key : String} {obj : Json}
    {path : List String} (hmem : (key, obj) ∈ data) (hobj : obj ≠ .str SIEVE_LEARN_VALUE_MASK)
    (hplace : MaskedPlace obj path) :
    (∃ masks, (key, masks) ∈ generateStateMask python data ∧
      translateMaskedFieldPath python path ∈ masks ∧
        pathInAPIForm python path = some (goText (joinSlash path)) ∧
          HidesAt (String.ofList (joinSlash path)) path) ↔
      KeepsSpelling path ∧ IsTidy (splitSlash (joinSlash path)) := by
  cases path with
  | nil =>
    cases hplace
    exact absurd rfl hobj
  | cons first rest =>
    rw [← @pathInAPIForm_iff python]
    constructor
    · rintro ⟨masks, -, -, hpath, hhides⟩
      obtain ⟨hrelative, hne⟩ := (pathInAPIForm_iff.mp hpath).relative
      exact ⟨hpath, (hidesAt_iff hrelative hne rest).mp hhides⟩
    · rintro ⟨hpath, htidy⟩
      obtain ⟨hrelative, hne⟩ := (pathInAPIForm_iff.mp hpath).relative
      obtain ⟨masks, hmasks, htranslated⟩ := mem_generateStateMask hmem hobj hplace
      exact ⟨masks, hmasks, htranslated, hpath, (hidesAt_iff hrelative hne rest).mpr htidy⟩

/-! ### A map whose keys are as they are -/

/-- Lower case for ASCII. -/
def asciiLower : PythonLower where
  lower c := [c.toLower]
  ascii _ _ := rfl
  other c hc := by
    refine ⟨List.cons_ne_nil _ _, ?_⟩
    have hupper : ¬ c.isUpper = true := by
      intro hupper
      rw [Char.isUpper, decide_eq_true_eq] at hupper
      exact hc (lt_of_le_of_lt (UInt32.le_iff_toNat_le.mp hupper.2) (by decide))
    rw [Char.toLower_eq_of_not_isUpper hupper, List.mem_singleton]
    rintro rfl
    exact hc (by decide)

def configMap : Json :=
  .obj [("Data", .obj [("foo", .str SIEVE_LEARN_VALUE_MASK)]), ("uid", .str SIEVE_LEARN_VALUE_MASK)]

theorem maskedPath_uid :
    ∃ masks, ("configmap/default/log", masks) ∈
      generateStateMask asciiLower [("configmap/default/log", configMap)] ∧
        translateMaskedFieldPath asciiLower ["uid"] ∈ masks ∧
          pathInAPIForm asciiLower ["uid"] = some (goText (joinSlash ["uid"])) ∧
            HidesAt (String.ofList (joinSlash ["uid"])) ["uid"] :=
  (maskedPath_iff asciiLower List.mem_cons_self (by simp)
    (.field (List.mem_cons_of_mem _ List.mem_cons_self) .here)).mpr
      ⟨.inl (by decide), .inr ⟨0, ["uid".toList], by decide, by decide, by decide⟩⟩

/-- The mask that is learned for `Data/foo` is one for `Data/Foo`. -/
theorem mapKey_not_masked : MaskedPlace configMap ["Data", "foo"] ∧
    pathInAPIForm asciiLower ["Data", "foo"] = some (goText "Data/Foo".toList) ∧
    pathInAPIForm asciiLower ["Data", "foo"] ≠ some (goText (joinSlash ["Data", "foo"])) :=
  ⟨.field List.mem_cons_self (.field List.mem_cons_self .here), by decide, by decide⟩

end Sieve.Oracle
