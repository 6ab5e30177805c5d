import Sieve.Event.DeepEqual
import Sieve.Server.APIForm

/-!
# The learned masks

What is not deterministic in the end states of learning is masked in testing.

* `generateStateMask`: of `liveness_checker.py`, the masked paths in the form of the controller;
* `PythonLower`: Python's lower case;
* `MaskedPlace`: the places that learning has masked, with `mem_generateStateMask`.
-/

namespace Sieve.Oracle

open Sieve.Event

def SIEVE_LEARN_VALUE_MASK : String := "SIEVE-IGNORE"

def METADATA_FIELDS : List String :=
  ["name", "generateName", "namespace", "selfLink", "uid", "resourceVersion", "generation",
    "creationTimestamp", "deletionTimestamp", "deletionGracePeriodSeconds", "labels", "annotations",
    "ownerReferences", "finalizers", "clusterName", "managedFields"]

/-- `str.lower` on one character, by the tables of Unicode. -/
structure PythonLower where
  lower : Char → List Char
  ascii : ∀ c : Char, c.toNat < 128 → lower c = [c.toLower]
  other : ∀ c : Char, ¬ c.toNat < 128 → lower c ≠ [] ∧ '/' ∉ lower c

namespace PythonLower

variable (python : PythonLower)

/-- `s[:1].lower() + s[1:]`. -/
def lowerFirst : List Char → List Char
  | [] => []
  | c :: rest => python.lower c ++ rest

end PythonLower

/-! ### The masked paths of an object -/

mutual

def generateStateMaskHelper : List (List String) → Json → List String → List (List String)
  | maskList, .str obj, path =>
    if obj == SIEVE_LEARN_VALUE_MASK then
      if path ∈ maskList then maskList else maskList ++ [path]
    else maskList
  | maskList, .arr obj, path => generateStateMaskItems maskList obj path
  | maskList, .obj obj, path => generateStateMaskFields maskList obj path
  | maskList, _, _ => maskList

def generateStateMaskItems : List (List String) → List Json → List String → List (List String)
  | maskList, [], _ => maskList
  | maskList, val :: obj, path =>
    generateStateMaskItems (generateStateMaskHelper maskList val (path ++ ["*"])) obj path

def generateStateMaskFields : List (List String) → Fields → List String → List (List String)
  | maskList, [], _ => maskList
  | maskList, (key, val) :: obj, path =>
    generateStateMaskFields (generateStateMaskHelper maskList val (path ++ [key])) obj path

end

/-- A masked path is not empty. -/
def translateMaskedFieldPath (python : PythonLower) : List String → List String
  | [] => []
  | first :: rest =>
    if first ∈ METADATA_FIELDS then "metadata" :: first :: rest
    else (first :: rest).map fun component => String.ofList (python.lowerFirst component.toList)

def isLearnMask : Json → Bool
  | .str obj => obj == SIEVE_LEARN_VALUE_MASK
  | _ => false

def generateStateMask (python : PythonLower) (data : Fields) : List (String × List (List String)) :=
  data.filterMap fun object =>
    if isLearnMask object.2 then none
    else
      some (object.1, ((generateStateMaskHelper [] object.2 []).map
        (translateMaskedFieldPath python)).insertionSort (· ≤ ·))

/-- The place is masked; the indices of its path are replaced. -/
inductive MaskedPlace : Json → List String → Prop where
  | here : MaskedPlace (.str SIEVE_LEARN_VALUE_MASK) []
  | item {obj : List Json} {val : Json} {path : List String} (hmem : val ∈ obj)
    (h : MaskedPlace val path) : MaskedPlace (.arr obj) ("*" :: path)
  | field {obj : Fields} {key : String} {val : Json} {path : List String} (hmem : (key, val) ∈ obj)
    (h : MaskedPlace val path) : MaskedPlace (.obj obj) (key :: path)

theorem maskedPlace_str_iff {obj : String} {path : List String} :
    MaskedPlace (.str obj) path ↔ obj = SIEVE_LEARN_VALUE_MASK ∧ path = [] := by
  constructor
  · intro h
    cases h
    exact ⟨rfl, rfl⟩
  · rintro ⟨rfl, rfl⟩
    exact .here

theorem maskedPlace_arr_iff {obj : List Json} {path : List String} :
    MaskedPlace (.arr obj) path ↔ ∃ val ∈ obj, ∃ below, MaskedPlace val below ∧ path = "*" :: below := by
  constructor
  · intro h
    cases h with
    | item hmem h => exact ⟨_, hmem, _, h, rfl⟩
  · rintro ⟨val, hmem, below, h, rfl⟩
    exact .item hmem h

theorem maskedPlace_obj_iff {obj : Fields} {path : List String} :
    MaskedPlace (.obj obj) path ↔
      ∃ field ∈ obj, ∃ below, MaskedPlace field.2 below ∧ path = field.1 :: below := by
  constructor
  · intro h
    cases h with
    | field hmem h => exact ⟨_, hmem, _, h, rfl⟩
  · rintro ⟨field, hmem, below, h, rfl⟩
    exact .field hmem h

/-- The loops over the items and the fields. -/
theorem generateStateMaskItems_eq (maskList : List (List String)) (obj : List Json)
    (path : List String) : generateStateMaskItems maskList obj path =
      obj.foldl (fun maskList val => generateStateMaskHelper maskList val (path ++ ["*"])) maskList := by
  induction obj generalizing maskList with
  | nil => rw [generateStateMaskItems, List.foldl_nil]
  | cons val obj ih => rw [generateStateMaskItems, ih, List.foldl_cons]

theorem generateStateMaskFields_eq (maskList : List (List String)) (obj : Fields)
    (path : List String) : generateStateMaskFields maskList obj path =
      obj.foldl (fun maskList field => generateStateMaskHelper maskList field.2 (path ++ [field.1]))
        maskList := by
  induction obj generalizing maskList with
  | nil => rw [generateStateMaskFields, List.foldl_nil]
  | cons field obj ih => rw [generateStateMaskFields, ih, List.foldl_cons]

/-- A loop whose body adds places adds those of every element. -/
theorem mem_foldl_iff {α : Type} {f : List (List String) → α → List (List String)}
    {places : α → List String → Prop} {elements : List α} {path : List String}
    (h : ∀ x ∈ elements, ∀ maskList, path ∈ f maskList x ↔ path ∈ maskList ∨ places x path)
    (maskList : List (List String)) :
    path ∈ elements.foldl f maskList ↔ path ∈ maskList ∨ ∃ x ∈ elements, places x path := by
  induction elements generalizing maskList with
  | nil => simp
  | cons x elements ih =>
    rw [List.foldl_cons, ih (fun y hmem => h y (List.mem_cons_of_mem _ hmem)),
      h x List.mem_cons_self, List.exists_mem_cons_iff, or_assoc]

/-- **The masked places are found.** -/
theorem mem_generateStateMaskHelper {obj : Json} {maskList : List (List String)}
    {start path : List String} : path ∈ generateStateMaskHelper maskList obj start ↔
      path ∈ maskList ∨ ∃ below, MaskedPlace obj below ∧ path = start ++ below := by
  induction obj using Json.induct generalizing maskList start with
  | scalar obj hscalar =>
    cases obj with
    | arr items => exact hscalar.elim
    | obj fields => exact hscalar.elim
    | str s =>
      rw [generateStateMaskHelper]
      simp only [maskedPlace_str_iff]
      by_cases hmask : s = SIEVE_LEARN_VALUE_MASK
      · rw [if_pos (beq_iff_eq.mpr hmask)]
        by_cases hmem : start ∈ maskList
        · rw [if_pos hmem]
          simp only [hmask, true_and]
          constructor
          · exact Or.inl
          · rintro (h | ⟨_, rfl, rfl⟩)
            · exact h
            · simpa using hmem
        · rw [if_neg hmem]
          simp [hmask]
      · simp [hmask]
    | _ =>
      rw [generateStateMaskHelper]
      · refine ⟨Or.inl, ?_⟩
        rintro (h | ⟨_, h, -⟩)
        · exact h
        · cases h
      all_goals exact nofun
  | arr items ih =>
    have hloop := @mem_foldl_iff _ (fun maskList val =>
      generateStateMaskHelper maskList val (start ++ ["*"])) (fun val path =>
        ∃ below, MaskedPlace val below ∧ path = start ++ ["*"] ++ below) items path
      (fun x hmem maskList => ih x hmem) maskList
    rw [generateStateMaskHelper, generateStateMaskItems_eq, hloop]
    simp only [maskedPlace_arr_iff]
    refine or_congr_right ?_
    constructor
    · rintro ⟨x, hmem, below, h, rfl⟩
      exact ⟨_, ⟨x, hmem, below, h, rfl⟩, by simp⟩
    · rintro ⟨_, ⟨x, hmem, below, h, rfl⟩, rfl⟩
      exact ⟨x, hmem, below, h, by simp⟩
  | obj fields ih =>
    have hloop := @mem_foldl_iff _ (fun maskList field =>
      generateStateMaskHelper maskList field.2 (start ++ [field.1])) (fun field path =>
        ∃ below, MaskedPlace field.2 below ∧ path = start ++ [field.1] ++ below) fields path
      (fun field hmem maskList => ih field hmem) maskList
    rw [generateStateMaskHelper, generateStateMaskFields_eq, hloop]
    simp only [maskedPlace_obj_iff]
    refine or_congr_right ?_
    constructor
    · rintro ⟨field, hmem, below, h, rfl⟩
      exact ⟨_, ⟨field, hmem, below, h, rfl⟩, by simp⟩
    · rintro ⟨_, ⟨field, hmem, below, h, rfl⟩, rfl⟩
      exact ⟨field, hmem, below, h, by simp⟩

/-- The masks of an object are its masked places, in the form of the controller. -/
theorem mem_generateStateMask {python : PythonLower} {data : Fields} {key : String} {obj : Json}
    {path : List String} (hmem : (key, obj) ∈ data) (hobj : obj ≠ .str SIEVE_LEARN_VALUE_MASK)
    (hplace : MaskedPlace obj path) :
    ∃ masks, (key, masks) ∈ generateStateMask python data ∧
      translateMaskedFieldPath python path ∈ masks := by
  have hmask : isLearnMask obj = false := by
    cases obj with
    | str s => simpa [isLearnMask] using hobj
    | _ => rfl
  refine ⟨_, List.mem_filterMap.mpr ⟨(key, obj), hmem, by rw [hmask]; rfl⟩, ?_⟩
  rw [List.mem_insertionSort]
  refine List.mem_map_of_mem ?_
  exact mem_generateStateMaskHelper.mpr (.inr ⟨path, hplace, rfl⟩)

end Sieve.Oracle
