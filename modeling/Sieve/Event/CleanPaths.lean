import Sieve.Event.Canonical
import Sieve.Event.Paths

/-!
# The place that a masked path hides

The coordinator names the place of a value with `path.Join`, key by key.

* `IsTidy`: the parts of a path that `path.Clean` leaves as it is;
* `foldl_goJoin`: the keys on the way to a place, joined one by one, are their path cleaned;
* `HidesAt`: states that differ in one place are the same once this path is masked;
* `hidesAt_iff`: a path hides the place of its keys if and only if it is tidy.
-/

namespace Sieve.Event

/-! ### Clean paths -/

/-- No part is empty or a dot, and two dots stand at the beginning only; a dot may stand alone. -/
def IsTidy (parts : List (List Char)) : Prop :=
  parts = [['.']] ∨ ∃ up segments, parts = List.replicate up ['.', '.'] ++ segments ∧ parts ≠ [] ∧
    ∀ segment ∈ segments, IsSegment segment

/-- What `path.Clean` holds of a relative path, last part first. -/
def IsKept (out : List (List Char)) : Prop :=
  ∃ segments up, out = segments ++ List.replicate up ['.', '.'] ∧ ∀ segment ∈ segments, IsSegment segment

theorem cleanStep_kept {out : List (List Char)} {component : List Char} (h : IsKept out)
    (hslash : '/' ∉ component) : IsKept (cleanStep false out component) := by
  obtain ⟨segments, up, rfl, hsegments⟩ := h
  rw [cleanStep.eq_def]
  split
  · exact ⟨segments, up, rfl, hsegments⟩
  · rename_i hskip
    simp only [Bool.or_eq_true, beq_iff_eq, not_or] at hskip
    split
    · rename_i hdots
      rw [beq_iff_eq] at hdots
      subst hdots
      cases segments with
      | nil =>
        cases up with
        | zero => exact ⟨[], 1, rfl, nofun⟩
        | succ up => exact ⟨[], up + 2, rfl, nofun⟩
      | cons last segments =>
        obtain ⟨hlast, hsegments⟩ := List.forall_mem_cons.mp hsegments
        have hne : (last == ['.', '.']) = false := beq_eq_false_iff_ne.mpr hlast.2.2.2
        exact ⟨segments, up, by simp [hne], hsegments⟩
    · rename_i hdots
      rw [beq_iff_eq] at hdots
      exact ⟨component :: segments, up, rfl,
        List.forall_mem_cons.mpr ⟨⟨hskip.1, hslash, hskip.2, hdots⟩, hsegments⟩⟩

theorem foldl_cleanStep_kept {components out : List (List Char)} (h : IsKept out)
    (hslash : ∀ component ∈ components, '/' ∉ component) :
    IsKept (components.foldl (cleanStep false) out) := by
  induction components generalizing out with
  | nil => exact h
  | cons component components ih =>
    obtain ⟨hcomponent, hslash⟩ := List.forall_mem_cons.mp hslash
    exact ih (cleanStep_kept h hcomponent) hslash

theorem foldl_cleanStep_up (up up' : ℕ) : (List.replicate up ['.', '.']).foldl (cleanStep false)
    (List.replicate up' ['.', '.']) = List.replicate (up + up') ['.', '.'] := by
  induction up generalizing up' with
  | zero => rw [Nat.zero_add]; rfl
  | succ up ih =>
    have hstep : cleanStep false (List.replicate up' ['.', '.']) ['.', '.'] =
        List.replicate (up' + 1) ['.', '.'] := by
      cases up' <;> rfl
    rw [List.replicate_succ, List.foldl_cons, hstep, ih]
    congr 1
    omega

/-- What is held is held again. -/
theorem foldl_cleanStep_reverse {out : List (List Char)} (h : IsKept out) :
    out.reverse.foldl (cleanStep false) [] = out := by
  obtain ⟨segments, up, rfl, hsegments⟩ := h
  have hsegments' : ∀ segment ∈ segments.reverse, segment = [] ∨ IsSegment segment :=
    fun segment hmem => .inr (hsegments segment (List.mem_reverse.mp hmem))
  have hfilter : segments.reverse.filter (fun segment => segment ≠ []) = segments.reverse :=
    List.filter_eq_self.mpr fun segment hmem => by
      simpa using (hsegments segment (List.mem_reverse.mp hmem)).1
  have hup := foldl_cleanStep_up up 0
  rw [List.replicate_zero, Nat.add_zero] at hup
  rw [List.reverse_append, List.reverse_replicate, List.foldl_append, hup, foldl_cleanStep hsegments',
    hfilter, List.reverse_reverse]

/-- What `path.Clean` holds of this path at the end. -/
def heldParts (path : List Char) : List (List Char) := (splitSlash path).foldl (cleanStep false) []

theorem heldParts_kept (path : List Char) : IsKept (heldParts path) :=
  foldl_cleanStep_kept ⟨[], 0, rfl, nofun⟩ fun _ => slash_not_mem_of_mem_splitSlash

theorem IsKept.no_slash {out : List (List Char)} (h : IsKept out) : ∀ part ∈ out, part ≠ [] ∧ '/' ∉ part := by
  obtain ⟨segments, up, rfl, hsegments⟩ := h
  intro part hmem
  obtain hmem | hmem := List.mem_append.mp hmem
  · exact ⟨(hsegments part hmem).1, (hsegments part hmem).2.1⟩
  · rw [List.eq_of_mem_replicate hmem]
    exact ⟨by simp, by decide⟩

/-- The path does not begin with a slash. -/
def IsRelative (path : List Char) : Prop := path.head? ≠ some '/'

theorem intercalate_ne_nil {part : List Char} {parts : List (List Char)} (hpart : part ≠ []) :
    ['/'].intercalate (part :: parts) ≠ [] := by
  cases parts with
  | nil => simpa using hpart
  | cons second parts =>
    rw [List.intercalate_cons_cons]
    simp [hpart]

theorem goClean_relative {path : List Char} (h : IsRelative path) :
    goClean (String.ofList path) = String.ofList
      (if heldParts path = [] then ['.'] else ['/'].intercalate (heldParts path).reverse) := by
  rw [goClean]
  simp only [String.toList_ofList, beq_eq_false_iff_ne.mpr h]
  cases hheld : heldParts path using List.reverseRecOn with
  | nil =>
    rw [heldParts] at hheld
    rw [hheld]
    rfl
  | append_singleton init first _ =>
    have hfirst := (heldParts_kept path).no_slash first (by rw [hheld]; simp)
    rw [heldParts] at hheld
    rw [hheld, if_neg Bool.false_ne_true, if_neg (List.append_ne_nil_of_right_ne_nil _ (List.cons_ne_nil _ _)),
      List.reverse_append, List.reverse_singleton, List.singleton_append,
      List.isEmpty_eq_false_iff.mpr (intercalate_ne_nil hfirst.1)]
    rfl

/-- The parts of a clean path. -/
theorem splitSlash_goClean {path : List Char} (h : IsRelative path) :
    splitSlash (goClean (String.ofList path)).toList =
      if heldParts path = [] then [['.']] else (heldParts path).reverse := by
  rw [goClean_relative h, String.toList_ofList]
  split
  · rfl
  · rename_i hne
    rw [splitSlash_eq, List.splitOn_intercalate]
    · exact fun part hmem => ((heldParts_kept path).no_slash part (List.mem_reverse.mp hmem)).2
    · simpa using hne

theorem tidy_goClean {path : List Char} (h : IsRelative path) :
    IsTidy (splitSlash (goClean (String.ofList path)).toList) := by
  rw [splitSlash_goClean h]
  split
  · exact .inl rfl
  · rename_i hne
    obtain ⟨segments, up, hheld, hsegments⟩ := heldParts_kept path
    refine .inr ⟨up, segments.reverse, ?_, by simpa using hne, fun segment hmem =>
      hsegments segment (List.mem_reverse.mp hmem)⟩
    rw [hheld, List.reverse_append, List.reverse_replicate]

theorem IsTidy.ne_nil {parts : List (List Char)} (h : IsTidy parts) : ∀ part ∈ parts, part ≠ [] := by
  obtain rfl | ⟨up, segments, rfl, _, hsegments⟩ := h
  · simp
  · intro part hmem
    obtain hmem | hmem := List.mem_append.mp hmem
    · rw [List.eq_of_mem_replicate hmem]
      simp
    · exact (hsegments part hmem).1

theorem IsTidy.relative {path : List Char} (h : IsTidy (splitSlash path)) : IsRelative path := by
  cases path with
  | nil => exact nofun
  | cons c path =>
    rintro hslash
    rw [List.head?_cons, Option.some.injEq] at hslash
    rw [hslash, splitSlash_cons_slash] at h
    exact h.ne_nil [] List.mem_cons_self rfl

theorem IsRelative.append {path : List Char} (h : IsRelative path) (hne : path ≠ []) (path' : List Char) :
    IsRelative (path ++ path') := by
  obtain ⟨c, rest, rfl⟩ := List.exists_cons_of_ne_nil hne
  exact h

/-- **A tidy path is clean.** -/
theorem goClean_of_tidy {path : List Char} (h : IsTidy (splitSlash path)) :
    goClean (String.ofList path) = String.ofList path := by
  have hpath : ['/'].intercalate (splitSlash path) = path := by
    rw [splitSlash_eq, List.intercalate_splitOn]
  rw [goClean_relative h.relative]
  obtain hdot | ⟨up, segments, hparts, hne, hsegments⟩ := h
  · rw [hdot] at hpath
    rw [heldParts, hdot, ← hpath]
    rfl
  · have hheld : heldParts path = segments.reverse ++ List.replicate up ['.', '.'] := by
      rw [← foldl_cleanStep_reverse ⟨segments.reverse, up, rfl, fun segment hmem =>
        hsegments segment (List.mem_reverse.mp hmem)⟩, List.reverse_append, List.reverse_reverse,
        List.reverse_replicate, ← hparts, heldParts]
    have hrev : (heldParts path).reverse = splitSlash path := by
      rw [hheld, hparts, List.reverse_append, List.reverse_reverse, List.reverse_replicate]
    rw [if_neg fun hnil => hne (by rw [← hrev, hnil, List.reverse_nil]), hrev, hpath]

theorem intercalate_relative {part : List Char} (h : IsRelative part) (hne : part ≠ [])
    (parts : List (List Char)) : IsRelative (['/'].intercalate (part :: parts)) := by
  cases parts with
  | nil => simpa using h
  | cons second parts =>
    rw [List.intercalate_cons_cons, List.append_assoc]
    exact h.append hne _

/-! ### Paths joined key by key -/

theorem heldParts_append (path path' : List Char) : heldParts (path ++ '/' :: path') =
    (splitSlash path').foldl (cleanStep false) (heldParts path) := by
  rw [heldParts, splitSlash_append, List.foldl_append, heldParts]

theorem heldParts_goClean {path : List Char} (h : IsRelative path) :
    heldParts (goClean (String.ofList path)).toList = heldParts path := by
  rw [heldParts, splitSlash_goClean h]
  split
  · rename_i hnil
    rw [hnil]
    rfl
  · exact foldl_cleanStep_reverse (heldParts_kept path)

theorem goClean_toList_ne_nil {path : List Char} (h : IsRelative path) :
    (goClean (String.ofList path)).toList ≠ [] := by
  intro hnil
  have htidy := tidy_goClean h
  rw [hnil] at htidy
  exact htidy.ne_nil [] List.mem_cons_self rfl

theorem goJoin_goClean {path : List Char} (h : IsRelative path) (hne : path ≠ []) (key : String) :
    goJoin (goClean (String.ofList path)) key = goClean (String.ofList (path ++ '/' :: key.toList)) := by
  have hclean := goClean_toList_ne_nil h
  have hempty : (goClean (String.ofList path) == "") = false := by
    rw [beq_eq_false_iff_ne]
    intro hempty
    rw [hempty] at hclean
    exact hclean rfl
  have htext : goClean (String.ofList path) ++ "/" ++ key =
      String.ofList ((goClean (String.ofList path)).toList ++ '/' :: key.toList) := by
    rw [← String.toList_inj]
    simp
  rw [goJoin, hempty, if_neg Bool.false_ne_true, htext,
    goClean_relative (h.append hne _), goClean_relative ((tidy_goClean h).relative.append hclean _),
    heldParts_append, heldParts_append, heldParts_goClean h]

theorem foldl_goJoin_from {path : List Char} (h : IsRelative path) (hne : path ≠ []) (keys : List String) :
    keys.foldl goJoin (goClean (String.ofList path)) =
      goClean (String.ofList (['/'].intercalate (path :: keys.map String.toList))) := by
  induction keys generalizing path with
  | nil => simp
  | cons key keys ih =>
    rw [List.foldl_cons, goJoin_goClean h hne, ih (h.append hne _) (by simp [hne]), List.map_cons,
      List.intercalate_cons_cons]
    congr 2
    cases keys with
    | nil => simp
    | cons second keys =>
      rw [List.map_cons, List.intercalate_cons_cons, List.intercalate_cons_cons]
      simp

/-- **Keys joined one by one** are their path cleaned. -/
theorem foldl_goJoin {first : String} (h : IsRelative first.toList) (hne : first ≠ "") (keys : List String) :
    (first :: keys).foldl goJoin "" =
      goClean (String.ofList (['/'].intercalate ((first :: keys).map String.toList))) := by
  have hjoin : goJoin "" first = goClean (String.ofList first.toList) := by
    rw [goJoin, beq_self_eq_true, if_pos rfl, beq_eq_false_iff_ne.mpr hne, if_neg Bool.false_ne_true,
      String.ofList_toList]
  rw [List.foldl_cons, hjoin]
  exact foldl_goJoin_from h (by simpa using hne) keys

/-! ### Hidden places -/

/-- The two values are the same but for one place, whose items stand under `*`. -/
inductive DiffersAt : List String → Json → Json → Prop where
  | here (x y : Json) : DiffersAt [] x y
  | item {path : List String} {x y : Json} (before after : List Json) (h : DiffersAt path x y) :
    DiffersAt ("*" :: path) (.arr (before ++ x :: after)) (.arr (before ++ y :: after))
  | field {path : List String} {key : String} {x y : Json} (before after : Fields)
    (h : DiffersAt path x y) :
    DiffersAt (key :: path) (.obj (before ++ (key, x) :: after)) (.obj (before ++ (key, y) :: after))

/-- States that differ in this place only are the same for the coordinator, whatever else is masked
along with the path. -/
def HidesAt (maskedPath : String) (path : List String) : Prop :=
  ∀ (fieldKeyMask fieldPathMask : Finset String) (event event' : Fields), maskedPath ∈ fieldPathMask →
    DiffersAt path (.obj event) (.obj event') →
      canonicalizeEventAsMap go fieldKeyMask fieldPathMask "" event =
        canonicalizeEventAsMap go fieldKeyMask fieldPathMask "" event'

variable {fieldKeyMask fieldPathMask : Finset String}

theorem canonicalizeField_hidden {path : List String} {x y : Json} (h : DiffersAt path x y)
    (hne : path ≠ []) {currentPath : String} (hmask : path.foldl goJoin currentPath ∈ fieldPathMask) :
    canonicalizeField go fieldKeyMask fieldPathMask currentPath x =
      canonicalizeField go fieldKeyMask fieldPathMask currentPath y := by
  induction h generalizing currentPath with
  | here x y => exact absurd rfl hne
  | @item path x y before after h ih =>
    have hitem : canonicalizeItem go fieldKeyMask fieldPathMask currentPath x =
        canonicalizeItem go fieldKeyMask fieldPathMask currentPath y := by
      rw [canonicalizeItem, canonicalizeItem]
      split
      · rfl
      · rename_i hfree
        refine ih (fun hnil => hfree ?_) hmask
        rw [hnil] at hmask
        exact hmask
    rw [canonicalizeField_arr, canonicalizeField_arr, List.map_append, List.map_append, List.map_cons,
      List.map_cons, hitem]
  | @field path key x y before after h ih =>
    have hunder : canonicalizeUnder go fieldKeyMask fieldPathMask currentPath key x =
        canonicalizeUnder go fieldKeyMask fieldPathMask currentPath key y := by
      rw [canonicalizeUnder, canonicalizeUnder]
      split
      · rfl
      · rename_i hfree
        refine ih (fun hnil => hfree (.inr ?_)) hmask
        rw [hnil] at hmask
        exact hmask
    rw [canonicalizeField_obj, canonicalizeField_obj, canonicalizeEventAsMap_eq, canonicalizeEventAsMap_eq,
      List.map_append, List.map_append, List.map_cons, List.map_cons, hunder]

/-- A state with one place. -/
def nested : List String → Json → Json
  | [], x => x
  | key :: path, x => .obj [(key, nested path x)]

theorem nested_differs (path : List String) (x y : Json) : DiffersAt path (nested path x) (nested path y) := by
  induction path with
  | nil => exact .here x y
  | cons key path ih => exact .field [] [] ih

/-- Nothing is masked on the way to the place. -/
theorem canonicalizeField_nested {path : List String} {currentPath : String} (b : Bool)
    (hfree : ∀ init, init ≠ [] → init <+: path → init.foldl goJoin currentPath ∉ fieldPathMask) :
    canonicalizeField go ∅ fieldPathMask currentPath (nested path (.bool b)) = nested path (.bool b) := by
  induction path generalizing currentPath with
  | nil => rw [nested, canonicalizeField_scalar] <;> simp [Json.IsScalar]
  | cons key path ih =>
    have hkey : go.joinPath currentPath key ∉ fieldPathMask := hfree [key] (by simp) ⟨path, rfl⟩
    have hbelow := @ih (goJoin currentPath key) fun init hne hinit =>
      hfree (key :: init) (by simp) ((List.prefix_cons_inj key).mpr hinit)
    rw [nested, canonicalizeField_obj, canonicalizeEventAsMap_eq, List.map_singleton, canonicalizeUnder,
      if_neg (by simpa using hkey)]
    exact congrArg (fun y => Json.obj [(key, y)]) hbelow

theorem nested_injective (path : List String) {x y : Json} (h : nested path x = nested path y) : x = y := by
  induction path with
  | nil => exact h
  | cons key path ih =>
    simp only [nested, Json.obj.injEq, List.cons.injEq, Prod.mk.injEq, true_and, and_true] at h
    exact ih h

/-- **A path hides the place of its keys if and only if it is tidy.** -/
theorem hidesAt_iff {first : String} (h : IsRelative first.toList) (hne : first ≠ "") (keys : List String) :
    HidesAt (String.ofList (['/'].intercalate ((first :: keys).map String.toList))) (first :: keys) ↔
      IsTidy (splitSlash (['/'].intercalate ((first :: keys).map String.toList))) := by
  constructor
  · intro hhides
    by_contra htidy
    -- all places on the way have tidy paths
    have hfree : ∀ init, init ≠ [] → init <+: first :: keys → init.foldl goJoin "" ∉
        ({String.ofList (['/'].intercalate ((first :: keys).map String.toList))} : Finset String) := by
      intro init hinit hprefix hmem
      obtain ⟨key, init, rfl⟩ := List.exists_cons_of_ne_nil hinit
      obtain ⟨rfl, _⟩ := List.cons_prefix_cons.mp hprefix
      rw [Finset.mem_singleton, foldl_goJoin h hne] at hmem
      refine htidy ?_
      have hclean := @tidy_goClean (['/'].intercalate ((key :: init).map String.toList)) ?_
      · rw [hmem, String.toList_ofList] at hclean
        exact hclean
      · exact intercalate_relative h (by simpa using hne) _
    have hsame := hhides ∅ _ _ _ (Finset.mem_singleton_self _)
      (nested_differs (first :: keys) (.bool true) (.bool false))
    have hsides : nested (first :: keys) (.bool true) = nested (first :: keys) (.bool false) := by
      rw [← canonicalizeField_nested true hfree, ← canonicalizeField_nested false hfree]
      exact (canonicalizeField_obj _ _).trans ((congrArg Json.obj hsame).trans (canonicalizeField_obj _ _).symm)
    cases nested_injective _ hsides
  · intro htidy fieldKeyMask fieldPathMask event event' hmask hdiffers
    have hplace := foldl_goJoin h hne keys
    rw [goClean_of_tidy htidy] at hplace
    have hfields := @canonicalizeField_hidden fieldKeyMask fieldPathMask _ _ _ hdiffers
      (List.cons_ne_nil _ _) "" (by rw [hplace]; exact hmask)
    rw [canonicalizeField_obj, canonicalizeField_obj] at hfields
    exact Json.obj.inj hfields

end Sieve.Event
