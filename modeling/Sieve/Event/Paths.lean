import Sieve.Event.Dialect

/-!
# Paths that are clean

`path.Clean` leaves alone the segments that are neither empty nor dots.

* `splitSlash_eq`: the segments of a path;
* `goClean_intercalate`: what is left of segments that may be empty;
* `goJoinAll`: `path.Join` of any number of elements, with `goJoinAll_segments` and `suffix_goJoinAll`.
-/

namespace Sieve.Event

/-- Go's `path.Join`: the first elements that are empty are skipped. -/
def goJoinAll (elements : List String) : String :=
  match elements.dropWhile (· == "") with
  | [] => ""
  | element :: rest =>
    goClean (String.ofList (['/'].intercalate ((element :: rest).map String.toList)))

/-- A part of a path that `path.Clean` leaves alone. -/
def IsSegment (segment : List Char) : Prop :=
  segment ≠ [] ∧ '/' ∉ segment ∧ segment ≠ ['.'] ∧ segment ≠ ['.', '.']

instance (segment : List Char) : Decidable (IsSegment segment) := inferInstanceAs (Decidable (_ ∧ _))

theorem splitSlash_eq (path : List Char) : splitSlash path = path.splitOn '/' := by
  induction path with
  | nil => rfl
  | cons c path ih =>
    obtain ⟨segment, segments, hsegments⟩ := List.exists_cons_of_ne_nil (List.splitOn_ne_nil '/' path)
    rw [splitSlash, ih, List.splitOn_cons_eq_if_modifyHead, hsegments]
    rfl

theorem splitSlash_ne_nil (path : List Char) : splitSlash path ≠ [] := by
  rw [splitSlash_eq]
  exact List.splitOn_ne_nil '/' path

theorem splitSlash_cons_slash (path : List Char) : splitSlash ('/' :: path) = [] :: splitSlash path := by
  obtain ⟨segment, segments, h⟩ := List.exists_cons_of_ne_nil (splitSlash_ne_nil path)
  rw [splitSlash, h]
  rfl

theorem splitSlash_cons {c : Char} (hc : c ≠ '/') (path : List Char) :
    splitSlash (c :: path) = (splitSlash path).modifyHead (c :: ·) := by
  obtain ⟨segment, segments, h⟩ := List.exists_cons_of_ne_nil (splitSlash_ne_nil path)
  rw [splitSlash, h]
  simp [hc]

theorem splitSlash_append_of_not_mem {start : List Char} (hstart : '/' ∉ start) (path : List Char) :
    splitSlash (start ++ path) = (splitSlash path).modifyHead (start ++ ·) := by
  induction start with
  | nil =>
    obtain ⟨segment, segments, h⟩ := List.exists_cons_of_ne_nil (splitSlash_ne_nil path)
    simp [h]
  | cons c start ih =>
    rw [List.mem_cons, not_or] at hstart
    rw [List.cons_append, splitSlash_cons (Ne.symm hstart.1), ih hstart.2, List.modifyHead_modifyHead]
    rfl

theorem splitSlash_append (path path' : List Char) :
    splitSlash (path ++ '/' :: path') = splitSlash path ++ splitSlash path' := by
  simp only [splitSlash_eq, List.splitOn_append_cons_self]

theorem slash_not_mem_of_mem_splitSlash {path part : List Char} (h : part ∈ splitSlash path) :
    '/' ∉ part := by
  induction path generalizing part with
  | nil =>
    rw [splitSlash, List.mem_singleton] at h
    rw [h]
    exact List.not_mem_nil
  | cons c path ih =>
    obtain ⟨segment, segments, hsegments⟩ := List.exists_cons_of_ne_nil (splitSlash_ne_nil path)
    rw [hsegments] at ih
    by_cases hc : c = '/'
    · rw [hc, splitSlash_cons_slash, hsegments] at h
      obtain rfl | hmem := List.mem_cons.mp h
      · exact List.not_mem_nil
      · exact ih hmem
    · rw [splitSlash_cons hc, hsegments, List.modifyHead_cons] at h
      obtain rfl | hmem := List.mem_cons.mp h
      · rw [List.mem_cons, not_or]
        exact ⟨Ne.symm hc, ih List.mem_cons_self⟩
      · exact ih (List.mem_cons_of_mem _ hmem)

/-- A path that begins with a part and a slash. -/
theorem prefix_slash_iff {start path : List Char} (hstart : '/' ∉ start) :
    start ++ ['/'] <+: path ↔ ∃ second rest, splitSlash path = start :: second :: rest := by
  have hself : splitSlash start = [start] := by
    rw [splitSlash_eq, List.splitOn_eq_singleton hstart]
  constructor
  · rintro ⟨rest, rfl⟩
    obtain ⟨second, segments, hsegments⟩ := List.exists_cons_of_ne_nil (splitSlash_ne_nil rest)
    rw [List.append_assoc, List.singleton_append, splitSlash_append, hself, hsegments]
    exact ⟨second, segments, rfl⟩
  · rintro ⟨second, rest, h⟩
    have hpath : ['/'].intercalate (path.splitOn '/') = path := List.intercalate_splitOn '/'
    rw [← splitSlash_eq, h, List.intercalate_cons_cons] at hpath
    exact ⟨_, hpath⟩

/-- The parts of a joined path are those of its elements. -/
theorem splitSlash_intercalate (first : List Char) (rest : List (List Char)) :
    splitSlash (['/'].intercalate (first :: rest)) = (first :: rest).flatMap splitSlash := by
  induction rest generalizing first with
  | nil => simp
  | cons second rest ih =>
    rw [List.intercalate_cons_cons, List.append_assoc, List.singleton_append, splitSlash_append, ih]
    simp only [List.flatMap_cons]

/-- Segments that are clean or empty are kept or skipped. -/
theorem foldl_cleanStep {rooted : Bool} {segments : List (List Char)}
    (h : ∀ segment ∈ segments, segment = [] ∨ IsSegment segment) (out : List (List Char)) :
    segments.foldl (cleanStep rooted) out =
      (segments.filter fun segment => segment ≠ []).reverse ++ out := by
  induction segments generalizing out with
  | nil => rfl
  | cons segment segments ih =>
    obtain ⟨hsegment, hsegments⟩ := List.forall_mem_cons.mp h
    rw [List.foldl_cons, ih hsegments]
    obtain rfl | ⟨hne, _, hdot, hdots⟩ := hsegment
    · simp [cleanStep]
    · simp [cleanStep, hne, hdot, hdots]

theorem goClean_intercalate {first : List Char} {segments : List (List Char)} (hfirst : IsSegment first)
    (h : ∀ segment ∈ segments, segment = [] ∨ IsSegment segment) :
    goClean (String.ofList (['/'].intercalate (first :: segments))) =
      String.ofList (['/'].intercalate (first :: segments.filter fun segment => segment ≠ [])) := by
  have hall : ∀ segment ∈ first :: segments, '/' ∉ segment := by
    intro segment hsegment
    obtain rfl | hrest := List.mem_cons.mp hsegment
    · exact hfirst.2.1
    · obtain rfl | hclean := h segment hrest
      · simp
      · exact hclean.2.1
  have hhead : (['/'].intercalate (first :: segments)).head? ≠ some '/' := by
    obtain ⟨c, rest, hcons⟩ := List.exists_cons_of_ne_nil hfirst.1
    have hc : c ≠ '/' := by
      rintro rfl
      exact hfirst.2.1 (by rw [hcons]; exact List.mem_cons_self)
    cases segments <;> simp [List.intercalate_cons_cons, hcons, hc]
  have hbody : ['/'].intercalate (first :: segments.filter fun segment => segment ≠ []) ≠ [] := by
    cases segments.filter fun segment => segment ≠ [] <;>
      simp [List.intercalate_cons_cons, hfirst.1]
  have hfold : (first :: segments).foldl (cleanStep false) [] =
      (first :: segments.filter fun segment => segment ≠ []).reverse := by
    rw [foldl_cleanStep (List.forall_mem_cons.mpr ⟨Or.inr hfirst, h⟩)]
    simp [hfirst.1]
  rw [goClean]
  simp only [String.toList_ofList, splitSlash_eq, beq_eq_false_iff_ne.mpr hhead]
  rw [List.splitOn_intercalate _ hall (List.cons_ne_nil _ _), hfold, List.reverse_reverse,
    List.isEmpty_eq_false_iff.mpr hbody]
  rfl

/-- **Segments are joined as they are**, without those that are empty. -/
theorem goJoinAll_segments {first : String} {elements : List String} (hfirst : IsSegment first.toList)
    (h : ∀ element ∈ elements, element = "" ∨ IsSegment element.toList) :
    goJoinAll (first :: elements) = String.ofList (['/'].intercalate
      (first.toList :: (elements.map String.toList).filter fun segment => segment ≠ [])) := by
  have hne : (first == "") = false := by
    rw [beq_eq_false_iff_ne]
    rintro rfl
    exact hfirst.1 rfl
  rw [goJoinAll, List.dropWhile_cons_of_neg (by simp [hne])]
  simp only [List.map_cons]
  refine goClean_intercalate hfirst fun segment hsegment => ?_
  obtain ⟨element, helement, rfl⟩ := List.mem_map.mp hsegment
  obtain rfl | hclean := h element helement
  · exact Or.inl rfl
  · exact Or.inr hclean

/-! ### The last segment -/

theorem suffix_intercalate (parts : List (List Char)) (segment : List Char) :
    segment <:+ ['/'].intercalate (parts ++ [segment]) := by
  induction parts with
  | nil => simp
  | cons part parts ih =>
    have hne : parts ++ [segment] ≠ [] := List.append_ne_nil_of_right_ne_nil _ (List.cons_ne_nil _ _)
    obtain ⟨second, rest, h⟩ := List.exists_cons_of_ne_nil hne
    rw [h] at ih
    rw [List.cons_append, h, List.intercalate_cons_cons]
    exact ih.trans (List.suffix_append _ _)

theorem suffix_goClean {path : List Char} {front : List (List Char)} {segment : List Char}
    (hsegment : IsSegment segment) (h : splitSlash path = front ++ [segment]) :
    segment <:+ (goClean (String.ofList path)).toList := by
  obtain ⟨hne, -, hdot, hdots⟩ := hsegment
  have hstep : ∀ out, cleanStep (path.head? == some '/') out segment = segment :: out := by
    intro out
    simp [cleanStep, hne, hdot, hdots]
  have hbody := suffix_intercalate (front.foldl (cleanStep (path.head? == some '/')) []).reverse segment
  rw [goClean]
  simp only [String.toList_ofList, h, List.foldl_append, List.foldl_cons, List.foldl_nil, hstep,
    List.reverse_cons]
  split
  · rw [String.toList_ofList]
    exact hbody.trans (List.suffix_cons _ _)
  · rw [if_neg, String.toList_ofList]
    · exact hbody
    · intro hempty
      rw [List.isEmpty_iff.mp hempty, List.suffix_nil] at hbody
      exact hne hbody

/-- **A joined path ends with its last element**, if that is a segment. -/
theorem suffix_goJoinAll (elements : List String) {file : String} (hfile : IsSegment file.toList) :
    file.toList <:+ (goJoinAll (elements ++ [file])).toList := by
  obtain ⟨front, hfront⟩ : ∃ front, (elements ++ [file]).dropWhile (· == "") = front ++ [file] := by
    induction elements with
    | nil =>
      refine ⟨[], List.dropWhile_cons_of_neg ?_⟩
      rw [beq_iff_eq]
      rintro rfl
      exact hfile.1 rfl
    | cons element elements ih =>
      rw [List.cons_append, List.dropWhile_cons]
      split
      · exact ih
      · exact ⟨element :: elements, rfl⟩
  rw [goJoinAll, hfront]
  cases front with
  | nil =>
    refine @suffix_goClean _ [] _ hfile ?_
    simp [splitSlash_eq, List.splitOn_eq_singleton hfile.2.1]
  | cons first front =>
    refine @suffix_goClean _ ((first :: front).flatMap fun element => splitSlash element.toList) _ hfile ?_
    rw [List.map_cons, splitSlash_intercalate]
    simp [splitSlash_eq, List.splitOn_eq_singleton hfile.2.1, List.flatMap_map]

end Sieve.Event
