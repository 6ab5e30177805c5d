import Sieve.Analyzer.K8sEvent
import Sieve.Event.DiffDetermines
import Sieve.Event.PartOf
import Sieve.Server.Event

/-!
# Unchanged objects

A difference is a part of the states it comes from, so that an object that still is as it was when the
learner computed the difference never counts as modified:

* `conflictingEventPayload_of_part`, `isAnyFieldModified_of_part`: what the learner and the
  coordinator say about an object that has the difference as a part;
* `diffEvent_parts`: the sides of a learned difference are parts of the canonical states;
* `isDesiredUpdate_part_of_exact`: an exact match is a match.
-/

namespace Sieve.Replay

open Sieve.Event Sieve.Server

/-- The learner's difference has its sides in the canonical states. -/
theorem diffEvent_parts {d : Dialect} (hlaw : LawfulScalars d.scalarEqual) {prev cur : Fields}
    (hp : Json.Distinct (.obj prev)) (hc : Json.Distinct (.obj cur)) {masks : Masks} {trimKa : Bool}
    {diff : Fields × Fields} (h : Analyzer.diffEvent prev cur masks trimKa true = some diff) :
    Event.partOfEventAsMap d diff.1 (Analyzer.canonicalizeEvent prev masks) = true ∧
      Event.partOfEventAsMap d diff.2 (Analyzer.canonicalizeEvent cur masks) = true := by
  have htrim : ∀ {event : Fields}, Json.Distinct (.obj event) →
      Json.Distinct (.obj (if trimKa then trimKindApiversion event else event)) := by
    intro event hevent
    split
    · exact erase_distinct (erase_distinct hevent)
    · exact hevent
  -- trimming only takes fields away
  have hmore : ∀ (event : Fields) key y,
      (Analyzer.canonicalizeEvent (if trimKa then trimKindApiversion event else event)
        masks).lookup key = some y →
      (Analyzer.canonicalizeEvent event masks).lookup key = some y := by
    intro event key y hlookup
    rw [Analyzer.canonicalizeEvent, canonicalizeEventAsMap_lookup] at hlookup ⊢
    obtain ⟨x, hx, rfl⟩ := Option.map_eq_some_iff.mp hlookup
    suffices hsame : event.lookup key = some x by
      rw [hsame]
      rfl
    split at hx
    · rw [trimKindApiversion, lookup_erase, lookup_erase] at hx
      split at hx
      · cases hx
      · split at hx
        · cases hx
        · exact hx
    · exact hx
  have hparts := @diff_partOf python d hlaw _ _ (canonicalizeEventAsMap_distinct "" (htrim hp))
    (canonicalizeEventAsMap_distinct "" (htrim hc)) _ h
  exact ⟨partOfEventAsMap_mono (hmore prev) hparts.1, partOfEventAsMap_mono (hmore cur) hparts.2⟩

theorem conflictingEventPayload_of_part {side object : Fields} {masks : Masks}
    (h : Event.partOfEventAsMap python side (Analyzer.canonicalizeEvent object masks) = true) :
    Analyzer.conflictingEventPayload (some side) object masks = false := by
  rw [Analyzer.conflictingEventPayload, h]
  rfl

/-- Both languages canonicalize the object alike. -/
def CanonicalizedAlike (masks : Masks) (object : Fields) : Prop :=
  canonicalizeEventAsMap go masks.fieldKeyMask masks.fieldPathMask "" object =
    Analyzer.canonicalizeEvent object masks

/-- A canonical state with its marker. -/
def marked (masks : Masks) (event : Fields) : Fields :=
  Fields.insert (canonicalizeEventAsMap go masks.fieldKeyMask masks.fieldPathMask "" event)
    SIEVE_CAN_MARKER (.str "")

theorem canonicalizeEvent_of_no_marker {event : Fields} (masks : Masks)
    (hmarker : event.lookup SIEVE_CAN_MARKER = none) :
    canonicalizeEvent (some event) masks = .ok (some (marked masks event)) := by
  rw [canonicalizeEvent, hmarker]
  rfl

/-- Parts stay parts when both get the marker. -/
theorem partOf_insert_marker {a b : Fields} (hmarker : a.lookup SIEVE_CAN_MARKER = none)
    (h : Event.partOfEventAsMap go a b = true) :
    Event.partOfEventAsMap go (Fields.insert a SIEVE_CAN_MARKER (.str ""))
      (Fields.insert b SIEVE_CAN_MARKER (.str "")) = true := by
  rw [partOfEventAsMap_iff] at h ⊢
  intro field hmem
  by_cases hkey : field.1 = SIEVE_CAN_MARKER
  · rw [hkey, Fields.lookup_insert_self]
    refine ⟨_, rfl, ?_⟩
    rcases mem_insert hmem with rfl | hmem
    · exact partOfValue_self go_lawful (.scalar trivial)
    · rw [lookup_none_iff] at hmarker
      exact absurd (hkey ▸ key_mem hmem) hmarker
  · rw [lookup_insert_of_ne _ _ hkey]
    rcases mem_insert hmem with rfl | hmem
    · exact absurd rfl hkey
    · exact h field hmem

/-- **An object with the difference as a part is not modified**, whether the trigger's own difference
is canonical already or not. -/
theorem isAnyFieldModified_of_part {side object : Fields} {masks : Masks}
    (hmarker : object.lookup SIEVE_CAN_MARKER = none) (halike : CanonicalizedAlike masks object)
    (h : Event.partOfEventAsMap go side (Analyzer.canonicalizeEvent object masks) = true) :
    ∃ object' side', isAnyFieldModified (some object) (some side) masks =
        .ok (false, object', side') ∧
      isAnyFieldModified (some object) side' masks = .ok (false, object', side') := by
  have hside : side.lookup SIEVE_CAN_MARKER = none := by
    rw [partOfEventAsMap_iff] at h
    rw [lookup_none_iff]
    intro hmem
    obtain ⟨field, hfield, hkey⟩ := List.mem_map.mp hmem
    obtain ⟨y, hy, _⟩ := h field hfield
    rw [Analyzer.canonicalizeEvent, canonicalizeEventAsMap_lookup, hkey, hmarker] at hy
    cases hy
  have hcanonical : (canonicalizeEventAsMap go masks.fieldKeyMask masks.fieldPathMask ""
      side).lookup SIEVE_CAN_MARKER = none := by
    rw [canonicalizeEventAsMap_lookup, hside]
    rfl
  have hpart := @canonicalizeEventAsMap_partOf go go masks.fieldKeyMask masks.fieldPathMask
    go_lawful "" _ _ h
  rw [← halike, canonicalizeEventAsMap_twice] at hpart
  replace hpart := partOf_insert_marker hcanonical hpart
  have hcanSide := canonicalizeEvent_of_no_marker masks hside
  have hnot : (!Server.partOfEventAsMap (some (marked masks side)) (some (marked masks object))) =
      false := by
    show (!Event.partOfEventAsMap go (marked masks side) (marked masks object)) = false
    rw [marked, marked, hpart]
    rfl
  refine ⟨some (marked masks object), some (marked masks side), ?_, ?_⟩
  · rw [isAnyFieldModified, hcanSide, canonicalizeEvent_of_no_marker masks hmarker, ← hnot]
    rfl
  · rw [isAnyFieldModified, canonicalizeEvent_twice hcanSide,
      canonicalizeEvent_of_no_marker masks hmarker, ← hnot]
    rfl

/-! ### Exact matches -/

theorem canonicalizeEvent_distinct {event : JsonObject} {masks : Masks} {event' : GoMap}
    (h : canonicalizeEvent (some event.1) masks = .ok event') :
    ∃ object : JsonObject, event' = some object.1 := by
  rw [canonicalizeEvent] at h
  split at h
  · exact ⟨event, (Except.ok.inj h).symm⟩
  · have hmarker : Json.Distinct (.str "") := .scalar trivial
    exact ⟨⟨_, insert_distinct (canonicalizeEventAsMap_distinct "" event.2) hmarker⟩,
      (Except.ok.inj h).symm⟩

/-- What is equal to a state is a part of it. -/
theorem partOf_of_equivalent {actual desired : Option JsonObject}
    (h : equivalentEvent (actual.map Subtype.val) (desired.map Subtype.val) = true) :
    Server.partOfEventAsMap (desired.map Subtype.val) (actual.map Subtype.val) = true := by
  cases desired with
  | none => rfl
  | some desired =>
    cases actual with
    | none => cases h
    | some actual =>
      have hequal := Json.Equal.symm go_lawful actual.2 desired.2 h
      have hpart := @partOfValue_of_equal go go_lawful _ _ hequal
      rw [partOfValue_obj] at hpart
      exact hpart

/-- The differences of decoded states are decoded states. -/
theorem diffEventAsMap_distinct (prev cur : JsonObject) : ∃ dp dc : Option JsonObject,
    Server.diffEventAsMap (some prev.1) (some cur.1) =
      (dp.map Subtype.val, dc.map Subtype.val) := by
  simp only [Server.diffEventAsMap, Option.getD_some]
  cases hdiff : Event.diffEventAsMap go prev.1 cur.1 with
  | none => exact ⟨none, none, rfl⟩
  | some diff =>
    have hvalue : diffValue go (.obj prev.1) (.obj cur.1) = some (.obj diff.1, .obj diff.2) := by
      rw [diffValue_obj, hdiff]
      rfl
    obtain ⟨hfst, hsnd⟩ := diffValue_distinct prev.2 cur.2 hvalue
    exact ⟨some ⟨diff.1, hfst⟩, some ⟨diff.2, hsnd⟩, rfl⟩

/-- **An exact match is a match.** -/
theorem isDesiredUpdate_part_of_exact {prevState curState desiredPrev desiredCur : Option JsonObject}
    {masks : Masks} {states : GoMap × GoMap}
    (h : isDesiredUpdate (prevState.map Subtype.val) (curState.map Subtype.val)
      (desiredPrev.map Subtype.val) (desiredCur.map Subtype.val) masks true = .ok (true, states)) :
    isDesiredUpdate (prevState.map Subtype.val) (curState.map Subtype.val)
      (desiredPrev.map Subtype.val) (desiredCur.map Subtype.val) masks false = .ok (true, states) := by
  cases prevState with
  | none => cases h
  | some prev =>
    obtain ⟨prev', hprev⟩ := canonicalizeEvent_some prev.1 masks
    obtain ⟨object, hobject⟩ := canonicalizeEvent_distinct hprev
    obtain rfl := Option.some.inj hobject
    cases curState with
    | none =>
      rw [isDesiredUpdate, diffEvent] at h
      simp only [Option.map_some] at h
      rw [hprev] at h
      cases h
    | some cur =>
      obtain ⟨cur', hcur⟩ := canonicalizeEvent_some cur.1 masks
      obtain ⟨object', hobject'⟩ := canonicalizeEvent_distinct hcur
      obtain rfl := Option.some.inj hobject'
      obtain ⟨dp, dc, hdiff⟩ := diffEventAsMap_distinct object object'
      simp only [Option.map_some] at h ⊢
      rw [isDesiredUpdate, diffEvent, hprev, hcur] at h ⊢
      simp only [bind, Except.bind, hdiff] at h ⊢
      obtain ⟨hexact, hstates⟩ := Prod.mk.inj (Except.ok.inj h)
      rw [if_pos trivial, Bool.and_eq_true] at hexact
      rw [← hstates, partOf_of_equivalent hexact.1, partOf_of_equivalent hexact.2]
      rfl

/-! ### Differences are parts -/

/-- The object never counts as modified against this side of a difference: not for the learner and,
without the reserved marker among its fields, not for the coordinator either, at the first
notification and at later ones. -/
def NeverModified (masks : Masks) (object side : Fields) : Prop :=
  Analyzer.conflictingEventPayload (some side) object masks = false ∧
    (object.lookup SIEVE_CAN_MARKER = none → CanonicalizedAlike masks object →
      ∃ object' side', isAnyFieldModified (some object) (some side) masks =
          .ok (false, object', side') ∧
        isAnyFieldModified (some object) side' masks = .ok (false, object', side'))

/-- **Differences are parts of the states they come from.**  An object that did not change never counts
as modified, and an exact match is a match. -/
theorem differences_are_parts :
    (∀ prev cur : JsonObject,
      let diff := Server.diffEventAsMap (some prev.1) (some cur.1)
      Server.partOfEventAsMap diff.1 (some prev.1) = true ∧
        Server.partOfEventAsMap diff.2 (some cur.1) = true) ∧
    (∀ (prev cur : JsonObject) (masks : Masks) (trimKa : Bool) (diff : Fields × Fields),
      Analyzer.diffEvent prev.1 cur.1 masks trimKa true = some diff →
        NeverModified masks prev.1 diff.1 ∧ NeverModified masks cur.1 diff.2) ∧
    ∀ (prevState curState desiredPrev desiredCur : Option JsonObject) (masks : Masks)
      (states : GoMap × GoMap),
      isDesiredUpdate (prevState.map Subtype.val) (curState.map Subtype.val)
        (desiredPrev.map Subtype.val) (desiredCur.map Subtype.val) masks true =
          .ok (true, states) →
      isDesiredUpdate (prevState.map Subtype.val) (curState.map Subtype.val)
        (desiredPrev.map Subtype.val) (desiredCur.map Subtype.val) masks false =
          .ok (true, states) := by
  refine ⟨fun prev cur => ?_, fun prev cur masks trimKa diff hdiff => ?_,
    fun _ _ _ _ _ _ hexact => isDesiredUpdate_part_of_exact hexact⟩
  · rw [Server.diffEventAsMap]
    simp only [Option.getD_some]
    cases hdiff : Event.diffEventAsMap go prev.1 cur.1 with
    | none => exact ⟨rfl, rfl⟩
    | some diff => exact @diff_partOf go go go_lawful _ _ prev.2 cur.2 _ hdiff
  · have hpython := @diffEvent_parts python python_lawful _ _ prev.2 cur.2 _ _ _ hdiff
    have hgo := @diffEvent_parts go go_lawful _ _ prev.2 cur.2 _ _ _ hdiff
    exact ⟨⟨conflictingEventPayload_of_part hpython.1,
        fun hmarker halike => isAnyFieldModified_of_part hmarker halike hgo.1⟩,
      conflictingEventPayload_of_part hpython.2,
        fun hmarker halike => isAnyFieldModified_of_part hmarker halike hgo.2⟩

/-- An object with the reserved marker among its fields. -/
def markerObject (phase : String) : Fields := [("SIEVE-CAN", .str "x"), ("phase", .str phase)]

theorem markerObject_distinct (phase : String) : Json.Distinct (.obj (markerObject phase)) := by
  refine .obj (by simp [markerObject]) fun field hmem => ?_
  simp only [markerObject, List.mem_cons, List.not_mem_nil, or_false] at hmem
  rcases hmem with rfl | rfl <;> exact .scalar trivial

/-- Such an object counts as modified although it did not change; so does one with a text that only the
learner masks. -/
theorem unchanged_counts_as_modified :
    (Json.Distinct (.obj (markerObject "a")) ∧ Json.Distinct (.obj (markerObject "b")) ∧
      Analyzer.diffEvent (markerObject "a") (markerObject "b") ⟨∅, ∅⟩ false true =
        some ([("phase", .str "a")], [("phase", .str "b")]) ∧
      Server.diffEventAsMap (some (markerObject "a")) (some (markerObject "b")) =
        (some [("phase", .str "a")], some [("phase", .str "b")]) ∧
      ∃ states, isAnyFieldModified (some (markerObject "a")) (some [("phase", .str "a")]) ⟨∅, ∅⟩ =
        .ok (true, states)) ∧
    Analyzer.diffEvent [("ip", .str "10.96.0.1\n")] [("ip", .str "none")] ⟨∅, ∅⟩ false true =
      some ([("ip", .str SIEVE_VALUE_MASK)], [("ip", .str "none")]) ∧
    ∃ states, isAnyFieldModified (some [("ip", .str "10.96.0.1\n")])
      (some [("ip", .str SIEVE_VALUE_MASK)]) ⟨∅, ∅⟩ = .ok (true, states) :=
  ⟨⟨markerObject_distinct "a", markerObject_distinct "b", rfl, rfl, _, rfl⟩, rfl, _, rfl⟩

end Sieve.Replay
