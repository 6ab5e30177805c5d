import Sieve.Analyzer.K8sEvent
import Sieve.Event.CanonicalAgree
import Sieve.Server.Event

/-!
# Canonical states on both sides

The coordinator and the learner canonicalize the same states with the same masks:

* `CanonicalizedSame`: they do the same to the state;
* `canonicalizeEvent_agree_iff`: exactly then are the results the same, apart from the marker.
-/

namespace Sieve.Replay

open Sieve.Event Sieve.Server

/-- The coordinator's result without the marker it added. -/
def withoutAddedMarker (event result : Fields) : Fields :=
  if (event.lookup SIEVE_CAN_MARKER).isSome then result else Fields.erase result SIEVE_CAN_MARKER

/-- At no field, item or text of the state do the two languages differ in what they mask.  A state
that brings the marker along is left alone by the coordinator, so the learner must not mask anything
in it either. -/
def CanonicalizedSame (masks : Masks) (event : Fields) : Prop :=
  if (event.lookup SIEVE_CAN_MARKER).isSome then
    ¬ Differ unmasked python ⟨∅, ∅⟩ masks "" "" (.obj event)
  else ¬ Differ go python masks masks "" "" (.obj event)

/-- What the coordinator's canonicalization does, apart from the marker. -/
theorem canonicalizeEvent_result (event : Fields) (masks : Masks) :
    ∃ result, canonicalizeEvent (some event) masks = .ok (some result) ∧
      withoutAddedMarker event result =
        if (event.lookup SIEVE_CAN_MARKER).isSome then event
        else canonicalizeEventAsMap go masks.fieldKeyMask masks.fieldPathMask "" event := by
  rw [canonicalizeEvent]
  by_cases hmarker : (event.lookup SIEVE_CAN_MARKER).isSome
  · refine ⟨event, if_pos hmarker, ?_⟩
    rw [withoutAddedMarker, if_pos hmarker, if_pos hmarker]
  · refine ⟨_, if_neg hmarker, ?_⟩
    rw [withoutAddedMarker, if_neg hmarker, if_neg hmarker, erase_insert]
    rw [canonicalizeEventAsMap_lookup, Option.not_isSome_iff_eq_none.mp hmarker]
    rfl

/-- **The coordinator and the learner leave the same canonical state** exactly when they do not differ
anywhere in what they mask. -/
theorem canonicalizeEvent_agree_iff (event : JsonObject) (masks : Masks) :
    (∃ result, canonicalizeEvent (some event.1) masks = .ok (some result) ∧
      EqualObjects go (withoutAddedMarker event.1 result)
        (Analyzer.canonicalizeEvent event.1 masks)) ↔
    CanonicalizedSame masks event.1 := by
  obtain ⟨result, hresult, hwithout⟩ := canonicalizeEvent_result event.1 masks
  have hpython : ∀ {x : Json}, x = .obj (Analyzer.canonicalizeEvent event.1 masks) ↔
      x = canonicalValue python masks "" (.obj event.1) := by
    intro x
    rw [canonicalValue, canonicalizeField_obj]
    exact Iff.rfl
  have hsame : EqualObjects go (withoutAddedMarker event.1 result)
      (Analyzer.canonicalizeEvent event.1 masks) ↔ CanonicalizedSame masks event.1 := by
    rw [EqualObjects, hwithout, CanonicalizedSame, hpython.mp rfl]
    split
    · rw [← canonicalValue_agree_iff event.2, canonicalValue_unmasked]
      exact Iff.rfl
    · rw [← canonicalValue_agree_iff event.2, canonicalValue, canonicalizeField_obj]
      exact Iff.rfl
  rw [← hsame]
  constructor
  · intro h
    obtain ⟨result', hresult', hequal⟩ := h
    rw [hresult] at hresult'
    rw [Option.some.inj (Except.ok.inj hresult')]
    exact hequal
  · exact fun hequal => ⟨result, hresult, hequal⟩

/-- An address followed by a newline, which only the learner masks, and a name with a leading slash,
where only the coordinator's path is the masked one. -/
theorem canonicalizeEvent_disagree :
    (canonicalizeEvent (some [("ip", .str "10.96.0.1\n")]) ⟨∅, ∅⟩ =
        .ok (some [("ip", .str "10.96.0.1\n"), ("SIEVE-CAN", .str "")]) ∧
      Analyzer.canonicalizeEvent [("ip", .str "10.96.0.1\n")] ⟨∅, ∅⟩ =
        [("ip", .str SIEVE_VALUE_MASK)] ∧
      ¬ EqualObjects go [("ip", .str "10.96.0.1\n")] [("ip", .str SIEVE_VALUE_MASK)]) ∧
    canonicalizeEvent (some [("data", .obj [("/a", .str "x")])]) ⟨∅, {"data/a"}⟩ =
        .ok (some [("data", .obj [("/a", .str SIEVE_VALUE_MASK)]), ("SIEVE-CAN", .str "")]) ∧
      Analyzer.canonicalizeEvent [("data", .obj [("/a", .str "x")])] ⟨∅, {"data/a"}⟩ =
        [("data", .obj [("/a", .str "x")])] ∧
      ¬ EqualObjects go [("data", .obj [("/a", .str SIEVE_VALUE_MASK)])]
        [("data", .obj [("/a", .str "x")])] :=
  ⟨⟨rfl, rfl, fun h => nomatch h⟩, rfl, rfl, fun h => nomatch h⟩

end Sieve.Replay
