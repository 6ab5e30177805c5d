import Mathlib.Logic.Relation
import Sieve.Event.Canonical
import Sieve.Event.DeepEqual
import Sieve.Server.Event

/-!
# Masked data

What stands at masked positions of the states does not influence the triggers.

* `Replaces`: one value at a masked position, or one masked text, becomes another;
* `canonicalizeField_replaces`: the canonical form stays the same;
* `masked_data_irrelevant`: any number of replacements in both states changes neither the difference
  nor what an update trigger says.
-/

namespace Sieve.Event

/-- A value at a masked position is replaced by any other value, or a text that is masked by another
such text. -/
inductive Replaces (d : Dialect) (fieldKeyMask fieldPathMask : Finset String) :
    String → Json → Json → Prop where
  | text {currentPath s s' : String} (hs : d.isMasked s = true) (hs' : d.isMasked s' = true) :
      Replaces d fieldKeyMask fieldPathMask currentPath (.str s) (.str s')
  | field {currentPath key : String} {before after : Fields} {x x' : Json}
      (hmasked : key ∈ fieldKeyMask ∨ d.joinPath currentPath key ∈ fieldPathMask) :
      Replaces d fieldKeyMask fieldPathMask currentPath (.obj (before ++ (key, x) :: after))
        (.obj (before ++ (key, x') :: after))
  | item {currentPath : String} {before after : List Json} {x x' : Json}
      (hmasked : d.joinPath currentPath "*" ∈ fieldPathMask) :
      Replaces d fieldKeyMask fieldPathMask currentPath (.arr (before ++ x :: after))
        (.arr (before ++ x' :: after))
  | inField {currentPath key : String} {before after : Fields} {x x' : Json}
      (h : Replaces d fieldKeyMask fieldPathMask (d.joinPath currentPath key) x x') :
      Replaces d fieldKeyMask fieldPathMask currentPath (.obj (before ++ (key, x) :: after))
        (.obj (before ++ (key, x') :: after))
  | inItem {currentPath : String} {before after : List Json} {x x' : Json}
      (h : Replaces d fieldKeyMask fieldPathMask (d.joinPath currentPath "*") x x') :
      Replaces d fieldKeyMask fieldPathMask currentPath (.arr (before ++ x :: after))
        (.arr (before ++ x' :: after))

variable {d : Dialect} {fieldKeyMask fieldPathMask : Finset String}

/-- Objects that differ under one key only. -/
theorem canonicalizeField_obj_congr (currentPath : String) {before after : Fields} {key : String}
    {x x' : Json} (h : canonicalizeUnder d fieldKeyMask fieldPathMask currentPath key x' =
      canonicalizeUnder d fieldKeyMask fieldPathMask currentPath key x) :
    canonicalizeField d fieldKeyMask fieldPathMask currentPath (.obj (before ++ (key, x') :: after)) =
      canonicalizeField d fieldKeyMask fieldPathMask currentPath
        (.obj (before ++ (key, x) :: after)) := by
  rw [canonicalizeField_obj, canonicalizeField_obj, canonicalizeEventAsMap_eq,
    canonicalizeEventAsMap_eq, List.map_append, List.map_append, List.map_cons, List.map_cons, h]

/-- Lists that differ in one item only. -/
theorem canonicalizeField_arr_congr (currentPath : String) {before after : List Json} {x x' : Json}
    (h : canonicalizeItem d fieldKeyMask fieldPathMask currentPath x' =
      canonicalizeItem d fieldKeyMask fieldPathMask currentPath x) :
    canonicalizeField d fieldKeyMask fieldPathMask currentPath (.arr (before ++ x' :: after)) =
      canonicalizeField d fieldKeyMask fieldPathMask currentPath (.arr (before ++ x :: after)) := by
  rw [canonicalizeField_arr, canonicalizeField_arr, List.map_append, List.map_append, List.map_cons,
    List.map_cons, h]

/-- **A replacement does not change the canonical form.** -/
theorem canonicalizeField_replaces {currentPath : String} {x x' : Json}
    (h : Replaces d fieldKeyMask fieldPathMask currentPath x x') :
    canonicalizeField d fieldKeyMask fieldPathMask currentPath x' =
      canonicalizeField d fieldKeyMask fieldPathMask currentPath x := by
  induction h with
  | text hs hs' => rw [canonicalizeField_str, canonicalizeField_str, if_pos hs, if_pos hs']
  | field hmasked =>
    apply canonicalizeField_obj_congr
    rw [canonicalizeUnder, canonicalizeUnder, if_pos hmasked, if_pos hmasked]
  | item hmasked =>
    apply canonicalizeField_arr_congr
    rw [canonicalizeItem, canonicalizeItem, if_pos hmasked, if_pos hmasked]
  | inField _ ih =>
    apply canonicalizeField_obj_congr
    rw [canonicalizeUnder, canonicalizeUnder, ih]
  | inItem _ ih =>
    apply canonicalizeField_arr_congr
    rw [canonicalizeItem, canonicalizeItem, ih]

/-- A replacement in an object leaves an object with the same keys. -/
theorem Replaces.obj {currentPath : String} {fields : Fields} {x' : Json}
    (h : Replaces d fieldKeyMask fieldPathMask currentPath (.obj fields) x') :
    ∃ fields', x' = .obj fields' ∧ fields'.map Prod.fst = fields.map Prod.fst := by
  cases h with
  | field _ => exact ⟨_, rfl, by simp⟩
  | inField _ => exact ⟨_, rfl, by simp⟩

/-- Any number of replacements in an object. -/
def ReplacesMany (d : Dialect) (fieldKeyMask fieldPathMask : Finset String) (event event' : Fields) :
    Prop :=
  Relation.ReflTransGen (Replaces d fieldKeyMask fieldPathMask "") (.obj event) (.obj event')

/-- **Any number of replacements** change neither the keys of an object nor its canonical form. -/
theorem ReplacesMany.same {event event' : Fields}
    (h : ReplacesMany d fieldKeyMask fieldPathMask event event') :
    event'.map Prod.fst = event.map Prod.fst ∧
      canonicalizeEventAsMap d fieldKeyMask fieldPathMask "" event' =
        canonicalizeEventAsMap d fieldKeyMask fieldPathMask "" event := by
  have hall : ∀ x', Relation.ReflTransGen (Replaces d fieldKeyMask fieldPathMask "") (.obj event) x' →
      ∃ fields, x' = .obj fields ∧ fields.map Prod.fst = event.map Prod.fst ∧
        canonicalizeField d fieldKeyMask fieldPathMask "" x' =
          canonicalizeField d fieldKeyMask fieldPathMask "" (.obj event) := by
    intro x' hmany
    induction hmany with
    | refl => exact ⟨event, rfl, rfl, rfl⟩
    | tail _ hstep ih =>
      obtain ⟨fields, rfl, hkeys, hcanonical⟩ := ih
      obtain ⟨fields', rfl, hkeys'⟩ := hstep.obj
      exact ⟨fields', rfl, hkeys'.trans hkeys, (canonicalizeField_replaces hstep).trans hcanonical⟩
  obtain ⟨fields, hfields, hkeys, hcanonical⟩ := hall _ h
  rw [Json.obj.inj hfields]
  refine ⟨hkeys, ?_⟩
  rw [hfields, canonicalizeField_obj, canonicalizeField_obj] at hcanonical
  exact Json.obj.inj hcanonical

end Sieve.Event

namespace Sieve.Server

open Sieve.Event

/-- The second state is the first one with other masked data.  Nothing is replaced in a nil map, and
nothing in a state that has the marker of canonical states: what it holds is masked already. -/
inductive OtherMaskedData (masks : Masks) : GoMap → GoMap → Prop where
  | same (event : GoMap) : OtherMaskedData masks event event
  | replaced {event event' : Fields} (hmarker : event.lookup SIEVE_CAN_MARKER = none)
      (h : ReplacesMany go masks.fieldKeyMask masks.fieldPathMask event event') :
      OtherMaskedData masks (some event) (some event')

theorem OtherMaskedData.canonicalizeEvent_eq {masks : Masks} {event event' : GoMap}
    (h : OtherMaskedData masks event event') :
    canonicalizeEvent event' masks = canonicalizeEvent event masks := by
  cases h with
  | same => rfl
  | @replaced event event' hmarker h =>
    obtain ⟨hkeys, hcanonical⟩ := h.same
    have hmarker' : event'.lookup SIEVE_CAN_MARKER = none := by
      rw [lookup_none_iff, hkeys, ← lookup_none_iff]
      exact hmarker
    rw [canonicalizeEvent, canonicalizeEvent, hmarker, hmarker', hcanonical]
    rfl

/-- **Masked data cannot influence triggers**: with other data at masked positions the difference is the
same, and so is what an update trigger says, whatever difference it looks for. -/
theorem masked_data_irrelevant {masks : Masks} {prevState prevState' curState curState' : GoMap}
    (hprev : OtherMaskedData masks prevState prevState')
    (hcur : OtherMaskedData masks curState curState') :
    diffEvent prevState' curState' masks = diffEvent prevState curState masks ∧
      ∀ desiredPrevStateDiff desiredCurStateDiff exactMatch,
        isDesiredUpdate prevState' curState' desiredPrevStateDiff desiredCurStateDiff masks exactMatch =
          isDesiredUpdate prevState curState desiredPrevStateDiff desiredCurStateDiff masks
            exactMatch := by
  have hdiff : diffEvent prevState' curState' masks = diffEvent prevState curState masks := by
    rw [diffEvent, diffEvent, hprev.canonicalizeEvent_eq, hcur.canonicalizeEvent_eq]
  refine ⟨hdiff, fun desiredPrevStateDiff desiredCurStateDiff exactMatch => ?_⟩
  rw [isDesiredUpdate, isDesiredUpdate, hdiff]

/-- Two texts in a state: an address under a path that is masked, and a time. -/
def leaseState (address time : String) : Fields :=
  [("spec", .obj [("hosts", .arr [.str address])]), ("renewTime", .str time)]

/-- The masks hide the hosts. -/
def hostsMask : Masks := ⟨∅, {"spec/hosts/*"}⟩

/-- Another host and another time. -/
theorem masked_data_irrelevant_lease :
    diffEvent (some (leaseState "b" "2021-05-02T03:00:00Z")) (some []) hostsMask =
      diffEvent (some (leaseState "a" "2020-05-02T03:00:00Z")) (some []) hostsMask := by
  have hhost : Replaces go hostsMask.fieldKeyMask hostsMask.fieldPathMask ""
      (.obj (leaseState "a" "2020-05-02T03:00:00Z")) (.obj (leaseState "b" "2020-05-02T03:00:00Z")) :=
    @Replaces.inField go _ _ "" "spec" [] _ _ _
      (@Replaces.inField go _ _ _ "hosts" [] _ _ _ (@Replaces.item go _ _ _ [] _ _ _ (by decide)))
  have htime : Replaces go hostsMask.fieldKeyMask hostsMask.fieldPathMask ""
      (.obj (leaseState "b" "2020-05-02T03:00:00Z")) (.obj (leaseState "b" "2021-05-02T03:00:00Z")) :=
    @Replaces.inField go _ _ "" "renewTime" [("spec", .obj [("hosts", .arr [.str "b"])])] _ _ _
      (.text (by decide) (by decide))
  exact (masked_data_irrelevant (.replaced rfl ((Relation.ReflTransGen.single hhost).tail htime))
    (.same (some []))).1

/-- **A state with the marker is taken as it is**, so that other data under a masked key makes another
difference. -/
theorem marked_data_compared :
    Replaces go {"uid"} ∅ "" (.obj [("SIEVE-CAN", .str ""), ("uid", .str "a")])
      (.obj [("SIEVE-CAN", .str ""), ("uid", .str "b")]) ∧
    ((isDesiredUpdate (some [("SIEVE-CAN", .str ""), ("uid", .str "a")])
      (some [("SIEVE-CAN", .str ""), ("uid", .str "a")]) none none ⟨{"uid"}, ∅⟩ true).map Prod.fst =
        .ok true) ∧
    (isDesiredUpdate (some [("SIEVE-CAN", .str ""), ("uid", .str "b")])
      (some [("SIEVE-CAN", .str ""), ("uid", .str "a")]) none none ⟨{"uid"}, ∅⟩ true).map Prod.fst =
        .ok false :=
  ⟨@Replaces.field go _ _ "" "uid" [("SIEVE-CAN", .str "")] _ _ _ (by decide), rfl, rfl⟩

end Sieve.Server
