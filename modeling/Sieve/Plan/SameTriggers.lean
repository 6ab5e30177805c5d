import Sieve.Event.PartOf
import Sieve.Replay.TriggerAnswers

/-!
# Triggers with equal differences

The order of the fields of a trigger's difference means nothing to its answers.

* `partOfValue_congr`: equal values are parts of the same values;
* `SameMap`, `SameTrigger`: maps and triggers that differ at most in that order;
* `satisfy_sameTrigger`, `answers_sameTrigger`: they answer the same.
-/

namespace Sieve.Plan

open Sieve.Event Sieve.Server Sieve.Library

/-! ### Parts -/

theorem partOfValue_left {d : Dialect} (hlaw : LawfulScalars d.scalarEqual) {a a' b : Json} (ha : a.Distinct)
    (ha' : a'.Distinct) (hequal : Json.Equal d.scalarEqual a a') (h : partOfValue d a b = true) :
    partOfValue d a' b = true := by
  induction a using Json.induct generalizing a' b with
  | scalar a hscalar =>
    have hscalar' := hequal.scalar hlaw hscalar
    rw [partOfValue_scalar hscalar] at h
    rw [partOfValue_scalar hscalar']
    exact (equal_scalar_iff hscalar').mpr (hlaw.trans a' a b
      (hlaw.symm a a' ((equal_scalar_iff hscalar).mp hequal)) ((equal_scalar_iff hscalar).mp h))
  | arr items ih =>
    obtain ⟨items', rfl⟩ := hequal.arr
    obtain ⟨bs, rfl⟩ := partOfValue_arr h
    rw [equal_arr_iff] at hequal
    rw [partOfValue_arr_iff hlaw] at h ⊢
    replace ha := ha.items
    replace ha' := ha'.items
    induction hequal generalizing bs with
    | nil => exact h
    | @cons x x' xs xs' hx _ ih' =>
      rw [List.forall_mem_cons] at ih ha ha'
      cases h with
      | @cons _ b _ bs hhead htail =>
        refine .cons (hhead.imp (fun hskip => ?_) (ih.1 ha.1 ha'.1 hx)) (ih' ih.2 bs htail ha.2 ha'.2)
        rw [hskip] at hx
        exact hlaw.str x' _ (hlaw.symm _ _ ((equal_scalar_iff (show Json.IsScalar (.str SIEVE_IDX_SKIP) from trivial)).mp hx))
  | obj fields ih =>
    obtain ⟨fields', rfl⟩ := hequal.obj
    obtain ⟨bs, rfl⟩ := partOfValue_obj_right h
    rw [equal_obj_iff ha.keys ha'.keys] at hequal
    rw [partOfValue_obj, partOfEventAsMap_iff_lookup ha.keys] at h
    rw [partOfValue_obj, partOfEventAsMap_iff_lookup ha'.keys]
    intro key x' hx'
    have hkey := hequal key
    rw [hx'] at hkey
    cases hx : fields.lookup key with
    | none =>
      rw [hx] at hkey
      cases hkey
    | some x =>
      rw [hx] at hkey
      obtain ⟨y, hy, hpart⟩ := h key x hx
      cases hkey with
      | some hequal' =>
        exact ⟨y, hy, ih (key, x) (lookup_mem hx) (lookup_distinct ha hx) (lookup_distinct ha' hx') hequal' hpart⟩

/-- **Equal values are parts of the same values.** -/
theorem partOfValue_congr {d : Dialect} (hlaw : LawfulScalars d.scalarEqual) {a a' : Json} (ha : a.Distinct)
    (ha' : a'.Distinct) (hequal : Json.Equal d.scalarEqual a a') (b : Json) :
    partOfValue d a' b = partOfValue d a b :=
  Bool.eq_iff_iff.mpr ⟨partOfValue_left hlaw ha' ha (hequal.symm hlaw ha ha'), partOfValue_left hlaw ha ha' hequal⟩

/-! ### Maps -/

/-- A map as decoders leave it. -/
def DistinctMap (m : GoMap) : Prop := ∀ fields, m = some fields → Json.Distinct (.obj fields)

/-- Two maps with the same entries; a nil map is like no other. -/
structure SameMap (a b : GoMap) : Prop where
  left : DistinctMap a
  right : DistinctMap b
  equivalent : equivalentEvent a b = true

theorem SameMap.refl {a : GoMap} (h : DistinctMap a) : SameMap a a := by
  refine ⟨h, h, ?_⟩
  cases a with
  | none => rfl
  | some a => exact Json.Equal.refl go_lawful (h a rfl)

theorem SameMap.cases {a b : GoMap} (h : SameMap a b) : a = none ∧ b = none ∨ ∃ fields fields',
    a = some fields ∧ b = some fields' ∧ Json.Equal go.scalarEqual (.obj fields) (.obj fields') := by
  cases a with
  | none =>
    cases b with
    | none => exact .inl ⟨rfl, rfl⟩
    | some fields' => cases h.equivalent
  | some fields =>
    cases b with
    | none => cases h.equivalent
    | some fields' => exact .inr ⟨fields, fields', rfl, rfl, h.equivalent⟩

theorem SameMap.isNone {a b : GoMap} (h : SameMap a b) : b.isNone = a.isNone := by
  obtain ⟨rfl, rfl⟩ | ⟨fields, fields', rfl, rfl, _⟩ := h.cases <;> rfl

theorem SameMap.eq_none {m : GoMap} (h : SameMap none m) : m = none :=
  Option.isNone_iff_eq_none.mp h.isNone

theorem SameMap.symm {a b : GoMap} (h : SameMap a b) : SameMap b a := by
  obtain ⟨rfl, rfl⟩ | ⟨fields, fields', rfl, rfl, hequal⟩ := h.cases
  · exact h
  · exact ⟨h.right, h.left, hequal.symm go_lawful (h.left fields rfl) (h.right fields' rfl)⟩

theorem SameMap.equivalent_left {actual a b : GoMap} (h : SameMap a b) (hactual : DistinctMap actual)
    (hequivalent : equivalentEvent actual a = true) : equivalentEvent actual b = true := by
  obtain ⟨rfl, rfl⟩ | ⟨fields, fields', rfl, rfl, hequal⟩ := h.cases
  · exact hequivalent
  · cases actual with
    | none => exact hequivalent
    | some actual =>
      exact Json.Equal.trans go_lawful (hactual actual rfl) (h.left fields rfl) (h.right fields' rfl)
        hequivalent hequal

theorem equivalentEvent_congr {actual a b : GoMap} (h : SameMap a b) (hactual : DistinctMap actual) :
    equivalentEvent actual b = equivalentEvent actual a :=
  Bool.eq_iff_iff.mpr ⟨h.symm.equivalent_left hactual, h.equivalent_left hactual⟩

theorem partOfEventAsMap_congr {a b : GoMap} (h : SameMap a b) (actual : GoMap) :
    Server.partOfEventAsMap b actual = Server.partOfEventAsMap a actual := by
  obtain ⟨rfl, rfl⟩ | ⟨fields, fields', rfl, rfl, hequal⟩ := h.cases
  · rfl
  · rw [Server.partOfEventAsMap, Server.partOfEventAsMap, ← partOfValue_obj, ← partOfValue_obj]
    exact partOfValue_congr go_lawful (h.left fields rfl) (h.right fields' rfl) hequal _

/-- What canonicalization makes of a map has distinct keys again. -/
theorem distinctMap_canonicalizeEvent {event event' : GoMap} {masks : Masks} (h : DistinctMap event)
    (hcan : canonicalizeEvent event masks = .ok event') : DistinctMap event' := by
  cases event with
  | none => cases hcan
  | some event =>
    rw [canonicalizeEvent] at hcan
    split at hcan
    · rw [← Except.ok.inj hcan]
      exact h
    · rw [← Except.ok.inj hcan]
      intro fields heq
      rw [← Option.some.inj heq]
      exact insert_distinct (canonicalizeEventAsMap_distinct "" (h event rfl)) (.scalar trivial)

theorem distinctMap_diffEventAsMap {prev cur : GoMap} (hprev : DistinctMap prev) (hcur : DistinctMap cur) :
    DistinctMap (Server.diffEventAsMap prev cur).1 ∧ DistinctMap (Server.diffEventAsMap prev cur).2 := by
  have hgetD : ∀ m : GoMap, DistinctMap m → Json.Distinct (.obj (m.getD [])) := by
    intro m hm
    cases m with
    | none => exact .obj List.nodup_nil nofun
    | some fields => exact hm fields rfl
  rw [Server.diffEventAsMap]
  cases hdiff : Event.diffEventAsMap go (prev.getD []) (cur.getD []) with
  | none => exact ⟨nofun, nofun⟩
  | some diff =>
    have hvalue : diffValue go (.obj (prev.getD [])) (.obj (cur.getD [])) = some (.obj diff.1, .obj diff.2) := by
      rw [diffValue_obj, hdiff]
      rfl
    obtain ⟨hfst, hsnd⟩ := diffValue_distinct (hgetD prev hprev) (hgetD cur hcur) hvalue
    exact ⟨fun fields heq => Option.some.inj heq ▸ hfst, fun fields heq => Option.some.inj heq ▸ hsnd⟩

theorem lookup_isSome_of_equal {fields fields' : Fields} (h : Json.Distinct (.obj fields))
    (h' : Json.Distinct (.obj fields')) (hequal : Json.Equal go.scalarEqual (.obj fields) (.obj fields'))
    (key : String) : (fields'.lookup key).isSome = (fields.lookup key).isSome := by
  have hkey := (equal_obj_iff h.keys h'.keys).mp hequal key
  cases hx : fields.lookup key with
  | none =>
    rw [hx] at hkey
    rw [rel_none hkey]
  | some x =>
    rw [hx] at hkey
    obtain ⟨y, hy, _⟩ := rel_some hkey
    rw [hy]
    rfl

theorem insert_equal {fields fields' : Fields} (h : Json.Distinct (.obj fields)) (h' : Json.Distinct (.obj fields'))
    (hequal : Json.Equal go.scalarEqual (.obj fields) (.obj fields')) (key : String) {value : Json}
    (hvalue : value.Distinct) :
    Json.Equal go.scalarEqual (.obj (Fields.insert fields key value)) (.obj (Fields.insert fields' key value)) := by
  rw [equal_obj_iff (insert_distinct h hvalue).keys (insert_distinct h' hvalue).keys]
  intro key'
  by_cases hkey : key' = key
  · subst hkey
    rw [Fields.lookup_insert_self, Fields.lookup_insert_self]
    exact .some (.refl go_lawful hvalue)
  · rw [lookup_insert_of_ne _ _ hkey, lookup_insert_of_ne _ _ hkey]
    exact (equal_obj_iff h.keys h'.keys).mp hequal key'

/-- Canonicalization keeps maps the same. -/
theorem canonicalizeEvent_congr {a b : GoMap} (h : SameMap a b) (masks : Masks) :
    a = none ∧ b = none ∨ ∃ a' b', canonicalizeEvent a masks = .ok a' ∧ canonicalizeEvent b masks = .ok b' ∧
      SameMap a' b' := by
  obtain ⟨rfl, rfl⟩ | ⟨fields, fields', rfl, rfl, hequal⟩ := h.cases
  · exact .inl ⟨rfl, rfl⟩
  · refine .inr ?_
    have hdistinct := h.left fields rfl
    have hdistinct' := h.right fields' rfl
    by_cases hmarker : (fields.lookup SIEVE_CAN_MARKER).isSome = true
    · refine ⟨some fields, some fields', ?_, ?_, h⟩
      · rw [canonicalizeEvent, if_pos hmarker]
      · rw [canonicalizeEvent, lookup_isSome_of_equal hdistinct hdistinct' hequal, if_pos hmarker]
    · have hcan : canonicalizeEvent (some fields) masks = .ok (some (Fields.insert
          (canonicalizeEventAsMap go masks.fieldKeyMask masks.fieldPathMask "" fields) SIEVE_CAN_MARKER
            (.str ""))) := by
        rw [canonicalizeEvent, if_neg hmarker]
      have hcan' : canonicalizeEvent (some fields') masks = .ok (some (Fields.insert
          (canonicalizeEventAsMap go masks.fieldKeyMask masks.fieldPathMask "" fields') SIEVE_CAN_MARKER
            (.str ""))) := by
        rw [canonicalizeEvent, lookup_isSome_of_equal hdistinct hdistinct' hequal, if_neg hmarker]
      have hmasked := @canonicalizeField_equal go masks.fieldKeyMask masks.fieldPathMask go_lawful "" _ _
        hdistinct hdistinct' hequal
      rw [canonicalizeField_obj, canonicalizeField_obj] at hmasked
      exact ⟨_, _, hcan, hcan', distinctMap_canonicalizeEvent h.left hcan,
        distinctMap_canonicalizeEvent h.right hcan',
        insert_equal (canonicalizeEventAsMap_distinct "" hdistinct) (canonicalizeEventAsMap_distinct "" hdistinct')
          hmasked SIEVE_CAN_MARKER (.scalar trivial)⟩

/-! ### Triggers -/

/-- Two triggers that differ at most in the order of the fields of their differences. -/
inductive SameTrigger : TriggerDefinition → TriggerDefinition → Prop where
  | timeout (t : TimeoutTrigger) : SameTrigger (.timeout t) (.timeout t)
  | annotatedAPICall (t : AnnotatedAPICallTrigger) : SameTrigger (.annotatedAPICall t) (.annotatedAPICall t)
  | objectCreate (t : ObjectCreateTrigger) : SameTrigger (.objectCreate t) (.objectCreate t)
  | objectDelete (t : ObjectDeleteTrigger) : SameTrigger (.objectDelete t) (.objectDelete t)
  | objectUpdate (t : ObjectUpdateTrigger) {prevStateDiff curStateDiff : GoMap}
      (hprev : SameMap t.prevStateDiff prevStateDiff) (hcur : SameMap t.curStateDiff curStateDiff) :
      SameTrigger (.objectUpdate t)
        (.objectUpdate { t with prevStateDiff := prevStateDiff, curStateDiff := curStateDiff })
  | anyFieldModification (t : AnyFieldModificationTrigger) {prevStateDiff : GoMap}
      (hprev : SameMap t.prevStateDiff prevStateDiff) :
      SameTrigger (.anyFieldModification t) (.anyFieldModification { t with prevStateDiff := prevStateDiff })

theorem SameTrigger.getTriggerName {definition definition' : TriggerDefinition}
    (h : SameTrigger definition definition') : definition'.getTriggerName = definition.getTriggerName := by
  cases h <;> rfl

/-- The states of an update notification are as decoders leave them. -/
def DecodedNotification : TriggerNotification → Prop
  | .objectUpdate n => DistinctMap n.prevState ∧ DistinctMap n.curState
  | _ => True

/-- Two tests that end the same. -/
inductive SameTest : Except Fatal Test → Except Fatal Test → Prop where
  | error (error : Fatal) : SameTest (.error error) (.error error)
  | ok {answer : Bool} {trigger trigger' : TriggerDefinition} {notification : TriggerNotification}
      (htrigger : SameTrigger trigger trigger') (hdecoded : DecodedNotification notification) :
      SameTest (.ok ⟨answer, trigger, notification⟩) (.ok ⟨answer, trigger', notification⟩)

theorem SameTest.of_same {answer : Bool} {definition definition' : TriggerDefinition} {n : TriggerNotification}
    (h : SameTrigger definition definition') (hn : DecodedNotification n) {test test' : Except Fatal Test}
    (htest : test = .ok ⟨answer, definition, n⟩) (htest' : test' = .ok ⟨answer, definition', n⟩) :
    SameTest test test' := by
  rw [htest, htest']
  exact .ok h hn

/-- A comparison with equal differences ends the same. -/
theorem isDesiredUpdate_congr {prev prev' cur cur' prevState curState : GoMap} (hprev : SameMap prev prev')
    (hcur : SameMap cur cur') (hprevState : DistinctMap prevState) (hcurState : DistinctMap curState)
    (masks : Masks) (exactMatch : Bool) :
    isDesiredUpdate prevState curState prev' cur' masks exactMatch =
        isDesiredUpdate prevState curState prev cur masks exactMatch ∧
      ∀ result, isDesiredUpdate prevState curState prev cur masks exactMatch = .ok result →
        DistinctMap result.2.1 ∧ DistinctMap result.2.2 := by
  rw [isDesiredUpdate, isDesiredUpdate, diffEvent]
  cases hp : canonicalizeEvent prevState masks with
  | error =>
    refine ⟨rfl, fun result hresult => ?_⟩
    cases hresult
  | ok prevState' =>
    cases hc : canonicalizeEvent curState masks with
    | error =>
      refine ⟨rfl, fun result hresult => ?_⟩
      cases hresult
    | ok curState' =>
      have hprevState' := distinctMap_canonicalizeEvent hprevState hp
      have hcurState' := distinctMap_canonicalizeEvent hcurState hc
      obtain ⟨hdiffPrev, hdiffCur⟩ := distinctMap_diffEventAsMap hprevState' hcurState'
      refine ⟨?_, fun result hresult => ?_⟩
      · show Except.ok (if exactMatch then equivalentEvent (Server.diffEventAsMap prevState' curState').1 prev' &&
              equivalentEvent (Server.diffEventAsMap prevState' curState').2 cur'
            else Server.partOfEventAsMap prev' (Server.diffEventAsMap prevState' curState').1 &&
              Server.partOfEventAsMap cur' (Server.diffEventAsMap prevState' curState').2, prevState', curState') = _
        rw [equivalentEvent_congr hprev hdiffPrev, equivalentEvent_congr hcur hdiffCur,
          partOfEventAsMap_congr hprev, partOfEventAsMap_congr hcur]
        rfl
      · rw [← Except.ok.inj hresult]
        exact ⟨hprevState', hcurState'⟩

theorem satisfy_objectUpdate_congr (t : ObjectUpdateTrigger) {prevStateDiff curStateDiff : GoMap}
    (hprev : SameMap t.prevStateDiff prevStateDiff) (hcur : SameMap t.curStateDiff curStateDiff)
    (n : ObjectUpdateNotification) (hn : DecodedNotification (.objectUpdate n)) :
    SameTest ((TriggerDefinition.objectUpdate t).satisfy (.objectUpdate n))
      ((TriggerDefinition.objectUpdate
        { t with prevStateDiff := prevStateDiff, curStateDiff := curStateDiff }).satisfy (.objectUpdate n)) := by
  have hcovers : ({ t with prevStateDiff := prevStateDiff, curStateDiff := curStateDiff } :
    ObjectUpdateTrigger).covers n = t.covers n := rfl
  have hany : ({ t with prevStateDiff := prevStateDiff, curStateDiff := curStateDiff } :
      ObjectUpdateTrigger).anyUpdate = t.anyUpdate := by
    rw [ObjectUpdateTrigger.anyUpdate, ObjectUpdateTrigger.anyUpdate, hprev.isNone, hcur.isNone]
  rw [TriggerDefinition.satisfy, TriggerDefinition.satisfy, ObjectUpdateTrigger.satisfy,
    ObjectUpdateTrigger.satisfy, hcovers, hany]
  cases t.covers n with
  | false => exact .ok (.objectUpdate t hprev hcur) hn
  | true =>
    cases t.anyUpdate with
    | true => exact .ok (.objectUpdate t hprev hcur) hn
    | false =>
      obtain ⟨hsame, hdistinct⟩ := isDesiredUpdate_congr hprev hcur hn.1 hn.2
        (n.masksToUse t.convertStateToAPIForm)
        (!(n.observedWhen == beforeAPIServerRecv || n.observedWhen == afterAPIServerRecv))
      simp only [if_true, Bool.false_eq_true, if_false, hsame]
      cases hresult : isDesiredUpdate n.prevState n.curState t.prevStateDiff t.curStateDiff
          (n.masksToUse t.convertStateToAPIForm)
          (!(n.observedWhen == beforeAPIServerRecv || n.observedWhen == afterAPIServerRecv)) with
      | error error => exact .error error
      | ok result =>
        obtain ⟨desired, prevState, curState⟩ := result
        have hstates : DecodedNotification (.objectUpdate { n with prevState := prevState, curState := curState }) :=
          hdistinct _ hresult
        cases desired with
        | false => exact .ok (.objectUpdate t hprev hcur) hstates
        | true => exact .ok (.objectUpdate { t with actualOccurrence := _ } hprev hcur) hstates

theorem isAnyFieldModified_congr {prev prev' curState : GoMap} (hprev : SameMap prev prev')
    (hcurState : DistinctMap curState) (masks : Masks) :
    (∃ error, isAnyFieldModified curState prev masks = .error error ∧
        isAnyFieldModified curState prev' masks = .error error) ∨
      ∃ modified curState' a a', isAnyFieldModified curState prev masks = .ok (modified, curState', a) ∧
        isAnyFieldModified curState prev' masks = .ok (modified, curState', a') ∧ SameMap a a' ∧
          DistinctMap curState' := by
  rw [isAnyFieldModified, isAnyFieldModified]
  obtain ⟨rfl, rfl⟩ | ⟨a, a', hcan, hcan', hsame⟩ := canonicalizeEvent_congr hprev masks
  · exact .inl ⟨_, rfl, rfl⟩
  · rw [hcan, hcan']
    cases hc : canonicalizeEvent curState masks with
    | error error => exact .inl ⟨error, rfl, rfl⟩
    | ok curState' =>
      refine .inr ⟨!Server.partOfEventAsMap a curState', curState', a, a', rfl, ?_, hsame,
        distinctMap_canonicalizeEvent hcurState hc⟩
      rw [← partOfEventAsMap_congr hsame]
      rfl

theorem satisfy_anyFieldModification_congr (t : AnyFieldModificationTrigger) {prevStateDiff : GoMap}
    (hprev : SameMap t.prevStateDiff prevStateDiff) (n : ObjectUpdateNotification)
    (hn : DecodedNotification (.objectUpdate n)) :
    SameTest ((TriggerDefinition.anyFieldModification t).satisfy (.objectUpdate n))
      ((TriggerDefinition.anyFieldModification
        { t with prevStateDiff := prevStateDiff }).satisfy (.objectUpdate n)) := by
  have hcovers : ({ t with prevStateDiff := prevStateDiff } :
    AnyFieldModificationTrigger).covers n = t.covers n := rfl
  rw [TriggerDefinition.satisfy, TriggerDefinition.satisfy, AnyFieldModificationTrigger.satisfy,
    AnyFieldModificationTrigger.satisfy, hcovers]
  cases t.covers n with
  | false => exact .ok (.anyFieldModification t hprev) hn
  | true =>
    rw [if_pos rfl, if_pos rfl]
    obtain ⟨error, herror, herror'⟩ | ⟨modified, curState, a, a', hok, hok', hsame, hdistinct⟩ :=
      isAnyFieldModified_congr hprev hn.2 (n.masksToUse t.convertStateToAPIForm)
    · rw [herror, herror']
      exact .error error
    · rw [hok, hok']
      have hstates : DecodedNotification (.objectUpdate { n with curState := curState }) := ⟨hn.1, hdistinct⟩
      cases modified with
      | false => exact .ok (.anyFieldModification { t with prevStateDiff := a } hsame) hstates
      | true =>
        exact .ok (.anyFieldModification
          { t with prevStateDiff := a, actualOccurrence := t.actualOccurrence + 1 } hsame) hstates

/-- **Equal differences answer the same** to one notification. -/
theorem satisfy_sameTrigger {definition definition' : TriggerDefinition} (h : SameTrigger definition definition')
    {n : TriggerNotification} (hn : DecodedNotification n) :
    SameTest (definition.satisfy n) (definition'.satisfy n) := by
  cases h with
  | timeout t => cases n <;> exact .ok (.timeout _) hn
  | annotatedAPICall t => cases n <;> exact .ok (.annotatedAPICall _) hn
  | objectCreate t => cases n <;> exact .ok (.objectCreate _) hn
  | objectDelete t => cases n <;> exact .ok (.objectDelete _) hn
  | objectUpdate t hprev hcur =>
    cases n with
    | objectUpdate n => exact satisfy_objectUpdate_congr t hprev hcur n hn
    | _ => exact .ok (.objectUpdate t hprev hcur) hn
  | anyFieldModification t hprev =>
    cases n with
    | objectUpdate n => exact satisfy_anyFieldModification_congr t hprev n hn
    | _ => exact .ok (.anyFieldModification t hprev) hn

/-- **Equal differences answer the same** to all notifications. -/
theorem answers_sameTrigger {definition definition' : TriggerDefinition} (h : SameTrigger definition definition')
    {ns : List TriggerNotification} (hns : ∀ n ∈ ns, DecodedNotification n) :
    definition'.answers ns = definition.answers ns := by
  induction ns generalizing definition definition' with
  | nil => rfl
  | cons n ns ih =>
    rw [List.forall_mem_cons] at hns
    have htest := satisfy_sameTrigger h hns.1
    rw [TriggerDefinition.answers, TriggerDefinition.answers]
    generalize definition.satisfy n = test at htest
    generalize definition'.satisfy n = test' at htest
    cases htest with
    | error error => rfl
    | @ok answer trigger trigger' _ htrigger _ =>
      show (trigger'.answers ns >>= fun answers => _) = (trigger.answers ns >>= fun answers => _)
      rw [ih htrigger hns.2]

end Sieve.Plan
