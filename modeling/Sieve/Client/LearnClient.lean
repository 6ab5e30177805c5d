import Mathlib.Data.Finset.Insert
import Mathlib.Data.List.Induction

/-!
# Which events trigger a reconcile

The learn client reports the events of custom resources and of what they own.

* `triggerReconcile`: of `learn_client.go`, with `taintMap` as a set of composed keys;
* `Owned`: the object is owned by a custom resource, through objects that were reported;
* `mem_taintAfter_iff`: what the map holds after the events;
* `triggerReconcile_exact`: when the answers are exact.
-/

namespace Sieve.Client

/-- What `getResourceTypeFromObj` reads: the kind of an unstructured object, or the name of a Go type. -/
inductive ObjectType where
  | unstructured (kind : String)
  | typed (typeName : String)

structure OwnerReference where
  kind : String
  name : String

structure ObjectMeta where
  objNamespace : String
  name : String
  ownerReferences : List OwnerReference

/-- An object of an informer; `meta.Accessor` may fail. -/
structure InformerObject where
  type : ObjectType
  accessor : Option ObjectMeta

/-- What Kubernetes knows an object by. -/
structure ObjectId where
  objNamespace : String
  kind : String
  name : String
  deriving DecidableEq

def isCRD (rType : String) (crds : List String) : Bool := crds.any fun crd => rType == crd

/-- The key in `taintMap`. -/
def taintKey (id : ObjectId) : String := id.objNamespace ++ "-" ++ id.kind ++ "-" ++ id.name

section Client

-- `strings.ToLower`
variable (toLower : String → String)

def getResourceTypeFromObj : ObjectType → String
  | .unstructured kind => toLower kind
  | .typed typeName => toLower (String.ofList ((typeName.toList.splitOn '.').getLast
      (List.splitOn_ne_nil '.' typeName.toList)))

/-- The object that the reference is to. -/
def OwnerReference.id (objNamespace : String) (ref : OwnerReference) : ObjectId :=
  ⟨objNamespace, toLower ref.kind, ref.name⟩

/-- The object itself. -/
def ObjectMeta.id (o : ObjectMeta) (type : ObjectType) : ObjectId :=
  ⟨o.objNamespace, getResourceTypeFromObj toLower type, o.name⟩

variable (crds : List String)

/-- The loop over the owner references: does one end it? -/
def ownerTriggers (taintMap : Finset String) (o : ObjectMeta) : Bool :=
  o.ownerReferences.any fun ref =>
    isCRD (toLower ref.kind) crds || decide (taintKey (ref.id toLower o.objNamespace) ∈ taintMap)

def triggerReconcile (taintMap : Finset String) (object : InformerObject) : Bool × Finset String :=
  if isCRD (getResourceTypeFromObj toLower object.type) crds then (true, taintMap)
  else
    match object.accessor with
    | some o =>
      if ownerTriggers toLower crds taintMap o then
        (true, insert (taintKey (o.id toLower object.type)) taintMap)
      else (false, taintMap)
    | none => (false, taintMap)

/-- `taintMap` after the events. -/
def taintAfter (events : List InformerObject) : Finset String :=
  events.foldl (fun taintMap object => (triggerReconcile toLower crds taintMap object).2) ∅

/-- The answer for an object after the events. -/
def answerAfter (events : List InformerObject) (object : InformerObject) : Bool :=
  (triggerReconcile toLower crds (taintAfter toLower crds events) object).1

/-! ### Owners -/

/-- A custom resource owns the object, directly or through objects that were reported. -/
inductive Owned (earlier : List InformerObject) : InformerObject → Prop where
  | direct {object : InformerObject} {o : ObjectMeta} {ref : OwnerReference}
      (haccessor : object.accessor = some o) (href : ref ∈ o.ownerReferences)
      (hcrd : isCRD (toLower ref.kind) crds = true) : Owned earlier object
  | through {object owner : InformerObject} {o o' : ObjectMeta} {ref : OwnerReference}
      (haccessor : object.accessor = some o) (href : ref ∈ o.ownerReferences)
      (hearlier : owner ∈ earlier) (haccessor' : owner.accessor = some o')
      (hid : o'.id toLower owner.type = ref.id toLower o.objNamespace)
      (h : Owned earlier owner) : Owned earlier object

/-- The event is one of a custom resource, or of an object that one owns. -/
def Related (earlier : List InformerObject) (object : InformerObject) : Prop :=
  isCRD (getResourceTypeFromObj toLower object.type) crds = true ∨ Owned toLower crds earlier object

/-- An owned object was reported, and it was owned then. -/
def Stored (events : List InformerObject) (id : ObjectId) : Prop :=
  ∃ before object after o, events = before ++ object :: after ∧ object.accessor = some o ∧
    o.id toLower object.type = id ∧ isCRD id.kind crds = false ∧ Owned toLower crds before object

/-- The answer is exact, and no other object is taken for an owner. -/
structure ExactFor (earlier : List InformerObject) (object : InformerObject) : Prop where
  answer : answerAfter toLower crds earlier object = true ↔ Related toLower crds earlier object
  found : ∀ o, object.accessor = some o → ∀ ref ∈ o.ownerReferences,
    taintKey (ref.id toLower o.objNamespace) ∈ taintAfter toLower crds earlier →
      Stored toLower crds earlier (ref.id toLower o.objNamespace)

/-- No owner has the key of another owned object, and every owner that is owned was owned when it was
reported. -/
structure ClearFor (earlier : List InformerObject) (object : InformerObject) : Prop where
  keys : ∀ o, object.accessor = some o → ∀ ref ∈ o.ownerReferences, ∀ id,
    Stored toLower crds earlier id → taintKey id = taintKey (ref.id toLower o.objNamespace) →
      id = ref.id toLower o.objNamespace
  owners : ∀ o, object.accessor = some o → ∀ ref ∈ o.ownerReferences, ∀ owner ∈ earlier, ∀ o',
    owner.accessor = some o' → o'.id toLower owner.type = ref.id toLower o.objNamespace →
      Owned toLower crds earlier owner → isCRD (toLower ref.kind) crds = false →
        Stored toLower crds earlier (ref.id toLower o.objNamespace)

end Client

variable {toLower : String → String} {crds : List String}

theorem Owned.mono {earlier later : List InformerObject} {object : InformerObject}
    (hsub : earlier ⊆ later) (h : Owned toLower crds earlier object) :
    Owned toLower crds later object := by
  induction h with
  | direct haccessor href hcrd => exact .direct haccessor href hcrd
  | through haccessor href hearlier haccessor' hid _ ih =>
    exact .through haccessor href (hsub hearlier) haccessor' hid ih

theorem Stored.owned {events : List InformerObject} {id : ObjectId} (h : Stored toLower crds events id) :
    ∃ object ∈ events, ∃ o, object.accessor = some o ∧ o.id toLower object.type = id ∧
      Owned toLower crds events object := by
  obtain ⟨before, object, after, o, rfl, haccessor, hid, _, howned⟩ := h
  exact ⟨object, by simp, o, haccessor, hid, howned.mono (List.subset_append_left _ _)⟩

/-- The last event adds itself, if it is owned. -/
theorem stored_concat_iff {events : List InformerObject} {object : InformerObject} {id : ObjectId} :
    Stored toLower crds (events ++ [object]) id ↔ Stored toLower crds events id ∨
      ∃ o, object.accessor = some o ∧ o.id toLower object.type = id ∧ isCRD id.kind crds = false ∧
        Owned toLower crds events object := by
  constructor
  · intro ⟨before, object', after, o, heq, h⟩
    rcases List.eq_nil_or_concat after with rfl | ⟨after, last, rfl⟩
    · obtain ⟨rfl, hlast⟩ := List.append_inj' heq rfl
      obtain rfl := (List.cons.inj hlast).1
      exact .inr ⟨o, h⟩
    · rw [List.concat_eq_append, ← List.cons_append, ← List.append_assoc] at heq
      exact .inl ⟨before, object', after, o, (List.append_inj' heq rfl).1, h⟩
  · rintro (⟨before, object', after, o, rfl, h⟩ | ⟨o, h⟩)
    · exact ⟨before, object', after ++ [object], o, by simp, h⟩
    · exact ⟨events, object, [], o, rfl, h⟩

/-! ### One event -/

/-- **One event**: the answer is exact where the map holds the objects that were owned when they were
reported. -/
theorem triggerReconcile_step {earlier : List InformerObject} {object : InformerObject}
    (htaint : ∀ key, key ∈ taintAfter toLower crds earlier ↔
      ∃ id, Stored toLower crds earlier id ∧ taintKey id = key)
    (hclear : ClearFor toLower crds earlier object) : ExactFor toLower crds earlier object := by
  have hfound : ∀ o, object.accessor = some o → ∀ ref ∈ o.ownerReferences,
      taintKey (ref.id toLower o.objNamespace) ∈ taintAfter toLower crds earlier →
        Stored toLower crds earlier (ref.id toLower o.objNamespace) := by
    intro o haccessor ref href hmem
    obtain ⟨id, hstored, hkey⟩ := (htaint _).mp hmem
    rw [← hclear.keys o haccessor ref href id hstored hkey]
    exact hstored
  refine ⟨?_, hfound⟩
  rw [answerAfter, triggerReconcile, Related]
  by_cases hcrd : isCRD (getResourceTypeFromObj toLower object.type) crds = true
  · simp [hcrd]
  · rw [if_neg hcrd, or_iff_right hcrd]
    cases haccessor : object.accessor with
    | none =>
      refine iff_of_false (by simp) fun howned => ?_
      cases howned with
      | direct h _ _ => cases haccessor.symm.trans h
      | through h _ _ _ _ _ => cases haccessor.symm.trans h
    | some o =>
      have hanswer : (if ownerTriggers toLower crds (taintAfter toLower crds earlier) o = true then
          (true, insert (taintKey (o.id toLower object.type)) (taintAfter toLower crds earlier))
          else (false, taintAfter toLower crds earlier)).1 =
            ownerTriggers toLower crds (taintAfter toLower crds earlier) o := by
        split
        · rename_i h
          exact h.symm
        · rename_i h
          simpa using h
      show (if ownerTriggers toLower crds (taintAfter toLower crds earlier) o = true then
          (true, insert (taintKey (o.id toLower object.type)) (taintAfter toLower crds earlier))
          else (false, taintAfter toLower crds earlier)).1 = true ↔ _
      rw [hanswer, ownerTriggers, List.any_eq_true]
      simp only [Bool.or_eq_true, decide_eq_true_eq]
      constructor
      · intro ⟨ref, href, h⟩
        rcases h with h | h
        · exact .direct haccessor href h
        · obtain ⟨owner, howner, o', haccessor', hid, howned⟩ := (hfound o haccessor ref href h).owned
          exact .through haccessor href howner haccessor' hid howned
      · intro howned
        cases howned with
        | @direct _ o' ref haccessor' href hcrd' =>
          obtain rfl := Option.some.inj (haccessor.symm.trans haccessor')
          exact ⟨ref, href, .inl hcrd'⟩
        | @through _ owner o' o'' ref haccessor' href hearlier haccessor'' hid h =>
          obtain rfl := Option.some.inj (haccessor.symm.trans haccessor')
          by_cases hkind : isCRD (toLower ref.kind) crds = true
          · exact ⟨ref, href, .inl hkind⟩
          · refine ⟨ref, href, .inr ((htaint _).mpr ⟨_, ?_, rfl⟩)⟩
            exact hclear.owners o haccessor ref href owner hearlier o'' haccessor'' hid h
              (by simpa using hkind)

/-- What one event adds to the map. -/
theorem mem_triggerReconcile_iff {taintMap : Finset String} {object : InformerObject} {key : String} :
    key ∈ (triggerReconcile toLower crds taintMap object).2 ↔ key ∈ taintMap ∨
      isCRD (getResourceTypeFromObj toLower object.type) crds = false ∧
        (triggerReconcile toLower crds taintMap object).1 = true ∧
          ∃ o, object.accessor = some o ∧ taintKey (o.id toLower object.type) = key := by
  rw [triggerReconcile]
  split
  · rename_i hcrd
    simp [hcrd]
  · rename_i hcrd
    rw [Bool.not_eq_true] at hcrd
    cases object.accessor with
    | none => simp
    | some o =>
      show key ∈ (if ownerTriggers toLower crds taintMap o = true then
        (true, insert (taintKey (o.id toLower object.type)) taintMap) else (false, taintMap)).2 ↔
          key ∈ taintMap ∨ _ ∧ (if ownerTriggers toLower crds taintMap o = true then
            (true, insert (taintKey (o.id toLower object.type)) taintMap)
            else (false, taintMap)).1 = true ∧ _
      split
      · simp [hcrd, or_comm, eq_comm]
      · simp

/-! ### Runs -/

/-- **The map after the events** holds the objects that were owned when they were reported. -/
theorem mem_taintAfter_iff {events : List InformerObject}
    (hclear : ∀ before object after, events = before ++ object :: after →
      ClearFor toLower crds before object) (key : String) :
    key ∈ taintAfter toLower crds events ↔
      ∃ id, Stored toLower crds events id ∧ taintKey id = key := by
  induction events using List.reverseRecOn generalizing key with
  | nil =>
    refine iff_of_false (by simp [taintAfter]) ?_
    intro ⟨id, ⟨before, object, after, o, h, _⟩, _⟩
    simp at h
  | append_singleton events object ih =>
    have hbefore := ih fun before object' after h =>
      hclear before object' (after ++ [object]) (by rw [h]; simp)
    have hexact := triggerReconcile_step hbefore (hclear events object [] rfl)
    have hrun : taintAfter toLower crds (events ++ [object]) =
        (triggerReconcile toLower crds (taintAfter toLower crds events) object).2 := by
      rw [taintAfter, List.foldl_append]
      rfl
    have hanswer : (triggerReconcile toLower crds (taintAfter toLower crds events) object).1 = true ↔
      Related toLower crds events object := hexact.answer
    rw [hrun, mem_triggerReconcile_iff, hbefore, hanswer]
    simp only [stored_concat_iff]
    constructor
    · rintro (⟨id, hstored, hkey⟩ | ⟨hcrd, hrelated, o, haccessor, hkey⟩)
      · exact ⟨id, .inl hstored, hkey⟩
      · refine ⟨o.id toLower object.type, .inr ⟨o, haccessor, rfl, hcrd, ?_⟩, hkey⟩
        exact hrelated.resolve_left (by simp [hcrd])
    · rintro ⟨id, hstored | ⟨o, haccessor, rfl, hcrd, howned⟩, hkey⟩
      · exact .inl ⟨id, hstored, hkey⟩
      · exact .inr ⟨hcrd, .inr howned, o, haccessor, hkey⟩

/-- **Every answer of the run is exact** where no owner has the key of another owned object, and every
owner that is owned was owned when it was reported. -/
theorem triggerReconcile_exact (toLower : String → String) (crds : List String)
    (events : List InformerObject) (hclear : ∀ before object after,
      events = before ++ object :: after → ClearFor toLower crds before object) :
    ∀ before object after, events = before ++ object :: after → ExactFor toLower crds before object := by
  intro before object after heq
  refine triggerReconcile_step (mem_taintAfter_iff fun before' object' after' h => ?_)
    (hclear before object after heq)
  exact hclear before' object' (after' ++ object :: after) (by rw [heq, h]; simp)

/-! ### Pods of a cluster -/

/-- Lower case for ASCII. -/
def asciiToLower (s : String) : String := String.ofList (s.toList.map Char.toLower)

/-- An object with at most one owner. -/
def informerObject (typeName objNamespace name : String) (owner : Option OwnerReference) : InformerObject :=
  ⟨.typed typeName, some ⟨objNamespace, name, owner.toList⟩⟩

def ownedStatefulSet : InformerObject :=
  informerObject "*v1.StatefulSet" "team" "db" (some ⟨"RabbitmqCluster", "db"⟩)

def podOfStatefulSet : InformerObject :=
  informerObject "*v1.Pod" "team" "db-0" (some ⟨"StatefulSet", "db"⟩)

theorem clearFor_nil (object : InformerObject) :
    ClearFor asciiToLower ["rabbitmqcluster"] [] object := by
  refine ⟨fun o _ ref _ id hstored => ?_, fun o _ ref _ owner howner => ?_⟩
  · obtain ⟨owner, howner, _⟩ := hstored.owned
    cases howner
  · cases howner

/-- A pod that is owned through a stateful set. -/
theorem triggerReconcile_exact_pod :
    ExactFor asciiToLower ["rabbitmqcluster"] [ownedStatefulSet] podOfStatefulSet := by
  refine triggerReconcile_exact asciiToLower ["rabbitmqcluster"] [ownedStatefulSet, podOfStatefulSet]
    (fun before object after heq => ?_) [ownedStatefulSet] podOfStatefulSet [] rfl
  cases before with
  | nil => exact clearFor_nil object
  | cons first before =>
    obtain ⟨rfl, hrest⟩ := List.cons.inj heq
    cases before with
    | cons second before => simp at hrest
    | nil =>
      obtain ⟨rfl, rfl⟩ := List.cons.inj hrest
      have hstored : Stored asciiToLower ["rabbitmqcluster"] [ownedStatefulSet]
          ⟨"team", "statefulset", "db"⟩ :=
        ⟨[], ownedStatefulSet, [], _, rfl, rfl, by decide, by decide,
          .direct rfl List.mem_cons_self (by decide)⟩
      refine ⟨fun o haccessor ref href id hid _ => ?_, fun o haccessor ref href _ _ _ _ _ _ _ => ?_⟩
      · obtain rfl := Option.some.inj haccessor
        rw [List.mem_singleton.mp href]
        obtain ⟨owner, howner, o', haccessor', rfl, _⟩ := hid.owned
        rw [List.mem_singleton.mp howner] at haccessor' ⊢
        obtain rfl := Option.some.inj haccessor'
        decide
      · obtain rfl := Option.some.inj haccessor
        rw [List.mem_singleton.mp href]
        exact hstored

/-- The events before: a pod without an owner, a custom resource, and its pod in another namespace. -/
def eventsOfTwoTeams : List InformerObject :=
  [informerObject "*v1.Pod" "team" "pod-db" none,
    informerObject "*v1.RabbitmqCluster" "team-pod" "r" none,
    informerObject "*v1.Pod" "team-pod" "db" (some ⟨"RabbitmqCluster", "r"⟩)]

/-- **Two pods have one key**, and the claim of the first one is taken for owned. -/
theorem not_exactFor_composed : ¬ ExactFor asciiToLower ["rabbitmqcluster"] eventsOfTwoTeams
    (informerObject "*v1.PersistentVolumeClaim" "team" "data" (some ⟨"Pod", "pod-db"⟩)) := by
  intro h
  have hanswer : answerAfter asciiToLower ["rabbitmqcluster"] eventsOfTwoTeams
      (informerObject "*v1.PersistentVolumeClaim" "team" "data" (some ⟨"Pod", "pod-db"⟩)) = true := by
    decide
  have howned := (h.answer.mp hanswer).resolve_left (by decide)
  cases howned with
  | direct haccessor href hcrd =>
    obtain rfl := Option.some.inj haccessor
    rw [List.mem_singleton.mp href] at hcrd
    revert hcrd
    decide
  | through haccessor href hearlier haccessor' hid howner =>
    obtain rfl := Option.some.inj haccessor
    rw [List.mem_singleton.mp href] at hid
    simp only [eventsOfTwoTeams, List.mem_cons, List.not_mem_nil, or_false] at hearlier
    rcases hearlier with rfl | rfl | rfl
    · cases howner with
      | direct h hmem _ =>
        obtain rfl := Option.some.inj h
        cases hmem
      | through h hmem _ _ _ _ =>
        obtain rfl := Option.some.inj h
        cases hmem
    · obtain rfl := Option.some.inj haccessor'
      revert hid
      decide
    · obtain rfl := Option.some.inj haccessor'
      revert hid
      decide

end Sieve.Client
