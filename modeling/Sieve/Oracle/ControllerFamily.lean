import Sieve.Library.FoldExcept
import Sieve.Library.Saturation
import Sieve.Oracle.APILog
import Mathlib.Data.Char
import Mathlib.Data.List.Lex
import Mathlib.Data.Set.Lattice

/-!
# The objects of the controller

`generate_controller_related_list` of `checker_common.py`: the keys of the objects that own the pods of
the controller or are owned with them.

* `keepTainting`: the loop over the owner references, in both directions;
* `controllerFamily`: the least set of uids that the loop is for;
* `relatedList_exact`: the loop comes to an end, with that set.
-/

namespace Sieve.Oracle

open Sieve.Event Sieve.Library Sieve.Analyzer

/-- An element of the set of uids.  In Python a truth value is the number 0 or 1. -/
inductive Uid where
  | none
  | num (q : Rat)
  | str (s : String)
  deriving DecidableEq

/-- Lists and dicts have no hash. -/
def asElement : Json → Except ParseError Uid
  | .null => .ok .none
  | .bool b => .ok (.num (if b then 1 else 0))
  | .num q => .ok (.num q)
  | .str s => .ok (.str s)
  | .arr _ => .error .typeError
  | .obj _ => .error .typeError

/-- `get_metadata_value`; the missing value is `None`. -/
def getMetadataValue (objMap : Json) (mkey : String) : Except ParseError Json := do
  if ← hasItem objMap mkey then getItem objMap mkey
  else if ← hasItem objMap "metadata" then
    let metadata ← getItem objMap "metadata"
    if ← hasItem metadata mkey then getItem metadata mkey else .ok .null
  else .ok .null

def APIEvent.uid (event : APIEvent) : Except ParseError Uid := do
  asElement (← getMetadataValue event.objMap "uid")

def ownerUids (ownerReferences : Json) : Except ParseError (List Uid) := do
  (← iterate ownerReferences).mapM fun ownerReference => do
    asElement (← getItem ownerReference "uid")

def hasSievetag (podAsMap : Json) : Except ParseError Bool := do
  if ← hasItem podAsMap "labels" then hasItem (← getItem podAsMap "labels") "sievetag" else .ok false

/-- The first loop over the events: the pods of the controller and their owners. -/
def taintPod (uids : Finset Uid) (event : APIEvent) : Except ParseError (Finset Uid) := do
  if event.rtype = "pod".toList then
    if ← hasSievetag event.objMap then
      let uid ← asElement (← getItem event.objMap "uid")
      let owners ← ownerUids (← getItem event.objMap "ownerReferences")
      .ok (insert uid uids ∪ owners.toFinset)
    else .ok uids
  else .ok uids

def taintOwners (owners : List Uid) (state : Finset Uid × Bool) : Finset Uid × Bool :=
  owners.foldl (fun state owner =>
    if owner ∈ state.1 then state else (insert owner state.1, true)) state

def taintOwned (uid : Uid) (owners : List Uid) (state : Finset Uid × Bool) : Finset Uid × Bool :=
  owners.foldl (fun state owner =>
    if owner ∈ state.1 then (insert uid state.1, true) else state) state

/-- The body of the loop over the events in the `while` loop; the state holds `keep_tainting`. -/
def taintEvent (state : Finset Uid × Bool) (event : APIEvent) :
    Except ParseError (Finset Uid × Bool) := do
  match ← getMetadataValue event.objMap "ownerReferences" with
  | .null => .ok state
  | ownerReferences =>
    let uid ← event.uid
    let owners ← ownerUids ownerReferences
    .ok (if uid ∈ state.1 then taintOwners owners state else taintOwned uid owners state)

/-- The `while` loop; `none` if it has not come to an end. -/
def keepTainting (apiEventList : List APIEvent) :
    ℕ → Finset Uid → Except ParseError (Option (Finset Uid))
  | 0, _ => .ok none
  | fuel + 1, uids => do
    let (uids, keep) ← apiEventList.foldlM taintEvent (uids, false)
    if keep then keepTainting apiEventList fuel uids else .ok (some uids)

/-- The last loop over the events. -/
def relateKey (uids : Finset Uid) (controllerRelatedList : List Text) (event : APIEvent) :
    Except ParseError (List Text) := do
  let uid ← event.uid
  .ok (if uid ∈ uids ∧ event.key ∉ controllerRelatedList then controllerRelatedList ++ [event.key]
    else controllerRelatedList)

def generateControllerRelatedList (loads : Text → Option Json) (fuel : ℕ) (log : Text) :
    Except ParseError (Option (List Text)) := do
  let apiEventList ← apiEventList loads log
  let uids ← apiEventList.foldlM taintPod ∅
  match ← keepTainting apiEventList fuel uids with
  | none => .ok none
  | some uids =>
    let controllerRelatedList ← apiEventList.foldlM (relateKey uids) []
    .ok (some (controllerRelatedList.mergeSort fun key key' => decide (key ≤ key')))

/-! ### What the list is for -/

def HasUid (event : APIEvent) (uid : Uid) : Prop := event.uid = .ok uid ∧ uid ≠ .none

def ListsOwner (event : APIEvent) (owner : Uid) : Prop :=
  ∃ ownerReferences owners, getMetadataValue event.objMap "ownerReferences" = .ok ownerReferences ∧
    ownerUids ownerReferences = .ok owners ∧ owner ∈ owners

/-- A pod of the controller. -/
def IsTagged (event : APIEvent) : Prop :=
  event.rtype = "pod".toList ∧ hasSievetag event.objMap = .ok true

/-- The object is in the set if and only if its owners are. -/
def ClosedAt (event : APIEvent) (S : Set Uid) : Prop :=
  ∀ uid owner, HasUid event uid → ListsOwner event owner → (uid ∈ S ↔ owner ∈ S)

/-- The set has the pods of the controller and their owners, and is closed at every event. -/
structure IsFamily (events : List APIEvent) (S : Set Uid) : Prop where
  pod : ∀ event ∈ events, IsTagged event → ∀ uid, HasUid event uid → uid ∈ S
  podOwner : ∀ event ∈ events, IsTagged event → ∀ owner, ListsOwner event owner → owner ∈ S
  closed : ∀ event ∈ events, ClosedAt event S

/-- The least such set. -/
def controllerFamily (events : List APIEvent) : Set Uid := ⋂₀ {S | IsFamily events S}

/-- What the objects of a log look like: an object with owners has a uid, and so have they; a pod of
the controller has both at the top. -/
structure WellFormed (event : APIEvent) : Prop where
  uid : ∃ uid, event.uid = .ok uid
  owners : ∃ ownerReferences, getMetadataValue event.objMap "ownerReferences" = .ok ownerReferences ∧
    (ownerReferences ≠ .null → (∃ uid, HasUid event uid) ∧
      ∃ owners, ownerUids ownerReferences = .ok owners ∧ Uid.none ∉ owners)
  labels : event.rtype = "pod".toList → ∃ tagged, hasSievetag event.objMap = .ok tagged
  pod : IsTagged event → ∃ uid ownerReferences, getItem event.objMap "uid" = .ok uid ∧
    getItem event.objMap "ownerReferences" = .ok ownerReferences ∧ ownerReferences ≠ .null

/-! ### One event -/

/-- What one event adds; an event that is not well formed adds nothing. -/
def taintRule (event : APIEvent) (s : Finset Uid) : Finset Uid :=
  match taintEvent (s, false) event with
  | .ok (s', _) => s'
  | .error _ => s

theorem taintOwners_eq (owners : List Uid) (s : Finset Uid) (keep : Bool) :
    taintOwners owners (s, keep) =
      (s ∪ owners.toFinset, keep || decide (s ∪ owners.toFinset ≠ s)) := by
  induction owners generalizing s keep with
  | nil => simp [taintOwners]
  | cons owner owners ih =>
    show taintOwners owners (if owner ∈ s then (s, keep) else (insert owner s, true)) = _
    have hunion : s ∪ (owner :: owners).toFinset = insert owner s ∪ owners.toFinset := by
      rw [List.toFinset_cons, Finset.union_insert, Finset.insert_union]
    rw [hunion]
    split
    · rename_i hmem
      rw [ih, Finset.insert_eq_of_mem hmem]
    · rename_i hmem
      have hne : insert owner s ∪ owners.toFinset ≠ s := by
        intro heq
        apply hmem
        rw [← heq]
        simp
      rw [ih, decide_eq_true hne, Bool.or_true, Bool.true_or]

/-- Once the object is in the set, its owners change nothing. -/
theorem taintOwned_mem {uid : Uid} {s : Finset Uid} (hmem : uid ∈ s) (owners : List Uid) :
    taintOwned uid owners (s, true) = (s, true) := by
  induction owners with
  | nil => rfl
  | cons owner owners ih =>
    show taintOwned uid owners (if owner ∈ s then (insert uid s, true) else (s, true)) = _
    rw [Finset.insert_eq_of_mem hmem, ite_self]
    exact ih

theorem taintOwned_eq (uid : Uid) (s : Finset Uid) (owners : List Uid) (keep : Bool) :
    taintOwned uid owners (s, keep) =
      if ∃ owner ∈ owners, owner ∈ s then (insert uid s, true) else (s, keep) := by
  induction owners with
  | nil => simp [taintOwned]
  | cons owner owners ih =>
    show taintOwned uid owners (if owner ∈ s then (insert uid s, true) else (s, keep)) = _
    by_cases howner : owner ∈ s
    · rw [if_pos howner, taintOwned_mem (Finset.mem_insert_self uid s)]
      simp [howner]
    · rw [if_neg howner, ih]
      simp [howner]

/-- What an event with a uid and owners adds. -/
def grow (uid : Uid) (owners : List Uid) (s : Finset Uid) : Finset Uid :=
  if uid ∈ s then s ∪ owners.toFinset else if ∃ owner ∈ owners, owner ∈ s then insert uid s else s

theorem taintEvent_owners {event : APIEvent} {ownerReferences : Json} {uid : Uid} {owners : List Uid}
    (href : getMetadataValue event.objMap "ownerReferences" = .ok ownerReferences)
    (hnull : ownerReferences ≠ .null) (huid : event.uid = .ok uid)
    (howners : ownerUids ownerReferences = .ok owners) (s : Finset Uid) (keep : Bool) :
    taintEvent (s, keep) event =
      .ok (grow uid owners s, keep || decide (grow uid owners s ≠ s)) := by
  have heq : taintEvent (s, keep) event =
      .ok (if uid ∈ s then taintOwners owners (s, keep) else taintOwned uid owners (s, keep)) := by
    rw [taintEvent, href]
    cases ownerReferences with
    | null => exact absurd rfl hnull
    | _ =>
      simp only [huid, bind, Except.bind]
      rw [howners]
  rw [heq, grow]
  by_cases hmem : uid ∈ s
  · rw [if_pos hmem, if_pos hmem, taintOwners_eq]
  · rw [if_neg hmem, if_neg hmem, taintOwned_eq]
    split
    · have hne : insert uid s ≠ s := fun heq => hmem (heq ▸ Finset.mem_insert_self uid s)
      simp [hne]
    · simp

theorem taintEvent_null {event : APIEvent}
    (href : getMetadataValue event.objMap "ownerReferences" = .ok .null) (state : Finset Uid × Bool) :
    taintEvent state event = .ok state := by
  rw [taintEvent, href]
  rfl

theorem subset_grow (uid : Uid) (owners : List Uid) (s : Finset Uid) : s ⊆ grow uid owners s := by
  rw [grow]
  split
  · exact Finset.subset_union_left
  · split
    · exact Finset.subset_insert uid s
    · exact Finset.Subset.refl s

theorem grow_subset (uid : Uid) (owners : List Uid) (s : Finset Uid) :
    grow uid owners s ⊆ s ∪ insert uid owners.toFinset := by
  rw [grow]
  split
  · exact Finset.union_subset_union_right (Finset.subset_insert uid _)
  · split
    · rw [Finset.insert_eq, Finset.union_comm]
      exact Finset.union_subset_union_right (by simp)
    · exact Finset.subset_union_left

/-- **Nothing is added exactly when the object is in the set if and only if its owners are.** -/
theorem grow_eq_self_iff (uid : Uid) (owners : List Uid) (s : Finset Uid) :
    grow uid owners s = s ↔ ∀ owner ∈ owners, uid ∈ s ↔ owner ∈ s := by
  rw [grow]
  split
  · rename_i hmem
    simp [hmem, Finset.union_eq_left, Finset.subset_iff]
  · rename_i hmem
    split
    · rename_i howner
      obtain ⟨owner, howner, hin⟩ := howner
      rw [Finset.insert_eq_self]
      exact iff_of_false hmem fun hall => hmem ((hall owner howner).mpr hin)
    · rename_i howner
      simp only [hmem, false_iff, true_iff]
      exact fun owner hown hin => howner ⟨owner, hown, hin⟩

theorem grow_closed {uid : Uid} {owners : List Uid} {S : Set Uid}
    (hclosed : ∀ owner ∈ owners, uid ∈ S ↔ owner ∈ S) {s : Finset Uid} (hs : (s : Set Uid) ⊆ S) :
    (grow uid owners s : Set Uid) ⊆ S := by
  rw [grow]
  split
  · rename_i hmem
    rw [Finset.coe_union, Set.union_subset_iff]
    refine ⟨hs, fun owner howner => ?_⟩
    rw [Finset.mem_coe, List.mem_toFinset] at howner
    exact (hclosed owner howner).mp (hs hmem)
  · split
    · rename_i howner
      obtain ⟨owner, howner, hin⟩ := howner
      rw [Finset.coe_insert, Set.insert_subset_iff]
      exact ⟨(hclosed owner howner).mpr (hs hin), hs⟩
    · exact hs

/-- What one event does to the set. -/
structure Rule (event : APIEvent) (rule : Finset Uid → Finset Uid) : Prop where
  step : ∀ s keep, taintEvent (s, keep) event = .ok (rule s, keep || decide (rule s ≠ s))
  grows : ∀ s, s ⊆ rule s
  adds : ∃ m : Finset Uid, ∀ s, rule s ⊆ s ∪ m
  fixed : ∀ s, rule s = s → ClosedAt event s
  closed : ∀ S, ClosedAt event S → ∀ s : Finset Uid, (s : Set Uid) ⊆ S → (rule s : Set Uid) ⊆ S

theorem listsOwner_iff {event : APIEvent} {ownerReferences : Json} {owners : List Uid}
    (href : getMetadataValue event.objMap "ownerReferences" = .ok ownerReferences)
    (howners : ownerUids ownerReferences = .ok owners) (owner : Uid) :
    ListsOwner event owner ↔ owner ∈ owners := by
  constructor
  · intro ⟨ownerReferences', owners', href', hread, hmem⟩
    rw [href] at href'
    rw [← Except.ok.inj href', howners] at hread
    rw [Except.ok.inj hread]
    exact hmem
  · intro hmem
    exact ⟨ownerReferences, owners, href, howners, hmem⟩

theorem rule_owners {event : APIEvent} {ownerReferences : Json} {uid : Uid} {owners : List Uid}
    (href : getMetadataValue event.objMap "ownerReferences" = .ok ownerReferences)
    (hnull : ownerReferences ≠ .null) (huid : HasUid event uid)
    (howners : ownerUids ownerReferences = .ok owners) : Rule event (grow uid owners) := by
  have hlists := listsOwner_iff href howners
  have hsame : ∀ uid', HasUid event uid' → uid' = uid := by
    intro uid' huid'
    have hboth := huid.1.symm.trans huid'.1
    exact (Except.ok.inj hboth).symm
  refine ⟨taintEvent_owners href hnull huid.1 howners, subset_grow uid owners,
    ⟨_, grow_subset uid owners⟩, fun s hfixed uid' owner huid' hown => ?_,
    fun S hclosed s hs => ?_⟩
  · rw [hsame uid' huid']
    exact (grow_eq_self_iff uid owners s).mp hfixed owner ((hlists owner).mp hown)
  · exact grow_closed (fun owner howner => hclosed uid owner huid ((hlists owner).mpr howner)) hs

theorem rule_null {event : APIEvent}
    (href : getMetadataValue event.objMap "ownerReferences" = .ok .null) : Rule event id := by
  refine ⟨fun s keep => ?_, fun s => Finset.Subset.refl s, ⟨∅, fun s => by simp⟩,
    fun s _ uid owner _ hown => ?_, fun S _ s hs => hs⟩
  · rw [taintEvent_null href]
    simp
  · obtain ⟨ownerReferences, owners, href', hread, -⟩ := hown
    rw [href] at href'
    rw [← Except.ok.inj href'] at hread
    cases hread

theorem WellFormed.rule {event : APIEvent} (h : WellFormed event) : Rule event (taintRule event) := by
  obtain ⟨rule, hrule⟩ : ∃ rule, Rule event rule := by
    obtain ⟨ownerReferences, href, howners⟩ := h.owners
    by_cases hnull : ownerReferences = .null
    · exact ⟨id, rule_null (hnull ▸ href)⟩
    · obtain ⟨⟨uid, huid⟩, owners, hread, -⟩ := howners hnull
      exact ⟨grow uid owners, rule_owners href hnull huid hread⟩
  have heq : taintRule event = rule := by
    funext s
    rw [taintRule, hrule.step]
  rw [heq]
  exact hrule

/-! ### The loop -/

variable {events : List APIEvent} {s : Finset Uid}

theorem inflationary_rules (hwell : ∀ event ∈ events, WellFormed event) :
    Inflationary (events.map taintRule) := by
  intro rule hmem
  obtain ⟨event, hevent, rfl⟩ := List.mem_map.mp hmem
  exact (hwell event hevent).rule.grows

/-- One pass over the events, with the flag. -/
theorem foldlM_taintEvent (hwell : ∀ event ∈ events, WellFormed event) (s : Finset Uid) (keep : Bool) :
    events.foldlM taintEvent (s, keep) =
      .ok (applyRules (events.map taintRule) s,
        keep || decide (applyRules (events.map taintRule) s ≠ s)) := by
  induction events generalizing s keep with
  | nil =>
    show Except.ok (s, keep) = .ok (s, keep || decide (s ≠ s))
    simp
  | cons event events ih =>
    rw [List.forall_mem_cons] at hwell
    have hrule := hwell.1.rule
    rw [List.foldlM_cons, hrule.step]
    show events.foldlM taintEvent (taintRule event s, _) = _
    rw [ih hwell.2]
    have hrest := subset_applyRules (inflationary_rules hwell.2) (taintRule event s)
    have hflag : (taintRule event s ≠ s ∨
        applyRules (events.map taintRule) (taintRule event s) ≠ taintRule event s) ↔
          applyRules (events.map taintRule) (taintRule event s) ≠ s := by
      constructor
      · intro hchanged heq
        have hfirst : taintRule event s = s :=
          Finset.Subset.antisymm (hrest.trans heq.subset) (hrule.grows s)
        rcases hchanged with hne | hne
        · exact hne hfirst
        · exact hne (heq.trans hfirst.symm)
      · intro hne
        by_contra hnone
        rw [not_or, not_not, not_not] at hnone
        exact hne (hnone.2.trans hnone.1)
    rw [Bool.or_assoc, ← Bool.decide_or]
    show Except.ok (_, keep || _) = Except.ok (_, keep || _)
    rw [decide_eq_decide.mpr hflag]
    rfl

/-- **The `while` loop saturates the set.** -/
theorem keepTainting_eq (hwell : ∀ event ∈ events, WellFormed event) (fuel : ℕ) (s : Finset Uid) :
    keepTainting events fuel s = .ok (saturate (events.map taintRule) fuel s) := by
  induction fuel generalizing s with
  | zero => rfl
  | succ fuel ih =>
    rw [keepTainting, foldlM_taintEvent hwell, saturate]
    show (if (false || decide _) = true then _ else _) = _
    by_cases hpass : applyRules (events.map taintRule) s = s
    · simp [hpass]
    · simp [hpass, ih]

/-! ### Before and after the loop -/

/-- A value at the top is the metadata value. -/
theorem getMetadataValue_of_getItem {objMap value : Json} {mkey : String}
    (h : getItem objMap mkey = .ok value) : getMetadataValue objMap mkey = .ok value := by
  cases objMap with
  | obj fields =>
    have hsome : (fields.lookup mkey).isSome = true := by
      cases hlookup : fields.lookup mkey with
      | none => simp [getItem, hlookup] at h
      | some _ => rfl
    show (if (fields.lookup mkey).isSome = true then getItem (.obj fields) mkey else _) = _
    rw [if_pos hsome, h]
  | _ => cases h

/-- What the first loop adds for one event. -/
theorem taintPod_spec {event : APIEvent} (hwell : WellFormed event) : ∃ added : Finset Uid,
    (∀ s, taintPod s event = .ok (s ∪ added)) ∧
      ∀ uid, uid ∈ added ↔ IsTagged event ∧ (HasUid event uid ∨ ListsOwner event uid) := by
  by_cases hpod : event.rtype = "pod".toList
  · obtain ⟨tagged, htagged⟩ := hwell.labels hpod
    cases tagged with
    | false =>
      refine ⟨∅, fun s => ?_, fun uid => ?_⟩
      · rw [taintPod, if_pos hpod, htagged, Finset.union_empty]
        rfl
      · simp [IsTagged, htagged]
    | true =>
      have htag : IsTagged event := ⟨hpod, htagged⟩
      obtain ⟨uidValue, ownerReferences, huidValue, href, hnull⟩ := hwell.pod htag
      obtain ⟨ownerReferences', href', howners⟩ := hwell.owners
      rw [getMetadataValue_of_getItem href] at href'
      obtain rfl := Except.ok.inj href'
      obtain ⟨⟨uid, huid⟩, owners, hread, -⟩ := howners hnull
      have helement : asElement uidValue = .ok uid := by
        rw [← huid.1, APIEvent.uid, getMetadataValue_of_getItem huidValue]
        rfl
      refine ⟨insert uid owners.toFinset, fun s => ?_, fun u => ?_⟩
      · rw [taintPod, if_pos hpod, htagged, huidValue, href]
        show (asElement uidValue >>= _) = _
        rw [helement]
        show (ownerUids ownerReferences >>= _) = _
        rw [hread]
        show Except.ok (insert uid s ∪ owners.toFinset) = _
        rw [Finset.union_insert, Finset.insert_union]
      · rw [Finset.mem_insert, List.mem_toFinset]
        rw [listsOwner_iff (getMetadataValue_of_getItem href) hread]
        simp only [htag, true_and]
        apply or_congr_left
        constructor
        · intro heq
          rw [heq]
          exact huid
        · intro hu
          exact Except.ok.inj (hu.1.symm.trans huid.1)
  · refine ⟨∅, fun s => ?_, fun uid => ?_⟩
    · rw [taintPod, if_neg hpod, Finset.union_empty]
    · simp only [IsTagged, hpod, false_and, Finset.notMem_empty]

/-- **The first loop**: the pods of the controller and their owners. -/
theorem foldlM_taintPod (hwell : ∀ event ∈ events, WellFormed event) (s : Finset Uid) :
    ∃ seeds : Finset Uid, events.foldlM taintPod s = .ok (s ∪ seeds) ∧ ∀ uid, uid ∈ seeds ↔
      ∃ event ∈ events, IsTagged event ∧ (HasUid event uid ∨ ListsOwner event uid) := by
  induction events generalizing s with
  | nil => exact ⟨∅, by rw [Finset.union_empty]; rfl, by simp⟩
  | cons event events ih =>
    rw [List.forall_mem_cons] at hwell
    obtain ⟨added, hstep, hadded⟩ := taintPod_spec hwell.1
    obtain ⟨seeds, hfold, hseeds⟩ := ih hwell.2 (s ∪ added)
    refine ⟨added ∪ seeds, ?_, fun uid => ?_⟩
    · rw [List.foldlM_cons, hstep, ← Finset.union_assoc]
      exact hfold
    · rw [Finset.mem_union, hadded, hseeds]
      simp only [List.mem_cons, exists_eq_or_imp]

/-- **The last loop**: each key once. -/
theorem foldlM_relateKey (hwell : ∀ event ∈ events, WellFormed event) (uids : Finset Uid)
    {keys : List Text} (hkeys : keys.Nodup) :
    ∃ keys', events.foldlM (relateKey uids) keys = .ok keys' ∧ keys'.Nodup ∧ ∀ key, key ∈ keys' ↔
      key ∈ keys ∨ ∃ event ∈ events, event.key = key ∧ ∃ uid ∈ uids, event.uid = .ok uid := by
  induction events generalizing keys with
  | nil => exact ⟨keys, rfl, hkeys, by simp⟩
  | cons event events ih =>
    rw [List.forall_mem_cons] at hwell
    obtain ⟨uid, huid⟩ := hwell.1.uid
    have hstep : relateKey uids keys event =
        .ok (if uid ∈ uids ∧ event.key ∉ keys then keys ++ [event.key] else keys) := by
      rw [relateKey, huid]
      rfl
    have hhead : (∃ uid ∈ uids, event.uid = .ok uid) ↔ uid ∈ uids := by
      constructor
      · intro ⟨uid', hmem, huid'⟩
        rw [huid] at huid'
        rw [Except.ok.inj huid']
        exact hmem
      · exact fun hmem => ⟨uid, hmem, huid⟩
    rw [List.foldlM_cons, hstep]
    have hnext : (if uid ∈ uids ∧ event.key ∉ keys then keys ++ [event.key] else keys).Nodup ∧
        ∀ key, key ∈ (if uid ∈ uids ∧ event.key ∉ keys then keys ++ [event.key] else keys) ↔
          key ∈ keys ∨ (event.key = key ∧ uid ∈ uids) := by
      split
      · rename_i hnew
        refine ⟨List.concat_eq_append ▸ hkeys.concat hnew.2, fun key => ?_⟩
        simp [hnew.1, eq_comm]
      · rename_i hold
        refine ⟨hkeys, fun key => ⟨Or.inl, fun h => h.elim id fun ⟨heq, hmem⟩ => ?_⟩⟩
        by_contra hkey
        exact hold ⟨hmem, heq ▸ hkey⟩
    obtain ⟨keys', hfold, hnodup, hmem⟩ := ih hwell.2 hnext.1
    refine ⟨keys', hfold, hnodup, fun key => ?_⟩
    rw [hmem, hnext.2, or_assoc]
    simp only [List.mem_cons, exists_eq_or_imp, hhead]

/-! ### The least set -/

/-- The set that the loop ends with is the least one. -/
theorem saturate_family (hwell : ∀ event ∈ events, WellFormed event) {seeds : Finset Uid}
    (hseeds : ∀ uid, uid ∈ seeds ↔
      ∃ event ∈ events, IsTagged event ∧ (HasUid event uid ∨ ListsOwner event uid)) :
    ∃ uids : Finset Uid, (∃ n, ∀ fuel, n ≤ fuel →
      saturate (events.map taintRule) fuel seeds = some uids) ∧ (uids : Set Uid) = controllerFamily events := by
  have hgrow := inflationary_rules hwell
  have hadds : ∀ rule ∈ events.map taintRule, ∃ m : Finset Uid, ∀ s, rule s ⊆ s ∪ m := by
    intro rule hmem
    obtain ⟨event, hevent, rfl⟩ := List.mem_map.mp hmem
    exact (hwell event hevent).rule.adds
  obtain ⟨bound, hbound, hclosed⟩ := exists_bound hadds seeds
  obtain ⟨uids, n, hsaturate, hfrom, hfixed⟩ := saturate_total hgrow hclosed hbound
  refine ⟨uids, ⟨n, hsaturate⟩, Set.Subset.antisymm ?_ ?_⟩
  · -- whatever is such a set has what the loop adds
    refine Set.subset_sInter fun S hfamily => ?_
    have hrules : ClosedUnder (events.map taintRule) S := by
      intro rule hmem
      obtain ⟨event, hevent, rfl⟩ := List.mem_map.mp hmem
      exact (hwell event hevent).rule.closed S (hfamily.closed event hevent)
    refine saturate_subset hrules (hsaturate n (Nat.le_refl n)) fun uid hmem => ?_
    obtain ⟨event, hevent, htag, huid | hown⟩ := (hseeds uid).mp hmem
    · exact hfamily.pod event hevent htag uid huid
    · exact hfamily.podOwner event hevent htag uid hown
  · -- and the loop ends with such a set
    refine Set.sInter_subset_of_mem ⟨?_, ?_, ?_⟩
    · intro event hevent htag uid huid
      exact hfrom ((hseeds uid).mpr ⟨event, hevent, htag, .inl huid⟩)
    · intro event hevent htag owner hown
      exact hfrom ((hseeds owner).mpr ⟨event, hevent, htag, .inr hown⟩)
    · intro event hevent
      have hrule := hfixed _ (List.mem_map.mpr ⟨event, hevent, rfl⟩)
      exact (hwell event hevent).rule.fixed uids hrule

/-- Every uid in the family is one. -/
theorem not_none_mem_family (hwell : ∀ event ∈ events, WellFormed event) :
    Uid.none ∉ controllerFamily events := by
  intro hmem
  have hlisted : ∀ event ∈ events, ∀ owner, ListsOwner event owner → owner ≠ .none := by
    intro event hevent owner hown heq
    obtain ⟨ownerReferences, href, howners⟩ := (hwell event hevent).owners
    by_cases hnull : ownerReferences = .null
    · rw [hnull] at href
      obtain ⟨ownerReferences', owners, href', hread, -⟩ := hown
      rw [href] at href'
      rw [← Except.ok.inj href'] at hread
      cases hread
    · obtain ⟨-, owners, hread, hnone⟩ := howners hnull
      exact hnone (heq ▸ (listsOwner_iff href hread owner).mp hown)
  have hfamily : IsFamily events {uid | uid ≠ .none} := by
    refine ⟨fun event _ _ uid huid => huid.2, fun event hevent _ owner hown => ?_, ?_⟩
    · exact hlisted event hevent owner hown
    · intro event hevent uid owner huid hown
      exact iff_of_true huid.2 (hlisted event hevent owner hown)
  exact hmem _ hfamily rfl

/-- **The list has exactly the objects of the family**: with enough rounds the loop comes to an end,
and the keys are those of the events whose uids are in the least set, sorted and each once. -/
theorem relatedList_exact (loads : Text → Option Json) (log : Text) (events : List APIEvent)
    (hlog : apiEventList loads log = .ok events) (hwell : ∀ event ∈ events, WellFormed event) :
    ∃ keys n, (∀ fuel, n ≤ fuel → generateControllerRelatedList loads fuel log = .ok (some keys)) ∧
      keys.Pairwise (· < ·) ∧ ∀ key, key ∈ keys ↔
        ∃ event ∈ events, event.key = key ∧ ∃ uid ∈ controllerFamily events, HasUid event uid := by
  obtain ⟨seeds, hfold, hseeds⟩ := foldlM_taintPod hwell ∅
  rw [Finset.empty_union] at hfold
  obtain ⟨uids, ⟨n, hsaturate⟩, hfamily⟩ := saturate_family hwell hseeds
  obtain ⟨keys, hrelate, hnodup, hkeys⟩ := foldlM_relateKey hwell uids List.nodup_nil
  refine ⟨keys.mergeSort fun key key' => decide (key ≤ key'), n, fun fuel hfuel => ?_, ?_, ?_⟩
  · rw [generateControllerRelatedList, hlog]
    show (events.foldlM taintPod ∅ >>= _) = _
    rw [hfold]
    show (keepTainting events fuel seeds >>= _) = _
    rw [keepTainting_eq hwell, hsaturate fuel hfuel]
    show (events.foldlM (relateKey uids) [] >>= _) = _
    rw [hrelate]
    rfl
  · have hsorted : (keys.mergeSort fun key key' => decide (key ≤ key')).Pairwise (· ≤ ·) := by
      have hpairwise : (keys.mergeSort fun key key' => decide (key ≤ key')).Pairwise
          fun key key' => decide (key ≤ key') = true :=
        List.pairwise_mergeSort
          (fun a b c hab hbc => by simp only [decide_eq_true_eq] at *; exact le_trans hab hbc)
          (fun a b => by simp only [Bool.or_eq_true, decide_eq_true_eq]; exact le_total a b) keys
      simpa only [decide_eq_true_eq] using hpairwise
    have hdistinct : (keys.mergeSort fun key key' => decide (key ≤ key')).Nodup :=
      (List.mergeSort_perm keys _).nodup_iff.mpr hnodup
    exact hsorted.imp₂ (fun _ _ hle hne => lt_of_le_of_ne hle hne) hdistinct
  · intro key
    rw [List.mem_mergeSort, hkeys]
    simp only [List.not_mem_nil, false_or]
    refine exists_congr fun event => and_congr_right fun _ => and_congr_right fun _ => ?_
    rw [← hfamily]
    constructor
    · intro ⟨uid, hmem, huid⟩
      refine ⟨uid, hmem, huid, fun hnone => ?_⟩
      rw [hnone, ← Finset.mem_coe, hfamily] at hmem
      exact not_none_mem_family hwell hmem
    · exact fun ⟨uid, hmem, huid⟩ => ⟨uid, hmem, huid.1⟩

/-- A pod of the controller, in the form that the API server records. -/
def operatorPod : Json :=
  .obj [("name", .str "op-0"), ("uid", .str "p"), ("labels", .obj [("sievetag", .str "op")]),
    ("ownerReferences", .arr [.obj [("kind", .str "StatefulSet"), ("uid", .str "s")]])]

/-- An object that the custom resource owns, recorded with its metadata. -/
def ownedObject (uid : String) : Json :=
  .obj [("metadata", .obj [("uid", .str uid),
    ("ownerReferences", .arr [.obj [("kind", .str "Cluster"), ("uid", .str "c")]])])]

def owningResource : Json := .obj [("metadata", .obj [("uid", .str "c")])]

def operatorLoads : Text → Option Json
  | ['p'] => some operatorPod
  | ['v'] => some (ownedObject "v")
  | ['s'] => some (ownedObject "s")
  | ['c'] => some owningResource
  | _ => none

/-- The service is related to the pod through the stateful set and the custom resource only. -/
def operatorLog : Text :=
  "[SIEVE-API-EVENT]\tADDED\tk\tpod\tdefault\top-0\tp\n".toList ++
    "[SIEVE-API-EVENT]\tADDED\tk\tservice\tdefault\top\tv\n".toList ++
    "[SIEVE-API-EVENT]\tADDED\tk\tstatefulset\tdefault\top\ts\n".toList ++
    "[SIEVE-API-EVENT]\tADDED\tk\tcluster\tdefault\top\tc\n".toList

def operatorEvents : List APIEvent :=
  [⟨"ADDED".toList, "k".toList, "pod/default/op-0".toList, "pod".toList, "default".toList,
      "op-0".toList, "p".toList, operatorPod⟩,
    ⟨"ADDED".toList, "k".toList, "service/default/op".toList, "service".toList,
      "default".toList, "op".toList, "v".toList, ownedObject "v"⟩,
    ⟨"ADDED".toList, "k".toList, "statefulset/default/op".toList, "statefulset".toList,
      "default".toList, "op".toList, "s".toList, ownedObject "s"⟩,
    ⟨"ADDED".toList, "k".toList, "cluster/default/op".toList, "cluster".toList,
      "default".toList, "op".toList, "c".toList, owningResource⟩]

theorem operatorEvents_wellFormed : ∀ event ∈ operatorEvents, WellFormed event := by
  rw [operatorEvents, List.forall_mem_cons, List.forall_mem_cons, List.forall_mem_cons, List.forall_mem_singleton]
  have howned : ∀ uid (event : APIEvent), event.rtype ≠ "pod".toList → event.objMap = ownedObject uid →
      WellFormed event := by
    rintro uid ⟨_, _, _, rtype, _, _, _, _⟩ hrtype rfl
    refine ⟨⟨.str uid, rfl⟩, ⟨_, rfl, fun _ => ⟨⟨.str uid, rfl, nofun⟩, [.str "c"], rfl, by simp⟩⟩, fun h => ?_,
      fun h => ?_⟩
    · exact absurd h hrtype
    · exact absurd h.1 hrtype
  refine ⟨?_, howned "v" _ (by decide) rfl, howned "s" _ (by decide) rfl, ?_⟩
  · exact ⟨⟨.str "p", rfl⟩, ⟨_, rfl, fun _ => ⟨⟨.str "p", rfl, nofun⟩, [.str "s"], rfl, by simp⟩⟩,
      fun _ => ⟨true, rfl⟩, fun _ => ⟨_, _, rfl, rfl, nofun⟩⟩
  · refine ⟨⟨.str "c", rfl⟩, ⟨.null, rfl, fun h => absurd rfl h⟩, fun h => ?_, fun h => ?_⟩
    · exact absurd h (by decide)
    · exact absurd h.1 (by decide)

/-- The pod, its owners and what they own. -/
theorem relatedList_exact_operator : ∃ keys n,
    (∀ fuel, n ≤ fuel → generateControllerRelatedList operatorLoads fuel operatorLog = .ok (some keys)) ∧
      keys.Pairwise (· < ·) ∧ ∀ key, key ∈ keys ↔ ∃ event ∈ operatorEvents, event.key = key ∧
        ∃ uid ∈ controllerFamily operatorEvents, HasUid event uid :=
  relatedList_exact operatorLoads operatorLog operatorEvents rfl operatorEvents_wellFormed

end Sieve.Oracle
