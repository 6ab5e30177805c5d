import Sieve.Oracle.SecondPassTrim
import Sieve.Oracle.StateReplay

/-!
# History digests

`canonicalize_history_digest` of `safety_checker.py` makes the reference digest from the digests of
both learning runs, and `compare_history_digests` compares it with the digest of a run.

* `canonicalizeHistoryDigest_eq`: the reference digest has what both runs agree on;
* `exists_inconsistencies`: what the comparison of two digests reports;
* `digest_exact`: both.
-/

namespace Sieve.Oracle

open Sieve.Event Sieve.Library

/-! ### The reference digest -/

/-- Is the value of the key to be dropped?  `none` where an exception ends the loop. -/
def hasIgnoredValue : PythonValue → Option Bool
  | .leaf (.str s) => if s = SIEVE_LEARN_VALUE_MASK then some true else none
  | .fields etypes => some (etypes.any fun etype => isLearnValueMask (some etype.2))
  | _ => none

def removeIgnoredValue : List (String × PythonValue) → Option (List (String × PythonValue))
  | [] => some []
  | entry :: eventMap => do
    let ignored ← hasIgnoredValue entry.2
    let rest ← removeIgnoredValue eventMap
    some (if ignored then rest else entry :: rest)

def canonicalizeHistoryDigest (deepDiff : PythonValue → PythonValue → List StateDelta)
    (prevHistoryDigest curHistoryDigest : PythonValue) : Option PythonValue := do
  match ← secondPassLearnTrim deepDiff prevHistoryDigest curHistoryDigest with
  | .fields eventMap => (removeIgnoredValue eventMap).map .fields
  | _ => none

/-! ### The comparison -/

/-- What the comparison reads of the test context. -/
structure DigestContext where
  testWorkload : String
  controllerMask : List (String × List String)
  commonMask : List String
  checkEventList : List String
  controllerFamily : List String

def maskedResourceKeyForStateUpdateSummaryChecker (resourceKey : String)
    (testContext : DigestContext) : Bool :=
  (testContext.controllerMask.any fun entry =>
    (entry.1 == "*" || entry.1 == testContext.testWorkload) &&
      entry.2.any fun maskedKey => Analyzer.appliesTo maskedKey resourceKey) ||
  testContext.commonMask.any fun maskedKey => Analyzer.appliesTo maskedKey resourceKey

/-- Two counts that differ. -/
structure Inconsistency where
  key : String
  etype : String
  reference : ℤ
  testing : ℤ
  deriving DecidableEq

def Inconsistency.message (inconsistency : Inconsistency) : Text :=
  generateAlarm "State-update summaries inconsistency:".toList
    (inconsistency.key.toList ++ [' '] ++ inconsistency.etype.toList ++ " inconsistency: ".toList ++
      formatInt inconsistency.reference ++ " event(s) seen during reference run, but ".toList ++
      formatInt inconsistency.testing ++ " seen during testing run".toList)

/-- The last two tests; a digest holds counts and, before it is canonicalized, masks. -/
def compareCounts (key etype : String) :
    PythonValue → PythonValue → Option (Option Inconsistency)
  | .leaf (.int n), .leaf (.int m) => some (if m ≠ n then some ⟨key, etype, n, m⟩ else none)
  | canonicalized, _ => if isLearnValueMask (some canonicalized) then some none else none

/-- The body of the loop over the keys. -/
def compareKey (testContext : DigestContext) (key : String) (canonicalized testing : PythonValue) :
    Option (List Inconsistency) :=
  if isLearnValueMask (some canonicalized) then some []
  else if key ∈ testContext.controllerFamily then some []
  else if maskedResourceKeyForStateUpdateSummaryChecker key testContext then some []
  else match testing with
    | .fields etypes =>
      (etypes.mapM fun etype =>
        if etype.1 ∈ testContext.checkEventList then do
          let count ← canonicalized.child (.key etype.1)
          compareCounts key etype.1 count etype.2
        else some none).map List.reduceOption
    | _ => none

/-- The loop over the keys of both digests. -/
def inconsistencies (testContext : DigestContext)
    (canonicalizedEvents testingEvents : List (String × PythonValue)) : Option (List Inconsistency) :=
  (testingEvents.mapM fun (entry : String × PythonValue) =>
    match canonicalizedEvents.lookup entry.1 with
    | none => some []
    | some canonicalized => compareKey testContext entry.1 canonicalized entry.2).map List.flatten

def compareHistoryDigests (testContext : DigestContext) :
    PythonValue → PythonValue → Option (List Text)
  | .fields canonicalizedEvents, .fields testingEvents =>
    (inconsistencies testContext canonicalizedEvents testingEvents).map fun found =>
      (found.map Inconsistency.message).mergeSort fun message message' => decide (message ≤ message')
  | _, _ => none

/-! ### Digests of runs -/

/-- The counts of one key. -/
structure EventCounts where
  added : ℕ
  deleted : ℕ
  deriving DecidableEq

namespace EventCounts

def count (counts : EventCounts) (etype : String) : Option ℕ :=
  if etype = "ADDED" then some counts.added
  else if etype = "DELETED" then some counts.deleted else none

def value (counts : EventCounts) : PythonValue :=
  .fields [("ADDED", .leaf (.int counts.added)), ("DELETED", .leaf (.int counts.deleted))]

theorem value_distinct (counts : EventCounts) : counts.value.Distinct := by
  refine .fields (by simp) fun entry hmem => ?_
  rw [List.mem_cons, List.mem_singleton] at hmem
  rcases hmem with rfl | rfl <;> exact .leaf _

end EventCounts

/-- The digest of a run: the counts of each key. -/
structure HistoryDigest where
  counts : List (String × EventCounts)
  keys : (counts.map Prod.fst).Nodup

namespace HistoryDigest

def entries (digest : HistoryDigest) : List (String × PythonValue) :=
  digest.counts.map fun entry => (entry.1, entry.2.value)

def value (digest : HistoryDigest) : PythonValue := .fields digest.entries

/-- What both runs agree on. -/
def agreed (first second : HistoryDigest) : HistoryDigest where
  counts := first.counts.filter fun entry => entry ∈ second.counts
  keys := first.keys.sublist (List.filter_sublist.map Prod.fst)

theorem map_fst_entries (digest : HistoryDigest) :
    digest.entries.map Prod.fst = digest.counts.map Prod.fst := by
  rw [entries, List.map_map]
  rfl

theorem value_distinct (digest : HistoryDigest) : digest.value.Distinct := by
  refine .fields (by rw [map_fst_entries]; exact digest.keys) fun entry hmem => ?_
  obtain ⟨counts, -, rfl⟩ := List.mem_map.mp hmem
  exact counts.2.value_distinct

theorem lookup_entries_iff {digest : HistoryDigest} {key : String} {x : PythonValue} :
    digest.entries.lookup key = some x ↔ ∃ counts, (key, counts) ∈ digest.counts ∧ x = counts.value := by
  constructor
  · intro h
    obtain ⟨entry, hmem, heq⟩ := List.mem_map.mp (DataTree.mem_of_lookup h)
    obtain ⟨rfl, rfl⟩ := Prod.mk.inj heq
    exact ⟨entry.2, hmem, rfl⟩
  · intro ⟨counts, hmem, heq⟩
    have hentry : (key, counts.value) ∈ digest.entries := List.mem_map.mpr ⟨(key, counts), hmem, rfl⟩
    have hkeys : (digest.entries.map Prod.fst).Nodup := by
      rw [map_fst_entries]
      exact digest.keys
    rw [heq]
    exact DataTree.lookup_of_mem hkeys hentry

/-- A key has its counts only once. -/
theorem counts_unique {digest : HistoryDigest} {key : String} {counts counts' : EventCounts}
    (h : (key, counts) ∈ digest.counts) (h' : (key, counts') ∈ digest.counts) : counts = counts' := by
  have heq := List.inj_on_of_nodup_map digest.keys h h' rfl
  exact (Prod.mk.inj heq).2

end HistoryDigest

/-! ### What both runs agree on -/

def trimCount (n m : ℕ) : PythonValue := if m = n then .leaf (.int n) else learnMask

/-- What the second pass leaves of the counts of the first. -/
def trimCounts (counts : EventCounts) : Option EventCounts → PythonValue
  | none => learnMask
  | some counts' => .fields [("ADDED", trimCount counts.added counts'.added),
      ("DELETED", trimCount counts.deleted counts'.deleted)]

theorem trims_count {n m : ℕ} {x : PythonValue}
    (h : Trims (.leaf (.int m)) (.leaf (.int n)) x) : x = trimCount n m := by
  generalize hbase : (DataTree.leaf (PythonScalar.int n) : PythonValue) = base at h
  generalize hother : (DataTree.leaf (PythonScalar.int m) : PythonValue) = other at h
  cases h with
  | changed hkind hne =>
    obtain rfl := DataTree.leaf.inj hbase
    obtain rfl := DataTree.leaf.inj hother
    rw [trimCount, if_neg]
    intro heq
    exact hne (by rw [heq])
  | same a =>
    obtain rfl := DataTree.leaf.inj hbase
    have heq : m = n := by simpa using DataTree.leaf.inj hother
    rw [trimCount, if_pos heq]
  | apart happart =>
    rw [← hbase, ← hother] at happart
    exact absurd (.leaf rfl) happart
  | node hsame hsteps _ _ =>
    rw [← hbase] at hsteps
    cases hsteps

/-- Field by field: only the first run has it, or both do. -/
theorem trims_fields {xs ys : List (String × PythonValue)} (hkeys : (xs.map Prod.fst).Nodup)
    {trimmed : PythonValue} (h : Trims (.fields ys) (.fields xs) trimmed) :
    ∃ zs, trimmed = .fields zs ∧ List.Forall₂ (fun x z => z.1 = x.1 ∧
      ((ys.lookup x.1 = none ∧ z.2 = learnMask) ∨ ∃ y, ys.lookup x.1 = some y ∧ Trims y x.2 z.2)) xs zs := by
  generalize hbase : (DataTree.fields xs : PythonValue) = base at h
  generalize hother : (DataTree.fields ys : PythonValue) = other at h
  cases h with
  | changed _ _ => cases hbase
  | same _ => cases hbase
  | apart happart =>
    rw [← hbase, ← hother] at happart
    exact absurd (.fields _ _) happart
  | node hsame hsteps hgone hboth =>
    rw [← hbase] at hsteps hgone hboth
    rw [← hother] at hgone hboth
    cases hsteps with
    | @fields _ zs hsteps =>
      refine ⟨zs, rfl, List.forall₂_iff_get.mpr ⟨?_, fun i hi hi' => ?_⟩⟩
      · rw [← List.length_map Prod.fst, hsteps, List.length_map]
      · have hkey : zs[i].1 = xs[i].1 := by
          have heq := congrArg (fun keys : List String => keys[i]?) hsteps
          simpa [hi, hi', eq_comm] using heq
        have hx := DataTree.lookup_of_mem hkeys (List.getElem_mem hi)
        have hz := DataTree.lookup_of_mem (hsteps ▸ hkeys) (List.getElem_mem hi')
        rw [hkey] at hz
        refine ⟨hkey, ?_⟩
        cases hy : ys.lookup xs[i].1 with
        | none =>
          have hmask := hgone (.key xs[i].1) _ hx hy
          exact .inl ⟨rfl, Option.some.inj (hz.symm.trans hmask)⟩
        | some y => exact .inr ⟨y, rfl, hboth (.key xs[i].1) _ _ _ hx hy hz⟩

theorem trims_counts {counts counts' : EventCounts} {x : PythonValue}
    (h : Trims counts'.value counts.value x) : x = trimCounts counts (some counts') := by
  obtain ⟨zs, rfl, hzs⟩ := trims_fields (by simp) h
  rw [List.forall₂_cons_left_iff] at hzs
  obtain ⟨⟨etype, added⟩, zs, ⟨rfl, hadded⟩, hzs, rfl⟩ := hzs
  rw [List.forall₂_cons_left_iff] at hzs
  obtain ⟨⟨etype, deleted⟩, zs, ⟨rfl, hdeleted⟩, hzs, rfl⟩ := hzs
  rw [List.forall₂_nil_left_iff] at hzs
  have hcount : ∀ (o : Option PythonValue) (n m : ℕ) (z : PythonValue), o = some (.leaf (.int m)) →
      ((o = none ∧ z = learnMask) ∨ ∃ y, o = some y ∧ Trims y (.leaf (.int n)) z) →
        z = trimCount n m := by
    intro o n m z ho hz
    rw [ho] at hz
    rcases hz with ⟨hnone, -⟩ | ⟨y, hy, htrims⟩
    · cases hnone
    · rw [← Option.some.inj hy] at htrims
      exact trims_count htrims
  rw [hzs, trimCounts, hcount _ counts.added counts'.added added rfl hadded,
    hcount _ counts.deleted counts'.deleted deleted rfl hdeleted]

theorem hasIgnoredValue_trimCounts (counts : EventCounts) (other : Option EventCounts) :
    hasIgnoredValue (trimCounts counts other) = some (decide (other ≠ some counts)) := by
  cases other with
  | none => rfl
  | some counts' =>
    have hcount : ∀ n m : ℕ, isLearnValueMask (some (trimCount n m)) = decide (m ≠ n) := by
      intro n m
      rw [trimCount]
      split
      · rename_i heq
        simp [heq, isLearnValueMask]
      · rename_i hne
        simp [hne, isLearnValueMask, learnMask]
    obtain ⟨added, deleted⟩ := counts
    obtain ⟨added', deleted'⟩ := counts'
    simp [trimCounts, hasIgnoredValue, hcount]

/-- **The reference digest has what both runs agree on.** -/
theorem canonicalizeHistoryDigest_eq {deepDiff : PythonValue → PythonValue → List StateDelta}
    (hdeep : IsDeepDiff deepDiff) (first second : HistoryDigest) :
    canonicalizeHistoryDigest deepDiff first.value second.value = some (first.agreed second).value := by
  obtain ⟨trimmed, htrim, htrims⟩ :=
    secondPassLearnTrim_trims hdeep first.value_distinct second.value_distinct
  have hkeys : (first.entries.map Prod.fst).Nodup := by
    rw [HistoryDigest.map_fst_entries]
    exact first.keys
  obtain ⟨zs, rfl, hzs⟩ := trims_fields hkeys htrims
  have hremove : ∀ (counts : List (String × EventCounts)) (zs : List (String × PythonValue)),
      List.Forall₂ (fun x z => z.1 = x.1 ∧ ((second.entries.lookup x.1 = none ∧ z.2 = learnMask) ∨
        ∃ y, second.entries.lookup x.1 = some y ∧ Trims y x.2 z.2))
          (counts.map fun entry => (entry.1, entry.2.value)) zs →
        removeIgnoredValue zs = some ((counts.filter fun entry => entry ∈ second.counts).map
          fun entry => (entry.1, entry.2.value)) := by
    intro counts
    induction counts with
    | nil =>
      intro zs hzs
      rw [List.map_nil, List.forall₂_nil_left_iff] at hzs
      rw [hzs]
      rfl
    | cons entry counts ih =>
      intro zs hzs
      obtain ⟨_, c⟩ := entry
      rw [List.map_cons, List.forall₂_cons_left_iff] at hzs
      obtain ⟨⟨key, z⟩, zs, ⟨rfl, hz⟩, hzs, rfl⟩ := hzs
      -- the value of the key after the second pass
      obtain ⟨other, hother, rfl⟩ : ∃ other : Option EventCounts,
          (other = some c ↔ (key, c) ∈ second.counts) ∧ z = trimCounts c other := by
        rcases hz with ⟨hnone, hmask⟩ | ⟨y, hy, htrims⟩
        · refine ⟨none, iff_of_false nofun fun hmem => ?_, hmask⟩
          rw [HistoryDigest.lookup_entries_iff.mpr ⟨c, hmem, rfl⟩] at hnone
          cases hnone
        · obtain ⟨c', hmem', rfl⟩ := HistoryDigest.lookup_entries_iff.mp hy
          refine ⟨some c', ⟨fun heq => Option.some.inj heq ▸ hmem', fun hmem => ?_⟩, trims_counts htrims⟩
          rw [HistoryDigest.counts_unique hmem' hmem]
      rw [removeIgnoredValue, hasIgnoredValue_trimCounts, ih zs hzs]
      by_cases hmem : (key, c) ∈ second.counts
      · rw [List.filter_cons_of_pos (by simpa using hmem), hother.mpr hmem]
        simp [trimCounts, trimCount, EventCounts.value]
      · rw [List.filter_cons_of_neg (by simpa using hmem)]
        have hne : other ≠ some c := fun heq => hmem (hother.mp heq)
        simp [hne]
  show (secondPassLearnTrim deepDiff (.fields first.entries) (.fields second.entries) >>= _) = _
  rw [htrim]
  show (removeIgnoredValue zs).map DataTree.fields = _
  rw [hremove first.counts zs hzs]
  rfl

/-! ### What the comparison reports -/

/-- The events of this type on the key are compared. -/
structure DigestContext.Checks (testContext : DigestContext) (key etype : String) : Prop where
  family : key ∉ testContext.controllerFamily
  masked : maskedResourceKeyForStateUpdateSummaryChecker key testContext = false
  etype : etype ∈ testContext.checkEventList

/-- The counts of the type differ, and are those of the inconsistency. -/
def CountsDiffer (counts counts' : EventCounts) (inconsistency : Inconsistency) : Prop :=
  ∃ n m : ℕ, counts.count inconsistency.etype = some n ∧ counts'.count inconsistency.etype = some m ∧
    n ≠ m ∧ inconsistency.reference = n ∧ inconsistency.testing = m

/-- Both digests have the key, with different counts of a type that is compared. -/
def IsInconsistency (testContext : DigestContext) (reference testing : HistoryDigest)
    (inconsistency : Inconsistency) : Prop :=
  ∃ counts counts', (inconsistency.key, counts) ∈ reference.counts ∧
    (inconsistency.key, counts') ∈ testing.counts ∧
    testContext.Checks inconsistency.key inconsistency.etype ∧ CountsDiffer counts counts' inconsistency

variable {testContext : DigestContext}

/-- The comparison of one count. -/
def countInconsistency (testContext : DigestContext) (key etype : String) (n m : ℕ) :
    Option Inconsistency :=
  if etype ∈ testContext.checkEventList ∧ m ≠ n then some ⟨key, etype, n, m⟩ else none

theorem compareKey_value (key : String) (counts counts' : EventCounts) :
    compareKey testContext key counts.value counts'.value =
      some (if key ∈ testContext.controllerFamily ∨
          maskedResourceKeyForStateUpdateSummaryChecker key testContext = true then []
        else (countInconsistency testContext key "ADDED" counts.added counts'.added).toList ++
          (countInconsistency testContext key "DELETED" counts.deleted counts'.deleted).toList) := by
  have hentry : ∀ (etype : String) (n m : ℕ),
      counts.value.child (.key etype) = some (.leaf (.int n)) →
      (if etype ∈ testContext.checkEventList then do
          let count ← counts.value.child (.key etype)
          compareCounts key etype count (.leaf (.int m))
        else some none) = some (countInconsistency testContext key etype n m) := by
    intro etype n m hchild
    rw [hchild, countInconsistency]
    by_cases hcheck : etype ∈ testContext.checkEventList
    · simp [hcheck, compareCounts]
    · simp [hcheck]
  show (if isLearnValueMask (some counts.value) then some [] else _) = _
  rw [if_neg (by simp [EventCounts.value, isLearnValueMask])]
  by_cases hfamily : key ∈ testContext.controllerFamily
  · simp [hfamily]
  · by_cases hmasked : maskedResourceKeyForStateUpdateSummaryChecker key testContext = true
    · simp [hmasked]
    · rw [if_neg hfamily, if_neg hmasked, if_neg (by simp [hfamily, hmasked])]
      show Option.map List.reduceOption (List.mapM _ [("ADDED", _), ("DELETED", _)]) = _
      rw [List.mapM_cons, List.mapM_cons, List.mapM_nil, hentry "ADDED" counts.added counts'.added rfl,
        hentry "DELETED" counts.deleted counts'.deleted rfl]
      show some (List.reduceOption [_, _]) = _
      generalize countInconsistency testContext key "ADDED" counts.added counts'.added = added
      generalize countInconsistency testContext key "DELETED" counts.deleted counts'.deleted = deleted
      cases added <;> cases deleted <;> rfl

theorem countInconsistency_eq_some_iff {key etype : String} {n m : ℕ} {inconsistency : Inconsistency} :
    countInconsistency testContext key etype n m = some inconsistency ↔
      etype ∈ testContext.checkEventList ∧ n ≠ m ∧ inconsistency = ⟨key, etype, n, m⟩ := by
  rw [countInconsistency]
  split
  · rename_i h
    simp [h.1, Ne.symm h.2, eq_comm]
  · rename_i h
    simp only [reduceCtorEq, false_iff]
    exact fun h' => h ⟨h'.1, Ne.symm h'.2.1⟩

/-- **One key.** -/
theorem exists_compareKey (key : String) (counts counts' : EventCounts) : ∃ found,
    compareKey testContext key counts.value counts'.value = some found ∧ found.Nodup ∧
      ∀ inconsistency, inconsistency ∈ found ↔ inconsistency.key = key ∧
        testContext.Checks key inconsistency.etype ∧ CountsDiffer counts counts' inconsistency := by
  refine ⟨_, compareKey_value key counts counts', ?_, fun inconsistency => ?_⟩
  · split
    · exact List.nodup_nil
    · have hnodup : ∀ o : Option Inconsistency, o.toList.Nodup := fun o => by cases o <;> simp
      rw [List.nodup_append]
      refine ⟨hnodup _, hnodup _, fun i hi j hj => ?_⟩
      rw [Option.mem_toList, countInconsistency_eq_some_iff] at hi hj
      rw [hi.2.2, hj.2.2]
      simp
  · split
    · rename_i hskip
      refine iff_of_false (List.not_mem_nil) fun h => ?_
      rcases hskip with hfamily | hmasked
      · exact h.2.1.family hfamily
      · rw [h.2.1.masked] at hmasked
        cases hmasked
    · rename_i hskip
      rw [not_or, Bool.not_eq_true] at hskip
      rw [List.mem_append, Option.mem_toList, Option.mem_toList, countInconsistency_eq_some_iff,
        countInconsistency_eq_some_iff]
      constructor
      · rintro (⟨hcheck, hne, rfl⟩ | ⟨hcheck, hne, rfl⟩)
        · exact ⟨rfl, ⟨hskip.1, hskip.2, hcheck⟩, _, _, rfl, rfl, hne, rfl, rfl⟩
        · exact ⟨rfl, ⟨hskip.1, hskip.2, hcheck⟩, _, _, rfl, rfl, hne, rfl, rfl⟩
      · intro ⟨hkey, hchecks, n, m, hn, hm, hne, href, htest⟩
        obtain ⟨key', etype, reference, testing⟩ := inconsistency
        rw [EventCounts.count] at hn hm
        simp only at hkey href htest hn hm hchecks
        rw [hkey, href, htest]
        split at hn
        · rename_i hetype
          rw [if_pos hetype] at hm
          rw [← Option.some.inj hn, ← Option.some.inj hm] at hne ⊢
          exact .inl ⟨hetype ▸ hchecks.etype, hne, by rw [hetype]⟩
        · rename_i hadded
          rw [if_neg hadded] at hm
          split at hn
          · rename_i hetype
            rw [if_pos hetype] at hm
            rw [← Option.some.inj hn, ← Option.some.inj hm] at hne ⊢
            exact .inr ⟨hetype ▸ hchecks.etype, hne, by rw [hetype]⟩
          · cases hn

/-- The body of the loop for a key of the run. -/
theorem exists_inconsistencies_key (testContext : DigestContext) (reference : HistoryDigest) (key : String)
    (counts' : EventCounts) : ∃ found,
      (match reference.entries.lookup key with
        | none => some []
        | some canonicalized => compareKey testContext key canonicalized counts'.value) = some found ∧
      found.Nodup ∧ ∀ inconsistency, inconsistency ∈ found ↔ inconsistency.key = key ∧
        ∃ counts, (key, counts) ∈ reference.counts ∧ testContext.Checks key inconsistency.etype ∧
          CountsDiffer counts counts' inconsistency := by
  cases hlookup : reference.entries.lookup key with
  | none =>
    refine ⟨[], rfl, List.nodup_nil, fun inconsistency => ?_⟩
    refine iff_of_false List.not_mem_nil fun ⟨_, counts, hmem, _⟩ => ?_
    rw [HistoryDigest.lookup_entries_iff.mpr ⟨counts, hmem, rfl⟩] at hlookup
    cases hlookup
  | some value =>
    obtain ⟨counts, hcounts, rfl⟩ := HistoryDigest.lookup_entries_iff.mp hlookup
    obtain ⟨found, hfound, hnodup, hmem⟩ := @exists_compareKey testContext key counts counts'
    refine ⟨found, hfound, hnodup, fun inconsistency => ?_⟩
    rw [hmem]
    apply and_congr_right
    intro _
    constructor
    · exact fun h => ⟨counts, hcounts, h⟩
    · intro ⟨other, hother, h⟩
      rw [HistoryDigest.counts_unique hcounts hother]
      exact h

/-- **The loop over the keys** finds each inconsistency once. -/
theorem exists_inconsistencies (testContext : DigestContext) (reference testing : HistoryDigest) :
    ∃ found, inconsistencies testContext reference.entries testing.entries = some found ∧ found.Nodup ∧
      ∀ inconsistency, inconsistency ∈ found ↔
        IsInconsistency testContext reference testing inconsistency := by
  obtain ⟨counts, hkeys⟩ := testing
  show ∃ found, inconsistencies testContext reference.entries
    (counts.map fun entry => (entry.1, entry.2.value)) = some found ∧ _
  induction counts with
  | nil => exact ⟨[], rfl, List.nodup_nil, fun inconsistency => by simp [IsInconsistency]⟩
  | cons entry counts ih =>
    obtain ⟨key, c'⟩ := entry
    have hcons := hkeys
    rw [List.map_cons, List.nodup_cons] at hcons
    obtain ⟨rest, hrest, hnodup, hmem⟩ := ih hcons.2
    obtain ⟨found, hfound, hfoundNodup, hfoundMem⟩ :=
      exists_inconsistencies_key testContext reference key c'
    refine ⟨found ++ rest, ?_, ?_, fun inconsistency => ?_⟩
    · rw [inconsistencies, Option.map_eq_some_iff] at hrest
      obtain ⟨founds, hfounds, rfl⟩ := hrest
      rw [inconsistencies, List.map_cons, List.mapM_cons]
      simp only [hfound, hfounds]
      rfl
    · rw [List.nodup_append]
      refine ⟨hfoundNodup, hnodup, fun i hi j hj heq => ?_⟩
      obtain ⟨-, d, -, hd, -⟩ := (hmem j).mp hj
      rw [← heq, ((hfoundMem i).mp hi).1] at hd
      exact hcons.1 (List.mem_map.mpr ⟨(key, d), hd, rfl⟩)
    · rw [List.mem_append, hfoundMem, hmem]
      constructor
      · rintro (⟨hkey, c, hc, hchecks, hdiffer⟩ | ⟨c, d, hc, hd, h⟩)
        · rw [← hkey] at hc hchecks
          exact ⟨c, c', hc, by rw [hkey]; exact List.mem_cons_self, hchecks, hdiffer⟩
        · exact ⟨c, d, hc, List.mem_cons_of_mem _ hd, h⟩
      · intro ⟨c, d, hc, hd, hchecks, hdiffer⟩
        rcases List.mem_cons.mp hd with heq | hd
        · obtain ⟨hkey, rfl⟩ := Prod.mk.inj heq
          rw [hkey] at hc hchecks
          exact .inl ⟨hkey, c, hc, hchecks, hdiffer⟩
        · exact .inr ⟨c, d, hc, hd, hchecks, hdiffer⟩

/-- A run that agrees with every count of the reference digest. -/
theorem inconsistencies_nil {reference testing : HistoryDigest}
    (h : ∀ entry ∈ reference.counts, entry ∈ testing.counts) :
    compareHistoryDigests testContext reference.value testing.value = some [] := by
  obtain ⟨found, hfound, -, hmem⟩ := exists_inconsistencies testContext reference testing
  have hnil : found = [] := by
    rw [List.eq_nil_iff_forall_not_mem]
    intro inconsistency hin
    obtain ⟨c, c', hc, hc', -, n, m, hn, hm, hne, -⟩ := (hmem inconsistency).mp hin
    rw [HistoryDigest.counts_unique (h _ hc) hc', hm] at hn
    exact hne (Option.some.inj hn).symm
  show (inconsistencies testContext reference.entries testing.entries).map _ = _
  rw [hfound, hnil]
  simp

/-- **The reference digest is exact.**  It has what both learning runs agree on and nothing else; the
comparison reports neither of the two runs, and of any other run each inconsistency once. -/
theorem digest_exact {deepDiff : PythonValue → PythonValue → List StateDelta}
    (hdeep : IsDeepDiff deepDiff) (first second : HistoryDigest) :
    ∃ reference : HistoryDigest,
      canonicalizeHistoryDigest deepDiff first.value second.value = some reference.value ∧
      (∀ entry, entry ∈ reference.counts ↔ entry ∈ first.counts ∧ entry ∈ second.counts) ∧
      ∀ testContext, compareHistoryDigests testContext reference.value first.value = some [] ∧
        compareHistoryDigests testContext reference.value second.value = some [] ∧
        ∀ testing : HistoryDigest, ∃ (found : List Inconsistency) (messages : List Text),
          compareHistoryDigests testContext reference.value testing.value = some messages ∧
          messages.Perm (found.map Inconsistency.message) ∧ found.Nodup ∧
          ∀ inconsistency, inconsistency ∈ found ↔
            IsInconsistency testContext reference testing inconsistency := by
  have hagreed : ∀ entry, entry ∈ (first.agreed second).counts ↔
      entry ∈ first.counts ∧ entry ∈ second.counts := by
    intro entry
    rw [HistoryDigest.agreed, List.mem_filter, decide_eq_true_eq]
  refine ⟨first.agreed second, canonicalizeHistoryDigest_eq hdeep first second, hagreed, ?_⟩
  intro testContext
  refine ⟨inconsistencies_nil fun entry h => ((hagreed entry).mp h).1,
    inconsistencies_nil fun entry h => ((hagreed entry).mp h).2, fun testing => ?_⟩
  obtain ⟨found, hfound, hnodup, hmem⟩ :=
    exists_inconsistencies testContext (first.agreed second) testing
  have hcompare : compareHistoryDigests testContext (first.agreed second).value testing.value =
      some ((found.map Inconsistency.message).mergeSort
        fun message message' => decide (message ≤ message')) := by
    show (inconsistencies testContext (first.agreed second).entries testing.entries).map _ = _
    rw [hfound]
    rfl
  exact ⟨found, _, hcompare, List.mergeSort_perm _ _, hnodup, hmem⟩

/-- Two runs that agree on the pod, and not on the volume. -/
def firstRun : HistoryDigest := ⟨[("pod/default/p", ⟨1, 0⟩), ("pvc/default/v", ⟨2, 1⟩)], by simp⟩

def secondRun : HistoryDigest := ⟨[("pvc/default/v", ⟨1, 0⟩), ("pod/default/p", ⟨1, 0⟩)], by simp⟩

theorem digest_exact_pod : ∃ reference : HistoryDigest,
    canonicalizeHistoryDigest (treeDiff PythonScalar.type) firstRun.value secondRun.value =
      some reference.value ∧
    (∀ entry, entry ∈ reference.counts ↔ entry ∈ firstRun.counts ∧ entry ∈ secondRun.counts) ∧
    ∀ testContext, compareHistoryDigests testContext reference.value firstRun.value = some [] ∧
      compareHistoryDigests testContext reference.value secondRun.value = some [] ∧
      ∀ testing : HistoryDigest, ∃ (found : List Inconsistency) (messages : List Text),
        compareHistoryDigests testContext reference.value testing.value = some messages ∧
        messages.Perm (found.map Inconsistency.message) ∧ found.Nodup ∧
        ∀ inconsistency, inconsistency ∈ found ↔
          IsInconsistency testContext reference testing inconsistency :=
  digest_exact isDeepDiff_treeDiff firstRun secondRun

end Sieve.Oracle
