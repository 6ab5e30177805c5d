import Sieve.Analyzer.ResourceKeys
import Sieve.Analyzer.RetrieveMasked
import Sieve.Server.Config

/-!
# The same masks on both sides

The coordinator merges the tables of masks once and keeps what it looks up, the learner goes through the
tables each time.

* `PlainPattern`, `IsResourceKey`: patterns and keys as both sides read them;
* `pathMatch_eq`: the two kinds of matching agree on them;
* `belongs_iff`: what belongs to a key in a merged table, entry by entry;
* `lookups_agree`: all lookups find what the learner retrieves.
-/

namespace Sieve.Replay

open Sieve.Event Sieve.Library Sieve.Server

/-- A part of a pattern in which nothing but `*` is special to either side: `path.Match` and `fnmatch`
read `?`, `[` and `\`, and `PurePath` drops single dots. -/
structure PlainPart (part : List Char) : Prop where
  nonempty : part ≠ []
  noDot : part ≠ ['.']
  noWildcard : '?' ∉ part ∧ '[' ∉ part ∧ '\\' ∉ part

instance (part : List Char) : Decidable (PlainPart part) :=
  decidable_of_iff (part ≠ [] ∧ part ≠ ['.'] ∧ '?' ∉ part ∧ '[' ∉ part ∧ '\\' ∉ part)
    ⟨fun h => ⟨h.1, h.2.1, h.2.2⟩, fun h => ⟨h.nonempty, h.noDot, h.noWildcard⟩⟩

/-- A pattern for resource keys with such parts. -/
def PlainPattern (key : String) : Prop := ∀ part ∈ splitSlash key.toList, PlainPart part

instance (key : String) : Decidable (PlainPattern key) :=
  inferInstanceAs (Decidable (∀ part ∈ splitSlash key.toList, PlainPart part))

/-- A resource type, a namespace or the name of an object. -/
structure IsResourceName (name : String) : Prop where
  nonempty : name.toList ≠ []
  noDot : name.toList ≠ ['.']
  noSlash : '/' ∉ name.toList
  noStar : '*' ∉ name.toList

/-- `type/namespace/name`. -/
def IsResourceKey (resourceKey : String) : Prop :=
  ∃ resourceType objNamespace name, resourceKey = Analyzer.generateKey resourceType objNamespace name ∧
    IsResourceName resourceType ∧ IsResourceName objNamespace ∧ IsResourceName name

/-! ### Matching -/

/-- Parts that `PurePath` keeps. -/
def KeptParts (path : List Char) : Prop := ∀ part ∈ splitSlash path, part ≠ [] ∧ part ≠ ['.']

theorem KeptParts.purePathParts_eq {path : List Char} (h : KeptParts path) :
    Analyzer.purePathParts ('/' :: path) = splitSlash path := by
  rw [Analyzer.purePathParts, splitSlash_cons_slash, List.filter_cons_of_neg (by simp),
    List.filter_eq_self]
  intro part hpart
  obtain ⟨hne, hdot⟩ := h part hpart
  simp [hne, hdot]

theorem KeptParts.hasDoubleRoot_eq {path : List Char} (h : KeptParts path) :
    Analyzer.hasDoubleRoot ('/' :: path) = false := by
  cases path with
  | nil => exact absurd rfl (h [] (by simp [splitSlash])).1
  | cons c path =>
    have hc : c ≠ '/' := by
      intro hc
      rw [KeptParts, hc, splitSlash_cons_slash] at h
      exact absurd rfl (h [] List.mem_cons_self).1
    simp [Analyzer.hasDoubleRoot, hc]

/-- **The two kinds of matching agree**, part by part. -/
theorem pathMatch_eq {key resourceKey : String} (hkey : KeptParts key.toList)
    (hresource : KeptParts resourceKey.toList) : pathMatch key resourceKey =
      Analyzer.purePathMatch ('/' :: resourceKey.toList) ('/' :: key.toList) := by
  have hparts : ∀ path : List Char, path = ['/'].intercalate (splitSlash path) := by
    intro path
    rw [splitSlash_eq, List.intercalate_splitOn]
  rw [Bool.eq_iff_iff, Analyzer.purePathMatch, hkey.hasDoubleRoot_eq, hresource.hasDoubleRoot_eq,
    hkey.purePathParts_eq, hresource.purePathParts_eq, pathMatch, hparts key.toList,
    hparts resourceKey.toList, glob_parts_iff (by decide) (splitSlash_ne_nil _) (splitSlash_ne_nil _)
      (fun part hpart => slash_not_mem_of_mem_splitSlash hpart)
      (fun part hpart => slash_not_mem_of_mem_splitSlash hpart), List.forall₂_iff_zip, ← hparts, ← hparts]
  simp [Analyzer.fnmatchcase]

theorem PlainPattern.kept {key : String} (h : PlainPattern key) : KeptParts key.toList :=
  fun part hpart => ⟨(h part hpart).nonempty, (h part hpart).noDot⟩

theorem IsResourceKey.splitSlash_eq {resourceKey : String} (h : IsResourceKey resourceKey) :
    ∀ part ∈ splitSlash resourceKey.toList, ∃ name : String, part = name.toList ∧ IsResourceName name := by
  obtain ⟨resourceType, objNamespace, name, rfl, htype, hnamespace, hname⟩ := h
  rw [Event.splitSlash_eq, Analyzer.splitOn_generateKey hnamespace.noSlash hname.noSlash,
    List.splitOn_eq_singleton htype.noSlash]
  intro part hpart
  simp only [List.singleton_append, List.mem_cons, List.not_mem_nil, or_false] at hpart
  rcases hpart with rfl | rfl | rfl
  · exact ⟨resourceType, rfl, htype⟩
  · exact ⟨objNamespace, rfl, hnamespace⟩
  · exact ⟨name, rfl, hname⟩

theorem IsResourceKey.kept {resourceKey : String} (h : IsResourceKey resourceKey) :
    KeptParts resourceKey.toList := by
  intro part hpart
  obtain ⟨name, rfl, hname⟩ := h.splitSlash_eq part hpart
  exact ⟨hname.nonempty, hname.noDot⟩

/-- No resource key is a pattern. -/
theorem IsResourceKey.containsStar_eq {resourceKey : String} (h : IsResourceKey resourceKey) :
    containsStar resourceKey = false := by
  obtain ⟨resourceType, objNamespace, name, rfl, htype, hnamespace, hname⟩ := h
  simp [containsStar, Analyzer.generateKey, htype.noStar, hnamespace.noStar, hname.noStar]

/-- **An entry counts for a key** on both sides alike: under the key itself or under a pattern that
matches it. -/
theorem appliesTo_iff {key resourceKey : String} (hkey : PlainPattern key)
    (hresource : IsResourceKey resourceKey) : Analyzer.appliesTo key resourceKey = true ↔
      key = resourceKey ∨ containsStar key = true ∧ pathMatch key resourceKey = true := by
  rw [Analyzer.appliesTo, Bool.or_eq_true, beq_iff_eq, ← pathMatch_eq hkey.kept hresource.kept]
  constructor
  · intro h
    by_cases hstar : containsStar key = true
    · exact h.imp_right fun hmatch => ⟨hstar, hmatch⟩
    · -- a key without a star matches itself only
      have hliteral : '*' ∉ key.toList := by
        rw [containsStar, List.contains_iff_mem] at hstar
        exact hstar
      refine .inl (h.elim id fun hmatch => ?_)
      exact (String.toList_inj.mp ((glob_literal_iff hliteral).mp hmatch)).symm
  · exact fun h => h.imp_right And.right

/-! ### The tables -/

/-- **What belongs to a key** stands in the entries that count for it. -/
theorem belongs_iff {masked : List String → Option String} {merged : MaskTable} {files : MaskFile}
    (hmerged : ∀ key x, x ∈ merged.own key ↔
      ∃ entry ∈ files, entry.1 = key ∧ ∃ item ∈ entry.2, masked item = some x)
    (hplain : ∀ entry ∈ files, PlainPattern entry.1) {resourceKey : String}
    (hresource : IsResourceKey resourceKey) (x : String) :
    PatternTable.Belongs containsStar pathMatch merged resourceKey x ↔
      ∃ entry ∈ files, Analyzer.appliesTo entry.1 resourceKey = true ∧
        ∃ item ∈ entry.2, masked item = some x := by
  rw [PatternTable.Belongs, hmerged]
  constructor
  · intro h
    rcases h with ⟨entry, hentry, hkey, hitem⟩ | ⟨pattern, hstar, hmatch, hx⟩
    · exact ⟨entry, hentry, (appliesTo_iff (hplain entry hentry) hresource).mpr (.inl hkey), hitem⟩
    · obtain ⟨entry, hentry, rfl, hitem⟩ := (hmerged pattern x).mp hx
      exact ⟨entry, hentry, (appliesTo_iff (hplain entry hentry) hresource).mpr
        (.inr ⟨hstar, hmatch⟩), hitem⟩
  · rintro ⟨entry, hentry, happlies, hitem⟩
    rcases (appliesTo_iff (hplain entry hentry) hresource).mp happlies with hkey | ⟨hstar, hmatch⟩
    · exact .inl ⟨entry, hentry, hkey, hitem⟩
    · exact .inr ⟨entry.1, hstar, hmatch, (hmerged entry.1 x).mpr ⟨entry, hentry, rfl, hitem⟩⟩

/-- Whatever is looked up in the table, one key after the other, is what `masksOf` has for the key, and is
found again for it later. -/
structure LookupsAgree (mask : MaskTable) (masksOf : String → Except Analyzer.AnalysisError (Finset String)) :
    Prop where
  total : ∀ resourceKeys, ∃ lookups, lookups.map Prod.fst = resourceKeys ∧ Lookups mask lookups
  agree : ∀ lookups, Lookups mask lookups → (∀ found ∈ lookups, IsResourceKey found.1) →
    ∀ found ∈ lookups, ∀ masks, masksOf found.1 = .ok masks → found.2 = masks
  again : ∀ lookups, Lookups mask lookups → (∀ found ∈ lookups, IsResourceKey found.1) →
    ∀ found ∈ lookups, ∀ found' ∈ lookups, found.1 = found'.1 → found.2 = found'.2

/-- Tables that hold what `masksOf` has for every key. -/
theorem lookupsAgree_of_handlesWildcards {merged mask : MaskTable}
    {masksOf : String → Except Analyzer.AnalysisError (Finset String)}
    (hmask : HandlesWildcards merged mask)
    (hmasks : ∀ resourceKey masks, IsResourceKey resourceKey → masksOf resourceKey = .ok masks →
      ∀ x, x ∈ masks ↔ PatternTable.Belongs containsStar pathMatch merged resourceKey x) :
    LookupsAgree mask masksOf where
  total := exists_lookups hmask.exists_ranges
  agree lookups hlookups hkeys found hfound masks hok := by
    ext x
    rw [hlookups.belongs hmask.completes (fun found hfound => (hkeys found hfound).containsStar_eq)
      found hfound, hmasks found.1 masks (hkeys found hfound) hok]
  again lookups hlookups hkeys found hfound found' hfound' hsame := by
    have hbelongs := hlookups.belongs hmask.completes
      fun found hfound => (hkeys found hfound).containsStar_eq
    ext x
    rw [hbelongs found hfound, hbelongs found' hfound', hsame]

/-! ### What the learner retrieves -/

section Retrieve

variable {configuredMaskedKeys configuredMaskedPaths learnedMaskedPaths : MaskFile}

/-- The masked keys, entry by entry. -/
theorem mem_retrieveMasked_keys {resourceKey : String} {masks : Masks}
    (h : Analyzer.retrieveMasked configuredMaskedKeys configuredMaskedPaths learnedMaskedPaths
      resourceKey = .ok masks) (x : String) :
    x ∈ masks.fieldKeyMask ↔ ∃ entry ∈ configuredMaskedKeys,
      Analyzer.appliesTo entry.1 resourceKey = true ∧ ∃ item ∈ entry.2, "/".intercalate item = x := by
  obtain ⟨maskedKeys, hkeys, h⟩ := bind_ok_iff.mp h
  obtain ⟨configured, _, h⟩ := bind_ok_iff.mp h
  obtain ⟨learned, _, h⟩ := bind_ok_iff.mp h
  obtain rfl := Except.ok.inj h
  rw [List.mem_toFinset, Analyzer.mem_getMaskByResourceKey hkeys]

/-- The masked paths, entry by entry of both files. -/
theorem mem_retrieveMasked_paths {resourceKey : String} {masks : Masks}
    (h : Analyzer.retrieveMasked configuredMaskedKeys configuredMaskedPaths learnedMaskedPaths
      resourceKey = .ok masks) (x : String) :
    x ∈ masks.fieldPathMask ↔ ∃ entry ∈ learnedMaskedPaths ++ configuredMaskedPaths,
      Analyzer.appliesTo entry.1 resourceKey = true ∧ ∃ item ∈ entry.2, "/".intercalate item = x := by
  obtain ⟨maskedKeys, _, h⟩ := bind_ok_iff.mp h
  obtain ⟨configured, hconfigured, h⟩ := bind_ok_iff.mp h
  obtain ⟨learned, hlearned, h⟩ := bind_ok_iff.mp h
  obtain rfl := Except.ok.inj h
  rw [Finset.mem_union, List.mem_toFinset, List.mem_toFinset,
    Analyzer.mem_getMaskByResourceKey hconfigured, Analyzer.mem_getMaskByResourceKey hlearned, or_comm]
  simp [or_and_right, exists_or]

/-- Without empty fields the learner retrieves masks for every key. -/
theorem exists_retrieveMasked
    (hkeys : ∀ entry ∈ configuredMaskedKeys, ∀ item ∈ entry.2, item ≠ [])
    (hpaths : ∀ entry ∈ learnedMaskedPaths ++ configuredMaskedPaths, ∀ item ∈ entry.2, item ≠ [])
    (resourceKey : String) : ∃ masks, Analyzer.retrieveMasked configuredMaskedKeys
      configuredMaskedPaths learnedMaskedPaths resourceKey = .ok masks := by
  rw [List.forall_mem_append] at hpaths
  obtain ⟨maskedKeys, hmaskedKeys⟩ := Analyzer.getMaskByResourceKey_ok hkeys resourceKey
  obtain ⟨configured, hconfigured⟩ := Analyzer.getMaskByResourceKey_ok hpaths.2 resourceKey
  obtain ⟨learned, hlearned⟩ := Analyzer.getMaskByResourceKey_ok hpaths.1 resourceKey
  exact ⟨_, by rw [Analyzer.retrieveMasked, hmaskedKeys, hconfigured, hlearned]; rfl⟩

/-! ### The merged tables of masks -/

theorem own_empty (key x : String) : x ∉ PatternTable.own (fun _ => none : MaskTable) key :=
  Finset.notMem_empty x

/-- The table of masked paths holds the entries of both files. -/
theorem mem_mergedPaths {learned merged : MaskTable}
    (hlearned : mergeMask maskedPath (fun _ => none) learnedMaskedPaths = some learned)
    (hmerged : mergeMask maskedPath learned configuredMaskedPaths = some merged) (key x : String) :
    x ∈ merged.own key ↔ ∃ entry ∈ learnedMaskedPaths ++ configuredMaskedPaths, entry.1 = key ∧
      ∃ item ∈ entry.2, maskedPath item = some x := by
  rw [mem_mergeMask hmerged, mem_mergeMask hlearned]
  simp only [own_empty, false_or, List.mem_append, or_and_right, exists_or]

/-- The table of masked keys holds the entries of its file. -/
theorem mem_mergedKeys {merged : MaskTable}
    (hmerged : mergeMask maskedKey (fun _ => none) configuredMaskedKeys = some merged) (key x : String) :
    x ∈ merged.own key ↔ ∃ entry ∈ configuredMaskedKeys, entry.1 = key ∧
      ∃ item ∈ entry.2, maskedKey item = some x := by
  rw [mem_mergeMask hmerged]
  simp only [own_empty, false_or]

/-- A key written as a single component is written alike on both sides. -/
theorem maskedKey_eq {item : List String} (h : ∃ field, item = [field]) :
    maskedKey item = some ("/".intercalate item) := by
  obtain ⟨field, rfl⟩ := h
  rfl

end Retrieve

/-- **The coordinator and the learner mask the same fields.**  The tables merge, any keys can be looked up in
any number and in any orders of the maps, and each lookup finds what the learner retrieves. -/
theorem lookups_agree (learnedMaskedPaths configuredMaskedPaths configuredMaskedKeys : MaskFile)
    (hplain : ∀ entry ∈ learnedMaskedPaths ++ configuredMaskedPaths ++ configuredMaskedKeys,
      PlainPattern entry.1)
    (hsingle : ∀ entry ∈ configuredMaskedKeys, ∀ item ∈ entry.2, ∃ field, item = [field]) :
    (∃ pathMask keyMask, GetMergedMask learnedMaskedPaths configuredMaskedPaths configuredMaskedKeys
      pathMask keyMask) ∧
    (∀ pathMask keyMask, GetMergedMask learnedMaskedPaths configuredMaskedPaths configuredMaskedKeys
      pathMask keyMask →
      LookupsAgree keyMask (fun resourceKey => (Analyzer.retrieveMasked configuredMaskedKeys
        configuredMaskedPaths learnedMaskedPaths resourceKey).map Masks.fieldKeyMask) ∧
      LookupsAgree pathMask (fun resourceKey => (Analyzer.retrieveMasked configuredMaskedKeys
        configuredMaskedPaths learnedMaskedPaths resourceKey).map Masks.fieldPathMask)) ∧
    ((∀ entry ∈ learnedMaskedPaths ++ configuredMaskedPaths, ∀ item ∈ entry.2, item ≠ []) →
      ∀ resourceKey, ∃ masks, Analyzer.retrieveMasked configuredMaskedKeys configuredMaskedPaths
        learnedMaskedPaths resourceKey = .ok masks) := by
  have hkeys : ∀ entry ∈ configuredMaskedKeys, ∀ item ∈ entry.2, item ≠ [] := by
    intro entry hentry item hitem
    obtain ⟨field, rfl⟩ := hsingle entry hentry item hitem
    simp
  obtain ⟨hplainPaths, hplainKeys⟩ := List.forall_mem_append.mp hplain
  refine ⟨exists_getMergedMask _ _ hkeys, ?_, exists_retrieveMasked hkeys⟩
  rintro pathMask keyMask ⟨⟨learned, merged, hlearned, hmerged, hpathMask⟩, mergedKeys, hmergedKeys,
    hkeyMask⟩
  constructor
  · refine lookupsAgree_of_handlesWildcards hkeyMask fun resourceKey masks hresource hok x => ?_
    obtain ⟨all, hall, rfl⟩ := map_ok_iff.mp hok
    rw [belongs_iff (mem_mergedKeys hmergedKeys) hplainKeys hresource, mem_retrieveMasked_keys hall]
    refine exists_congr fun entry => and_congr_right fun hentry => and_congr_right fun _ =>
      exists_congr fun item => and_congr_right fun hitem => ?_
    rw [maskedKey_eq (hsingle entry hentry item hitem), Option.some_inj]
  · refine lookupsAgree_of_handlesWildcards hpathMask fun resourceKey masks hresource hok x => ?_
    obtain ⟨all, hall, rfl⟩ := map_ok_iff.mp hok
    rw [belongs_iff (mem_mergedPaths hlearned hmerged) hplainPaths hresource,
      mem_retrieveMasked_paths hall]
    simp [maskedPath]

/-- Paths of a pod, learned for all pods of that name and configured for one. -/
theorem lookups_agree_pod :
    ∃ pathMask keyMask, GetMergedMask [("pod/*/web", [["spec", "nodeName"]])]
      [("pod/default/web", [["metadata", "uid"]])] [("*/*/*", [["resourceVersion"]])] pathMask keyMask ∧
    ∀ lookups, Lookups pathMask lookups → (∀ found ∈ lookups, found.1 = "pod/default/web") →
      ∀ found ∈ lookups, found.2 = {"metadata/uid", "spec/nodeName"} := by
  obtain ⟨⟨pathMask, keyMask, hmerged⟩, hagree, _⟩ := lookups_agree
    [("pod/*/web", [["spec", "nodeName"]])] [("pod/default/web", [["metadata", "uid"]])]
    [("*/*/*", [["resourceVersion"]])] (by decide) (by simp)
  refine ⟨pathMask, keyMask, hmerged, fun lookups hlookups hkeys found hfound => ?_⟩
  have hresource : IsResourceKey "pod/default/web" :=
    ⟨"pod", "default", "web", by decide, ⟨by decide, by decide, by decide, by decide⟩,
      ⟨by decide, by decide, by decide, by decide⟩, ⟨by decide, by decide, by decide, by decide⟩⟩
  refine (hagree pathMask keyMask hmerged).2.agree lookups hlookups
    (fun found hfound => by rw [hkeys found hfound]; exact hresource) found hfound _ ?_
  rw [hkeys found hfound]
  decide

end Sieve.Replay
