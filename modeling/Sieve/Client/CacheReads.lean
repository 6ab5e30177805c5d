import Sieve.Client.TestClient
import Sieve.Library.Runs

/-!
# Cache reads and the lock for ongoing reads

The instrumentation puts a hook before and a hook after each cache read.  The first looks at the whole
cache, the second at what the read has found, and the coordinator locks `controllerOngoingReadLock` at
the pause request of the first and unlocks it at that of the second:

* `CacheRead`: an instrumented read inside a reconcile, `scopeBefore` and `scopeAfter`: what the two
  hooks look up in the plan;
* `Paired`: the pause requests of the read come in pairs;
* `LockStep`: any number of reads and the lock;
* `hooks_paired_iff`: when the requests are paired, and the lock with them.
-/

namespace Sieve.Client

open Sieve.Event (goJoin)
open Sieve.Library
open Relation (ReflTransGen)

/-- The read with its result. -/
inductive ReadCall where
  | getByKey (key : String) (item : CachedObject) (exists' : Bool)
  | list (items : List CachedObject)
  | byIndex (items : List CachedObject) (listErr : Bool)

/-- A read inside a reconcile; `true` stands for the hook before it, `false` for the one after it. -/
structure CacheRead where
  /-- `c.cacheStorage.List()` before the read. -/
  cached : List CachedObject
  call : ReadCall
  ready : Bool → Bool
  reconcileFun : Bool → String
  inReconcile : ∀ before, reconcileFun before ≠ unknownReconcileFun

/-- Whether the request is a read pause, and before the read. -/
def Request.readPause? : Request → Option Bool
  | .readPause before _ _ _ => some before
  | _ => none

namespace CacheRead

variable (config : TestConfig) (r : CacheRead)

def beforeRequests : List Request :=
  match r.call with
  | .getByKey key _ _ => notifyTestBeforeCacheGet config (r.ready true) (r.reconcileFun true) key r.cached
  | .list _ => notifyTestBeforeCacheList config (r.ready true) (r.reconcileFun true) r.cached
  | .byIndex _ _ => notifyTestBeforeCacheList config (r.ready true) (r.reconcileFun true) r.cached

def afterRequests : List Request :=
  match r.call with
  | .getByKey key item exists' =>
    notifyTestAfterCacheGet config (r.ready false) (r.reconcileFun false) key item exists'
  | .list items => notifyTestAfterCacheList config (r.ready false) (r.reconcileFun false) items false
  | .byIndex items listErr =>
    notifyTestAfterCacheList config (r.ready false) (r.reconcileFun false) items listErr

/-- **Paired**: the client sends a before-read pause request if and only if it sends the matching
after-read pause request. -/
def Paired : Prop :=
  ∀ operationType resourceKey resourceType,
    .readPause true operationType resourceKey resourceType ∈ r.beforeRequests config ↔
      .readPause false operationType resourceKey resourceType ∈ r.afterRequests config

/-- What the plan has to select for a pause of the object, or of an object of the type. -/
def scope (item : CachedObject) : String :=
  match r.call with
  | .getByKey key _ _ => goJoin item.resourceType key
  | _ => item.resourceType

/-- The first object of the cache counts. -/
def scopeBefore : Option String :=
  if r.ready true then r.cached.head?.map r.scope else none

/-- Nothing counts when nothing is found, the read fails or an object cannot be serialized. -/
def scopeAfter : Option String :=
  if !r.ready false then none
  else
    match r.call with
    | .getByKey _ item exists' => if exists' && item.serialized.isSome then some (r.scope item) else none
    | .list items => if (serializeAll items).isSome then items.head?.map r.scope else none
    | .byIndex items listErr =>
      if !listErr && (serializeAll items).isSome then items.head?.map r.scope else none

/-- The plan selects the scope. -/
def selects (scope : String) : Bool :=
  selectsPause config scope (match r.call with | .getByKey _ _ _ => false | _ => true)
    "beforeControllerRead" "afterControllerRead"

/-- The two hooks look up the same, as far as the plan selects it. -/
def HooksAgree : Prop :=
  ∀ scope, r.selects config scope = true → (r.scopeBefore = some scope ↔ r.scopeAfter = some scope)

/-! ### What the hooks send -/

/-- The pause request for a scope. -/
def pauseRequest (before : Bool) (scope : String) : Request :=
  match r.call with
  | .getByKey _ _ _ => .readPause before "Get" scope ""
  | _ => .readPause before "List" "" scope

def pauseRequests (before : Bool) : Option String → List Request
  | none => []
  | some scope => if r.selects config scope then [r.pauseRequest before scope] else []

theorem pauseRequests_none (before : Bool) : r.pauseRequests config before none = [] := rfl

theorem pauseRequests_some (before : Bool) (scope : String) :
    r.pauseRequests config before (some scope) =
      match r.call, before with
      | .getByKey _ _ _, true => notifyTestBeforeCacheGetPause config scope
      | .getByKey _ _ _, false => notifyTestAfterCacheGetPause config scope
      | _, true => notifyTestBeforeCacheListPause config scope
      | _, false => notifyTestAfterCacheListPause config scope := by
  rw [pauseRequests, selects, pauseRequest]
  cases r.call <;> cases before <;> rfl

theorem beforeRequests_eq : r.beforeRequests config = r.pauseRequests config true r.scopeBefore := by
  have hframe := beq_eq_false_iff_ne.mpr (r.inReconcile true)
  rw [beforeRequests, scopeBefore]
  cases hready : r.ready true with
  | false => cases r.call <;> rfl
  | true =>
    cases hcached : r.cached with
    | nil => cases r.call <;> simp [notifyTestBeforeCacheGet, notifyTestBeforeCacheList, pauseRequests]
    | cons item rest =>
      rw [if_pos rfl, List.head?_cons, Option.map_some, pauseRequests_some, scope]
      cases r.call <;> simp [notifyTestBeforeCacheGet, notifyTestBeforeCacheList, hframe]

/-- What an after-read hook sends for a trigger is no pause request. -/
theorem mem_notifyObserved {resource reconcileFun : String} {onlyMatchType : Bool}
    {sent request : Request}
    (h : request ∈ notifyObserved config resource reconcileFun onlyMatchType sent) : request = sent := by
  rw [notifyObserved] at h
  split at h
  · cases h
  · split at h
    · cases h
    · exact List.mem_singleton.mp h

/-- A list of requests that ends with the given pause requests, and has no others. -/
def EndsWith (requests pauses : List Request) : Prop :=
  ∃ observed, requests = observed ++ pauses ∧ ∀ request ∈ observed, request.readPause? = none

theorem endsWith_nil : EndsWith [] [] := ⟨[], rfl, nofun⟩

theorem notifyTestAfterCacheGet_endsWith {reconcileFun : String}
    (hframe : reconcileFun ≠ unknownReconcileFun) (ready : Bool) (key : String) (item : CachedObject)
    (exists' : Bool) :
    EndsWith (notifyTestAfterCacheGet config ready reconcileFun key item exists')
      (if ready && (exists' && item.serialized.isSome) then
        notifyTestAfterCacheGetPause config (goJoin item.resourceType key) else []) := by
  rw [notifyTestAfterCacheGet, beq_eq_false_iff_ne.mpr hframe]
  cases ready with
  | false => exact endsWith_nil
  | true =>
    cases exists' with
    | false => exact endsWith_nil
    | true =>
      cases item.serialized with
      | none => exact endsWith_nil
      | some serializedObj =>
        refine ⟨_, rfl, fun request hmem => ?_⟩
        rw [mem_notifyObserved config hmem]
        rfl

theorem notifyTestAfterCacheList_endsWith {reconcileFun : String}
    (hframe : reconcileFun ≠ unknownReconcileFun) (ready : Bool) (items : List CachedObject)
    (listErr : Bool) :
    EndsWith (notifyTestAfterCacheList config ready reconcileFun items listErr)
      (if ready && (!listErr && (serializeAll items).isSome) then
        match items with
        | [] => []
        | item :: _ => notifyTestAfterCacheListPause config item.resourceType
      else []) := by
  unfold notifyTestAfterCacheList
  cases ready with
  | false => exact endsWith_nil
  | true =>
    cases listErr with
    | true => exact endsWith_nil
    | false =>
      cases items with
      | nil => exact endsWith_nil
      | cons item items =>
        simp only [beq_eq_false_iff_ne.mpr hframe]
        cases serializeAll (item :: items) with
        | none => exact endsWith_nil
        | some serializedObjList =>
          refine ⟨_, rfl, fun request hmem => ?_⟩
          rw [mem_notifyObserved config hmem]
          rfl

theorem afterRequests_endsWith :
    EndsWith (r.afterRequests config) (r.pauseRequests config false r.scopeAfter) := by
  have hframe := r.inReconcile false
  cases hcall : r.call with
  | getByKey key item exists' =>
    convert notifyTestAfterCacheGet_endsWith config hframe (r.ready false) key item exists' using 1
    · rw [afterRequests, hcall]
    · rw [scopeAfter, hcall]
      cases r.ready false <;> cases exists' <;> cases hitem : item.serialized <;>
        simp [pauseRequests_some, pauseRequests_none, scope, hcall, hitem]
  | list items =>
    convert notifyTestAfterCacheList_endsWith config hframe (r.ready false) items false using 1
    · rw [afterRequests, hcall]
    · rw [scopeAfter, hcall]
      cases r.ready false <;> cases items <;>
        cases hitems : serializeAll _ <;>
        simp [pauseRequests_some, pauseRequests_none, scope, hcall, hitems]
  | byIndex items listErr =>
    convert notifyTestAfterCacheList_endsWith config hframe (r.ready false) items listErr using 1
    · rw [afterRequests, hcall]
    · rw [scopeAfter, hcall]
      cases r.ready false <;> cases listErr <;> cases items <;>
        cases hitems : serializeAll _ <;>
        simp [pauseRequests_some, pauseRequests_none, scope, hcall, hitems]

variable {config r}

theorem mem_pauseRequests {before : Bool} {found : Option String} {request : Request} :
    request ∈ r.pauseRequests config before found ↔
      ∃ scope, found = some scope ∧ r.selects config scope = true ∧
        request = r.pauseRequest before scope := by
  cases found with
  | none => simp [pauseRequests]
  | some scope => cases hselects : r.selects config scope <;> simp [pauseRequests, hselects]

theorem pauseRequest_inj {before before' : Bool} {scope scope' : String} :
    r.pauseRequest before scope = r.pauseRequest before' scope' ↔
      before = before' ∧ scope = scope' := by
  rw [pauseRequest, pauseRequest]
  cases r.call <;> simp

/-- The two requests for one scope differ in the flag only. -/
theorem readPause_eq {before : Bool} {operationType resourceKey resourceType scope : String}
    (h : .readPause before operationType resourceKey resourceType = r.pauseRequest before scope)
    (before' : Bool) :
    .readPause before' operationType resourceKey resourceType = r.pauseRequest before' scope := by
  rw [pauseRequest] at h ⊢
  cases hcall : r.call <;> rw [hcall] at h <;>
    obtain ⟨_, rfl, rfl, rfl⟩ := Request.readPause.inj h <;> rfl

theorem mem_afterRequests {before : Bool} {operationType resourceKey resourceType : String} :
    .readPause before operationType resourceKey resourceType ∈ r.afterRequests config ↔
      .readPause before operationType resourceKey resourceType ∈
        r.pauseRequests config false r.scopeAfter := by
  obtain ⟨observed, hafter, hobserved⟩ := afterRequests_endsWith config r
  rw [hafter, List.mem_append]
  refine ⟨fun hmem => ?_, .inr⟩
  obtain hmem | hmem := hmem
  · cases hobserved _ hmem
  · exact hmem

/-- **The requests are paired** when the hooks agree, and only then. -/
theorem paired_iff : r.Paired config ↔ r.HooksAgree config := by
  constructor
  · intro hpaired scope hselects
    obtain ⟨operationType, resourceKey, resourceType, heq⟩ : ∃ operationType resourceKey resourceType,
        .readPause true operationType resourceKey resourceType = r.pauseRequest true scope := by
      rw [pauseRequest]
      cases r.call <;> exact ⟨_, _, _, rfl⟩
    have hboth := hpaired operationType resourceKey resourceType
    rw [mem_afterRequests, beforeRequests_eq, mem_pauseRequests, mem_pauseRequests, heq,
      readPause_eq heq false] at hboth
    simpa [pauseRequest_inj, hselects] using hboth
  · intro hagree operationType resourceKey resourceType
    rw [mem_afterRequests, beforeRequests_eq, mem_pauseRequests, mem_pauseRequests]
    constructor
    · intro ⟨scope, hfound, hselects, heq⟩
      exact ⟨scope, (hagree scope hselects).mp hfound, hselects, readPause_eq heq false⟩
    · intro ⟨scope, hfound, hselects, heq⟩
      exact ⟨scope, (hagree scope hselects).mpr hfound, hselects, readPause_eq heq true⟩

end CacheRead

/-! ### The lock -/

/-- The read pauses of a list of requests, by their flags. -/
def pauseFlags (requests : List Request) : List Bool := requests.filterMap Request.readPause?

theorem CacheRead.pauseFlags_pauseRequests {config : TestConfig} {r : CacheRead} (before : Bool)
    (found : Option String) :
    pauseFlags (r.pauseRequests config before found) =
      if ∃ scope, found = some scope ∧ r.selects config scope = true then [before] else [] := by
  have hflag : ∀ scope, (r.pauseRequest before scope).readPause? = some before := by
    intro scope
    rw [pauseRequest]
    cases r.call <;> rfl
  cases found with
  | none => simp [pauseRequests, pauseFlags]
  | some scope => cases hselects : r.selects config scope <;> simp [pauseRequests, pauseFlags, hselects, hflag]

/-- The read pauses of a read whose hooks agree. -/
theorem CacheRead.pauseFlags_requests {config : TestConfig} {r : CacheRead}
    (hagree : r.HooksAgree config) :
    pauseFlags (r.beforeRequests config ++ r.afterRequests config) = [true, false] ∨
      pauseFlags (r.beforeRequests config ++ r.afterRequests config) = [] := by
  obtain ⟨observed, hafter, hobserved⟩ := r.afterRequests_endsWith config
  have hnone : pauseFlags observed = [] := List.filterMap_eq_nil_iff.mpr hobserved
  have hsame : (∃ scope, r.scopeBefore = some scope ∧ r.selects config scope = true) ↔
      ∃ scope, r.scopeAfter = some scope ∧ r.selects config scope = true :=
    exists_congr fun scope => and_congr_left fun hselects => hagree scope hselects
  have hflags : pauseFlags (r.beforeRequests config ++ r.afterRequests config) =
      pauseFlags (r.pauseRequests config true r.scopeBefore) ++
        (pauseFlags observed ++ pauseFlags (r.pauseRequests config false r.scopeAfter)) := by
    rw [hafter, beforeRequests_eq]
    simp [pauseFlags]
  rw [hflags, hnone, pauseFlags_pauseRequests, pauseFlags_pauseRequests, if_congr hsame rfl rfl]
  split
  · exact .inl rfl
  · exact .inr rfl

/-- The requests that the reads have yet to send, and the read that has locked
`controllerOngoingReadLock`. -/
structure LockState where
  pending : ℕ → List Request
  holder : Option ℕ
  crashed : Bool

def LockState.start (config : TestConfig) (reads : ℕ → CacheRead) : LockState where
  pending t := (reads t).beforeRequests config ++ (reads t).afterRequests config
  holder := none
  crashed := false

/-- One request of one read; `Lock` waits until the lock is free, and `Unlock` of a free lock ends the
process. -/
inductive LockStep : LockState → LockState → Prop where
  | lock {s : LockState} {t : ℕ} {request : Request} {rest : List Request}
      (hnext : s.pending t = request :: rest) (hbefore : request.readPause? = some true)
      (hfree : s.holder = none) :
      LockStep s { s with pending := Function.update s.pending t rest, holder := some t }
  | unlock {s : LockState} {t u : ℕ} {request : Request} {rest : List Request}
      (hnext : s.pending t = request :: rest) (hafter : request.readPause? = some false)
      (hheld : s.holder = some u) :
      LockStep s { s with pending := Function.update s.pending t rest, holder := none }
  | crash {s : LockState} {t : ℕ} {request : Request} {rest : List Request}
      (hnext : s.pending t = request :: rest) (hafter : request.readPause? = some false)
      (hfree : s.holder = none) :
      LockStep s { s with pending := Function.update s.pending t rest, crashed := true }
  | observe {s : LockState} {t : ℕ} {request : Request} {rest : List Request}
      (hnext : s.pending t = request :: rest) (hother : request.readPause? = none) :
      LockStep s { s with pending := Function.update s.pending t rest }

/-- **The lock is paired**: it has not been unlocked while unlocked, and no read that has returned has
left it locked. -/
def LockPaired (s : LockState) : Prop :=
  s.crashed = false ∧ ∀ t, s.holder = some t → s.pending t ≠ []

/-- The holder has its unlock to come, and every other read both or neither. -/
def InPairs (s : LockState) : Prop :=
  s.crashed = false ∧ ∀ t,
    if s.holder = some t then pauseFlags (s.pending t) = [false]
    else pauseFlags (s.pending t) = [true, false] ∨ pauseFlags (s.pending t) = []

theorem pauseFlags_cons {request : Request} {before : Bool} (rest : List Request)
    (h : request.readPause? = some before) :
    pauseFlags (request :: rest) = before :: pauseFlags rest := by
  simp [pauseFlags, h]

theorem InPairs.step {s s' : LockState} (hs : InPairs s) (h : LockStep s s') : InPairs s' := by
  obtain ⟨hcrashed, hpairs⟩ := hs
  cases h with
  | @lock t request rest hnext hbefore hfree =>
    refine ⟨hcrashed, fun u => ?_⟩
    have hu := hpairs u
    rw [hfree, if_neg nofun] at hu
    by_cases htu : u = t
    · subst htu
      rw [hnext, pauseFlags_cons rest hbefore] at hu
      simpa using hu
    · simpa [Function.update_of_ne htu, Ne.symm htu] using hu
  | @unlock t holder request rest hnext hafter hheld =>
    refine ⟨hcrashed, fun u => ?_⟩
    -- nobody else has an unlock to come
    have hholder : holder = t := by
      by_contra hne
      have ht := hpairs t
      rw [hheld, if_neg fun heq => hne (Option.some.inj heq), hnext,
        pauseFlags_cons rest hafter] at ht
      simp at ht
    have hu := hpairs u
    rw [hheld, hholder] at hu
    by_cases htu : u = t
    · subst htu
      rw [if_pos rfl, hnext, pauseFlags_cons rest hafter] at hu
      have hrest : pauseFlags rest = [] := by simpa using hu
      simp [hrest]
    · rw [if_neg fun heq => htu (Option.some.inj heq).symm] at hu
      simpa [Function.update_of_ne htu] using hu
  | @crash t request rest hnext hafter hfree =>
    have ht := hpairs t
    rw [hfree, if_neg nofun, hnext, pauseFlags_cons rest hafter] at ht
    simp at ht
  | @observe t request rest hnext hother =>
    refine ⟨hcrashed, fun u => ?_⟩
    have hu := hpairs u
    by_cases htu : u = t
    · subst htu
      rw [hnext, show pauseFlags (request :: rest) = pauseFlags rest by
        simp [pauseFlags, hother]] at hu
      simpa using hu
    · simpa [Function.update_of_ne htu] using hu

theorem InPairs.lockPaired {s : LockState} (hs : InPairs s) : LockPaired s := by
  refine ⟨hs.1, fun t hholder hnil => ?_⟩
  have ht := hs.2 t
  rw [if_pos hholder, hnil] at ht
  cases ht

/-- **Pause requests and the lock are paired**, whatever the order of the reads, if and only if the two
hooks of each read agree. -/
theorem hooks_paired_iff (config : TestConfig) (reads : ℕ → CacheRead) :
    ((∀ t, (reads t).Paired config) ∧
        Always (fun s s' => s.crashed = false ∧ LockStep s s') (.start config reads) LockPaired) ↔
      ∀ t, (reads t).HooksAgree config := by
  constructor
  · exact fun ⟨hpaired, _⟩ t => CacheRead.paired_iff.mp (hpaired t)
  · intro hagree
    refine ⟨fun t => CacheRead.paired_iff.mpr (hagree t), ?_⟩
    refine .mono (.of_invariant (P := InPairs) ⟨rfl, fun t => ?_⟩ fun s s' hs hstep =>
      hs.step hstep.2) fun s hs => hs.lockPaired
    rw [if_neg nofun]
    exact CacheRead.pauseFlags_requests (hagree t)

/-! ### A read that leaves the lock behind -/

/-- Pauses the reads of one pod. -/
def pausePod : RawAction where
  fields key :=
    if key = "actionType" then some (.str "pauseController")
    else if key = "pauseAt" then some (.str "beforeControllerRead")
    else if key = "pauseScope" then some (.str "pod/default/a")
    else none
  definitions := []

/-- A Get of that pod, which is not in the cache, while another one is. -/
def getAbsent : CacheRead where
  cached := [⟨"pod", some "{}"⟩]
  call := .getByKey "default/a" ⟨"pod", none⟩ false
  ready _ := true
  reconcileFun _ := "Reconcile"
  inReconcile _ := by decide

/-- The first hook sends a pause request, the second does not, and the lock stays locked. -/
theorem getAbsent_not_paired :
    ¬ getAbsent.Paired (loadTestPlan .empty [pausePod]) ∧
      ∃ s, ReflTransGen (fun s s' => s.crashed = false ∧ LockStep s s')
          (.start (loadTestPlan .empty [pausePod]) fun _ => getAbsent) s ∧
        s.holder = some 0 ∧ s.pending 0 = [] := by
  have hbefore : getAbsent.beforeRequests (loadTestPlan .empty [pausePod]) =
      [.readPause true "Get" "pod/default/a" ""] := by decide
  have hafter : getAbsent.afterRequests (loadTestPlan .empty [pausePod]) = [] := by decide
  constructor
  · intro hpaired
    have hboth := hpaired "Get" "pod/default/a" ""
    rw [hbefore, hafter] at hboth
    exact absurd (hboth.mp List.mem_cons_self) List.not_mem_nil
  · have hnext : (LockState.start (loadTestPlan .empty [pausePod]) fun _ => getAbsent).pending 0 =
        [.readPause true "Get" "pod/default/a" ""] := by
      rw [LockState.start, hbefore, hafter]
      rfl
    exact ⟨_, .single ⟨rfl, .lock hnext rfl rfl⟩, rfl, rfl⟩

end Sieve.Client
