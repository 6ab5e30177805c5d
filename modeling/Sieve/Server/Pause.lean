import Sieve.Server.TestPlan

/-!
# Pauses

What the pause and resume actions of `test_plan.go` do to the two maps they share with the handlers of
`test_coordinator.go`, and what a handler waits for:

* `PauseEntry`: the flag and the channel under one key; the channel is made once and never replaced;
* `processPauseControllerRead`, `processPauseControllerWrite`, `processPauseAPIServerRecv`: the scope
  whose channel a handler waits on, if any;
* `scopeOf_some`, `scopeOf_none`: it is a paused scope that covers the operation, and there is one
  whenever such a scope exists.
-/

namespace Sieve.Server

/-- An unbuffered `chan string`. -/
inductive Channel where
  | opened
  | closed
  deriving DecidableEq

/-- What ends the process at a channel. -/
inductive ChannelPanic where
  | closeOfNil
  | closeOfClosed
  | sendOnClosed
  deriving DecidableEq

/-- What `controllerShouldPauseMap` and `controllerPausingChs` hold under a point and a scope, or
`apiserverLockedMap` and `apiserverLocks` under an API server and a scope. -/
structure PauseEntry where
  shouldPause : Option Bool
  pausingCh : Option Channel
  deriving DecidableEq

/-- Both maps. -/
abbrev Pauses := String × String → PauseEntry

namespace PauseEntry

/-- Both maps have no entry. -/
def absent : PauseEntry := ⟨none, none⟩

/-- `runInternal` of both pause actions. -/
def pause (entry : PauseEntry) : PauseEntry := ⟨some true, some (entry.pausingCh.getD .opened)⟩

/-- `close` of the channel. -/
def close (entry : PauseEntry) : Except ChannelPanic PauseEntry :=
  match entry.pausingCh with
  | none => .error .closeOfNil
  | some .closed => .error .closeOfClosed
  | some .opened => .ok { entry with pausingCh := some .closed }

def unset (entry : PauseEntry) : PauseEntry := { entry with shouldPause := some false }

/-- The flag is set. -/
def paused (entry : PauseEntry) : Bool := entry.shouldPause == some true

/-- Pausing does not close or open a channel that is there. -/
theorem pausingCh_pause (entry : PauseEntry) :
    entry.pause.pausingCh = some .closed ↔ entry.pausingCh = some .closed := by
  rw [pause]
  cases entry.pausingCh with
  | none => simp
  | some channel => simp

theorem pausingCh_update_pause (pauses : Pauses) (key key' : String × String) :
    (Function.update pauses key (pauses key).pause key').pausingCh = some .closed ↔
      (pauses key').pausingCh = some .closed := by
  by_cases hkey : key' = key
  · rw [hkey, Function.update_self, pausingCh_pause]
  · rw [Function.update_of_ne hkey]

theorem pausingCh_update_unset (pauses : Pauses) (key key' : String × String) :
    (Function.update pauses key (pauses key).unset key').pausingCh = (pauses key').pausingCh := by
  by_cases hkey : key' = key
  · rw [hkey, Function.update_self]
    rfl
  · rw [Function.update_of_ne hkey]

theorem paused_update_unset (pauses : Pauses) (key key' : String × String) (entry : PauseEntry) :
    (Function.update pauses key entry.unset key').paused = true ↔
      key' ≠ key ∧ (pauses key').paused = true := by
  by_cases hkey : key' = key
  · rw [hkey, Function.update_self]
    exact iff_of_false (fun h => by cases h) fun h => h.1 rfl
  · rw [Function.update_of_ne hkey, and_iff_right hkey]

theorem close_ok {entry entry' : PauseEntry} (h : entry.close = .ok entry') :
    entry.pausingCh = some .opened ∧ entry' = { entry with pausingCh := some .closed } := by
  rw [close] at h
  split at h
  · cases h
  · cases h
  · rename_i hopened
    exact ⟨hopened, (Except.ok.inj h).symm⟩

end PauseEntry

/-! ### Operations -/

/-- What a controller does between two pause points. -/
inductive Operation where
  | get (resourceKey : String)
  | list (resourceType : String)
  | write (resourceKey : String)
  deriving DecidableEq

def Operation.isRead : Operation → Bool
  | .write _ => false
  | _ => true

/-- The pause point before or after the operation. -/
def Operation.pauseAt : Operation → Bool → String
  | .write _, true => beforeControllerWrite
  | .write _, false => afterControllerWrite
  | _, true => beforeControllerRead
  | _, false => afterControllerRead

/-- A key of the listed type. -/
def ofType (resourceType resourceKey : String) : Bool :=
  (resourceType ++ "/").toList.isPrefixOf resourceKey.toList

/-- The scope covers the operation: it is its own key, for a list a key of its type, or everything. -/
def Operation.CoveredBy (operation : Operation) (scope : String) : Prop :=
  scope = "all" ∨
    match operation with
    | .get resourceKey => scope = resourceKey
    | .list resourceType => ofType resourceType scope = true
    | .write resourceKey => scope = resourceKey

variable (pauses : Pauses)

/-- "all" is looked at first. -/
def allOr (pauseAt : String) (own : Option String) : Option String :=
  if (pauses (pauseAt, "all")).paused then some "all" else own

def ownKey (pauseAt resourceKey : String) : Option String :=
  if (pauses (pauseAt, resourceKey)).paused then some resourceKey else none

/-- The loop over the map ranges over `scopes`, in any order, and ends at the first paused key. -/
def processPauseControllerRead (scopes : List String)
    (pauseAt operationType resourceKey resourceType : String) : Option String :=
  allOr pauses pauseAt
    (if operationType == "Get" then ownKey pauses pauseAt resourceKey
      else scopes.find? fun scope => ofType resourceType scope && (pauses (pauseAt, scope)).paused)

def processPauseControllerWrite (pauseAt resourceKey : String) : Option String :=
  allOr pauses pauseAt (ownKey pauses pauseAt resourceKey)

/-- Here the own key is looked at first. -/
def processPauseAPIServerRecv (apiServerHostname pauseScope : String) : Option String :=
  if (pauses (apiServerHostname, pauseScope)).paused then some pauseScope
  else if (pauses (apiServerHostname, "all")).paused then some "all"
  else none

/-- The handler of an operation waits on the channel of this scope. -/
def scopeOf (scopes : List String) (operation : Operation) (before : Bool) : Option String :=
  let pauseAt := operation.pauseAt before
  match operation with
  | .get resourceKey => processPauseControllerRead pauses scopes pauseAt "Get" resourceKey ""
  | .list resourceType => processPauseControllerRead pauses scopes pauseAt "List" "" resourceType
  | .write resourceKey => processPauseControllerWrite pauses pauseAt resourceKey

/-- The map under a point has entries for these scopes only. -/
def ScopesWithin (pauseAt : String) (scopes : List String) : Prop :=
  ∀ scope, (pauses (pauseAt, scope)).shouldPause ≠ none → scope ∈ scopes

variable {pauses}

theorem scopesWithin_absent (pauseAt : String) : ScopesWithin (fun _ => .absent) pauseAt [] :=
  fun _ hscope => absurd rfl hscope

/-- A new entry is one more scope at most. -/
theorem ScopesWithin.update {pauseAt : String} {scopes : List String}
    (h : ScopesWithin pauses pauseAt scopes) (pauseAt' scope : String) (entry : PauseEntry) :
    ScopesWithin (Function.update pauses (pauseAt', scope) entry) pauseAt (scope :: scopes) := by
  intro scope' hscope
  by_cases hkey : (pauseAt, scope') = (pauseAt', scope)
  · rw [(Prod.mk.inj hkey).2]
    exact List.mem_cons_self
  · rw [Function.update_of_ne hkey] at hscope
    exact List.mem_cons_of_mem _ (h scope' hscope)

theorem allOr_some {pauseAt scope : String} {own : Option String}
    (h : allOr pauses pauseAt own = some scope) :
    scope = "all" ∧ (pauses (pauseAt, "all")).paused = true ∨
      (pauses (pauseAt, "all")).paused = false ∧ own = some scope := by
  rw [allOr] at h
  split at h
  · rename_i hall
    exact .inl ⟨(Option.some.inj h).symm, hall⟩
  · rename_i hall
    exact .inr ⟨by simpa using hall, h⟩

theorem allOr_none {pauseAt : String} {own : Option String} (h : allOr pauses pauseAt own = none) :
    (pauses (pauseAt, "all")).paused = false ∧ own = none := by
  rw [allOr] at h
  split at h
  · cases h
  · rename_i hall
    exact ⟨by simpa using hall, h⟩

theorem ownKey_some {pauseAt key scope : String} (h : ownKey pauses pauseAt key = some scope) :
    scope = key ∧ (pauses (pauseAt, key)).paused = true := by
  rw [ownKey] at h
  split at h
  · rename_i hpaused
    exact ⟨(Option.some.inj h).symm, hpaused⟩
  · cases h

theorem ownKey_none {pauseAt key : String} (h : ownKey pauses pauseAt key = none) :
    (pauses (pauseAt, key)).paused = false := by
  rw [ownKey] at h
  split at h
  · cases h
  · rename_i hpaused
    simpa using hpaused

/-- **A handler waits for a paused scope that covers its operation.** -/
theorem scopeOf_some {scopes : List String} {operation : Operation} {before : Bool} {scope : String}
    (h : scopeOf pauses scopes operation before = some scope) :
    operation.CoveredBy scope ∧ (pauses (operation.pauseAt before, scope)).paused = true := by
  cases operation with
  | get key =>
    rcases allOr_some h with ⟨rfl, hall⟩ | ⟨_, hown⟩
    · exact ⟨.inl rfl, hall⟩
    · obtain ⟨rfl, hpaused⟩ := ownKey_some hown
      exact ⟨.inr rfl, hpaused⟩
  | list resourceType =>
    rcases allOr_some h with ⟨rfl, hall⟩ | ⟨_, hown⟩
    · exact ⟨.inl rfl, hall⟩
    · have hfound := List.find?_some hown
      rw [Bool.and_eq_true] at hfound
      exact ⟨.inr hfound.1, hfound.2⟩
  | write key =>
    rcases allOr_some h with ⟨rfl, hall⟩ | ⟨_, hown⟩
    · exact ⟨.inl rfl, hall⟩
    · obtain ⟨rfl, hpaused⟩ := ownKey_some hown
      exact ⟨.inr rfl, hpaused⟩

/-- **A handler that does not wait finds no paused scope** that covers its operation. -/
theorem scopeOf_none {scopes : List String} {operation : Operation} {before : Bool}
    (hscopes : ScopesWithin pauses (operation.pauseAt before) scopes)
    (h : scopeOf pauses scopes operation before = none) {scope : String}
    (hcovered : operation.CoveredBy scope) :
    (pauses (operation.pauseAt before, scope)).paused = false := by
  cases operation with
  | get key =>
    obtain ⟨hall, hown⟩ := allOr_none h
    rcases hcovered with rfl | rfl
    · exact hall
    · exact ownKey_none hown
  | list resourceType =>
    obtain ⟨hall, hown⟩ := allOr_none h
    rcases hcovered with rfl | htype
    · exact hall
    · rw [if_neg (by decide), List.find?_eq_none] at hown
      by_contra hpaused
      rw [Bool.not_eq_false] at hpaused
      refine hown scope (hscopes scope ?_) (by rw [Bool.and_eq_true]; exact ⟨htype, hpaused⟩)
      rw [PauseEntry.paused, beq_iff_eq] at hpaused
      rw [hpaused]
      exact nofun
  | write key =>
    obtain ⟨hall, hown⟩ := allOr_none h
    rcases hcovered with rfl | rfl
    · exact hall
    · exact ownKey_none hown

theorem processPauseAPIServerRecv_some {apiServerHostname key scope : String}
    (h : processPauseAPIServerRecv pauses apiServerHostname key = some scope) :
    (scope = key ∨ scope = "all") ∧ (pauses (apiServerHostname, scope)).paused = true := by
  rw [processPauseAPIServerRecv] at h
  split at h
  · rename_i hpaused
    obtain rfl := Option.some.inj h
    exact ⟨.inl rfl, hpaused⟩
  · split at h
    · rename_i hall
      obtain rfl := Option.some.inj h
      exact ⟨.inr rfl, hall⟩
    · cases h

end Sieve.Server
