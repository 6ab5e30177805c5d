import Mathlib.Algebra.Group.Nat.Defs
import Mathlib.Data.List.Basic
import Sieve.Server.LearnServer

/-!
# Ids and rounds in the learn server

A client in a handler deals with one id or one reconciler, its key, and no other client does.

* `history`: the notifications of a key, newest first;
* `KeyOk`: what its status says about a key, its entry and its history;
* `KeysOk.step`: a step at one key leaves the others alone;
* `keys_counts` and the like: the steps of a client keep this, as long as the counters do not wrap.
-/

namespace Sieve.Server

open Sieve.Library

/-- What a call is about. -/
inductive LearnKey where
  | id (counter : IdCounter) (id : ℤ)
  | round (reconcilerName : Text)
  deriving DecidableEq

def Notification.key : Notification → Option LearnKey
  | .beforeControllerReconcile f | .afterControllerReconcile f => some (.round f)
  | .beforeRestWrite id | .afterRestWrite id _ | .beforeRestRead id | .afterRestRead id _ =>
    some (.id .controllerOperation id)
  | .beforeAnnotatedAPICall id | .afterAnnotatedAPICall id _ => some (.id .annotatedAPICall id)
  | .beforeControllerRecv id _ _ _ | .afterControllerRecv id => some (.id .event id)
  | .afterCacheGet _ _ _ _ _ _ | .afterCacheList _ _ _ _ => none

def Activity.key : Activity → Option LearnKey
  | .idle | .counts _ => none
  | .stores request id => some (.id request.kind.counter id)
  | .testsBegin f | .storesBegin f | .testsEnd f | .storesEnd f => some (.round f)
  | .sends notification _ | .waits notification _ => notification.key

theorem key_of_begins {notification : Notification} {kind : OperationKind} {id : ℤ}
    (h : notification.begins = some (kind, id)) : notification.key = some (.id kind.counter id) := by
  cases notification <;> simp only [Notification.begins, Option.some.injEq, Prod.mk.injEq,
    reduceCtorEq] at h <;> obtain ⟨rfl, rfl⟩ := h <;> rfl

theorem key_of_ends {notification : Notification} {kind : OperationKind} {id : ℤ}
    (h : notification.ends = some (kind, id)) : notification.key = some (.id kind.counter id) := by
  cases notification <;> simp only [Notification.ends, Option.some.injEq, Prod.mk.injEq,
    reduceCtorEq] at h <;> obtain ⟨rfl, rfl⟩ := h <;> rfl

theorem begins_notification (request : BeforeRequest) (id : ℤ) :
    (request.notification id).begins = some (request.kind, id) := by
  cases request <;> rfl

theorem key_notification (request : BeforeRequest) (id : ℤ) :
    (request.notification id).key = some (.id request.kind.counter id) :=
  key_of_begins (begins_notification request id)

/-! ### Keys, their entries and their histories -/

namespace LearnState

variable (s : LearnState)

/-- What has been sent, newest first. -/
def sent : List Notification := s.notificationCh.reverse ++ s.log.map LoggedLine.notification

def history (key : LearnKey) : List Notification :=
  s.sent.filter fun notification => notification.key = some key

/-- The client that deals with the key. -/
def owner : LearnKey → Option ℕ
  | .id counter id =>
    match s.idStatus counter id with
    | .begins client | .ends client => some client
    | _ => none
  | .round f =>
    match s.roundStatus f with
    | .begins client | .ends client => some client
    | _ => none

/-- Where the client stands that waits for the id. -/
def BeginsId (counter : IdCounter) (id : ℤ) (client : ℕ) : Prop :=
  ∃ request : BeforeRequest, request.kind.counter = counter ∧
    (s.activity client = .stores request id ∧ s.history (.id counter id) = [] ∨
      ∃ channel, s.chMap counter id = some channel ∧
        (s.activity client = .sends (request.notification id) (some channel) ∧
            s.history (.id counter id) = [] ∨
          s.activity client = .waits (request.notification id) channel ∧
            s.history (.id counter id) = [request.notification id]))

/-- The call after the operation is about to report. -/
def EndsId (counter : IdCounter) (id : ℤ) (client : ℕ) : Prop :=
  ∃ kind before after, before.begins = some (kind, id) ∧ kind.counter = counter ∧
    after.ends = some (kind, id) ∧ s.history (.id counter id) = [before] ∧
    s.activity client = .sends after none

def IdOk (counter : IdCounter) (id : ℤ) : Prop :=
  match s.idStatus counter id with
  | .unknown => s.history (.id counter id) = []
  | .begins client => s.BeginsId counter id client
  | .returned kind => ∃ before, before.begins = some (kind, id) ∧ kind.counter = counter ∧
      s.history (.id counter id) = [before]
  | .ends client => s.EndsId counter id client
  | .over => True

/-- The last boundary that has been sent is the beginning of a round. -/
def ongoing (f : Text) : Prop :=
  (s.history (.round f)).head? = some (.beforeControllerReconcile f)

/-- Where the client stands that begins the round. -/
def BeginsRound (f : Text) (client : ℕ) : Prop :=
  (s.activity client = .testsBegin f ∨ s.activity client = .storesBegin f) ∧ ¬ s.ongoing f ∧
      (∀ channel, s.reconcileChMap f ≠ some (some channel)) ∨
    ∃ channel, s.reconcileChMap f = some (some channel) ∧
      (s.activity client = .sends (.beforeControllerReconcile f) (some channel) ∧ ¬ s.ongoing f ∨
        s.activity client = .waits (.beforeControllerReconcile f) channel ∧ s.ongoing f)

/-- Where the client stands that ends the round. -/
def EndsRound (f : Text) (client : ℕ) : Prop :=
  s.ongoing f ∧
    ((s.activity client = .testsEnd f ∨ s.activity client = .storesEnd f) ∧
        (∃ channel, s.reconcileChMap f = some (some channel)) ∨
      s.activity client = .sends (.afterControllerReconcile f) none ∧
        s.reconcileChMap f = some none)

def RoundOk (f : Text) : Prop :=
  match s.roundStatus f with
  | .between => ¬ s.ongoing f ∧ ∀ channel, s.reconcileChMap f ≠ some (some channel)
  | .begins client => s.BeginsRound f client
  | .runs => s.ongoing f ∧ ∃ channel, s.reconcileChMap f = some (some channel)
  | .ends client => s.EndsRound f client

def KeyOk : LearnKey → Prop
  | .id counter id => s.IdOk counter id
  | .round f => s.RoundOk f

end LearnState

/-- The states agree on the key. -/
def SameAt (s s' : LearnState) : LearnKey → Prop
  | .id counter id => s'.idStatus counter id = s.idStatus counter id ∧
      s'.chMap counter id = s.chMap counter id ∧
      s'.history (.id counter id) = s.history (.id counter id)
  | .round f => s'.roundStatus f = s.roundStatus f ∧ s'.reconcileChMap f = s.reconcileChMap f ∧
      s'.history (.round f) = s.history (.round f)

/-- A client that is to wait deals with a key. -/
def Activity.Keyed : Activity → Prop
  | .sends notification (some _) | .waits notification _ => ∃ key, notification.key = some key
  | _ => True

/-- Keys and clients belong to each other. -/
structure KeysOk (s : LearnState) : Prop where
  keys : ∀ key, s.KeyOk key
  clients : ∀ client key, (s.activity client).key = some key → s.owner key = some client
  keyed : ∀ client, (s.activity client).Keyed

section Frame

variable {s s' : LearnState} {key : LearnKey} {client : ℕ}

theorem owner_of_same (h : SameAt s s' key) : s'.owner key = s.owner key := by
  cases key with
  | id counter id => rw [LearnState.owner, LearnState.owner, h.1]
  | round f => rw [LearnState.owner, LearnState.owner, h.1]

/-- The owner of a key deals with it. -/
theorem key_of_owner (h : s.KeyOk key) (howner : s.owner key = some client) :
    (s.activity client).key = some key := by
  cases key with
  | id counter id =>
    have h : s.IdOk counter id := h
    rw [LearnState.owner] at howner
    rw [LearnState.IdOk] at h
    cases hstatus : s.idStatus counter id with
    | begins client' =>
      rw [hstatus] at h howner
      rw [← Option.some.inj howner]
      obtain ⟨request, rfl, ⟨hact, _⟩ | ⟨channel, _, ⟨hact, _⟩ | ⟨hact, _⟩⟩⟩ := h
      · rw [hact, Activity.key]
      · rw [hact, Activity.key, key_notification]
      · rw [hact, Activity.key, key_notification]
    | ends client' =>
      rw [hstatus] at h howner
      rw [← Option.some.inj howner]
      obtain ⟨kind, before, after, _, rfl, hends, _, hact⟩ := h
      rw [hact, Activity.key, key_of_ends hends]
    | _ => simp [hstatus] at howner
  | round f =>
    have h : s.RoundOk f := h
    rw [LearnState.owner] at howner
    rw [LearnState.RoundOk] at h
    cases hstatus : s.roundStatus f with
    | begins client' =>
      rw [hstatus] at h howner
      rw [← Option.some.inj howner]
      obtain ⟨hact | hact, _⟩ | ⟨channel, _, ⟨hact, _⟩ | ⟨hact, _⟩⟩ := h <;> rw [hact] <;> rfl
    | ends client' =>
      rw [hstatus] at h howner
      rw [← Option.some.inj howner]
      obtain ⟨_, ⟨hact | hact, _⟩ | ⟨hact, _⟩⟩ := h <;> rw [hact] <;> rfl
    | _ => simp [hstatus] at howner

/-- What is said about a key depends on what is at the key and on where its owner stands. -/
theorem keyOk_of_same (h : s.KeyOk key) (hsame : SameAt s s' key)
    (hact : ∀ client, s.owner key = some client → s'.activity client = s.activity client) :
    s'.KeyOk key := by
  cases key with
  | id counter id =>
    have h : s.IdOk counter id := h
    show s'.IdOk counter id
    obtain ⟨hstatus, hch, hhistory⟩ := hsame
    rw [LearnState.owner] at hact
    rw [LearnState.IdOk] at h ⊢
    rw [hstatus]
    cases hid : s.idStatus counter id <;> rw [hid] at h hact
    · rw [hhistory]
      exact h
    · simp only [LearnState.BeginsId, hch, hhistory, hact _ rfl]
      exact h
    · simp only [hhistory]
      exact h
    · simp only [LearnState.EndsId, hhistory, hact _ rfl]
      exact h
    · trivial
  | round f =>
    have h : s.RoundOk f := h
    show s'.RoundOk f
    obtain ⟨hstatus, hmap, hhistory⟩ := hsame
    have hongoing : s'.ongoing f = s.ongoing f := by
      rw [LearnState.ongoing, LearnState.ongoing, hhistory]
    rw [LearnState.owner] at hact
    rw [LearnState.RoundOk] at h ⊢
    rw [hstatus]
    cases hround : s.roundStatus f <;> rw [hround] at h hact
    · simp only [hmap, hongoing]
      exact h
    · simp only [LearnState.BeginsRound, hmap, hongoing, hact _ rfl]
      exact h
    · simp only [hmap, hongoing]
      exact h
    · simp only [LearnState.EndsRound, hmap, hongoing, hact _ rfl]
      exact h

/-- What is known of the id that a client deals with. -/
theorem KeysOk.id_spec (h : KeysOk s) {counter : IdCounter} {id : ℤ}
    (hkey : (s.activity client).key = some (.id counter id)) :
    s.idStatus counter id = .begins client ∧ s.BeginsId counter id client ∨
      s.idStatus counter id = .ends client ∧ s.EndsId counter id client := by
  have howner := h.clients client _ hkey
  have hok : s.IdOk counter id := h.keys (.id counter id)
  rw [LearnState.owner] at howner
  rw [LearnState.IdOk] at hok
  cases hstatus : s.idStatus counter id with
  | begins client' =>
    rw [hstatus] at hok howner
    rw [Option.some.inj howner] at hok
    exact Or.inl ⟨by rw [Option.some.inj howner], hok⟩
  | ends client' =>
    rw [hstatus] at hok howner
    rw [Option.some.inj howner] at hok
    exact Or.inr ⟨by rw [Option.some.inj howner], hok⟩
  | _ => simp [hstatus] at howner

/-- What is known of the round that a client deals with. -/
theorem KeysOk.round_spec (h : KeysOk s) {f : Text} (hkey : (s.activity client).key = some (.round f)) :
    s.roundStatus f = .begins client ∧ s.BeginsRound f client ∨
      s.roundStatus f = .ends client ∧ s.EndsRound f client := by
  have howner := h.clients client _ hkey
  have hok : s.RoundOk f := h.keys (.round f)
  rw [LearnState.owner] at howner
  rw [LearnState.RoundOk] at hok
  cases hstatus : s.roundStatus f with
  | begins client' =>
    rw [hstatus] at hok howner
    rw [Option.some.inj howner] at hok
    exact Or.inl ⟨by rw [Option.some.inj howner], hok⟩
  | ends client' =>
    rw [hstatus] at hok howner
    rw [Option.some.inj howner] at hok
    exact Or.inr ⟨by rw [Option.some.inj howner], hok⟩
  | _ => simp [hstatus] at howner

/-- **A step of one client at one key**, which it deals with or takes, and keeps or leaves. -/
theorem KeysOk.step (h : KeysOk s) (client : ℕ) (key : LearnKey) {activity : Activity}
    (hothers : ∀ other, other ≠ client → s'.activity other = s.activity other)
    (hkey : (s.activity client).key = some key ∨
      (s.activity client).key = none ∧ s.owner key = none)
    (hsame : ∀ key', key' ≠ key → SameAt s s' key') (hok : s'.KeyOk key)
    (hactivity : s'.activity client = activity)
    (hkey' : activity.key = some key ∧ s'.owner key = some client ∨ activity.key = none)
    (hkeyed : activity.Keyed) : KeysOk s' := by
  refine ⟨?_, ?_, fun other => ?_⟩
  · intro key'
    by_cases heq : key' = key
    · rw [heq]
      exact hok
    · apply keyOk_of_same (h.keys key') (hsame key' heq)
      intro owner howner
      apply hothers
      rintro rfl
      have hdeals := key_of_owner (h.keys key') howner
      obtain hkey | ⟨hkey, _⟩ := hkey
      · rw [hkey] at hdeals
        exact heq (Option.some.inj hdeals).symm
      · rw [hkey] at hdeals
        cases hdeals
  · intro other key' hact
    by_cases hother : other = client
    · rw [hother, hactivity] at hact
      obtain ⟨hsome, howner⟩ | hnone := hkey'
      · rw [hsome] at hact
        rw [hother, ← Option.some.inj hact, howner]
      · rw [hnone] at hact
        cases hact
    · rw [hothers other hother] at hact
      have howner := h.clients other key' hact
      rw [owner_of_same, howner]
      apply hsame
      rintro rfl
      obtain hkey | ⟨_, hfree⟩ := hkey
      · rw [h.clients client key' hkey] at howner
        exact hother (Option.some.inj howner).symm
      · rw [hfree] at howner
        cases howner
  · by_cases hother : other = client
    · rw [hother, hactivity]
      exact hkeyed
    · rw [hothers other hother]
      exact h.keyed other

/-- A step of a client that deals with no key. -/
theorem KeysOk.step_without (h : KeysOk s)
    (hothers : ∀ other, other ≠ client → s'.activity other = s.activity other)
    (hkey : (s.activity client).key = none) (hkey' : (s'.activity client).key = none)
    (hkeyed : (s'.activity client).Keyed) (hsame : ∀ key, SameAt s s' key) : KeysOk s' := by
  refine ⟨?_, ?_, fun other => ?_⟩
  · intro key
    apply keyOk_of_same (h.keys key) (hsame key)
    intro owner howner
    apply hothers
    rintro rfl
    rw [key_of_owner (h.keys key) howner] at hkey
    cases hkey
  · intro other key hact
    have hother : other ≠ client := by
      rintro rfl
      rw [hact] at hkey'
      cases hkey'
    rw [hothers other hother] at hact
    rw [owner_of_same (hsame key)]
    exact h.clients other key hact
  · by_cases hother : other = client
    · rw [hother]
      exact hkeyed
    · rw [hothers other hother]
      exact h.keyed other

/-- A step that leaves all keys and all clients alone. -/
theorem KeysOk.of_same (h : KeysOk s) (hactivity : s'.activity = s.activity)
    (hsame : ∀ key, SameAt s s' key) : KeysOk s' where
  keys := fun key => keyOk_of_same (h.keys key) (hsame key) fun _ _ => by rw [hactivity]
  clients := fun client key hact => by
    rw [hactivity] at hact
    rw [owner_of_same (hsame key)]
    exact h.clients client key hact
  keyed := fun client => by
    rw [hactivity]
    exact h.keyed client

end Frame

/-! ### The counters -/

/-- The id that the counter gives after so many others. -/
def nthId (n : ℕ) : ℤ := (BitVec.ofNat 32 n).toInt

theorem nthId_injective {m n : ℕ} (hm : m < 2 ^ 32) (hn : n < 2 ^ 32) (h : nthId m = nthId n) :
    m = n := by
  have heq := congrArg BitVec.toNat (BitVec.eq_of_toInt_eq h)
  rwa [BitVec.toNat_ofNat, BitVec.toNat_ofNat, Nat.mod_eq_of_lt hm, Nat.mod_eq_of_lt hn] at heq

/-- The ids given are the first ones, each given once. -/
structure CountersOk (s : LearnState) : Prop where
  next : ∀ counter, s.ids counter + 1 = BitVec.ofNat 32 (s.given counter).length
  given : ∀ counter, ∀ id ∈ s.given counter, ∃ n < (s.given counter).length, id = nthId n
  nodup : ∀ counter, (s.given counter).Nodup
  known : ∀ counter id, id ∉ s.given counter → s.idStatus counter id = .unknown

/-! ### The steps -/

section Steps

variable {s s' : LearnState} {client : ℕ} {notification : Notification}

theorem sameAt_of_eq (hid : s'.idStatus = s.idStatus) (hround : s'.roundStatus = s.roundStatus)
    (hch : s'.chMap = s.chMap) (hmap : s'.reconcileChMap = s.reconcileChMap)
    (hsent : s'.sent = s.sent) (key : LearnKey) : SameAt s s' key := by
  cases key <;> simp only [SameAt, LearnState.history, hid, hround, hch, hmap, hsent, and_self]

theorem history_send (hsent : s'.sent = notification :: s.sent) (key : LearnKey) :
    s'.history key =
      if notification.key = some key then notification :: s.history key else s.history key := by
  rw [LearnState.history, LearnState.history, hsent, List.filter_cons]
  simp

theorem sent_send : (s.send notification).sent = notification :: s.sent := by
  simp [LearnState.send, LearnState.sent]

theorem setActivity_others {activity : Activity} (other : ℕ) (hother : other ≠ client) :
    (s.setActivity client activity).activity other = s.activity other :=
  Function.update_of_ne hother _ _

theorem setActivity_self {activity : Activity} :
    (s.setActivity client activity).activity client = activity := Function.update_self ..

theorem update_pair_of_ne {β : Type} {m : IdCounter → ℤ → β} {counter counter' : IdCounter}
    {id id' : ℤ} {b : β} (h : LearnKey.id counter' id' ≠ .id counter id) :
    Function.update m counter (Function.update (m counter) id b) counter' id' = m counter' id' := by
  by_cases hcounter : counter' = counter
  · rw [hcounter, Function.update_self, Function.update_of_ne]
    rintro rfl
    exact h (by rw [hcounter])
  · rw [Function.update_of_ne hcounter]

theorem update_pair_self {β : Type} {m : IdCounter → ℤ → β} {counter : IdCounter} {id : ℤ} {b : β} :
    Function.update m counter (Function.update (m counter) id b) counter id = b := by
  rw [Function.update_self, Function.update_self]

/-- A step at an id leaves all rounds alone, and the other ids. -/
theorem sameAt_of_ne_id {counter : IdCounter} {id : ℤ} (hround : s'.roundStatus = s.roundStatus)
    (hmap : s'.reconcileChMap = s.reconcileChMap)
    (hid : ∀ counter' id', LearnKey.id counter' id' ≠ .id counter id →
      s'.idStatus counter' id' = s.idStatus counter' id' ∧
        s'.chMap counter' id' = s.chMap counter' id')
    (hhistory : ∀ key, key ≠ .id counter id → s'.history key = s.history key) {key : LearnKey}
    (hne : key ≠ .id counter id) : SameAt s s' key := by
  cases key with
  | id counter' id' => exact ⟨(hid _ _ hne).1, (hid _ _ hne).2, hhistory _ hne⟩
  | round f => exact ⟨by rw [hround], by rw [hmap], hhistory _ hne⟩

/-- A step at a round leaves all ids alone, and the other rounds. -/
theorem sameAt_of_ne_round {f : Text} (hid : s'.idStatus = s.idStatus) (hch : s'.chMap = s.chMap)
    (hround : ∀ g, g ≠ f → s'.roundStatus g = s.roundStatus g ∧
      s'.reconcileChMap g = s.reconcileChMap g)
    (hhistory : ∀ key, key ≠ .round f → s'.history key = s.history key) {key : LearnKey}
    (hne : key ≠ .round f) : SameAt s s' key := by
  cases key with
  | id counter id => exact ⟨by rw [hid], by rw [hch], hhistory _ hne⟩
  | round g =>
    have hg : g ≠ f := fun heq => hne (by rw [heq])
    exact ⟨(hround g hg).1, (hround g hg).2, hhistory _ hne⟩

theorem key_idle (hidle : s.activity client = .idle) : (s.activity client).key = none := by
  rw [hidle]
  rfl

theorem keys_begins (h : KeysOk s) (request : BeforeRequest) (hidle : s.activity client = .idle) :
    KeysOk (s.setActivity client (.counts request)) :=
  h.step_without setActivity_others (key_idle hidle) (by rw [setActivity_self]; rfl)
    (by rw [setActivity_self]; trivial) (sameAt_of_eq rfl rfl rfl rfl rfl)

theorem keys_cacheRead (h : KeysOk s) (hidle : s.activity client = .idle)
    (hread : notification.isCacheRead = true) :
    KeysOk (s.setActivity client (.sends notification none)) := by
  refine h.step_without setActivity_others (key_idle hidle) ?_ (by rw [setActivity_self]; trivial)
    (sameAt_of_eq rfl rfl rfl rfl rfl)
  rw [setActivity_self, Activity.key]
  cases notification <;> first | rfl | cases hread

theorem keys_ends (h : KeysOk s) {kind : OperationKind} {id : ℤ} (hidle : s.activity client = .idle)
    (hends : notification.ends = some (kind, id))
    (hreturned : s.idStatus kind.counter id = .returned kind) :
    KeysOk ((s.setActivity client (.sends notification none)).setIdStatus kind.counter id
      (.ends client)) := by
  have hid : s.IdOk kind.counter id := h.keys (.id kind.counter id)
  rw [LearnState.IdOk, hreturned] at hid
  obtain ⟨before, hbegins, _, hhistory⟩ := hid
  have hstatus : ((s.setActivity client (.sends notification none)).setIdStatus kind.counter id
      (.ends client)).idStatus kind.counter id = .ends client := update_pair_self
  refine h.step client (.id kind.counter id) setActivity_others
    (Or.inr ⟨key_idle hidle, by rw [LearnState.owner, hreturned]⟩) ?_ ?_ setActivity_self
    (Or.inl ⟨key_of_ends hends, by rw [LearnState.owner, hstatus]⟩) trivial
  · intro key hne
    refine sameAt_of_ne_id (by rfl) (by rfl) (fun counter' id' hne' => ?_) (fun _ _ => by rfl) hne
    exact ⟨update_pair_of_ne hne', rfl⟩
  · show LearnState.IdOk _ _ _
    rw [LearnState.IdOk, hstatus]
    exact ⟨kind, before, notification, hbegins, rfl, hends, hhistory, setActivity_self⟩

theorem keys_beginsRound (h : KeysOk s) {f : Text} (hidle : s.activity client = .idle)
    (hround : s.roundStatus f = .between) :
    KeysOk ((s.setActivity client (.testsBegin f)).setRoundStatus f (.begins client)) := by
  have hf : s.RoundOk f := h.keys (.round f)
  rw [LearnState.RoundOk, hround] at hf
  have hstatus : ((s.setActivity client (.testsBegin f)).setRoundStatus f
      (.begins client)).roundStatus f = .begins client := Function.update_self ..
  refine h.step client (.round f) setActivity_others
    (Or.inr ⟨key_idle hidle, by rw [LearnState.owner, hround]⟩) ?_ ?_ setActivity_self
    (Or.inl ⟨rfl, by rw [LearnState.owner, hstatus]⟩) trivial
  · intro key hne
    refine sameAt_of_ne_round (by rfl) (by rfl) (fun g hg => ?_) (fun _ _ => by rfl) hne
    exact ⟨Function.update_of_ne hg _ _, rfl⟩
  · show LearnState.RoundOk _ _
    rw [LearnState.RoundOk, hstatus]
    exact Or.inl ⟨Or.inl setActivity_self, hf⟩

theorem keys_endsRound (h : KeysOk s) {f : Text} (hidle : s.activity client = .idle)
    (hround : s.roundStatus f = .runs) :
    KeysOk ((s.setActivity client (.testsEnd f)).setRoundStatus f (.ends client)) := by
  have hf : s.RoundOk f := h.keys (.round f)
  rw [LearnState.RoundOk, hround] at hf
  have hstatus : ((s.setActivity client (.testsEnd f)).setRoundStatus f
      (.ends client)).roundStatus f = .ends client := Function.update_self ..
  refine h.step client (.round f) setActivity_others
    (Or.inr ⟨key_idle hidle, by rw [LearnState.owner, hround]⟩) ?_ ?_ setActivity_self
    (Or.inl ⟨rfl, by rw [LearnState.owner, hstatus]⟩) trivial
  · intro key hne
    refine sameAt_of_ne_round (by rfl) (by rfl) (fun g hg => ?_) (fun _ _ => by rfl) hne
    exact ⟨Function.update_of_ne hg _ _, rfl⟩
  · show LearnState.RoundOk _ _
    rw [LearnState.RoundOk, hstatus]
    exact ⟨hf.1, Or.inl ⟨Or.inl setActivity_self, hf.2⟩⟩

theorem nextId_eq (h : CountersOk s) (counter : IdCounter) :
    (s.ids counter + 1).toInt = nthId (s.given counter).length := by
  rw [h.next]
  rfl

/-- As long as the counter has not wrapped, the next id is new. -/
theorem nextId_new (h : CountersOk s) {counter : IdCounter}
    (hbound : (s.given counter).length < 2 ^ 32) : (s.ids counter + 1).toInt ∉ s.given counter := by
  intro hmem
  obtain ⟨n, hn, heq⟩ := h.given counter _ hmem
  rw [nextId_eq h] at heq
  have := nthId_injective hbound (by omega) heq
  omega

theorem keys_counts (h : KeysOk s) (hcounters : CountersOk s) {request : BeforeRequest}
    (hcounts : s.activity client = .counts request)
    (hbound : (s.given request.kind.counter).length < 2 ^ 32) :
    KeysOk (s.addId client request) := by
  have hunknown := hcounters.known _ _ (nextId_new hcounters hbound)
  have hid : s.IdOk request.kind.counter (s.ids request.kind.counter + 1).toInt := h.keys (.id _ _)
  rw [LearnState.IdOk, hunknown] at hid
  have hstatus : (s.addId client request).idStatus request.kind.counter
      (s.ids request.kind.counter + 1).toInt = .begins client := update_pair_self
  refine h.step client (.id request.kind.counter (s.ids request.kind.counter + 1).toInt)
    setActivity_others (Or.inr ⟨by rw [hcounts]; rfl, by rw [LearnState.owner, hunknown]⟩) ?_ ?_
    setActivity_self (Or.inl ⟨rfl, by rw [LearnState.owner, hstatus]⟩) trivial
  · intro key hne
    refine sameAt_of_ne_id (by rfl) (by rfl) (fun counter' id' hne' => ?_) (fun _ _ => by rfl) hne
    exact ⟨update_pair_of_ne hne', rfl⟩
  · show LearnState.IdOk _ _ _
    rw [LearnState.IdOk, hstatus]
    exact ⟨request, rfl, Or.inl ⟨setActivity_self, hid⟩⟩

/-- What is known of a client that stores an id. -/
theorem stores_spec (h : KeysOk s) {request : BeforeRequest} {id : ℤ}
    (hstores : s.activity client = .stores request id) :
    s.idStatus request.kind.counter id = .begins client ∧
      s.history (.id request.kind.counter id) = [] := by
  obtain ⟨hstatus, _, _, ⟨_, hhistory⟩ | ⟨_, _, ⟨hact, _⟩ | ⟨hact, _⟩⟩⟩ |
    ⟨_, _, _, _, _, _, _, _, hact⟩ := h.id_spec (by rw [hstores]; rfl)
  · exact ⟨hstatus, hhistory⟩
  all_goals
    rw [hstores] at hact
    cases hact

theorem keys_stores (h : KeysOk s) {request : BeforeRequest} {id : ℤ}
    (hstores : s.activity client = .stores request id) :
    KeysOk (s.storeChannel client request id) := by
  obtain ⟨hbegins, hhistory⟩ := stores_spec h hstores
  have hstatus : (s.storeChannel client request id).idStatus request.kind.counter id =
      .begins client := hbegins
  refine h.step client (.id request.kind.counter id) setActivity_others
    (Or.inl (by rw [hstores]; rfl)) ?_ ?_ setActivity_self
    (Or.inl ⟨key_notification request id, by rw [LearnState.owner, hstatus]⟩)
    ⟨_, key_notification request id⟩
  · intro key hne
    refine sameAt_of_ne_id (by rfl) (by rfl) (fun counter' id' hne' => ?_) (fun _ _ => by rfl) hne
    exact ⟨rfl, update_pair_of_ne hne'⟩
  · show LearnState.IdOk _ _ _
    rw [LearnState.IdOk, hstatus]
    exact ⟨request, rfl, Or.inr ⟨s.channels, update_pair_self, Or.inl ⟨setActivity_self, hhistory⟩⟩⟩

/-- What is known of a client that tests or stores at the beginning of a round. -/
theorem beginsRound_spec (h : KeysOk s) {f : Text}
    (hact : s.activity client = .testsBegin f ∨ s.activity client = .storesBegin f) :
    s.roundStatus f = .begins client ∧ ¬ s.ongoing f ∧
      ∀ channel, s.reconcileChMap f ≠ some (some channel) := by
  have hkey : (s.activity client).key = some (.round f) := by
    obtain hact | hact := hact <;> rw [hact] <;> rfl
  obtain ⟨hstatus, ⟨_, hnot, hmap⟩ | ⟨_, _, ⟨hact', _⟩ | ⟨hact', _⟩⟩⟩ |
    ⟨_, _, ⟨hact' | hact', _⟩ | ⟨hact', _⟩⟩ := h.round_spec hkey
  · exact ⟨hstatus, hnot, hmap⟩
  all_goals simp [hact'] at hact

theorem endsRound_spec (h : KeysOk s) {f : Text}
    (hact : s.activity client = .testsEnd f ∨ s.activity client = .storesEnd f) :
    s.roundStatus f = .ends client ∧ s.ongoing f ∧
      ∃ channel, s.reconcileChMap f = some (some channel) := by
  have hkey : (s.activity client).key = some (.round f) := by
    obtain hact | hact := hact <;> rw [hact] <;> rfl
  obtain ⟨_, ⟨hact' | hact', _⟩ | ⟨_, _, ⟨hact', _⟩ | ⟨hact', _⟩⟩⟩ |
    ⟨hstatus, hongoing, ⟨_, hmap⟩ | ⟨hact', _⟩⟩ := h.round_spec hkey
  case inr.inl => exact ⟨hstatus, hongoing, hmap⟩
  all_goals simp [hact'] at hact

theorem testBegin_eq (h : KeysOk s) {f : Text} (htests : s.activity client = .testsBegin f) :
    s.testBegin client f = s.setActivity client (.storesBegin f) := by
  have hmap := (beginsRound_spec h (Or.inl htests)).2.2
  rw [LearnState.testBegin]
  split
  · rename_i channel hsome
    exact absurd hsome (hmap channel)
  · rfl

theorem testEnd_eq (h : KeysOk s) {f : Text} (htests : s.activity client = .testsEnd f) :
    s.testEnd client f = s.setActivity client (.storesEnd f) := by
  obtain ⟨channel, hmap⟩ := (endsRound_spec h (Or.inl htests)).2.2
  rw [LearnState.testEnd, hmap]

theorem keys_testsBegin (h : KeysOk s) {f : Text} (htests : s.activity client = .testsBegin f) :
    KeysOk (s.testBegin client f) := by
  obtain ⟨hbegins, hnot, hmap⟩ := beginsRound_spec h (Or.inl htests)
  rw [testBegin_eq h htests]
  have hstatus : (s.setActivity client (.storesBegin f)).roundStatus f = .begins client := hbegins
  refine h.step client (.round f) setActivity_others (Or.inl (by rw [htests]; rfl))
    (fun key _ => sameAt_of_eq rfl rfl rfl rfl rfl key) ?_ setActivity_self
    (Or.inl ⟨rfl, by rw [LearnState.owner, hstatus]⟩) trivial
  show LearnState.RoundOk _ _
  rw [LearnState.RoundOk, hstatus]
  exact Or.inl ⟨Or.inr setActivity_self, hnot, hmap⟩

theorem keys_testsEnd (h : KeysOk s) {f : Text} (htests : s.activity client = .testsEnd f) :
    KeysOk (s.testEnd client f) := by
  obtain ⟨hends, hongoing, hmap⟩ := endsRound_spec h (Or.inl htests)
  rw [testEnd_eq h htests]
  have hstatus : (s.setActivity client (.storesEnd f)).roundStatus f = .ends client := hends
  refine h.step client (.round f) setActivity_others (Or.inl (by rw [htests]; rfl))
    (fun key _ => sameAt_of_eq rfl rfl rfl rfl rfl key) ?_ setActivity_self
    (Or.inl ⟨rfl, by rw [LearnState.owner, hstatus]⟩) trivial
  show LearnState.RoundOk _ _
  rw [LearnState.RoundOk, hstatus]
  exact ⟨hongoing, Or.inl ⟨Or.inr setActivity_self, hmap⟩⟩

theorem keys_storesBegin (h : KeysOk s) {f : Text} (hstores : s.activity client = .storesBegin f) :
    KeysOk (s.storeBegin client f) := by
  obtain ⟨hbegins, hnot, _⟩ := beginsRound_spec h (Or.inr hstores)
  have hstatus : (s.storeBegin client f).roundStatus f = .begins client := hbegins
  refine h.step client (.round f) setActivity_others (Or.inl (by rw [hstores]; rfl)) ?_ ?_
    setActivity_self (Or.inl ⟨rfl, by rw [LearnState.owner, hstatus]⟩) ⟨_, rfl⟩
  · intro key hne
    refine sameAt_of_ne_round (by rfl) (by rfl) (fun g hg => ?_) (fun _ _ => by rfl) hne
    exact ⟨rfl, Function.update_of_ne hg _ _⟩
  · show LearnState.RoundOk _ _
    rw [LearnState.RoundOk, hstatus]
    exact Or.inr ⟨s.channels, Function.update_self .., Or.inl ⟨setActivity_self, hnot⟩⟩

theorem keys_storesEnd (h : KeysOk s) {f : Text} (hstores : s.activity client = .storesEnd f) :
    KeysOk (s.storeEnd client f) := by
  obtain ⟨hends, hongoing, _⟩ := endsRound_spec h (Or.inr hstores)
  have hstatus : (s.storeEnd client f).roundStatus f = .ends client := hends
  refine h.step client (.round f) setActivity_others (Or.inl (by rw [hstores]; rfl)) ?_ ?_
    setActivity_self (Or.inl ⟨rfl, by rw [LearnState.owner, hstatus]⟩) trivial
  · intro key hne
    refine sameAt_of_ne_round (by rfl) (by rfl) (fun g hg => ?_) (fun _ _ => by rfl) hne
    exact ⟨rfl, Function.update_of_ne hg _ _⟩
  · show LearnState.RoundOk _ _
    rw [LearnState.RoundOk, hstatus]
    exact ⟨hongoing, Or.inr ⟨setActivity_self, Function.update_self ..⟩⟩

/-- What is known of a call that is about to announce itself. -/
theorem sends_spec (h : KeysOk s) {channel : ℕ}
    (hsends : s.activity client = .sends notification (some channel)) :
    (∃ request id, notification = BeforeRequest.notification id request ∧
      s.idStatus request.kind.counter id = .begins client ∧
      s.history (.id request.kind.counter id) = [] ∧
      s.chMap request.kind.counter id = some channel) ∨
    ∃ f, notification = .beforeControllerReconcile f ∧ s.roundStatus f = .begins client ∧
      ¬ s.ongoing f ∧ s.reconcileChMap f = some (some channel) := by
  have hkeyed := h.keyed client
  rw [hsends] at hkeyed
  obtain ⟨key, hkey⟩ := hkeyed
  have hclient : (s.activity client).key = some key := by
    rw [hsends]
    exact hkey
  cases key with
  | id counter id =>
    left
    obtain ⟨hstatus, request, rfl, ⟨hact, _⟩ | ⟨_, hch, ⟨hact, hhistory⟩ | ⟨hact, _⟩⟩⟩ |
      ⟨_, _, _, _, _, _, _, _, hact⟩ := h.id_spec hclient
    case inl.inr.inl =>
      rw [hsends] at hact
      obtain ⟨rfl, hchannel⟩ := Activity.sends.inj hact
      exact ⟨request, id, rfl, hstatus, hhistory, by rw [hch, hchannel]⟩
    all_goals
      rw [hsends] at hact
      cases hact
  | round f =>
    right
    obtain ⟨hstatus, ⟨hact | hact, _⟩ | ⟨_, hmap, ⟨hact, hnot⟩ | ⟨hact, _⟩⟩⟩ |
      ⟨_, _, ⟨hact | hact, _⟩ | ⟨hact, _⟩⟩ := h.round_spec hclient
    case inl.inr.inl =>
      rw [hsends] at hact
      obtain ⟨rfl, hchannel⟩ := Activity.sends.inj hact
      exact ⟨f, rfl, hstatus, hnot, by rw [hmap, hchannel]⟩
    all_goals
      rw [hsends] at hact
      cases hact

/-- What is known of a call that waits. -/
theorem waits_spec (h : KeysOk s) {channel : ℕ}
    (hwaits : s.activity client = .waits notification channel) :
    (∃ request id, notification = BeforeRequest.notification id request ∧
      s.idStatus request.kind.counter id = .begins client ∧
      s.history (.id request.kind.counter id) = [notification] ∧
      s.chMap request.kind.counter id = some channel) ∨
    ∃ f, notification = .beforeControllerReconcile f ∧ s.roundStatus f = .begins client ∧
      s.ongoing f ∧ s.reconcileChMap f = some (some channel) := by
  have hkeyed := h.keyed client
  rw [hwaits] at hkeyed
  obtain ⟨key, hkey⟩ := hkeyed
  have hclient : (s.activity client).key = some key := by
    rw [hwaits]
    exact hkey
  cases key with
  | id counter id =>
    left
    obtain ⟨hstatus, request, rfl, ⟨hact, _⟩ | ⟨_, hch, ⟨hact, _⟩ | ⟨hact, hhistory⟩⟩⟩ |
      ⟨_, _, _, _, _, _, _, _, hact⟩ := h.id_spec hclient
    case inl.inr.inr =>
      rw [hwaits] at hact
      obtain ⟨rfl, rfl⟩ := Activity.waits.inj hact
      exact ⟨request, id, rfl, hstatus, hhistory, hch⟩
    all_goals
      rw [hwaits] at hact
      cases hact
  | round f =>
    right
    obtain ⟨hstatus, ⟨hact | hact, _⟩ | ⟨_, hmap, ⟨hact, _⟩ | ⟨hact, hongoing⟩⟩⟩ |
      ⟨_, _, ⟨hact | hact, _⟩ | ⟨hact, _⟩⟩ := h.round_spec hclient
    case inl.inr.inr =>
      rw [hwaits] at hact
      obtain ⟨rfl, rfl⟩ := Activity.waits.inj hact
      exact ⟨f, rfl, hstatus, hongoing, hmap⟩
    all_goals
      rw [hwaits] at hact
      cases hact

/-- What is known of a call that is about to report and return. -/
theorem sendsAfter_spec (h : KeysOk s) (hsends : s.activity client = .sends notification none) :
    notification.key = none ∨
    (∃ kind id before, notification.ends = some (kind, id) ∧ before.begins = some (kind, id) ∧
      s.history (.id kind.counter id) = [before]) ∨
    ∃ f, notification = .afterControllerReconcile f ∧ s.ongoing f ∧
      s.reconcileChMap f = some none := by
  cases hkey : notification.key with
  | none => exact Or.inl rfl
  | some key =>
    right
    have hclient : (s.activity client).key = some key := by
      rw [hsends]
      exact hkey
    cases key with
    | id counter id =>
      left
      obtain ⟨_, _, _, ⟨hact, _⟩ | ⟨_, _, ⟨hact, _⟩ | ⟨hact, _⟩⟩⟩ |
        ⟨_, kind, before, after, hbegins, rfl, hends, hhistory, hact⟩ := h.id_spec hclient
      · simp [hsends] at hact
      · simp [hsends] at hact
      · simp [hsends] at hact
      · rw [hsends] at hact
        rw [(Activity.sends.inj hact).1]
        exact ⟨kind, id, before, hends, hbegins, hhistory⟩
    | round f =>
      right
      obtain ⟨_, ⟨hact | hact, _⟩ | ⟨_, _, ⟨hact, _⟩ | ⟨hact, _⟩⟩⟩ |
        ⟨_, hongoing, ⟨hact | hact, _⟩ | ⟨hact, hmap⟩⟩ := h.round_spec hclient
      · simp [hsends] at hact
      · simp [hsends] at hact
      · simp [hsends] at hact
      · simp [hsends] at hact
      · simp [hsends] at hact
      · simp [hsends] at hact
      · rw [hsends] at hact
        exact ⟨f, (Activity.sends.inj hact).1, hongoing, hmap⟩

theorem history_send_of_ne {key key' : LearnKey} (hsent : s'.sent = notification :: s.sent)
    (hkey : notification.key = some key) (hne : key' ≠ key) : s'.history key' = s.history key' := by
  rw [history_send hsent, if_neg]
  rw [hkey]
  exact fun heq => hne (Option.some.inj heq).symm

theorem history_send_self {key : LearnKey} (hsent : s'.sent = notification :: s.sent)
    (hkey : notification.key = some key) : s'.history key = notification :: s.history key := by
  rw [history_send hsent, if_pos hkey]

theorem keys_sends (h : KeysOk s) {channel : ℕ}
    (hsends : s.activity client = .sends notification (some channel)) :
    KeysOk ((s.send notification).setActivity client (.waits notification channel)) := by
  have hsent : ((s.send notification).setActivity client (.waits notification channel)).sent =
      notification :: s.sent := sent_send
  obtain ⟨request, id, rfl, hbegins, hhistory, hch⟩ | ⟨f, rfl, hbegins, hnot, hmap⟩ :=
    sends_spec h hsends
  · have hkey := key_notification request id
    have hstatus : ((s.send (request.notification id)).setActivity client
        (.waits (request.notification id) channel)).idStatus request.kind.counter id =
        .begins client := hbegins
    refine h.step client (.id request.kind.counter id) setActivity_others
      (Or.inl (by rw [hsends]; exact hkey)) ?_ ?_ setActivity_self
      (Or.inl ⟨hkey, by rw [LearnState.owner, hstatus]⟩) ⟨_, hkey⟩
    · intro key hne
      refine sameAt_of_ne_id ?_ ?_ (fun _ _ _ => ⟨?_, ?_⟩) (fun _ hne' => ?_) hne
      case refine_5 => exact history_send_of_ne hsent hkey hne'
      all_goals rfl
    · show LearnState.IdOk _ _ _
      rw [LearnState.IdOk, hstatus]
      refine ⟨request, rfl, Or.inr ⟨channel, hch, Or.inr ⟨setActivity_self, ?_⟩⟩⟩
      rw [history_send_self hsent hkey, hhistory]
  · have hstatus : ((s.send (.beforeControllerReconcile f)).setActivity client
        (.waits (.beforeControllerReconcile f) channel)).roundStatus f = .begins client := hbegins
    refine h.step client (.round f) setActivity_others (Or.inl (by rw [hsends]; rfl)) ?_ ?_
      setActivity_self (Or.inl ⟨rfl, by rw [LearnState.owner, hstatus]⟩) ⟨_, rfl⟩
    · intro key hne
      refine sameAt_of_ne_round ?_ ?_ (fun _ _ => ⟨?_, ?_⟩) (fun _ hne' => ?_) hne
      case refine_5 => exact history_send_of_ne hsent rfl hne'
      all_goals rfl
    · show LearnState.RoundOk _ _
      rw [LearnState.RoundOk, hstatus]
      refine Or.inr ⟨channel, hmap, Or.inr ⟨setActivity_self, ?_⟩⟩
      rw [LearnState.ongoing, history_send_self hsent rfl]
      rfl

theorem returnAfter_of_keyless (h : notification.key = none) : s.returnAfter notification = s := by
  cases notification <;> first | rfl | cases h

theorem returnAfter_of_ends {kind : OperationKind} {id : ℤ}
    (h : notification.ends = some (kind, id)) :
    s.returnAfter notification = s.setIdStatus kind.counter id .over := by
  cases notification <;> simp only [Notification.ends, Option.some.injEq, Prod.mk.injEq,
    reduceCtorEq] at h <;> obtain ⟨rfl, rfl⟩ := h <;> rfl

theorem keys_sendsAfter (h : KeysOk s) (hsends : s.activity client = .sends notification none) :
    KeysOk (((s.send notification).setActivity client .idle).returnAfter notification) := by
  have hsent : ((s.send notification).setActivity client .idle).sent = notification :: s.sent :=
    sent_send
  obtain hkey | ⟨kind, id, _, hends, _, _⟩ | ⟨f, rfl, hongoing, hmap⟩ := sendsAfter_spec h hsends
  · rw [returnAfter_of_keyless hkey]
    refine h.step_without setActivity_others (by rw [hsends]; exact hkey)
      (by rw [setActivity_self]; rfl) (by rw [setActivity_self]; trivial) fun key => ?_
    have hhistory : ((s.send notification).setActivity client .idle).history key = s.history key := by
      rw [history_send hsent, if_neg]
      rw [hkey]
      exact (Option.some_ne_none key).symm
    cases key with
    | id counter id => exact ⟨rfl, rfl, hhistory⟩
    | round f => exact ⟨rfl, rfl, hhistory⟩
  · rw [returnAfter_of_ends hends]
    have hkey := key_of_ends hends
    have hstatus : (((s.send notification).setActivity client .idle).setIdStatus kind.counter id
        .over).idStatus kind.counter id = .over := update_pair_self
    refine h.step client (.id kind.counter id) setActivity_others
      (Or.inl (by rw [hsends]; exact hkey)) ?_ ?_ setActivity_self (Or.inr rfl) trivial
    · intro key hne
      refine sameAt_of_ne_id ?_ ?_ (fun _ _ hne' => ⟨?_, ?_⟩) (fun _ hne' => ?_) hne
      case refine_3 => exact update_pair_of_ne hne'
      case refine_5 => exact history_send_of_ne hsent hkey hne'
      all_goals rfl
    · show LearnState.IdOk _ _ _
      rw [LearnState.IdOk, hstatus]
      trivial
  · show KeysOk (((s.send (.afterControllerReconcile f)).setActivity client .idle).setRoundStatus f
      .between)
    have hstatus : (((s.send (.afterControllerReconcile f)).setActivity client .idle).setRoundStatus f
        .between).roundStatus f = .between := Function.update_self ..
    refine h.step client (.round f) setActivity_others (Or.inl (by rw [hsends]; rfl)) ?_ ?_
      setActivity_self (Or.inr rfl) trivial
    · intro key hne
      refine sameAt_of_ne_round ?_ ?_ (fun g hg => ⟨?_, ?_⟩) (fun _ hne' => ?_) hne
      case refine_3 => exact Function.update_of_ne hg _ _
      case refine_5 => exact history_send_of_ne hsent rfl hne'
      all_goals rfl
    · show LearnState.RoundOk _ _
      rw [LearnState.RoundOk, hstatus]
      refine ⟨?_, fun channel hsome => ?_⟩
      · show ¬ (((s.send (.afterControllerReconcile f)).setActivity client .idle).history
          (.round f)).head? = _
        rw [history_send_self hsent rfl]
        simp
      · have hsome : s.reconcileChMap f = some (some channel) := hsome
        rw [hmap] at hsome
        cases hsome

theorem returnFrom_notification {request : BeforeRequest} {id : ℤ} :
    s.returnFrom (request.notification id) =
      s.setIdStatus request.kind.counter id (.returned request.kind) := by
  cases request <;> rfl

theorem keys_receives (h : KeysOk s) {channel : ℕ}
    (hwaits : s.activity client = .waits notification channel) :
    KeysOk ((s.release client channel notification).returnFrom notification) := by
  obtain ⟨request, id, rfl, _, hhistory, _⟩ | ⟨f, rfl, _, hongoing, hmap⟩ := waits_spec h hwaits
  · rw [returnFrom_notification]
    have hkey := key_notification request id
    have hstatus : ((s.release client channel (request.notification id)).setIdStatus
        request.kind.counter id (.returned request.kind)).idStatus request.kind.counter id =
        .returned request.kind := update_pair_self
    refine h.step client (.id request.kind.counter id) setActivity_others
      (Or.inl (by rw [hwaits]; exact hkey)) ?_ ?_ setActivity_self (Or.inr rfl) trivial
    · intro key hne
      refine sameAt_of_ne_id (by rfl) (by rfl) (fun _ _ hne' => ?_) (fun _ _ => by rfl) hne
      exact ⟨update_pair_of_ne hne', rfl⟩
    · show LearnState.IdOk _ _ _
      rw [LearnState.IdOk, hstatus]
      exact ⟨_, begins_notification request id, rfl, hhistory⟩
  · show KeysOk ((s.release client channel (.beforeControllerReconcile f)).setRoundStatus f .runs)
    have hstatus : ((s.release client channel (.beforeControllerReconcile f)).setRoundStatus f
        .runs).roundStatus f = .runs := Function.update_self ..
    refine h.step client (.round f) setActivity_others (Or.inl (by rw [hwaits]; rfl)) ?_ ?_
      setActivity_self (Or.inr rfl) trivial
    · intro key hne
      refine sameAt_of_ne_round (by rfl) (by rfl) (fun g hg => ?_) (fun _ _ => by rfl) hne
      exact ⟨Function.update_of_ne hg _ _, rfl⟩
    · show LearnState.RoundOk _ _
      rw [LearnState.RoundOk, hstatus]
      exact ⟨hongoing, channel, hmap⟩

end Steps

end Sieve.Server
