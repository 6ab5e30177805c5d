import Mathlib.Algebra.BigOperators.Group.Finset.Basic
import Sieve.Library.Runs
import Sieve.Server.LearnSent

/-!
# Channels and the queue in the learn server

A call that is announced waits until the coordinator has logged its notification.

* `ChannelsOk`: each channel is held by one client or has been released over, once;
* `QueueOk`: who waits has its notification in the queue or is about to be released;
* `RoundsOk`: what the coordinator counts is what the log says;
* `coordinate_eq`: the coordinator gets through with what it receives;
* `LearnInv.step`: the steps keep all of this.
-/

namespace Sieve.Server

open Sieve.Library

/-- The channel that a client is to be released over. -/
def Activity.channel : Activity → Option ℕ
  | .sends _ channel => channel
  | .waits _ channel => some channel
  | _ => none

/-- The call that is announced waits. -/
def Notification.isBefore : Notification → Bool
  | .beforeControllerReconcile _ | .beforeRestWrite _ | .beforeRestRead _
  | .beforeAnnotatedAPICall _ | .beforeControllerRecv _ _ _ _ => true
  | _ => false

namespace LearnState

variable (s : LearnState)

/-- The channels that have been released over. -/
def releasedChannels : List ℕ := s.released.map Prod.fst

/-- The notifications of the calls that have been released. -/
def releasedCalls : List Notification := s.released.map Prod.snd

def logged : List Notification := s.log.map LoggedLine.notification

end LearnState

/-- Each channel is held by one client, or has been released over once. -/
structure ChannelsOk (s : LearnState) : Prop where
  held_lt : ∀ client channel, (s.activity client).channel = some channel → channel < s.channels
  held_unique : ∀ client client' channel, (s.activity client).channel = some channel →
    (s.activity client').channel = some channel → client = client'
  released_lt : ∀ channel ∈ s.releasedChannels, channel < s.channels
  released_nodup : s.releasedChannels.Nodup
  held_new : ∀ client channel, (s.activity client).channel = some channel →
    channel ∉ s.releasedChannels
  accounted : ∀ channel < s.channels, channel ∈ s.releasedChannels ∨
    ∃ client, (s.activity client).channel = some channel

/-- Who waits has its notification in the queue, or is about to be released. -/
structure QueueOk (s : LearnState) : Prop where
  queued : ∀ notification ∈ s.notificationCh, notification.isBefore = true →
    ∃ client channel, s.activity client = .waits notification channel ∧ s.releases ≠ some channel
  queue_nodup : (s.notificationCh.filter Notification.isBefore).Nodup
  waits : ∀ client notification channel, s.activity client = .waits notification channel →
    notification ∈ s.notificationCh ∨ s.releases = some channel
  releases : ∀ channel, s.releases = some channel →
    ∃ client notification, s.activity client = .waits notification channel ∧
      notification ∉ s.notificationCh ∧
      s.releasedCalls.count notification < s.logged.count notification
  logged : ∀ notification, s.releasedCalls.count notification ≤ s.logged.count notification

/-- What the coordinator counts is what the log says. -/
structure RoundsOk (s : LearnState) : Prop where
  ongoing : s.ongoingReconcileCnt = (openRounds s.logged).length
  counts : ∀ f, s.reconcileCntMap f = latestNumber f s.log
  numbers : NumbersOk s.log

structure LearnInv (s : LearnState) : Prop where
  keys : KeysOk s
  counters : CountersOk s
  channels : ChannelsOk s
  queue : QueueOk s
  rounds : RoundsOk s
  sent : AllFit s.sent
  alive : s.fatal = false
  busy : ∃ bound, ∀ client, bound ≤ client → s.activity client = .idle

/-! ### Steps that leave channels or the queue alone -/

section Frame

variable {s s' : LearnState} {client : ℕ} {activity : Activity}

theorem ChannelsOk.of_channel_eq (h : ChannelsOk s)
    (hactivity : ∀ client, (s'.activity client).channel = (s.activity client).channel)
    (hchannels : s'.channels = s.channels) (hreleased : s'.released = s.released) :
    ChannelsOk s' := by
  have heq : s'.releasedChannels = s.releasedChannels := by
    rw [LearnState.releasedChannels, hreleased, LearnState.releasedChannels]
  obtain ⟨hlt, hunique, hreleasedLt, hnodup, hnew, haccounted⟩ := h
  constructor
  · simpa only [hactivity, hchannels] using hlt
  · simpa only [hactivity] using hunique
  · simpa only [heq, hchannels] using hreleasedLt
  · rwa [heq]
  · simpa only [hactivity, heq] using hnew
  · simpa only [hactivity, heq, hchannels] using haccounted

/-- A client takes a new channel. -/
theorem ChannelsOk.of_new (h : ChannelsOk s)
    (hothers : ∀ other, other ≠ client → s'.activity other = s.activity other)
    (hbefore : (s.activity client).channel = none)
    (hafter : (s'.activity client).channel = some s.channels)
    (hchannels : s'.channels = s.channels + 1) (hreleased : s'.released = s.released) :
    ChannelsOk s' := by
  have heq : s'.releasedChannels = s.releasedChannels := by
    rw [LearnState.releasedChannels, hreleased, LearnState.releasedChannels]
  have hheld : ∀ other channel, (s'.activity other).channel = some channel →
      other = client ∧ channel = s.channels ∨
        other ≠ client ∧ (s.activity other).channel = some channel := by
    intro other channel hother
    by_cases hclient : other = client
    · rw [hclient, hafter] at hother
      exact Or.inl ⟨hclient, (Option.some.inj hother).symm⟩
    · rw [hothers other hclient] at hother
      exact Or.inr ⟨hclient, hother⟩
  constructor
  · intro other channel hother
    obtain ⟨_, rfl⟩ | ⟨_, hother⟩ := hheld other channel hother
    · omega
    · have := h.held_lt other channel hother
      omega
  · intro other other' channel hother hother'
    obtain ⟨rfl, rfl⟩ | ⟨_, hother⟩ := hheld other channel hother
    · obtain ⟨rfl, _⟩ | ⟨_, hother'⟩ := hheld other' _ hother'
      · rfl
      · exact absurd (h.held_lt other' _ hother') (lt_irrefl _)
    · obtain ⟨_, rfl⟩ | ⟨_, hother'⟩ := hheld other' channel hother'
      · exact absurd (h.held_lt other _ hother) (lt_irrefl _)
      · exact h.held_unique other other' channel hother hother'
  · intro channel hmem
    rw [heq] at hmem
    have := h.released_lt channel hmem
    omega
  · rw [heq]
    exact h.released_nodup
  · intro other channel hother
    rw [heq]
    obtain ⟨_, rfl⟩ | ⟨_, hother⟩ := hheld other channel hother
    · exact fun hmem => absurd (h.released_lt _ hmem) (lt_irrefl _)
    · exact h.held_new other channel hother
  · intro channel hlt
    rw [heq]
    obtain heq | hlt : channel = s.channels ∨ channel < s.channels := by omega
    · exact Or.inr ⟨client, by rw [heq, hafter]⟩
    · obtain hmem | ⟨other, hother⟩ := h.accounted channel hlt
      · exact Or.inl hmem
      · refine Or.inr ⟨other, ?_⟩
        rw [hothers other, hother]
        rintro rfl
        rw [hbefore] at hother
        cases hother

theorem QueueOk.of_waits_iff (h : QueueOk s)
    (hactivity : ∀ client notification channel,
      s'.activity client = .waits notification channel ↔
        s.activity client = .waits notification channel)
    (hqueue : s'.notificationCh = s.notificationCh) (hreleases : s'.releases = s.releases)
    (hreleased : s'.released = s.released) (hlog : s'.log = s.log) : QueueOk s' := by
  obtain ⟨hqueued, hnodup, hwaits, hsends, hlogged⟩ := h
  constructor
  · simpa only [hactivity, hqueue, hreleases] using hqueued
  · rwa [hqueue]
  · simpa only [hactivity, hqueue, hreleases] using hwaits
  · simpa only [hactivity, hqueue, hreleases, LearnState.releasedCalls, LearnState.logged, hreleased,
      hlog] using hsends
  · simpa only [LearnState.releasedCalls, LearnState.logged, hreleased, hlog] using hlogged

theorem RoundsOk.of_eq (h : RoundsOk s) (hcnt : s'.ongoingReconcileCnt = s.ongoingReconcileCnt)
    (hmap : s'.reconcileCntMap = s.reconcileCntMap) (hlog : s'.log = s.log) : RoundsOk s' := by
  obtain ⟨hongoing, hcounts, hnumbers⟩ := h
  constructor
  · rwa [hcnt, LearnState.logged, hlog]
  · rwa [hmap, hlog]
  · rwa [hlog]

theorem busy_update (hothers : ∀ other, other ≠ client → s'.activity other = s.activity other)
    (h : ∃ bound, ∀ client, bound ≤ client → s.activity client = .idle) :
    ∃ bound, ∀ client, bound ≤ client → s'.activity client = .idle := by
  obtain ⟨bound, hidle⟩ := h
  refine ⟨max bound (client + 1), fun other hother => ?_⟩
  rw [hothers other (by omega)]
  exact hidle other (by omega)

end Frame

/-! ### The counters -/

section Counters

variable {s s' : LearnState} {client : ℕ}

theorem CountersOk.of_eq (h : CountersOk s) (hids : s'.ids = s.ids) (hgiven : s'.given = s.given)
    (hstatus : s'.idStatus = s.idStatus) : CountersOk s' := by
  obtain ⟨hnext, hmem, hnodup, hknown⟩ := h
  constructor
  · rwa [hids, hgiven]
  · rwa [hgiven]
  · rwa [hgiven]
  · rwa [hgiven, hstatus]

/-- An id whose status is known may get another one. -/
theorem CountersOk.setIdStatus (h : CountersOk s) {counter : IdCounter} {id : ℤ} (status : IdStatus)
    (hknown : s.idStatus counter id ≠ .unknown) : CountersOk (s.setIdStatus counter id status) := by
  refine ⟨h.next, h.given, h.nodup, fun counter' id' hmem => ?_⟩
  have hunknown := h.known counter' id' hmem
  show Function.update s.idStatus _ _ counter' id' = _
  rw [update_pair_of_ne, hunknown]
  intro heq
  obtain ⟨rfl, rfl⟩ := LearnKey.id.inj heq
  exact hknown hunknown

/-- The id that a client deals with is known. -/
theorem KeysOk.known (h : KeysOk s) {counter : IdCounter} {id : ℤ}
    (hkey : (s.activity client).key = some (.id counter id)) :
    s.idStatus counter id ≠ .unknown := by
  intro hunknown
  have howner := h.clients client _ hkey
  simp [LearnState.owner, hunknown] at howner

theorem counters_addId (h : CountersOk s) (request : BeforeRequest)
    (hbound : (s.given request.kind.counter).length < 2 ^ 32) :
    CountersOk (s.addId client request) := by
  have hnew := nextId_new h hbound
  have hgiven : (s.addId client request).given = Function.update s.given request.kind.counter
      ((s.ids request.kind.counter + 1).toInt :: s.given request.kind.counter) := rfl
  constructor
  · intro counter
    show Function.update s.ids _ _ counter + 1 = _
    rw [hgiven]
    by_cases hcounter : counter = request.kind.counter
    · rw [hcounter, Function.update_self, Function.update_self, h.next, List.length_cons,
        BitVec.ofNat_add]
      rfl
    · rw [Function.update_of_ne hcounter, Function.update_of_ne hcounter, h.next]
  · intro counter id hid
    rw [hgiven] at hid ⊢
    by_cases hcounter : counter = request.kind.counter
    · rw [hcounter, Function.update_self] at hid ⊢
      obtain rfl | hold := List.mem_cons.mp hid
      · exact ⟨_, by simp, nextId_eq h _⟩
      · obtain ⟨n, hn, heq⟩ := h.given _ id hold
        exact ⟨n, by rw [List.length_cons]; omega, heq⟩
    · rw [Function.update_of_ne hcounter] at hid ⊢
      exact h.given counter id hid
  · intro counter
    rw [hgiven]
    by_cases hcounter : counter = request.kind.counter
    · rw [hcounter, Function.update_self]
      exact List.nodup_cons.mpr ⟨hnew, h.nodup _⟩
    · rw [Function.update_of_ne hcounter]
      exact h.nodup counter
  · intro counter id hid
    rw [hgiven] at hid
    show Function.update s.idStatus _ _ counter id = _
    by_cases hcounter : counter = request.kind.counter
    · rw [hcounter, Function.update_self, List.mem_cons, not_or] at hid
      rw [hcounter, Function.update_self, Function.update_of_ne hid.1]
      exact h.known _ _ hid.2
    · rw [Function.update_of_ne hcounter] at hid ⊢
      exact h.known _ _ hid

end Counters

/-! ### The coordinator -/

section Coordinator

variable {s : LearnState} {notification : Notification} {rest : List Notification}

/-- What is said about the number and the counters when the line of the notification is logged. -/
structure Numbered (s : LearnState) (line : LoggedLine) (cnt : ℤ) (cntMap : Text → Option ℤ) :
    Prop where
  ongoing : cnt = (openRounds (line.notification :: s.logged)).length
  counts : ∀ f, cntMap f = latestNumber f (line :: s.log)
  number : ∀ f, line.notification = .afterControllerReconcile f →
    latestNumber f s.log = some line.count

/-- What is logged is the end of what has been sent. -/
theorem sent_eq (hnext : s.notificationCh = notification :: rest) :
    s.sent = rest.reverse ++ notification :: s.logged := by
  simp [LearnState.sent, LearnState.logged, hnext]

/-- A notification that is not about a round leaves the numbers alone. -/
theorem numbered_other (h : RoundsOk s) (stamp : Stamp) (hkey : ∀ f, notification.key ≠ some (.round f)) :
    Numbered s ⟨stamp, 0, notification⟩ s.ongoingReconcileCnt s.reconcileCntMap := by
  refine ⟨?_, fun f => ?_, ?_⟩
  · rw [h.ongoing]
    cases notification <;> first | rfl | exact absurd rfl (hkey _)
  · rw [h.counts f, latestNumber, if_neg]
    rintro rfl
    exact hkey f rfl
  · rintro f rfl
    exact absurd rfl (hkey f)

theorem numbered_begins (h : RoundsOk s) (stamp : Stamp) (f : Text) :
    Numbered s ⟨stamp, s.nextCount f, .beforeControllerReconcile f⟩ (s.ongoingReconcileCnt + 1)
      (Function.update s.reconcileCntMap f (some (s.nextCount f))) := by
  refine ⟨?_, fun g => ?_, fun g heq => by cases heq⟩
  · rw [h.ongoing, openRounds, List.length_cons]
    rfl
  · rw [latestNumber]
    by_cases hg : g = f
    · rw [hg, Function.update_self, if_pos rfl]
    · rw [Function.update_of_ne hg, h.counts g, if_neg]
      exact fun heq => hg (Notification.beforeControllerReconcile.inj heq).symm

theorem numbered_ends (h : RoundsOk s) (stamp : Stamp) {f : Text} (hsent : AllFit s.logged)
    (hongoing : OngoingIn f s.logged) :
    0 ≤ s.ongoingReconcileCnt - 1 ∧
      Numbered s ⟨stamp, (s.reconcileCntMap f).getD 0, .afterControllerReconcile f⟩
        (s.ongoingReconcileCnt - 1) s.reconcileCntMap := by
  have hmem := ((openRounds_spec hsent).2 f).mpr hongoing
  have hpos := List.length_pos_of_mem hmem
  refine ⟨by rw [h.ongoing]; omega, ?_, fun g => ?_, fun g heq => ?_⟩
  · rw [h.ongoing, openRounds, List.length_erase_of_mem hmem]
    omega
  · rw [h.counts g, latestNumber, if_neg (by simp)]
  · rw [← Notification.afterControllerReconcile.inj heq]
    obtain ⟨number, hnumber⟩ := latestNumber_isSome hongoing.mem
    rw [h.counts f, hnumber]
    rfl

/-- **The coordinator gets through**: it logs the line, and lets the call go that waits for it. -/
theorem coordinate_eq (h : LearnInv s) (stamp : Stamp) (hfree : s.releases = none)
    (hnext : s.notificationCh = notification :: rest) :
    ∃ count cnt cntMap releases,
      ({ s with notificationCh := rest } : LearnState).coordinate stamp notification =
        { s with
          notificationCh := rest
          log := ⟨stamp, count, notification⟩ :: s.log
          ongoingReconcileCnt := cnt
          reconcileCntMap := cntMap
          releases := releases } ∧
      Numbered s ⟨stamp, count, notification⟩ cnt cntMap ∧
      if notification.isBefore then
        ∃ client channel, s.activity client = .waits notification channel ∧ releases = some channel
      else releases = none := by
  have hsent := h.sent
  rw [sent_eq hnext] at hsent
  obtain ⟨hfits, hlogged⟩ : AllFit (notification :: s.logged) := hsent.of_append
  cases hbefore : notification.isBefore with
  | true =>
    obtain ⟨client, channel, hwaits, _⟩ := h.queue.queued notification (by simp [hnext]) hbefore
    obtain ⟨request, id, rfl, _, _, hch⟩ | ⟨f, rfl, _, _, hmap⟩ := waits_spec h.keys hwaits
    · refine ⟨0, s.ongoingReconcileCnt, s.reconcileCntMap, some channel, ?_,
        numbered_other h.rounds stamp ?_, by rw [if_pos rfl]; exact ⟨client, channel, hwaits, rfl⟩⟩
      · cases request <;> simp only [BeforeRequest.notification, LearnState.coordinate,
          Notification.begins] <;> split <;> rename_i heq <;> cases heq.symm.trans hch <;> rfl
      · intro f
        rw [key_notification]
        simp
    · refine ⟨s.nextCount f, s.ongoingReconcileCnt + 1, _, some channel, ?_,
        numbered_begins h.rounds stamp f, by rw [if_pos rfl]; exact ⟨client, channel, hwaits, rfl⟩⟩
      simp only [LearnState.coordinate]
      split <;> rename_i heq <;> cases heq.symm.trans hmap
      rfl
  | false =>
    by_cases hround : ∃ f, notification = .afterControllerReconcile f
    · obtain ⟨f, rfl⟩ := hround
      obtain ⟨hcnt, hnumbered⟩ := numbered_ends h.rounds stamp hlogged hfits
      refine ⟨_, _, _, none, ?_, hnumbered, by simp⟩
      simp only [LearnState.coordinate]
      rw [if_neg (by omega)]
      show _ = _
      rw [← hfree]
      rfl
    · refine ⟨0, s.ongoingReconcileCnt, s.reconcileCntMap, none, ?_,
        numbered_other h.rounds stamp ?_, by simp⟩
      · rw [← hfree]
        cases notification <;> first | exact absurd ⟨_, rfl⟩ hround | rfl | cases hbefore
      · cases notification with
        | beforeControllerReconcile => cases hbefore
        | afterControllerReconcile f => exact absurd ⟨f, rfl⟩ hround
        | _ => simp [Notification.key]

end Coordinator

/-! ### The steps -/

section Steps

variable {s s' : LearnState} {client : ℕ} {notification : Notification}

/-- The states agree on the queue and on what the coordinator has. -/
structure SameQueue (s s' : LearnState) : Prop where
  notificationCh : s'.notificationCh = s.notificationCh
  releases : s'.releases = s.releases
  released : s'.released = s.released
  log : s'.log = s.log
  ongoingReconcileCnt : s'.ongoingReconcileCnt = s.ongoingReconcileCnt
  reconcileCntMap : s'.reconcileCntMap = s.reconcileCntMap
  fatal : s'.fatal = s.fatal

/-- A step of a client that does not wait, before or after, at the queue. -/
theorem LearnInv.of_same (h : LearnInv s) (hkeys : KeysOk s') (hcounters : CountersOk s')
    (hchannels : ChannelsOk s')
    (hothers : ∀ other, other ≠ client → s'.activity other = s.activity other)
    (hbefore : ∀ notification channel, s.activity client ≠ .waits notification channel)
    (hafter : ∀ notification channel, s'.activity client ≠ .waits notification channel)
    (hsame : SameQueue s s') : LearnInv s' where
  keys := hkeys
  counters := hcounters
  channels := hchannels
  queue := by
    refine h.queue.of_waits_iff (fun other notification channel => ?_) hsame.notificationCh
      hsame.releases hsame.released hsame.log
    by_cases hother : other = client
    · rw [hother]
      exact iff_of_false (hafter _ _) (hbefore _ _)
    · rw [hothers other hother]
  rounds := h.rounds.of_eq hsame.ongoingReconcileCnt hsame.reconcileCntMap hsame.log
  sent := by
    have hsent := h.sent
    rwa [LearnState.sent, hsame.notificationCh, hsame.log]
  alive := hsame.fatal.trans h.alive
  busy := busy_update hothers h.busy

/-- A step of a client that holds no channel, before or after. -/
theorem LearnInv.of_quiet (h : LearnInv s) (hkeys : KeysOk s') (hcounters : CountersOk s')
    (hothers : ∀ other, other ≠ client → s'.activity other = s.activity other)
    (hbefore : (s.activity client).channel = none) (hafter : (s'.activity client).channel = none)
    (hchannels : s'.channels = s.channels) (hsame : SameQueue s s') : LearnInv s' := by
  have hactivity : ∀ other, (s'.activity other).channel = (s.activity other).channel := by
    intro other
    by_cases hother : other = client
    · rw [hother, hbefore, hafter]
    · rw [hothers other hother]
  have hchannelsOk := h.channels.of_channel_eq hactivity hchannels hsame.released
  refine h.of_same hkeys hcounters hchannelsOk hothers ?_ ?_ hsame <;> intro notification channel hwaits
  · rw [hwaits] at hbefore
    cases hbefore
  · rw [hwaits] at hafter
    cases hafter

/-- A step of a client that takes a new channel. -/
theorem LearnInv.of_new (h : LearnInv s) (hkeys : KeysOk s') (hcounters : CountersOk s')
    (hothers : ∀ other, other ≠ client → s'.activity other = s.activity other)
    (hbefore : (s.activity client).channel = none)
    (hafter : s'.activity client = .sends notification (some s.channels))
    (hchannels : s'.channels = s.channels + 1) (hsame : SameQueue s s') : LearnInv s' := by
  have hchannelsOk := h.channels.of_new hothers hbefore (by rw [hafter]; rfl) hchannels hsame.released
  refine h.of_same hkeys hcounters hchannelsOk hothers ?_ ?_ hsame <;> intro notification channel hwaits
  · rw [hwaits] at hbefore
    cases hbefore
  · rw [hwaits] at hafter
    cases hafter

theorem fits_request {past : List Notification} {request : BeforeRequest} {id : ℤ}
    (h : historyIn (.id request.kind.counter id) past = []) :
    FitsSent past (request.notification id) := by
  cases request <;> refine ⟨fun kind id' heq => ?_, fun kind id' heq => by cases heq⟩ <;>
    cases heq <;> exact h

/-- Two clients do not announce one notification. -/
theorem unique_of_announces (h : KeysOk s) {other : ℕ} {channel channel' : ℕ}
    (hsends : s.activity client = .sends notification (some channel))
    (hwaits : s.activity other = .waits notification channel') : False := by
  have hkeyed := h.keyed client
  rw [hsends] at hkeyed
  obtain ⟨key, hkey⟩ := hkeyed
  have hclient := h.clients client key (by rw [hsends]; exact hkey)
  rw [h.clients other key (by rw [hwaits]; exact hkey)] at hclient
  rw [Option.some.inj hclient, hsends] at hwaits
  cases hwaits

theorem queue_sends (h : LearnInv s) {channel : ℕ}
    (hsends : s.activity client = .sends notification (some channel)) :
    QueueOk ((s.send notification).setActivity client (.waits notification channel)) := by
  have hkeep : ∀ {other m c}, s.activity other = .waits m c →
      ((s.send notification).setActivity client (.waits notification channel)).activity other =
        .waits m c := by
    intro other m c hother
    rw [← hother]
    refine setActivity_others other ?_
    rintro rfl
    rw [hsends] at hother
    cases hother
  have hnew : notification.isBefore = true → notification ∉ s.notificationCh := by
    intro hbefore hmem
    obtain ⟨other, _, hwaits, _⟩ := h.queue.queued notification hmem hbefore
    exact unique_of_announces h.keys hsends hwaits
  constructor
  · intro m hmem hbefore
    obtain hold | hlast := List.mem_append.mp hmem
    · obtain ⟨other, c, hother, hfree⟩ := h.queue.queued m hold hbefore
      exact ⟨other, c, hkeep hother, hfree⟩
    · rw [List.mem_singleton.mp hlast]
      refine ⟨client, channel, setActivity_self, fun hreleases => ?_⟩
      obtain ⟨other, m', hother, _⟩ := h.queue.releases channel hreleases
      have heq := h.channels.held_unique client other channel (by rw [hsends]; rfl)
        (by rw [hother]; rfl)
      rw [← heq, hsends] at hother
      cases hother
  · show ((s.notificationCh ++ [notification]).filter _).Nodup
    rw [List.filter_append]
    refine List.nodup_append'.mpr ⟨h.queue.queue_nodup, (List.nodup_singleton _).filter _, ?_⟩
    intro m hold hlast
    obtain ⟨hlast, hbefore⟩ := List.mem_filter.mp hlast
    rw [List.mem_singleton.mp hlast] at hold hbefore
    exact hnew hbefore (List.mem_filter.mp hold).1
  · intro other m c hwaits
    by_cases hother : other = client
    · rw [hother, setActivity_self] at hwaits
      rw [← (Activity.waits.inj hwaits).1]
      exact Or.inl (List.mem_append_right _ List.mem_cons_self)
    · rw [setActivity_others other hother] at hwaits
      exact (h.queue.waits other m c hwaits).imp_left (List.mem_append_left _)
  · intro c hreleases
    obtain ⟨other, m, hother, hnot, hcount⟩ := h.queue.releases c hreleases
    refine ⟨other, m, hkeep hother, fun hmem => ?_, hcount⟩
    obtain hold | hlast := List.mem_append.mp hmem
    · exact hnot hold
    · rw [List.mem_singleton.mp hlast] at hother
      exact unique_of_announces h.keys hsends hother
  · exact h.queue.logged

theorem inv_sends (h : LearnInv s) {channel : ℕ}
    (hsends : s.activity client = .sends notification (some channel)) :
    LearnInv ((s.send notification).setActivity client (.waits notification channel)) where
  keys := keys_sends h.keys hsends
  counters := h.counters.of_eq rfl rfl rfl
  channels := by
    refine h.channels.of_channel_eq (fun other => ?_) rfl rfl
    by_cases hother : other = client
    · rw [hother, setActivity_self, hsends]
      rfl
    · rw [setActivity_others other hother]
      rfl
  queue := queue_sends h hsends
  rounds := h.rounds.of_eq rfl rfl rfl
  sent := by
    show AllFit (LearnState.sent (s.send notification))
    rw [sent_send]
    refine ⟨?_, h.sent⟩
    obtain ⟨request, id, rfl, _, hhistory, _⟩ | ⟨f, rfl, _, hnot, _⟩ := sends_spec h.keys hsends
    · exact fits_request hhistory
    · exact hnot
  alive := h.alive
  busy := busy_update setActivity_others h.busy

/-- A call that returns changes what the clients know, and nothing else. -/
theorem returnAfter_eq (s : LearnState) (notification : Notification) :
    ∃ idStatus roundStatus, s.returnAfter notification =
      { s with idStatus := idStatus, roundStatus := roundStatus } := by
  cases notification <;> exact ⟨_, _, rfl⟩

theorem returnFrom_eq (s : LearnState) (notification : Notification) :
    ∃ idStatus roundStatus, s.returnFrom notification =
      { s with idStatus := idStatus, roundStatus := roundStatus } := by
  cases notification <;> exact ⟨_, _, rfl⟩

/-- A call that reports is not waited for, and what it reports fits. -/
theorem fits_after (h : KeysOk s) (hsends : s.activity client = .sends notification none) :
    notification.isBefore = false ∧ FitsSent s.sent notification := by
  obtain hkey | ⟨kind, id, before, hends, hbegins, hhistory⟩ | ⟨f, rfl, hongoing, _⟩ :=
    sendsAfter_spec h hsends
  · cases notification with
    | afterCacheGet | afterCacheList =>
      exact ⟨rfl, And.intro (fun kind id heq => by cases heq) fun kind id heq => by cases heq⟩
    | _ => cases hkey
  · rw [history_eq] at hhistory
    cases notification with
    | afterRestWrite | afterRestRead | afterAnnotatedAPICall | afterControllerRecv =>
      refine ⟨rfl, And.intro (fun kind id heq => by cases heq) fun kind id heq => ?_⟩
      cases hends
      cases heq
      exact ⟨before, hbegins, hhistory⟩
    | _ => cases hends
  · exact ⟨rfl, hongoing⟩

theorem counters_sendsAfter (h : LearnInv s) (hsends : s.activity client = .sends notification none) :
    CountersOk (((s.send notification).setActivity client .idle).returnAfter notification) := by
  have hsame : CountersOk ((s.send notification).setActivity client .idle) :=
    h.counters.of_eq rfl rfl rfl
  cases hends : notification.ends with
  | none =>
    refine hsame.of_eq ?_ ?_ ?_ <;> cases notification <;> first | rfl | cases hends
  | some ended =>
    obtain ⟨kind, id⟩ := ended
    rw [returnAfter_of_ends hends]
    refine hsame.setIdStatus _ (@KeysOk.known _ client h.keys _ _ ?_)
    rw [hsends]
    exact key_of_ends hends

theorem inv_sendsAfter (h : LearnInv s) (hsends : s.activity client = .sends notification none) :
    LearnInv (((s.send notification).setActivity client .idle).returnAfter notification) := by
  obtain ⟨hnot, hfits⟩ := fits_after h.keys hsends
  have hkeys := keys_sendsAfter h.keys hsends
  have hcounters := counters_sendsAfter h hsends
  obtain ⟨idStatus, roundStatus, heq⟩ :=
    returnAfter_eq ((s.send notification).setActivity client .idle) notification
  rw [heq] at hkeys hcounters ⊢
  refine ⟨hkeys, hcounters, ?_, ?_, h.rounds.of_eq rfl rfl rfl, ?_, h.alive,
    busy_update setActivity_others h.busy⟩
  · refine h.channels.of_channel_eq (fun other => ?_) rfl rfl
    by_cases hother : other = client
    · show (Function.update s.activity client .idle other).channel = _
      rw [hother, hsends, Function.update_self]
      rfl
    · exact congrArg Activity.channel (setActivity_others other hother)
  · have hwaits : ∀ other m c, (s.setActivity client .idle).activity other = .waits m c ↔
        s.activity other = .waits m c := by
      intro other m c
      by_cases hother : other = client
      · rw [hother, setActivity_self, hsends]
        simp
      · rw [setActivity_others other hother]
    have hidle : QueueOk (s.setActivity client .idle) :=
      h.queue.of_waits_iff hwaits rfl rfl rfl rfl
    constructor
    · intro m hmem hbefore
      obtain hold | hlast := List.mem_append.mp hmem
      · exact hidle.queued m hold hbefore
      · rw [List.mem_singleton.mp hlast, hnot] at hbefore
        cases hbefore
    · show ((s.notificationCh ++ [notification]).filter _).Nodup
      rw [List.filter_append, List.filter_singleton, hnot]
      simpa using h.queue.queue_nodup
    · intro other m c hother
      exact (hidle.waits other m c hother).imp_left (List.mem_append_left _)
    · intro c hreleases
      obtain ⟨other, m, hother, hqueue, hcount⟩ := hidle.releases c hreleases
      refine ⟨other, m, hother, fun hmem => ?_, hcount⟩
      obtain hold | hlast := List.mem_append.mp hmem
      · exact hqueue hold
      · rw [List.mem_singleton.mp hlast, hwaits] at hother
        obtain ⟨_, _, rfl, _⟩ | ⟨_, rfl, _⟩ := waits_spec h.keys hother
        · rename_i request _ _
          cases request <;> cases hnot
        · cases hnot
    · exact hidle.logged
  · show AllFit (LearnState.sent (s.send notification))
    rw [sent_send]
    exact ⟨hfits, h.sent⟩

theorem counters_receives (h : LearnInv s) {channel : ℕ}
    (hwaits : s.activity client = .waits notification channel) :
    CountersOk ((s.release client channel notification).returnFrom notification) := by
  have hsame : CountersOk (s.release client channel notification) := h.counters.of_eq rfl rfl rfl
  obtain ⟨request, id, rfl, _, _, _⟩ | ⟨f, rfl, _, _, _⟩ := waits_spec h.keys hwaits
  · rw [returnFrom_notification]
    refine hsame.setIdStatus _ (@KeysOk.known _ client h.keys _ _ ?_)
    rw [hwaits]
    exact key_notification request id
  · exact hsame.of_eq rfl rfl rfl

theorem channels_receives (h : LearnInv s) {channel : ℕ}
    (hwaits : s.activity client = .waits notification channel) :
    ChannelsOk (s.release client channel notification) := by
  have hheld : (s.activity client).channel = some channel := by
    rw [hwaits]
    rfl
  have hothers : ∀ other c,
      ((s.release client channel notification).activity other).channel = some c →
        other ≠ client ∧ (s.activity other).channel = some c := by
    intro other c hother
    by_cases hclient : other = client
    · rw [hclient] at hother
      cases (congrArg Activity.channel setActivity_self).symm.trans hother
    · exact ⟨hclient, (congrArg Activity.channel (setActivity_others other hclient)).symm.trans hother⟩
  constructor
  · intro other c hother
    exact h.channels.held_lt other c (hothers other c hother).2
  · intro other other' c hother hother'
    exact h.channels.held_unique other other' c (hothers other c hother).2 (hothers other' c hother').2
  · intro c hmem
    obtain rfl | hold := List.mem_cons.mp hmem
    · exact h.channels.held_lt client _ hheld
    · exact h.channels.released_lt c hold
  · exact List.nodup_cons.mpr ⟨h.channels.held_new client channel hheld, h.channels.released_nodup⟩
  · intro other c hother hmem
    obtain ⟨hclient, hold⟩ := hothers other c hother
    obtain heq | hmem := List.mem_cons.mp hmem
    · rw [heq] at hold
      exact hclient (h.channels.held_unique other client channel hold hheld)
    · exact h.channels.held_new other c hold hmem
  · intro c hlt
    obtain hmem | ⟨other, hother⟩ := h.channels.accounted c hlt
    · exact Or.inl (List.mem_cons_of_mem _ hmem)
    · by_cases hclient : other = client
      · rw [hclient, hheld] at hother
        rw [← Option.some.inj hother]
        exact Or.inl List.mem_cons_self
      · exact Or.inr ⟨other, (congrArg Activity.channel (setActivity_others other hclient)).trans hother⟩

theorem queue_receives (h : LearnInv s) {channel : ℕ}
    (hwaits : s.activity client = .waits notification channel)
    (hreleases : s.releases = some channel) :
    QueueOk (s.release client channel notification) := by
  have hunique : ∀ other m, s.activity other = .waits m channel → other = client := by
    intro other m hother
    exact h.channels.held_unique other client channel (by rw [hother]; rfl) (by rw [hwaits]; rfl)
  constructor
  · intro m hmem hbefore
    obtain ⟨other, c, hother, hfree⟩ := h.queue.queued m hmem hbefore
    refine ⟨other, c, ?_, fun heq => by cases heq⟩
    rw [← hother]
    refine setActivity_others other ?_
    rintro rfl
    rw [hwaits] at hother
    exact hfree (by rw [hreleases, (Activity.waits.inj hother).2])
  · exact h.queue.queue_nodup
  · intro other m c hother
    have hclient : other ≠ client := by
      rintro rfl
      cases setActivity_self.symm.trans hother
    have hother : s.activity other = .waits m c := (setActivity_others other hclient).symm.trans hother
    obtain hmem | heq := h.queue.waits other m c hother
    · exact Or.inl hmem
    · rw [hreleases] at heq
      rw [← Option.some.inj heq] at hother
      exact absurd (hunique other m hother) hclient
  · intro c heq
    cases heq
  · intro m
    show (notification :: s.releasedCalls).count m ≤ s.logged.count m
    by_cases hm : notification = m
    · obtain ⟨other, m', hother, _, hcount⟩ := h.queue.releases channel hreleases
      rw [hunique other m' hother, hwaits] at hother
      rw [← (Activity.waits.inj hother).1] at hcount
      rw [← hm, List.count_cons_self]
      exact hcount
    · rw [List.count_cons_of_ne hm]
      exact h.queue.logged m

theorem inv_receives (h : LearnInv s) {channel : ℕ}
    (hwaits : s.activity client = .waits notification channel)
    (hreleases : s.releases = some channel) :
    LearnInv ((s.release client channel notification).returnFrom notification) := by
  have hkeys := keys_receives h.keys hwaits
  have hcounters := counters_receives h hwaits
  have hchannels := channels_receives h hwaits
  have hqueue := queue_receives h hwaits hreleases
  obtain ⟨idStatus, roundStatus, heq⟩ :=
    returnFrom_eq (s.release client channel notification) notification
  rw [heq] at hkeys hcounters ⊢
  exact ⟨hkeys, hcounters, hchannels.of_channel_eq (fun _ => rfl) rfl rfl,
    hqueue.of_waits_iff (fun _ _ _ => Iff.rfl) rfl rfl rfl rfl, h.rounds.of_eq rfl rfl rfl, h.sent,
    h.alive, busy_update setActivity_others h.busy⟩

/-- Only calls before something wait. -/
theorem isBefore_of_waits (h : KeysOk s) {channel : ℕ}
    (hwaits : s.activity client = .waits notification channel) : notification.isBefore = true := by
  obtain ⟨request, _, rfl, _⟩ | ⟨_, rfl, _⟩ := waits_spec h hwaits
  · cases request <;> rfl
  · rfl

/-- Two clients do not wait with one notification. -/
theorem waits_unique (h : KeysOk s) {other : ℕ} {channel channel' : ℕ}
    (hwaits : s.activity client = .waits notification channel)
    (hother : s.activity other = .waits notification channel') : other = client := by
  have hkeyed := h.keyed client
  rw [hwaits] at hkeyed
  obtain ⟨key, hkey⟩ := hkeyed
  have hclient := h.clients client key (by rw [hwaits]; exact hkey)
  rw [h.clients other key (by rw [hother]; exact hkey)] at hclient
  exact Option.some.inj hclient

theorem queue_coordinates (h : LearnInv s) {rest : List Notification} {line : LoggedLine} {cnt : ℤ}
    {cntMap : Text → Option ℤ} {releases : Option ℕ} (hfree : s.releases = none)
    (hnext : s.notificationCh = line.notification :: rest)
    (hreleases : if line.notification.isBefore then
        ∃ client channel, s.activity client = .waits line.notification channel ∧
          releases = some channel
      else releases = none) :
    QueueOk { s with
      notificationCh := rest
      log := line :: s.log
      ongoingReconcileCnt := cnt
      reconcileCntMap := cntMap
      releases := releases } := by
  have hnodup := h.queue.queue_nodup
  rw [hnext, List.filter_cons] at hnodup
  have hnew : line.notification.isBefore = true → line.notification ∉ rest := by
    intro hbefore hmem
    rw [if_pos hbefore] at hnodup
    exact (List.nodup_cons.mp hnodup).1 (List.mem_filter.mpr ⟨hmem, hbefore⟩)
  -- What is released is the call that has been announced.
  have hcall : ∀ channel, releases = some channel → line.notification.isBefore = true ∧
      ∃ client, s.activity client = .waits line.notification channel := by
    intro channel heq
    split at hreleases
    · rename_i hbefore
      obtain ⟨client, channel', hwaits, heq'⟩ := hreleases
      rw [heq] at heq'
      rw [← Option.some.inj heq'] at hwaits
      exact ⟨hbefore, client, hwaits⟩
    · rw [heq] at hreleases
      cases hreleases
  constructor
  · intro m hmem hbefore
    obtain ⟨client, channel, hwaits, _⟩ := h.queue.queued m (by rw [hnext]; simp [hmem]) hbefore
    refine ⟨client, channel, hwaits, fun heq => ?_⟩
    obtain ⟨hline, client', hwaits'⟩ := hcall channel heq
    have hsame := h.channels.held_unique client client' channel (by rw [hwaits]; rfl)
      (by rw [hwaits']; rfl)
    rw [hsame, hwaits'] at hwaits
    rw [← (Activity.waits.inj hwaits).1] at hmem
    exact hnew hline hmem
  · show (rest.filter _).Nodup
    split at hnodup
    · exact hnodup.of_cons
    · exact hnodup
  · intro client m channel hwaits
    obtain hmem | heq := h.queue.waits client m channel hwaits
    · rw [hnext] at hmem
      obtain rfl | hrest := List.mem_cons.mp hmem
      · rw [if_pos (isBefore_of_waits h.keys hwaits)] at hreleases
        obtain ⟨client', channel', hwaits', heq⟩ := hreleases
        rw [waits_unique h.keys hwaits hwaits', hwaits] at hwaits'
        rw [(Activity.waits.inj hwaits').2]
        exact Or.inr heq
      · exact Or.inl hrest
    · rw [hfree] at heq
      cases heq
  · intro channel heq
    obtain ⟨hline, client, hwaits⟩ := hcall channel heq
    refine ⟨client, line.notification, hwaits, hnew hline, ?_⟩
    show _ < (line.notification :: s.logged).count line.notification
    rw [List.count_cons_self]
    exact Nat.lt_succ_of_le (h.queue.logged _)
  · intro m
    exact (h.queue.logged m).trans List.count_le_count_cons

theorem inv_coordinates (h : LearnInv s) {rest : List Notification} (stamp : Stamp)
    (hfree : s.releases = none) (hnext : s.notificationCh = notification :: rest) :
    LearnInv (({ s with notificationCh := rest } : LearnState).coordinate stamp notification) := by
  obtain ⟨count, cnt, cntMap, releases, heq, hnumbered, hreleases⟩ :=
    coordinate_eq h stamp hfree hnext
  have hsent : rest.reverse ++ notification :: s.logged = s.sent := (sent_eq hnext).symm
  rw [heq]
  exact {
    keys := h.keys.of_same rfl (sameAt_of_eq rfl rfl rfl rfl hsent)
    counters := h.counters.of_eq rfl rfl rfl
    channels := h.channels.of_channel_eq (fun _ => rfl) rfl rfl
    queue := queue_coordinates h hfree hnext hreleases
    rounds := ⟨hnumbered.ongoing, hnumbered.counts, hnumbered.number, h.rounds.numbers⟩
    sent := by
      show AllFit (rest.reverse ++ notification :: s.logged)
      rw [hsent]
      exact h.sent
    alive := h.alive
    busy := h.busy }

/-- As long as the counter has not wrapped. -/
def LearnState.Counts (s : LearnState) : LearnLabel → Prop
  | .serves client => ∀ request, s.activity client = .counts request →
      (s.given request.kind.counter).length < 2 ^ 32
  | _ => True

theorem inv_serves (h : LearnInv s) (hcounts : s.Counts (.serves client))
    (hstep : LearnStep s (.serves client) s') : LearnInv s' := by
  cases hstep with
  | counts halive hact =>
    have hbound := hcounts _ hact
    exact h.of_quiet (keys_counts h.keys h.counters hact hbound) (counters_addId h.counters _ hbound)
      setActivity_others (by rw [hact]; rfl) (congrArg Activity.channel setActivity_self) rfl
      ⟨rfl, rfl, rfl, rfl, rfl, rfl, rfl⟩
  | stores halive hact =>
    exact h.of_new (keys_stores h.keys hact) (h.counters.of_eq rfl rfl rfl) setActivity_others
      (by rw [hact]; rfl) setActivity_self rfl ⟨rfl, rfl, rfl, rfl, rfl, rfl, rfl⟩
  | testsBegin halive hact =>
    have hkeys := keys_testsBegin h.keys hact
    rw [testBegin_eq h.keys hact] at hkeys ⊢
    exact h.of_quiet hkeys (h.counters.of_eq rfl rfl rfl) setActivity_others (by rw [hact]; rfl)
      (by rw [setActivity_self]; rfl) rfl ⟨rfl, rfl, rfl, rfl, rfl, rfl, rfl⟩
  | storesBegin halive hact =>
    exact h.of_new (keys_storesBegin h.keys hact) (h.counters.of_eq rfl rfl rfl) setActivity_others
      (by rw [hact]; rfl) setActivity_self rfl ⟨rfl, rfl, rfl, rfl, rfl, rfl, rfl⟩
  | testsEnd halive hact =>
    have hkeys := keys_testsEnd h.keys hact
    rw [testEnd_eq h.keys hact] at hkeys ⊢
    exact h.of_quiet hkeys (h.counters.of_eq rfl rfl rfl) setActivity_others (by rw [hact]; rfl)
      (by rw [setActivity_self]; rfl) rfl ⟨rfl, rfl, rfl, rfl, rfl, rfl, rfl⟩
  | storesEnd halive hact =>
    exact h.of_quiet (keys_storesEnd h.keys hact) (h.counters.of_eq rfl rfl rfl) setActivity_others
      (by rw [hact]; rfl) (congrArg Activity.channel setActivity_self) rfl
      ⟨rfl, rfl, rfl, rfl, rfl, rfl, rfl⟩
  | sends halive hact hroom => exact inv_sends h hact
  | sendsAfter halive hact hroom => exact inv_sendsAfter h hact
  | receives halive hact hreleases => exact inv_receives h hact hreleases

/-- **The steps keep the invariant.** -/
theorem LearnInv.step (h : LearnInv s) {label : LearnLabel} (hcounts : s.Counts label)
    (hstep : LearnStep s label s') : LearnInv s' := by
  cases label with
  | serves client => exact inv_serves h hcounts hstep
  | begins client request =>
    cases hstep with
    | begins _ hidle =>
      exact h.of_quiet (keys_begins h.keys request hidle) (h.counters.of_eq rfl rfl rfl)
        setActivity_others (by rw [hidle]; rfl) (by rw [setActivity_self]; rfl) rfl
        ⟨rfl, rfl, rfl, rfl, rfl, rfl, rfl⟩
  | ends client notification =>
    cases hstep with
    | ends hidle hends hreturned =>
      have hsame : CountersOk (s.setActivity client (.sends notification none)) :=
        h.counters.of_eq rfl rfl rfl
      have hcounters := hsame.setIdStatus (.ends client) fun heq => by
        cases hreturned.symm.trans heq
      exact h.of_quiet (keys_ends h.keys hidle hends hreturned) hcounters setActivity_others
        (by rw [hidle]; rfl) (congrArg Activity.channel setActivity_self) rfl
        ⟨rfl, rfl, rfl, rfl, rfl, rfl, rfl⟩
    | cacheRead hidle hread =>
      exact h.of_quiet (keys_cacheRead h.keys hidle hread) (h.counters.of_eq rfl rfl rfl)
        setActivity_others (by rw [hidle]; rfl) (by rw [setActivity_self]; rfl) rfl
        ⟨rfl, rfl, rfl, rfl, rfl, rfl, rfl⟩
  | beginsRound client f =>
    cases hstep with
    | beginsRound hidle hround =>
      exact h.of_quiet (keys_beginsRound h.keys hidle hround) (h.counters.of_eq rfl rfl rfl)
        setActivity_others (by rw [hidle]; rfl) (congrArg Activity.channel setActivity_self) rfl
        ⟨rfl, rfl, rfl, rfl, rfl, rfl, rfl⟩
  | endsRound client f =>
    cases hstep with
    | endsRound hidle hround =>
      exact h.of_quiet (keys_endsRound h.keys hidle hround) (h.counters.of_eq rfl rfl rfl)
        setActivity_others (by rw [hidle]; rfl) (congrArg Activity.channel setActivity_self) rfl
        ⟨rfl, rfl, rfl, rfl, rfl, rfl, rfl⟩
  | coordinates stamp =>
    cases hstep with
    | coordinates halive hfree hnext => exact inv_coordinates h stamp hfree hnext

theorem learnInv_start : LearnInv .start where
  keys := {
    keys := fun key => by
      cases key with
      | id counter id => rfl
      | round f => exact ⟨by simp [LearnState.ongoing, LearnState.history, LearnState.sent,
          LearnState.start], fun channel heq => by cases heq⟩
    clients := fun client key hkey => by cases hkey
    keyed := fun client => trivial }
  counters := {
    next := fun counter => by simp [LearnState.start]
    given := fun counter id hid => by cases hid
    nodup := fun counter => List.nodup_nil
    known := fun counter id hid => rfl }
  channels := {
    held_lt := fun client channel hheld => by cases hheld
    held_unique := fun client client' channel hheld => by cases hheld
    released_lt := fun channel hmem => by cases hmem
    released_nodup := List.nodup_nil
    held_new := fun client channel hheld => by cases hheld
    accounted := fun channel hlt => absurd hlt (Nat.not_lt_zero _) }
  queue := {
    queued := fun notification hmem => by cases hmem
    queue_nodup := List.nodup_nil
    waits := fun client notification channel hwaits => by cases hwaits
    releases := fun channel heq => by cases heq
    logged := fun notification => le_rfl }
  rounds := ⟨rfl, fun f => rfl, trivial⟩
  sent := trivial
  alive := rfl
  busy := ⟨0, fun client _ => rfl⟩

end Steps

end Sieve.Server
