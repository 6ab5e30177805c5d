import Sieve.Server.LearnKeys

/-!
# What the learn server is sent

Lists of notifications and of log lines, newest first.

* `FitsSent`, `AllFit`: a notification fits those sent before it;
* `openRounds`: the rounds that have begun and not ended;
* `NumbersOk`: a line that ends a round carries the number of the line that began it;
* `AllReported`: what is sent has been reported by a client.
-/

namespace Sieve.Server

open Sieve.Library

/-- The notifications of a key. -/
def historyIn (key : LearnKey) (past : List Notification) : List Notification :=
  past.filter fun notification => notification.key = some key

theorem history_eq (s : LearnState) (key : LearnKey) : s.history key = historyIn key s.sent := rfl

theorem mem_historyIn {key : LearnKey} {past : List Notification} {notification : Notification} :
    notification ∈ historyIn key past ↔ notification ∈ past ∧ notification.key = some key := by
  simp [historyIn]

theorem historyIn_cons (key : LearnKey) (notification : Notification) (past : List Notification) :
    historyIn key (notification :: past) =
      if notification.key = some key then notification :: historyIn key past
      else historyIn key past := by
  simp [historyIn, List.filter_cons]

/-! ### The order of the notifications -/

/-- The last boundary of the reconciler is the beginning of a round. -/
def OngoingIn (f : Text) (past : List Notification) : Prop :=
  (historyIn (.round f) past).head? = some (.beforeControllerReconcile f)

/-- The notification may be sent after the past. -/
def FitsSent (past : List Notification) : Notification → Prop
  | .beforeControllerReconcile f => ¬ OngoingIn f past
  | .afterControllerReconcile f => OngoingIn f past
  | notification =>
    (∀ kind id, notification.begins = some (kind, id) →
      historyIn (.id kind.counter id) past = []) ∧
    ∀ kind id, notification.ends = some (kind, id) →
      ∃ before, before.begins = some (kind, id) ∧ historyIn (.id kind.counter id) past = [before]

/-- Every notification fits those before it. -/
def AllFit : List Notification → Prop
  | [] => True
  | notification :: past => FitsSent past notification ∧ AllFit past

theorem AllFit.of_append {newer past : List Notification} (h : AllFit (newer ++ past)) :
    AllFit past := by
  induction newer with
  | nil => exact h
  | cons notification newer ih => exact ih h.2

theorem ongoingIn_cons_of_ne {f : Text} {past : List Notification} {notification : Notification}
    (h : notification.key ≠ some (.round f)) :
    OngoingIn f (notification :: past) ↔ OngoingIn f past := by
  rw [OngoingIn, historyIn_cons, if_neg h, OngoingIn]

theorem ongoingIn_begins {f : Text} {past : List Notification} :
    OngoingIn f (.beforeControllerReconcile f :: past) := by
  simp [OngoingIn, historyIn_cons, Notification.key]

theorem not_ongoingIn_ends {f : Text} {past : List Notification} :
    ¬ OngoingIn f (.afterControllerReconcile f :: past) := by
  simp [OngoingIn, historyIn_cons, Notification.key]

/-- A reconciler with a round that goes on has begun one. -/
theorem OngoingIn.mem {f : Text} {past : List Notification} (h : OngoingIn f past) :
    .beforeControllerReconcile f ∈ past :=
  (mem_historyIn.mp (List.mem_of_head? h)).1

/-! ### Open rounds -/

/-- The rounds that have begun and not ended. -/
def openRounds : List Notification → List Text
  | [] => []
  | .beforeControllerReconcile f :: past => f :: openRounds past
  | .afterControllerReconcile f :: past => (openRounds past).erase f
  | _ :: past => openRounds past

/-- When every notification fits, the open rounds are those that go on. -/
theorem openRounds_spec {past : List Notification} (h : AllFit past) :
    (openRounds past).Nodup ∧ ∀ f, f ∈ openRounds past ↔ OngoingIn f past := by
  induction past with
  | nil => simp [openRounds, OngoingIn, historyIn]
  | cons notification past ih =>
    obtain ⟨hfits, hpast⟩ := h
    obtain ⟨hnodup, hmem⟩ := ih hpast
    cases notification with
    | beforeControllerReconcile f =>
      refine ⟨List.nodup_cons.mpr ⟨fun hf => hfits ((hmem f).mp hf), hnodup⟩, fun g => ?_⟩
      rw [openRounds, List.mem_cons, hmem g]
      by_cases hg : g = f
      · rw [hg]
        exact iff_of_true (Or.inl rfl) ongoingIn_begins
      · rw [ongoingIn_cons_of_ne (by simpa [Notification.key] using Ne.symm hg)]
        simp [hg]
    | afterControllerReconcile f =>
      refine ⟨hnodup.erase f, fun g => ?_⟩
      rw [openRounds, hnodup.mem_erase_iff, hmem g]
      by_cases hg : g = f
      · rw [hg]
        exact iff_of_false (fun hboth => hboth.1 rfl) not_ongoingIn_ends
      · rw [ongoingIn_cons_of_ne (by simpa [Notification.key] using Ne.symm hg)]
        simp [hg]
    | _ =>
      refine ⟨hnodup, fun g => ?_⟩
      rw [ongoingIn_cons_of_ne (by simp [Notification.key])]
      exact hmem g

/-! ### The numbers of the rounds -/

/-- The number in the latest line that begins a round of the reconciler. -/
def latestNumber (f : Text) : List LoggedLine → Option ℤ
  | [] => none
  | line :: older =>
    if line.notification = .beforeControllerReconcile f then some line.count
    else latestNumber f older

/-- Each line that ends a round carries the number of the latest line that begins a round of the same
reconciler. -/
def NumbersOk : List LoggedLine → Prop
  | [] => True
  | line :: older =>
    (∀ f, line.notification = .afterControllerReconcile f →
      latestNumber f older = some line.count) ∧ NumbersOk older

theorem latestNumber_isSome {f : Text} {log : List LoggedLine}
    (h : .beforeControllerReconcile f ∈ log.map LoggedLine.notification) :
    ∃ number, latestNumber f log = some number := by
  induction log with
  | nil => cases h
  | cons line older ih =>
    rw [latestNumber]
    split
    · exact ⟨_, rfl⟩
    · rename_i hne
      obtain heq | hmem := List.mem_cons.mp h
      · exact absurd heq.symm hne
      · exact ih hmem

/-! ### What the clients report -/

/-- What the client reports in the handler satisfies the condition. -/
def Activity.Reports (P : Notification → Prop) : Activity → Prop
  | .idle => True
  | .counts request => ∀ id, P (request.notification id)
  | .stores request id => P (request.notification id)
  | .testsBegin f | .storesBegin f => P (.beforeControllerReconcile f)
  | .testsEnd f | .storesEnd f => P (.afterControllerReconcile f)
  | .sends notification _ | .waits notification _ => P notification

/-- What is reported with the call satisfies the condition. -/
def LearnLabel.Reports (P : Notification → Prop) : LearnLabel → Prop
  | .begins _ request => ∀ id, P (request.notification id)
  | .ends _ notification => P notification
  | .beginsRound _ f => P (.beforeControllerReconcile f)
  | .endsRound _ f => P (.afterControllerReconcile f)
  | .serves _ | .coordinates _ => True

structure AllReported (P : Notification → Prop) (s : LearnState) : Prop where
  clients : ∀ client, (s.activity client).Reports P
  sent : ∀ notification ∈ s.sent, P notification

section Reports

variable {P : Notification → Prop} {s s' : LearnState} {client : ℕ}

theorem reports_update (h : AllReported P s) {activity : Activity} (hclient : activity.Reports P)
    (other : ℕ) : (Function.update s.activity client activity other).Reports P := by
  by_cases hother : other = client
  · rwa [hother, Function.update_self]
  · rw [Function.update_of_ne hother]
    exact h.clients other

/-- A step of a client that sends nothing. -/
theorem AllReported.of_update (h : AllReported P s) {activity : Activity}
    (hactivity : s'.activity = Function.update s.activity client activity)
    (hsent : s'.sent = s.sent) (hclient : activity.Reports P) : AllReported P s' where
  clients := by
    rw [hactivity]
    exact reports_update h hclient
  sent := by
    rw [hsent]
    exact h.sent

theorem AllReported.of_sends (h : AllReported P s) {activity : Activity} {notification : Notification}
    (hactivity : s'.activity = Function.update s.activity client activity)
    (hsent : s'.sent = notification :: s.sent) (hclient : activity.Reports P)
    (hreports : P notification) : AllReported P s' where
  clients := by
    rw [hactivity]
    exact reports_update h hclient
  sent := fun m hm => by
    rw [hsent] at hm
    obtain rfl | hold := List.mem_cons.mp hm
    · exact hreports
    · exact h.sent m hold

/-- The coordinator logs what it receives, if anything. -/
theorem mem_sent_coordinate {stamp : Stamp} {notification : Notification} {rest : List Notification}
    (hnext : s.notificationCh = notification :: rest) {m : Notification}
    (hm : m ∈ (({ s with notificationCh := rest } : LearnState).coordinate stamp notification).sent) :
    m ∈ s.sent := by
  have hlogged : m ∈ rest.reverse ++ s.log.map LoggedLine.notification ∨
      m ∈ rest.reverse ++ (notification :: s.log.map LoggedLine.notification) := by
    cases notification with
    | beforeControllerReconcile f =>
      simp only [LearnState.coordinate] at hm
      split at hm
      · exact Or.inl hm
      · exact Or.inr hm
      · exact Or.inr hm
    | afterControllerReconcile f =>
      simp only [LearnState.coordinate] at hm
      split at hm
      · exact Or.inl hm
      · exact Or.inr hm
    | _ =>
      simp only [LearnState.coordinate, Notification.begins] at hm
      first
      | exact Or.inr hm
      | (split at hm
         · exact Or.inl hm
         · exact Or.inr hm)
  rw [LearnState.sent, hnext]
  simp only [List.reverse_cons, List.append_assoc, List.mem_append, List.mem_reverse, List.mem_cons,
    List.not_mem_nil, or_false] at hlogged ⊢
  tauto

/-- **What is sent has been reported.** -/
theorem AllReported.step (h : AllReported P s) {label : LearnLabel} (hlabel : label.Reports P)
    (hstep : LearnStep s label s') : AllReported P s' := by
  have hclients := h.clients
  cases hstep with
  | begins request hidle => exact h.of_update rfl rfl hlabel
  | cacheRead hidle hread => exact h.of_update rfl rfl hlabel
  | ends hidle hends hreturned => exact h.of_update rfl rfl hlabel
  | beginsRound hidle hround => exact h.of_update rfl rfl hlabel
  | endsRound hidle hround => exact h.of_update rfl rfl hlabel
  | @counts client request halive hact =>
    have hreports := hclients client
    rw [hact] at hreports
    exact h.of_update rfl rfl (hreports _)
  | @stores client request id halive hact =>
    have hreports := hclients client
    rw [hact] at hreports
    exact h.of_update rfl rfl hreports
  | @testsBegin client f halive hact =>
    have hreports := hclients client
    rw [hact] at hreports
    rw [LearnState.testBegin]
    split
    · exact ⟨hclients, h.sent⟩
    · exact h.of_update rfl rfl hreports
  | @storesBegin client f halive hact =>
    have hreports := hclients client
    rw [hact] at hreports
    exact h.of_update rfl rfl hreports
  | @testsEnd client f halive hact =>
    have hreports := hclients client
    rw [hact] at hreports
    rw [LearnState.testEnd]
    split
    · exact h.of_update rfl rfl hreports
    · exact ⟨hclients, h.sent⟩
  | @storesEnd client f halive hact =>
    have hreports := hclients client
    rw [hact] at hreports
    exact h.of_update rfl rfl hreports
  | @sends client notification channel halive hact hroom =>
    have hreports := hclients client
    rw [hact] at hreports
    exact h.of_sends rfl sent_send hreports hreports
  | @sendsAfter client notification halive hact hroom =>
    have hreports := hclients client
    rw [hact] at hreports
    have hsent : AllReported P ((s.send notification).setActivity client .idle) :=
      h.of_sends rfl sent_send trivial hreports
    cases notification <;> exact ⟨hsent.clients, hsent.sent⟩
  | @receives client notification channel halive hact hreleases =>
    have hrelease : AllReported P (s.release client channel notification) :=
      h.of_update rfl rfl trivial
    cases notification <;> exact ⟨hrelease.clients, hrelease.sent⟩
  | @coordinates stamp notification rest halive hfree hnext =>
    refine ⟨?_, fun m hm => h.sent m (mem_sent_coordinate hnext hm)⟩
    cases notification with
    | beforeControllerReconcile f | afterControllerReconcile f =>
      simp only [LearnState.coordinate]
      split <;> exact hclients
    | _ =>
      simp only [LearnState.coordinate, Notification.begins]
      first
      | exact hclients
      | split <;> exact hclients

end Reports

end Sieve.Server
