import Mathlib.Algebra.BigOperators.Group.Finset.Basic
import Mathlib.Algebra.BigOperators.Intervals
import Sieve.Server.LearnQueue

/-!
# Every call of the learn server is released

What the handlers and the coordinator do on their own, without new calls.

* `ServerStep`: their steps;
* `acc_serverStep`: they come to an end, since each step leaves less to do;
* `idle_of_stuck`: at the end no client is in a handler.
-/

namespace Sieve.Server

open Sieve.Library

def LearnLabel.IsServer : LearnLabel → Prop
  | .serves _ | .coordinates _ => True
  | _ => False

/-- A handler goes on, or the coordinator. -/
def ServerStep (s s' : LearnState) : Prop :=
  ∃ label : LearnLabel, label.IsServer ∧ LearnStep s label s'

/-! ### The end -/

/-- How much a client still has to do in the handler, the notification in the queue included. -/
def Activity.weight : Activity → ℕ
  | .idle => 0
  | .counts _ | .testsBegin _ => 5
  | .stores _ _ | .storesBegin _ | .testsEnd _ => 4
  | .storesEnd _ | .sends _ (some _) => 3
  | .sends _ none => 2
  | .waits _ _ => 1

/-- What there is to do, when only the first clients are busy. -/
def LearnState.work (bound : ℕ) (s : LearnState) : ℕ :=
  ∑ client ∈ Finset.range bound, (s.activity client).weight + s.notificationCh.length +
    if s.fatal then 0 else 1

section Work

variable {s s' : LearnState} {client bound : ℕ} {activity : Activity}

theorem sum_weight_update (hclient : client < bound) :
    ∑ other ∈ Finset.range bound, (Function.update s.activity client activity other).weight +
        (s.activity client).weight =
      ∑ other ∈ Finset.range bound, (s.activity other).weight + activity.weight := by
  have hmem := Finset.mem_range.mpr hclient
  rw [← Finset.add_sum_erase _ _ hmem, ← Finset.add_sum_erase _ _ hmem, Function.update_self]
  have hrest : ∑ other ∈ (Finset.range bound).erase client,
      (Function.update s.activity client activity other).weight =
        ∑ other ∈ (Finset.range bound).erase client, (s.activity other).weight := by
    refine Finset.sum_congr rfl fun other hother => ?_
    rw [Function.update_of_ne (Finset.mem_erase.mp hother).1]
  omega

/-- Only a client below the bound is in a handler. -/
theorem lt_bound (hidle : ∀ client, bound ≤ client → s.activity client = .idle)
    (hact : s.activity client ≠ .idle) : client < bound := by
  by_contra hle
  exact hact (hidle client (by omega))

/-- A handler that goes on has less to do. -/
theorem work_lt (hidle : ∀ client, bound ≤ client → s.activity client = .idle)
    (hactivity : s'.activity = Function.update s.activity client activity)
    (hfatal : s'.fatal = s.fatal)
    (hless : activity.weight + s'.notificationCh.length <
      (s.activity client).weight + s.notificationCh.length) (hact : s.activity client ≠ .idle) :
    s'.work bound < s.work bound ∧ ∀ client, bound ≤ client → s'.activity client = .idle := by
  have hclient := lt_bound hidle hact
  have hsum := @sum_weight_update s client bound activity hclient
  constructor
  · rw [LearnState.work, LearnState.work, hactivity, hfatal]
    omega
  · intro other hother
    rw [hactivity, Function.update_of_ne (by omega), hidle other hother]

/-- What ends the program leaves nothing to do. -/
theorem work_fatal (hidle : ∀ client, bound ≤ client → s.activity client = .idle)
    (halive : s.fatal = false) (hactivity : s'.activity = s.activity)
    (hqueue : s'.notificationCh.length ≤ s.notificationCh.length) (hfatal : s'.fatal = true) :
    s'.work bound < s.work bound ∧ ∀ client, bound ≤ client → s'.activity client = .idle := by
  refine ⟨?_, by rwa [hactivity]⟩
  rw [LearnState.work, LearnState.work, hactivity, hfatal, halive]
  simp only [if_true, Bool.false_eq_true, if_false]
  omega

/-- The coordinator leaves clients and queue alone. -/
theorem coordinate_frame (s : LearnState) (stamp : Stamp) (notification : Notification) :
    (s.coordinate stamp notification).activity = s.activity ∧
      (s.coordinate stamp notification).notificationCh = s.notificationCh ∧
      ((s.coordinate stamp notification).fatal = s.fatal ∨
        (s.coordinate stamp notification).fatal = true) := by
  cases notification with
  | beforeControllerReconcile f =>
    simp only [LearnState.coordinate]
    split <;> exact ⟨rfl, rfl, by simp [LearnState.printf]⟩
  | afterControllerReconcile f =>
    simp only [LearnState.coordinate]
    split <;> exact ⟨rfl, rfl, by simp [LearnState.printf]⟩
  | _ =>
    simp only [LearnState.coordinate, Notification.begins]
    first
    | exact ⟨rfl, rfl, by simp [LearnState.printf]⟩
    | split <;> exact ⟨rfl, rfl, by simp [LearnState.printf]⟩

theorem coordinate_work (hidle : ∀ client, bound ≤ client → s.activity client = .idle)
    (stamp : Stamp) {notification : Notification} {rest : List Notification} (halive : s.fatal = false)
    (hnext : s.notificationCh = notification :: rest)
    (hs' : s' = ({ s with notificationCh := rest } : LearnState).coordinate stamp notification) :
    s'.work bound < s.work bound ∧ ∀ client, bound ≤ client → s'.activity client = .idle := by
  obtain ⟨hactivity, hqueue, hfatal⟩ :=
    coordinate_frame { s with notificationCh := rest } stamp notification
  rw [← hs'] at hactivity hqueue hfatal
  have hlength : s'.notificationCh.length + 1 = s.notificationCh.length := by
    rw [hqueue, hnext]
    rfl
  obtain hfatal | hfatal := hfatal
  · refine ⟨?_, by rwa [hactivity]⟩
    rw [LearnState.work, LearnState.work, hactivity, hfatal]
    show ∑ client ∈ Finset.range bound, (s.activity client).weight + _ + (if s.fatal then 0 else 1) < _
    omega
  · exact work_fatal hidle halive hactivity (by omega) hfatal

theorem returnAfter_frame {notification : Notification} :
    (s.returnAfter notification).activity = s.activity ∧
      (s.returnAfter notification).notificationCh = s.notificationCh ∧
      (s.returnAfter notification).fatal = s.fatal := by
  obtain ⟨_, _, heq⟩ := returnAfter_eq s notification
  rw [heq]
  exact ⟨rfl, rfl, rfl⟩

theorem returnFrom_frame {notification : Notification} :
    (s.returnFrom notification).activity = s.activity ∧
      (s.returnFrom notification).notificationCh = s.notificationCh ∧
      (s.returnFrom notification).fatal = s.fatal := by
  obtain ⟨_, _, heq⟩ := returnFrom_eq s notification
  rw [heq]
  exact ⟨rfl, rfl, rfl⟩

/-- **Every step leaves less to do**, and makes no client busy. -/
theorem serverStep_work (hidle : ∀ client, bound ≤ client → s.activity client = .idle)
    (hstep : ServerStep s s') : s'.work bound < s.work bound ∧
      ∀ client, bound ≤ client → s'.activity client = .idle := by
  obtain ⟨label, hserver, hstep⟩ := hstep
  cases hstep with
  | @counts client request halive hact | @stores client request id halive hact
  | @storesBegin client f halive hact | @storesEnd client f halive hact =>
    exact work_lt hidle rfl rfl (Nat.add_lt_add_right (by simp [hact, Activity.weight]) _)
      (by rw [hact]; simp)
  | @testsBegin client f halive hact =>
    rw [LearnState.testBegin]
    split
    · exact work_fatal hidle halive rfl le_rfl rfl
    · exact work_lt hidle rfl rfl (Nat.add_lt_add_right (by simp [hact, Activity.weight]) _)
        (by rw [hact]; simp)
  | @testsEnd client f halive hact =>
    rw [LearnState.testEnd]
    split
    · exact work_lt hidle rfl rfl (Nat.add_lt_add_right (by simp [hact, Activity.weight]) _)
        (by rw [hact]; simp)
    · exact work_fatal hidle halive rfl le_rfl rfl
  | @sends client notification channel halive hact hroom =>
    refine work_lt hidle rfl rfl ?_ (by rw [hact]; simp)
    rw [hact]
    show 1 + (s.notificationCh ++ [notification]).length < 3 + _
    rw [List.length_append, List.length_singleton]
    omega
  | @sendsAfter client notification halive hact hroom =>
    obtain ⟨hactivity, hqueue, hfatal⟩ :=
      @returnAfter_frame ((s.send notification).setActivity client .idle) notification
    refine work_lt hidle hactivity hfatal ?_ (by rw [hact]; simp)
    rw [hact, hqueue]
    show 0 + (s.notificationCh ++ [notification]).length < 2 + _
    rw [List.length_append, List.length_singleton]
    omega
  | @receives client notification channel halive hact hreleases =>
    obtain ⟨hactivity, hqueue, hfatal⟩ :=
      @returnFrom_frame (s.release client channel notification) notification
    refine work_lt hidle hactivity hfatal ?_ (by rw [hact]; simp)
    rw [hqueue]
    exact Nat.add_lt_add_right (by simp [hact, Activity.weight]) _
  | coordinates halive hfree hnext => exact coordinate_work hidle _ halive hnext rfl
  | _ => cases hserver

/-- **Handlers and coordinator come to an end** without new calls. -/
theorem acc_serverStep (h : ∃ bound, ∀ client, bound ≤ client → s.activity client = .idle) :
    Acc (fun later now => ServerStep now later) s := by
  obtain ⟨bound, hidle⟩ := h
  induction hwork : s.work bound using Nat.strong_induction_on generalizing s with
  | _ n ih =>
    refine Acc.intro s fun later hstep => ?_
    obtain ⟨hless, hlater⟩ := serverStep_work hidle hstep
    exact ih _ (by omega) hlater rfl

end Work

/-! ### When nothing more is to be done -/

/-- **At the end no client is in a handler.** -/
theorem idle_of_stuck {s : LearnState} (h : LearnInv s) (hstuck : ∀ s', ¬ ServerStep s s')
    (client : ℕ) : s.activity client = .idle := by
  have hserves : ∀ {client s'}, ¬ LearnStep s (.serves client) s' :=
    fun hstep => hstuck _ ⟨.serves _, trivial, hstep⟩
  have hreleases : s.releases = none := by
    cases hreleases : s.releases with
    | none => rfl
    | some channel =>
      obtain ⟨other, notification, hwaits, _⟩ := h.queue.releases channel hreleases
      exact absurd (.receives h.alive hwaits hreleases) hserves
  have hqueue : s.notificationCh = [] := by
    cases hnext : s.notificationCh with
    | nil => rfl
    | cons notification rest =>
      have hstep := @LearnStep.coordinates s ⟨[], by simp⟩ notification rest h.alive hreleases hnext
      exact absurd ⟨.coordinates _, trivial, hstep⟩ (hstuck _)
  have hroom : s.notificationCh.length < 500 := by simp [hqueue]
  cases hact : s.activity client with
  | idle => rfl
  | counts => exact absurd (.counts h.alive hact) hserves
  | stores => exact absurd (.stores h.alive hact) hserves
  | testsBegin => exact absurd (.testsBegin h.alive hact) hserves
  | storesBegin => exact absurd (.storesBegin h.alive hact) hserves
  | testsEnd => exact absurd (.testsEnd h.alive hact) hserves
  | storesEnd => exact absurd (.storesEnd h.alive hact) hserves
  | sends notification channel =>
    cases channel with
    | none => exact absurd (.sendsAfter h.alive hact hroom) hserves
    | some channel => exact absurd (.sends h.alive hact hroom) hserves
  | waits notification channel =>
    obtain hmem | heq := h.queue.waits client notification channel hact
    · rw [hqueue] at hmem
      cases hmem
    · rw [hreleases] at heq
      cases heq

end Sieve.Server
