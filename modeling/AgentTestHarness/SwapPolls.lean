import Mathlib.Data.PNat.Basic
import Mathlib.Order.WithBot
import AgentTestHarness.ResponsePolls

/-! The waiting loop of `swap_thread_id_for_exchange_id` for any wait and sleep time: an id that
the poll at exactly the wait time finds is thrown away by the timeout test after the loop. -/
namespace AgentTestHarness.SwapPolls
open PyText PyJson Storage ResponsePolls

/-- What a call gave, and how often it has polled the store. -/
structure Call where
  result : Except PyError Json
  polls : ℕ
  deriving DecidableEq

/-- The loop from its `n`th poll on, which finds the `n`th store. A message that cannot be indexed
is waited for; every other error leaves the loop. -/
def swapThreadIdForExchangeId (threadId dataType idTxt : Str) (waitTime : ℕ) (sleepTime : ℕ+)
    (stores : ℕ → Store) (n timeout : ℕ) : Call :=
  if timeout ≤ waitTime then
    match getResource (.str threadId) dataType (stores n) with
    | .error e => ⟨.error e, n + 1⟩
    | .ok msg => match firstItem msg >>= fun m => m.item idTxt with
      | .ok exId => ⟨if waitTime ≤ timeout then .error .timeoutError else .ok exId, n + 1⟩
      | .error .typeError =>
          swapThreadIdForExchangeId threadId dataType idTxt waitTime sleepTime stores (n + 1)
            (timeout + sleepTime)
      | .error e => ⟨.error e, n + 1⟩
  else ⟨.error .timeoutError, n⟩
termination_by waitTime + 1 - timeout
decreasing_by
  have := sleepTime.pos
  omega

/-- With the default times this is the loop that the event loop runs from sleep to sleep. -/
theorem swap_default (threadId dataType idTxt : Str) (stores : ℕ → Store) (n timeout : ℕ) :
    swapThreadIdForExchangeId threadId dataType idTxt waitTime 1 stores n timeout =
      match ResponsePolls.swapThreadIdForExchangeId threadId dataType idTxt timeout (stores n) with
      | .sleeping timeout =>
          swapThreadIdForExchangeId threadId dataType idTxt waitTime 1 stores (n + 1) (timeout + 1)
      | .returned result => ⟨result, if waitTime < timeout then n else n + 1⟩ := by
  rw [swapThreadIdForExchangeId, ResponsePolls.swapThreadIdForExchangeId]
  rcases Nat.lt_or_ge waitTime timeout with hlate | htime
  · simp [hlate, Nat.not_le.mpr hlate]
  · simp only [if_pos htime, if_neg (Nat.not_lt.mpr htime)]
    cases getResource (.str threadId) dataType (stores n) with
    | error e => simp
    | ok msg =>
      dsimp only
      cases firstItem msg >>= fun m => m.item idTxt with
      | error e => cases e <;> simp
      | ok exId => simp only; split <;> rfl

section

variable {T : Type*} [LinearOrder T]

/-- The polls find the message of the webhook from its arrival on, and nothing before. -/
structure Webhook (threadId dataType idTxt : Str) (exId : Json) (clock : ℕ → T)
    (arrival : WithTop T) (stores : ℕ → Store) : Prop where
  before : ∀ n, clock n < arrival → (stores n).slot (.str threadId) dataType = none
  since : ∀ n, arrival ≤ clock n → ∃ m ms,
    (stores n).slot (.str threadId) dataType = some (.arr (m :: ms)) ∧ m.item idTxt = .ok exId

/-- The poll that finds the message is the first that does. -/
def FirstSeen (clock : ℕ → T) (arrival : WithTop T) (n : ℕ) : Prop :=
  arrival ≤ clock n ∧ ∀ m < n, clock m < arrival

/-- A poll that sees the message gives the exchange id, without one there is a timeout, and
then it was polled each time that the wait time allows. -/
def Promised (waitTime : ℕ) (sleepTime : ℕ+) (exId : Json) (clock : ℕ → T)
    (arrival : WithTop T) (c : Call) : Prop :=
  ((∃ n < c.polls, arrival ≤ clock n) → c.result = .ok exId) ∧
  (c.result = .error .timeoutError ↔ ∀ n < c.polls, clock n < arrival) ∧
  ((∀ n < c.polls, clock n < arrival) → c.polls = waitTime / sleepTime + 1)

variable {threadId dataType idTxt : Str} {exId : Json} {clock : ℕ → T} {arrival : WithTop T}
  {stores : ℕ → Store} {waitTime : ℕ} {sleepTime : ℕ+}

/-- The message of one webhook, pushed at its arrival to a store without any for the thread. -/
theorem webhook_of_push {s : Store} {message : Json} {exchIdName : Option Str}
    (nothing : s.slot (.str threadId) dataType = none) (hid : message.item idTxt = .ok exId)
    (hpush : (pushResource (.str threadId) dataType message exchIdName s).2.slot (.str threadId)
      dataType = some (.arr [message])) :
    Webhook threadId dataType idTxt exId clock arrival fun n =>
      if arrival ≤ clock n then (pushResource (.str threadId) dataType message exchIdName s).2
      else s where
  before n hn := by rw [if_neg (not_le.mpr hn)]; exact nothing
  since n hn := ⟨message, [], by rw [if_pos hn]; exact hpush, hid⟩

theorem swap_of_late {n timeout : ℕ} (hlate : waitTime < timeout) :
    swapThreadIdForExchangeId threadId dataType idTxt waitTime sleepTime stores n timeout =
      ⟨.error .timeoutError, n⟩ := by
  rw [swapThreadIdForExchangeId, if_neg (Nat.not_le.mpr hlate)]

theorem swap_of_unseen (h : Webhook threadId dataType idTxt exId clock arrival stores)
    {n timeout : ℕ} (htime : timeout ≤ waitTime) (hn : clock n < arrival) :
    swapThreadIdForExchangeId threadId dataType idTxt waitTime sleepTime stores n timeout =
      swapThreadIdForExchangeId threadId dataType idTxt waitTime sleepTime stores (n + 1)
        (timeout + sleepTime) := by
  have hget : getResource (.str threadId) dataType (stores n) = .ok .null := by
    simp [getResource, Json.asKey, h.before n hn]
  rw [swapThreadIdForExchangeId, if_pos htime, hget]
  rfl

theorem swap_of_seen (h : Webhook threadId dataType idTxt exId clock arrival stores)
    {n timeout : ℕ} (htime : timeout ≤ waitTime) (hn : arrival ≤ clock n) :
    swapThreadIdForExchangeId threadId dataType idTxt waitTime sleepTime stores n timeout =
      ⟨if waitTime ≤ timeout then .error .timeoutError else .ok exId, n + 1⟩ := by
  obtain ⟨m, ms, hslot, hid⟩ := h.since n hn
  have hget : getResource (.str threadId) dataType (stores n) = .ok (.arr (m :: ms)) := by
    simp [getResource, Json.asKey, hslot]
  have hfirst : (firstItem (.arr (m :: ms)) >>= fun m => m.item idTxt) = .ok exId := hid
  rw [swapThreadIdForExchangeId, if_pos htime, hget]
  simp only [hfirst]

/-- The loop goes on to its `n + d`th poll as long as none before it sees the message. -/
theorem swap_skip (h : Webhook threadId dataType idTxt exId clock arrival stores)
    (waitTime : ℕ) (sleepTime : ℕ+) (n d : ℕ)
    (htime : ∀ m < n + d, m * sleepTime ≤ waitTime) (hunseen : ∀ m < n + d, clock m < arrival) :
    swapThreadIdForExchangeId threadId dataType idTxt waitTime sleepTime stores n
        (n * sleepTime) =
      swapThreadIdForExchangeId threadId dataType idTxt waitTime sleepTime stores (n + d)
        ((n + d) * sleepTime) := by
  induction d generalizing n with
  | zero => rfl
  | succ d ih =>
    have hlt : n < n + (d + 1) := by omega
    have hsum : n + 1 + d = n + (d + 1) := by omega
    have hnext := ih (n + 1) (hsum ▸ htime) (hsum ▸ hunseen)
    rw [hsum, Nat.succ_mul] at hnext
    exact (swap_of_unseen h (htime n hlt) (hunseen n hlt)).trans hnext

theorem mul_le_of_le_div {n : ℕ} (hn : n ≤ waitTime / sleepTime) : n * sleepTime ≤ waitTime :=
  (Nat.le_div_iff_mul_le sleepTime.pos).mp hn

theorem lt_mul_of_div_lt {n : ℕ} (hn : waitTime / sleepTime < n) : waitTime < n * sleepTime :=
  (Nat.div_lt_iff_lt_mul sleepTime.pos).mp hn

/-- The whole wait without a message. -/
theorem swap_of_none (h : Webhook threadId dataType idTxt exId clock arrival stores)
    (hunseen : ∀ n ≤ waitTime / sleepTime, clock n < arrival) :
    swapThreadIdForExchangeId threadId dataType idTxt waitTime sleepTime stores 0 0 =
      ⟨.error .timeoutError, waitTime / sleepTime + 1⟩ := by
  have hskip := swap_skip h waitTime sleepTime 0 (waitTime / sleepTime + 1)
    (fun m hm => mul_le_of_le_div (by omega)) (fun m hm => hunseen m (by omega))
  rw [Nat.zero_add, Nat.zero_mul] at hskip
  rw [hskip, swap_of_late (lt_mul_of_div_lt (Nat.lt_succ_self _))]

/-- The poll that first sees the message is the last one; at the wait time it is too late. -/
theorem swap_of_first (h : Webhook threadId dataType idTxt exId clock arrival stores) {n : ℕ}
    (hn : n ≤ waitTime / sleepTime) (hfirst : FirstSeen clock arrival n) :
    swapThreadIdForExchangeId threadId dataType idTxt waitTime sleepTime stores 0 0 =
      ⟨if waitTime ≤ n * sleepTime then .error .timeoutError else .ok exId, n + 1⟩ := by
  have hskip := swap_skip h waitTime sleepTime 0 n
    (fun m hm => mul_le_of_le_div (by omega)) (fun m hm => hfirst.2 m (by omega))
  rw [Nat.zero_add, Nat.zero_mul] at hskip
  rw [hskip, swap_of_seen h (mul_le_of_le_div hn) hfirst.1]

/-- Either one of the polls that the wait time allows is the first to see the message, or none
sees it. -/
theorem first_or_none (clock : ℕ → T) (arrival : WithTop T) (last : ℕ) :
    (∃ n ≤ last, FirstSeen clock arrival n) ∨ ∀ n ≤ last, clock n < arrival := by
  rcases Runs.first_or_none (fun n => arrival ≤ clock n) (last + 1) with
    ⟨n, hn, hseen, hfirst⟩ | hnone
  · exact .inl ⟨n, Nat.le_of_lt_succ hn, hseen, fun m hm => not_le.mp (hfirst m hm)⟩
  · exact .inr fun n hn => not_le.mp (hnone n (Nat.lt_succ_of_le hn))

theorem firstSeen_unique {m n : ℕ} (hm : FirstSeen clock arrival m)
    (hn : FirstSeen clock arrival n) : m = n := by
  rcases Nat.lt_trichotomy m n with hlt | heq | hlt
  · exact absurd (hn.2 m hlt) (not_lt.mpr hm.1)
  · exact heq
  · exact absurd (hm.2 n hlt) (not_lt.mpr hn.1)

/-- A poll within the wait time comes at its very end just if it is the last allowed one and the
sleeps add up to the wait time. -/
theorem waitTime_le_mul_iff {n : ℕ} (hn : n ≤ waitTime / sleepTime) :
    waitTime ≤ n * sleepTime ↔ (sleepTime : ℕ) ∣ waitTime ∧ n = waitTime / sleepTime := by
  have hle := mul_le_of_le_div hn
  constructor
  · intro hge
    have heq : waitTime = n * sleepTime := le_antisymm hge hle
    refine ⟨⟨n, heq.trans (Nat.mul_comm _ _)⟩, ?_⟩
    rw [heq, Nat.mul_div_cancel _ sleepTime.pos]
  · rintro ⟨hdvd, rfl⟩
    exact (Nat.div_mul_cancel hdvd).ge

/-- The call keeps its promises just if the message is not first seen by the poll at exactly the
wait time. -/
theorem swap_promised_iff (waitTime sleepTime : ℕ+)
    (h : Webhook threadId dataType idTxt exId clock arrival stores) :
    Promised waitTime sleepTime exId clock arrival
      (swapThreadIdForExchangeId threadId dataType idTxt waitTime sleepTime stores 0 0) ↔
      ¬ ((sleepTime : ℕ) ∣ waitTime ∧ FirstSeen clock arrival (waitTime / sleepTime)) := by
  rcases first_or_none clock arrival ((waitTime : ℕ) / sleepTime) with ⟨n, hn, hfirst⟩ | hnone
  · have hsees : ∃ m < n + 1, arrival ≤ clock m := ⟨n, Nat.lt_succ_self n, hfirst.1⟩
    have hsome : ¬ ∀ m < n + 1, clock m < arrival :=
      fun hall => absurd (hall n (Nat.lt_succ_self n)) (not_lt.mpr hfirst.1)
    rw [swap_of_first h hn hfirst]
    rcases Nat.lt_or_ge (n * sleepTime) waitTime with htime | hend
    · refine iff_of_true ?_ ?_
      · rw [if_neg (Nat.not_le.mpr htime)]
        exact ⟨fun _ => rfl, iff_of_false (by simp) hsome, fun hall => absurd hall hsome⟩
      · rintro ⟨hdvd, hlast⟩
        have heq := firstSeen_unique hfirst hlast
        have := (waitTime_le_mul_iff hn).mpr ⟨hdvd, heq⟩
        omega
    · refine iff_of_false ?_ ?_
      · rw [if_pos hend]
        rintro ⟨hid, -, -⟩
        simpa using hid hsees
      · obtain ⟨hdvd, rfl⟩ := (waitTime_le_mul_iff hn).mp hend
        exact fun hc => hc ⟨hdvd, hfirst⟩
  · rw [swap_of_none h hnone]
    have hall : ∀ n < (waitTime : ℕ) / sleepTime + 1, clock n < arrival :=
      fun n hn => hnone n (Nat.le_of_lt_succ hn)
    refine iff_of_true ⟨?_, iff_of_true rfl hall, fun _ => rfl⟩ ?_
    · rintro ⟨n, hn, hseen⟩
      exact absurd (hall n hn) (not_lt.mpr hseen)
    · rintro ⟨-, hseen, -⟩
      exact absurd (hnone _ le_rfl) (not_lt.mpr hseen)

end

def proofRequest : Json := .obj [("thread_id", .str "t"), ("pres_ex_id", .str "e")]

/-- The store as the polls find it when the message comes just before the second one. -/
def pushedBeforeSecond (n : ℕ) : Store :=
  if ((1 : ℕ) : WithTop ℕ) ≤ (n : ℕ) then
    (pushResource (.str "t") "presentation-msg" proofRequest (some "pres_ex_id") empty).2 else empty

theorem webhook_before_second :
    Webhook "t" "presentation-msg" "pres_ex_id" (.str "e") (fun n : ℕ => n) ((1 : ℕ) : WithTop ℕ)
      pushedBeforeSecond :=
  webhook_of_push (by decide) (by decide) (by decide)

/-- One second of waiting is too short for a message that comes within it, two are not. -/
theorem swap_before_wait_ends :
    Promised 2 1 (.str "e") (fun n : ℕ => n) ((1 : ℕ) : WithTop ℕ)
      (swapThreadIdForExchangeId "t" "presentation-msg" "pres_ex_id" 2 1 pushedBeforeSecond 0 0) ↔
      ¬ (1 ∣ 2 ∧ FirstSeen (fun n : ℕ => n) ((1 : ℕ) : WithTop ℕ) (2 / 1)) :=
  swap_promised_iff 2 1 webhook_before_second

theorem swap_loses_last_poll :
    ¬ ∀ (threadId dataType idTxt : Str) (waitTime sleepTime : ℕ+) (exId : Json) (clock : ℕ → ℕ)
      (arrival : WithTop ℕ) (stores : ℕ → Store),
      Webhook threadId dataType idTxt exId clock arrival stores →
      Promised waitTime sleepTime exId clock arrival
        (swapThreadIdForExchangeId threadId dataType idTxt waitTime sleepTime stores 0 0) := by
  intro h
  have promised := h "t" "presentation-msg" "pres_ex_id" 1 1 (.str "e") (fun n => n) (1 : ℕ)
    pushedBeforeSecond webhook_before_second
  have hfirst : FirstSeen (fun n : ℕ => n) ((1 : ℕ) : WithTop ℕ) 1 :=
    ⟨le_rfl, fun m hm => WithTop.coe_lt_coe.mpr hm⟩
  rw [swap_of_first webhook_before_second (by decide) hfirst] at promised
  simpa using promised.1 ⟨1, by decide, le_rfl⟩

end AgentTestHarness.SwapPolls
