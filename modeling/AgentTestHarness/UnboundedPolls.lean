import AgentTestHarness.SwapPolls

/-! The waiting loop of the AFGO backchannel's `swap_thread_id_for_exchange_id`. It goes on while
nothing was found or the timeout is exactly twenty, so the timeout after it is never reached: it
waits as long as the message takes, and when that is twenty seconds it polls for ever. -/
namespace AgentTestHarness.UnboundedPolls
open PyText PyJson Storage SwapPolls
open ResponsePolls (firstItem)

def timeoutEnd : ℕ := 20

def afterLoop (timeout : ℕ) (exId : Option Json) : Except PyError Json :=
  if timeout = timeoutEnd then .error .timeoutError
  else match exId with
    | some exId => .ok exId
    | none => .error .unboundLocalError

/-- The loop from its `n`th poll on, as far as the fuel goes; `exId` is set together with
`webcall_returned`. -/
def swapThreadIdForExchangeId (threadId dataType idTxt : Str) (stores : ℕ → Store) :
    (fuel n timeout : ℕ) → (exId : Option Json) → Option Call
  | 0, _, _, _ => none
  | fuel + 1, n, timeout, exId =>
    if exId = none ∨ timeout = timeoutEnd then
      match getResource (.str threadId) dataType (stores n) with
      | .error e => some ⟨.error e, n + 1⟩
      | .ok msg => match firstItem msg >>= fun m => m.item idTxt with
        | .ok exId =>
            swapThreadIdForExchangeId threadId dataType idTxt stores fuel (n + 1) timeout (some exId)
        | .error .typeError =>
            swapThreadIdForExchangeId threadId dataType idTxt stores fuel (n + 1) (timeout + 1) exId
        | .error e => some ⟨.error e, n + 1⟩
    else some ⟨afterLoop timeout exId, n⟩

section

variable {T : Type*} [LinearOrder T]

/-- The call ends after at most twenty polls, with the exchange id if one of them saw the message
and with a timeout if none did. -/
def Promised (exId : Json) (clock : ℕ → T) (arrival : WithTop T)
    (call : (fuel : ℕ) → Option Call) : Prop :=
  ∃ fuel c, call fuel = some c ∧ c.polls ≤ timeoutEnd ∧
    ((∃ n < c.polls, arrival ≤ clock n) → c.result = .ok exId) ∧
    ((∀ n < c.polls, clock n < arrival) → c.result = .error .timeoutError)

variable {threadId dataType idTxt : Str} {exId : Json} {clock : ℕ → T} {arrival : WithTop T}
  {stores : ℕ → Store}

theorem swap_of_unseen (h : Webhook threadId dataType idTxt exId clock arrival stores)
    {n : ℕ} (hn : clock n < arrival) (fuel timeout : ℕ) :
    swapThreadIdForExchangeId threadId dataType idTxt stores (fuel + 1) n timeout none =
      swapThreadIdForExchangeId threadId dataType idTxt stores fuel (n + 1) (timeout + 1) none := by
  have hget : getResource (.str threadId) dataType (stores n) = .ok .null := by
    simp [getResource, Json.asKey, h.before n hn]
  rw [swapThreadIdForExchangeId, if_pos (.inl rfl), hget]
  rfl

theorem swap_of_seen (h : Webhook threadId dataType idTxt exId clock arrival stores)
    {n timeout : ℕ} {found : Option Json} (hn : arrival ≤ clock n)
    (hloop : found = none ∨ timeout = timeoutEnd) (fuel : ℕ) :
    swapThreadIdForExchangeId threadId dataType idTxt stores (fuel + 1) n timeout found =
      swapThreadIdForExchangeId threadId dataType idTxt stores fuel (n + 1) timeout
        (some exId) := by
  obtain ⟨m, ms, hslot, hid⟩ := h.since n hn
  have hget : getResource (.str threadId) dataType (stores n) = .ok (.arr (m :: ms)) := by
    simp [getResource, Json.asKey, hslot]
  have hfirst : (firstItem (.arr (m :: ms)) >>= fun m => m.item idTxt) = .ok exId := hid
  rw [swapThreadIdForExchangeId, if_pos hloop, hget]
  simp only [hfirst]

/-- The loop goes on to its `n + d`th poll as long as none before it sees the message. -/
theorem swap_skip (h : Webhook threadId dataType idTxt exId clock arrival stores) (fuel n d : ℕ)
    (hunseen : ∀ m < n + d, clock m < arrival) :
    swapThreadIdForExchangeId threadId dataType idTxt stores (fuel + d) n n none =
      swapThreadIdForExchangeId threadId dataType idTxt stores fuel (n + d) (n + d) none := by
  induction d generalizing n with
  | zero => rfl
  | succ d ih =>
    have hsum : n + 1 + d = n + (d + 1) := by omega
    have hnext := ih (n + 1) (hsum ▸ hunseen)
    rw [hsum] at hnext
    exact (swap_of_unseen h (hunseen n (by omega)) (fuel + d) n).trans hnext

/-- A call that ends has made the polls up to the one it started from. -/
theorem le_polls {fuel n timeout : ℕ} {found : Option Json} {c : Call}
    (h : swapThreadIdForExchangeId threadId dataType idTxt stores fuel n timeout found =
      some c) : n ≤ c.polls := by
  induction fuel generalizing n timeout found with
  | zero => cases h
  | succ fuel ih =>
    rw [swapThreadIdForExchangeId] at h
    split at h
    · split at h
      · obtain rfl := Option.some.inj h
        exact Nat.le_succ n
      · split at h
        · exact (Nat.le_succ n).trans (ih h)
        · exact (Nat.le_succ n).trans (ih h)
        · obtain rfl := Option.some.inj h
          exact Nat.le_succ n
    · obtain rfl := Option.some.inj h
      exact le_rfl

/-- The first twenty polls without a message are followed by another one. -/
theorem lt_polls (h : Webhook threadId dataType idTxt exId clock arrival stores)
    (hunseen : ∀ n < timeoutEnd, clock n < arrival) {fuel : ℕ} {c : Call}
    (hrun : swapThreadIdForExchangeId threadId dataType idTxt stores fuel 0 0 none = some c) :
    timeoutEnd < c.polls := by
  rcases Nat.lt_or_ge fuel (timeoutEnd + 1) with hshort | hlong
  · have hskip := swap_skip h 0 0 fuel fun m hm => hunseen m (by omega)
    rw [Nat.zero_add, hrun, swapThreadIdForExchangeId] at hskip
    cases hskip
  · obtain ⟨rest, rfl⟩ := Nat.exists_eq_add_of_le hlong
    have hskip := swap_skip h (rest + 1) 0 timeoutEnd fun m hm => hunseen m (by omega)
    have hfuel : timeoutEnd + 1 + rest = rest + 1 + timeoutEnd := by omega
    rw [Nat.zero_add, ← hfuel, hrun] at hskip
    rcases le_or_gt arrival (clock timeoutEnd) with hseen | hlate
    · rw [swap_of_seen h hseen (.inl rfl)] at hskip
      exact le_polls hskip.symm
    · rw [swap_of_unseen h hlate] at hskip
      exact le_polls hskip.symm

/-- Without a message the call never ends. -/
theorem swap_of_never (h : Webhook threadId dataType idTxt exId clock arrival stores)
    (hunseen : ∀ n, clock n < arrival) (fuel : ℕ) :
    swapThreadIdForExchangeId threadId dataType idTxt stores fuel 0 0 none = none := by
  have hskip := swap_skip h 0 0 fuel fun m _ => hunseen m
  rw [Nat.zero_add] at hskip
  rw [hskip, swapThreadIdForExchangeId]

/-- The first poll that sees the message is the last one, after however many, but not the poll
at the timeout. -/
theorem swap_of_first (h : Webhook threadId dataType idTxt exId clock arrival stores) {n : ℕ}
    (hn : n ≠ timeoutEnd) (hfirst : FirstSeen clock arrival n) (fuel : ℕ) :
    swapThreadIdForExchangeId threadId dataType idTxt stores (fuel + 2 + n) 0 0 none =
      some ⟨.ok exId, n + 1⟩ := by
  have hend : ¬ (some exId = none ∨ n = timeoutEnd) := by simp [hn]
  have hskip := swap_skip h (fuel + 2) 0 n fun m hm => hfirst.2 m (by omega)
  rw [Nat.zero_add] at hskip
  rw [hskip, swap_of_seen h hfirst.1 (.inl rfl), swapThreadIdForExchangeId, if_neg hend,
    afterLoop, if_neg hn]

/-- A message that the poll at the timeout is the first to see is found over and over again. -/
theorem swap_at_end (h : Webhook threadId dataType idTxt exId clock arrival stores)
    (hfirst : FirstSeen clock arrival timeoutEnd) (hstays : ∀ n ≥ timeoutEnd, arrival ≤ clock n)
    (fuel : ℕ) :
    swapThreadIdForExchangeId threadId dataType idTxt stores (fuel + timeoutEnd) 0 0 none =
      none := by
  have hloop : ∀ n found, timeoutEnd ≤ n →
      swapThreadIdForExchangeId threadId dataType idTxt stores fuel n timeoutEnd found = none := by
    induction fuel with
    | zero => exact fun _ _ _ => rfl
    | succ fuel ih =>
      intro n found hn
      rw [swap_of_seen h (hstays n hn) (.inr rfl)]
      exact ih (n + 1) _ (by omega)
  have hskip := swap_skip h fuel 0 timeoutEnd fun m hm => hfirst.2 m (by omega)
  rw [Nat.zero_add] at hskip
  rw [hskip, hloop _ _ le_rfl]

/-- The call keeps its promises just if one of its first twenty polls sees the message. -/
theorem swap_bounded_iff (h : Webhook threadId dataType idTxt exId clock arrival stores) :
    Promised exId clock arrival
      (fun fuel => swapThreadIdForExchangeId threadId dataType idTxt stores fuel 0 0 none) ↔
      ∃ n < timeoutEnd, arrival ≤ clock n := by
  rcases first_or_none clock arrival (timeoutEnd - 1) with ⟨n, hn, hfirst⟩ | hnone
  · have hlt : n < timeoutEnd := by unfold timeoutEnd at *; omega
    refine iff_of_true ?_ ⟨n, hlt, hfirst.1⟩
    refine ⟨0 + 2 + n, _, swap_of_first h hlt.ne hfirst 0, hlt, fun _ => rfl, fun hall => ?_⟩
    exact absurd (hall n (Nat.lt_succ_self n)) (not_lt.mpr hfirst.1)
  · have hunseen : ∀ n < timeoutEnd, clock n < arrival :=
      fun n hn => hnone n (Nat.le_sub_one_of_lt hn)
    refine iff_of_false ?_ ?_
    · rintro ⟨fuel, c, hrun, hpolls, -⟩
      exact absurd hpolls (Nat.not_le.mpr (lt_polls h hunseen hrun))
    · rintro ⟨n, hn, hseen⟩
      exact absurd (hunseen n hn) (not_lt.mpr hseen)

end

/-- A message that is there at the second poll. -/
theorem swap_bounded_second :
    Promised (.str "e") (fun n : ℕ => n) ((1 : ℕ) : WithTop ℕ) (fun fuel =>
      swapThreadIdForExchangeId "t" "presentation-msg" "pres_ex_id" pushedBeforeSecond fuel 0 0
        none) ↔ ∃ n < timeoutEnd, ((1 : ℕ) : WithTop ℕ) ≤ (n : ℕ) :=
  swap_bounded_iff webhook_before_second

theorem swap_waits_for_ever :
    ¬ ∀ (threadId dataType idTxt : Str) (exId : Json) (clock : ℕ → ℕ) (arrival : WithTop ℕ)
      (stores : ℕ → Store), Webhook threadId dataType idTxt exId clock arrival stores →
      Promised exId clock arrival fun fuel =>
        swapThreadIdForExchangeId threadId dataType idTxt stores fuel 0 0 none := by
  intro h
  have hnever : Webhook "t" "presentation-msg" "pres_ex_id" (.str "e") (fun n : ℕ => n) ⊤
      fun _ => empty :=
    ⟨fun _ _ => rfl, fun n hn => absurd hn (not_le.mpr (WithTop.coe_lt_top n))⟩
  obtain ⟨fuel, c, hrun, -⟩ := h _ _ _ _ _ _ _ hnever
  have hnone := swap_of_never hnever (fun n => WithTop.coe_lt_top n) fuel
  exact absurd (hnone.symm.trans hrun) (by simp)

end AgentTestHarness.UnboundedPolls
