import AgentTestHarness.PollAccounting

/-! A command that swaps a thread id for an exchange id reads the head of the queue that the
response polls consume: it gets the id as long as the polls leave a message. -/
namespace AgentTestHarness.ExchangeSwaps
open PyText PyJson Storage ResponsePolls PollAccounting Runs

section

variable (threadId dataType idTxt : Str) (exId : Json)

/-- Every message pushed for the thread carries the exchange id. -/
def OnlyExchange (s : System) : Prop :=
  ∀ m ∈ s.pushedUnder (.str threadId) dataType, m.item idTxt = .ok exId

/-- A swap made after a message was pushed has the exchange id; one made before waits, and ends
with the exchange id or with its timeout. -/
def Answered (w : Swap) : Prop :=
  if w.received then w.state = .returned (.ok exId)
  else (∃ timeout, w.state = .sleeping timeout) ∨ w.state = .returned (.ok exId) ∨
    w.state = .returned (.error .timeoutError)

def SwapsAnswered (s : System) : Prop :=
  ∀ w ∈ s.swaps, w.threadId = threadId → w.dataType = dataType → w.idTxt = idTxt →
    Answered exId w

/-- Nothing was pushed for the thread yet, or the polls have left a message. -/
def NotDrained (s : System) : Prop :=
  s.pushedUnder (.str threadId) dataType = [] ∨ s.store.queue (.str threadId) dataType ≠ []

/-- A swap of the thread looks at the store while it is not drained. -/
def Timely (s : System) : Event → Prop
  | .swap t d name => t = threadId → d = dataType → name = idTxt → NotDrained threadId dataType s
  | .resume n => ∀ w timeout, s.swaps[n]? = some w → w.threadId = threadId →
      w.dataType = dataType → w.idTxt = idTxt → w.state = .sleeping timeout → timeout < waitTime →
        NotDrained threadId dataType s
  | _ => True

end

variable {threadId dataType idTxt : Str} {exId : Json} {s t : System}

/-! One look at the store. -/

theorem swap_of_no_push (h : Balanced s) {timeout : ℕ} (htime : timeout ≤ waitTime)
    (hpushed : s.pushedUnder (.str threadId) dataType = []) :
    swapThreadIdForExchangeId threadId dataType idTxt timeout s.store = .sleeping timeout := by
  have hslot := (h.seen (.str threadId) dataType).mpr hpushed
  have hget : getResource (.str threadId) dataType s.store = .ok .null := by
    simp [getResource, Json.asKey, hslot]
  unfold swapThreadIdForExchangeId
  rw [if_neg (by omega), hget]
  rfl

theorem swap_of_queue (h : Balanced s) (only : OnlyExchange threadId dataType idTxt exId s)
    {timeout : ℕ} (htime : timeout ≤ waitTime)
    (hqueue : s.store.queue (.str threadId) dataType ≠ []) :
    swapThreadIdForExchangeId threadId dataType idTxt timeout s.store =
      if waitTime ≤ timeout then .returned (.error .timeoutError) else .returned (.ok exId) := by
  have hslot := slot_of_queue_ne_nil hqueue
  obtain ⟨m, ms, hm⟩ := List.exists_cons_of_ne_nil hqueue
  have hitem : m.item idTxt = .ok exId := by
    refine only m ?_
    rw [h.account, hm]
    exact List.mem_append_right _ List.mem_cons_self
  have hget : getResource (.str threadId) dataType s.store = .ok (.arr (m :: ms)) := by
    simp [getResource, Json.asKey, hslot, hm]
  have hfirst : (firstItem (.arr (m :: ms)) >>= fun m => m.item idTxt) = .ok exId := hitem
  unfold swapThreadIdForExchangeId
  rw [if_neg (by omega), hget]
  simp only [hfirst]

theorem swap_of_drained (h : Balanced s) {timeout : ℕ} (htime : timeout ≤ waitTime)
    (hdrained : ¬ NotDrained threadId dataType s) :
    swapThreadIdForExchangeId threadId dataType idTxt timeout s.store =
      .returned (.error .indexError) := by
  obtain ⟨hpushed, hqueue⟩ := not_or.mp hdrained
  have hslot : s.store.slot (.str threadId) dataType = some (.arr []) := by
    obtain ⟨v, hv⟩ := Option.ne_none_iff_exists'.mp
      (mt (h.seen (.str threadId) dataType).mp hpushed)
    obtain ⟨ms, rfl⟩ := h.queued dataType _ v hv
    have hms : ms = [] := by simpa [Store.queue, hv] using hqueue
    rw [hv, hms]
  have hget : getResource (.str threadId) dataType s.store = .ok (.arr []) := by
    simp [getResource, Json.asKey, hslot]
  unfold swapThreadIdForExchangeId
  rw [if_neg (by omega), hget]
  rfl

theorem swap_of_late {timeout : ℕ} (htime : waitTime < timeout) :
    swapThreadIdForExchangeId threadId dataType idTxt timeout s.store =
      .returned (.error .timeoutError) := if_pos htime

/-- A new swap gets what it should just if the thread is not drained. -/
theorem answered_swap (h : Balanced s) (only : OnlyExchange threadId dataType idTxt exId s) :
    Answered exId ⟨threadId, dataType, idTxt, s.pushedUnder (.str threadId) dataType ≠ [],
      swapThreadIdForExchangeId threadId dataType idTxt 0 s.store⟩ ↔
      NotDrained threadId dataType s := by
  by_cases hdrained : NotDrained threadId dataType s
  · refine iff_of_true ?_ hdrained
    rcases eq_or_ne (s.pushedUnder (.str threadId) dataType) [] with hpushed | hpushed
    · simp [Answered, hpushed, swap_of_no_push h (Nat.zero_le _) hpushed]
    · have hswap := swap_of_queue h only (Nat.zero_le _) (hdrained.resolve_left hpushed)
      simp [Answered, hpushed, hswap, waitTime]
  · refine iff_of_false ?_ hdrained
    have hpushed := (not_or.mp hdrained).1
    simp [Answered, hpushed, swap_of_drained h (Nat.zero_le _) hdrained]

/-- A swap that has slept gets what it should just if it is too late or the thread is not
drained. -/
theorem answered_resume (h : Balanced s) (only : OnlyExchange threadId dataType idTxt exId s)
    (timeout : ℕ) :
    Answered exId ⟨threadId, dataType, idTxt, false,
      swapThreadIdForExchangeId threadId dataType idTxt (timeout + 1) s.store⟩ ↔
      (timeout < waitTime → NotDrained threadId dataType s) := by
  rcases Nat.lt_or_ge timeout waitTime with hlt | hge
  · have htime : timeout + 1 ≤ waitTime := hlt
    by_cases hdrained : NotDrained threadId dataType s
    · refine iff_of_true ?_ fun _ => hdrained
      rcases hdrained with hpushed | hqueue
      · simp [Answered, swap_of_no_push h htime hpushed]
      · rw [swap_of_queue h only htime hqueue]
        split <;> simp [Answered]
    · refine iff_of_false ?_ fun hc => hdrained (hc hlt)
      simp [Answered, swap_of_drained h htime hdrained]
  · refine iff_of_true ?_ fun hlt => absurd hlt (by omega)
    rw [swap_of_late (by omega)]
    simp [Answered]

/-- A step keeps the swaps answered just if it is timely. -/
theorem step_answered (h : Balanced s) (only : OnlyExchange threadId dataType idTxt exId s)
    {e : Event} (next : step s e = some t)
    (answered : SwapsAnswered threadId dataType idTxt exId s) :
    SwapsAnswered threadId dataType idTxt exId t ↔ Timely threadId dataType idTxt s e := by
  have unchanged : t.swaps = s.swaps →
      SwapsAnswered threadId dataType idTxt exId t := fun hs w hw => answered w (hs ▸ hw)
  cases steps_of_step next with
  | swap a b c =>
    constructor
    · rintro ht rfl rfl rfl
      exact (answered_swap h only).mp (ht _ (by simp) rfl rfl rfl)
    · intro timely w hw ha hb hc
      rcases List.mem_append.mp hw with hw | hw
      · exact answered w hw ha hb hc
      · obtain rfl := List.mem_singleton.mp hw
        obtain rfl : a = threadId := ha
        obtain rfl : b = dataType := hb
        obtain rfl : c = idTxt := hc
        exact (answered_swap h only).mpr (timely rfl rfl rfl)
  | @resume n w timeout hw hstate =>
    obtain ⟨hn, hget⟩ := List.getElem?_eq_some_iff.mp hw
    have hmem : w ∈ s.swaps := hget ▸ List.getElem_mem hn
    obtain ⟨a, b, c, received, state⟩ := w
    obtain rfl : state = .sleeping timeout := hstate
    have hearly : a = threadId → b = dataType → c = idTxt → received = false := by
      intro ha hb hc
      have hanswered := answered _ hmem ha hb hc
      cases received with
      | false => rfl
      | true => simp [Answered] at hanswered
    constructor
    · rintro ht w timeout' hw' rfl rfl rfl hstate' hlt
      obtain rfl := Option.some.inj (hw.symm.trans hw')
      obtain rfl : timeout = timeout' := by simpa using hstate'
      obtain rfl := hearly rfl rfl rfl
      exact (answered_resume h only timeout).mp
        (ht _ (List.mem_set hn _) rfl rfl rfl) hlt
    · intro timely w hw' ha hb hc
      rcases List.mem_or_eq_of_mem_set hw' with hw' | rfl
      · exact answered w hw' ha hb hc
      · obtain rfl : a = threadId := ha
        obtain rfl : b = dataType := hb
        obtain rfl : c = idTxt := hc
        obtain rfl := hearly rfl rfl rfl
        exact (answered_resume h only timeout).mpr
          fun hlt => timely _ timeout hw rfl rfl rfl rfl hlt
  | rejected _ => exact iff_of_true (unchanged rfl) trivial
  | pushed _ => exact iff_of_true (unchanged rfl) trivial
  | fetches _ => exact iff_of_true (unchanged rfl) trivial
  | failed _ _ => exact iff_of_true (unchanged rfl) trivial
  | fetched _ _ => exact iff_of_true (unchanged rfl) trivial
  | answers _ => exact iff_of_true (unchanged rfl) trivial
  | poll _ => exact iff_of_true (unchanged rfl) trivial
  | wake _ _ => exact iff_of_true (unchanged rfl) trivial

/-- Throughout a run in which a thread has one exchange id, all swaps of it are answered with
the id, or wait for it, if and only if each looks at the store while it is not drained. -/
theorem swaps_answered_iff_timely (threadId dataType idTxt : Str) (exId : Json)
    (es : List Event)
    (only : Throughout step start (OnlyExchange threadId dataType idTxt exId) es) :
    Throughout step start (SwapsAnswered threadId dataType idTxt exId) es ↔
      StepsMeet step start (Timely threadId dataType idTxt) es := by
  have assumed : Throughout step start
      (fun s => Balanced s ∧ OnlyExchange threadId dataType idTxt exId s) es :=
    fun before s hp run => ⟨(run.invariant start_accounts Accounts.step).toBalanced, only hp run⟩
  exact throughout_iff_of_throughout assumed (by simp [SwapsAnswered, start])
    fun hs _ answered next => step_answered hs.1 hs.2 next answered

instance (threadId dataType idTxt : Str) (exId : Json) :
    DecidablePred (OnlyExchange threadId dataType idTxt exId) :=
  fun _ => List.decidableBAll _ _

def credentialOffer : Json := .obj [("thread_id", .str "t"), ("cred_ex_id", .str "e")]

/-- A response poll takes the only credential of a thread, then a command asks for its id. -/
def pollThenSwap : List Event :=
  [.webhook "issue_credential_v2_0".toList credentialOffer,
    .poll "issue-credential".toList (some "t"), .swap "t" "credential-msg" "cred_ex_id"]

def swapThenPoll : List Event :=
  [.webhook "issue_credential_v2_0".toList credentialOffer,
    .swap "t" "credential-msg" "cred_ex_id", .poll "issue-credential".toList (some "t")]

theorem swap_before_poll_answered_iff_timely :
    Throughout step start (SwapsAnswered "t" "credential-msg" "cred_ex_id" (.str "e"))
      swapThenPoll ↔
      StepsMeet step start (Timely "t" "credential-msg" "cred_ex_id") swapThenPoll :=
  swaps_answered_iff_timely "t" "credential-msg" "cred_ex_id" (.str "e") swapThenPoll
    (throughout_of_inits (by decide +kernel))

/-- Once the polls have taken all messages of a thread the swap raises an IndexError. -/
theorem swap_raises_after_poll :
    ¬ ∀ (threadId dataType idTxt : Str) (exId : Json) (es : List Event),
      Throughout step start (OnlyExchange threadId dataType idTxt exId) es →
      Throughout step start (SwapsAnswered threadId dataType idTxt exId) es := by
  intro h
  have final : (exec step start pollThenSwap).map System.swaps =
      some [⟨"t", "credential-msg", "cred_ex_id", true, .returned (.error .indexError)⟩] := by
    decide +kernel
  obtain ⟨s, hs, hswaps⟩ := Option.map_eq_some_iff.mp final
  have answered := h "t" "credential-msg" "cred_ex_id" (.str "e") pollThenSwap
    (throughout_of_inits (by decide +kernel)) List.prefix_rfl (run_of_exec hs)
  have := answered _ (by rw [hswaps]; exact List.mem_cons_self) rfl rfl rfl
  simp [Answered] at this

end AgentTestHarness.ExchangeSwaps
