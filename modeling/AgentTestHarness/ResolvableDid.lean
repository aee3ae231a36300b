import AgentTestHarness.PollErrors

/-! The command receive-request-resolvable-did, which has no id and waits for the newest message
of the store while webhooks and polls go on. -/
namespace AgentTestHarness.ResolvableDid
open PyText PyJson JsonWriting JsonRoundTrip Storage StateTranslation Webhooks Runs
open ResponsePolls (System maxTimeout)
open PollAccounting (Balanced Accounts truthy_of_nonemptyObject)
open PollErrors (PollState afterPop Translatable respond_ok_iff)

/-- The store and the polls around the command, how far it is, and what it took from the store,
each with its data type. -/
structure Command where
  world : System
  phase : PollState
  taken : List (Str × Json)

def called (s : System) : Command := ⟨s, .sleeping 0, []⟩

/-- The data type that is looked up after some attempts. The name of the message is used once. -/
def dataTypeAt (messageName : Option Str) : ℕ → Str
  | 0 => match messageName with
    | some name => name
    | none => "connection-msg"
  | _ + 1 => "connection-msg"

def takenOf (dataType : Str) : Except PyError Json → List (Str × Json)
  | .error _ => []
  | .ok .null => []
  | .ok m => [(dataType, m)]

/-- `make_agent_GET_request_response` without an id, from the end of one sleep to the next. -/
def Command.attempt (c : Command) (messageName : Option Str) (i : ℕ) : Command :=
  let result := popResourceLatest (dataTypeAt messageName i) c.world.store
  { world := { c.world with store := result.2 }
    phase := afterPop "did-exchange".toList i result.1
    taken := c.taken ++ takenOf (dataTypeAt messageName i) result.1 }

inductive Event
  | world (e : ResponsePolls.Event)
  | wake
  deriving DecidableEq

def step (c : Command) : Event → Option Command
  | .world e => (ResponsePolls.step c.world e).map fun w => { c with world := w }
  | .wake => match c.phase with
    | .sleeping i => some (c.attempt (some "didexchange-msg") i)
    | .answered _ => none

def Command.Finished (c : Command) : Prop := ∃ answer, c.phase = .answered answer

/-- The command took the message and nothing else, and answered it with its state translated. -/
def Command.AnswersWith (c : Command) (m : Json) : Prop :=
  c.taken = [(("didexchange-msg" : Str), m)] ∧ ∃ text,
    Acapy.agentStateTranslation "did-exchange".toList (dumps m) = .ok text ∧
      c.phase = .answered (.ok (200, text))

/-- A message of the did exchange comes while the command waits. -/
def Arrives (s : System) (m : Json) (es : List Event) : Prop :=
  (∃ id, handleConnections m = .ok [⟨id, "didexchange-msg", m, none⟩]) ∧
    ∃ before after u i, es = before ++ .world (.webhook "connections".toList m) :: after ∧
      Run step (called s) before u ∧ u.phase = .sleeping i

/-- What happens before the first attempt. -/
def beforeFirst (es : List Event) : List Event := es.takeWhile fun e => decide (e ≠ .wake)

/-- The data id that came into the store last has the message as its newest of the type. -/
def NewestUnderLastId (s : Store) (m : Json) : Prop :=
  ∃ key, s.storage.keys.getLast? = some key ∧ (s.queue key "didexchange-msg").getLast? = some m

/-! What an attempt does. -/

section Attempts

variable {c : Command} {messageName : Option Str} {i : ℕ}

theorem attempt_of_empty (balanced : Balanced c.world)
    (hkeys : c.world.store.storage.keys.getLast? = none) :
    c.attempt messageName i = { c with phase := .answered (.error .indexError) } := by
  have hpop := popResourceLatest_of_queued (balanced.queued (dataTypeAt messageName i))
  rw [hkeys] at hpop
  simp [Command.attempt, hpop, takenOf, afterPop]

theorem attempt_of_none (balanced : Balanced c.world) {key : Json}
    (hkeys : c.world.store.storage.keys.getLast? = some key)
    (hqueue : (c.world.store.queue key (dataTypeAt messageName i)).getLast? = none) :
    c.attempt messageName i =
      { c with phase := afterPop "did-exchange".toList i (.ok .null) } := by
  have hpop := popResourceLatest_of_queued (balanced.queued (dataTypeAt messageName i))
  rw [hkeys] at hpop
  dsimp only at hpop
  rw [hqueue] at hpop
  simp [Command.attempt, hpop, takenOf]

theorem attempt_of_some (balanced : Balanced c.world) {key m : Json}
    (hkeys : c.world.store.storage.keys.getLast? = some key)
    (hqueue : (c.world.store.queue key (dataTypeAt messageName i)).getLast? = some m) :
    c.attempt messageName i =
      { world := { c.world with
          store := c.world.store.setSlot key (dataTypeAt messageName i)
            (.arr (c.world.store.queue key (dataTypeAt messageName i)).dropLast) }
        phase := .answered (ResponsePolls.respond "did-exchange".toList m)
        taken := c.taken ++ [(dataTypeAt messageName i, m)] } := by
  have hpop := popResourceLatest_of_queued (balanced.queued (dataTypeAt messageName i))
  rw [hkeys] at hpop
  dsimp only at hpop
  rw [hqueue] at hpop
  obtain ⟨ms, rfl, -⟩ := balanced.object_of_mem_queue (List.mem_of_getLast? hqueue)
  simp [Command.attempt, hpop, takenOf, afterPop]

/-- What an attempt takes has the type that it looks for. -/
theorem taken_attempt : ∃ l, (c.attempt messageName i).taken = c.taken ++ l ∧
    ∀ x ∈ l, x.1 = dataTypeAt messageName i := by
  refine ⟨_, rfl, ?_⟩
  unfold takenOf
  split
  · simp
  · simp
  · simp

theorem phase_attempt {j : ℕ} (h : (c.attempt messageName i).phase = .sleeping j) :
    j = i + 1 ∧ i < maxTimeout := by
  have hphase : (c.attempt messageName i).phase = afterPop "did-exchange".toList i
      (popResourceLatest (dataTypeAt messageName i) c.world.store).1 := rfl
  rw [hphase] at h
  unfold afterPop at h
  split at h
  · cases h
  · split at h
    · next hcond =>
      exact ⟨(PollState.sleeping.inj h).symm, hcond.2⟩
    · cases h

end Attempts

/-! Runs. -/

theorem step_world {c d : Command} {e : ResponsePolls.Event} (next : step c (.world e) = some d) :
    ∃ w, ResponsePolls.step c.world e = some w ∧ d = { c with world := w } := by
  obtain ⟨w, hw, rfl⟩ := Option.map_eq_some_iff.mp next
  exact ⟨w, hw, rfl⟩

theorem step_wake {c d : Command} (next : step c .wake = some d) :
    ∃ i, c.phase = .sleeping i ∧ d = c.attempt (some "didexchange-msg") i := by
  simp only [step] at next
  split at next
  · next i hphase => exact ⟨i, hphase, (Option.some.inj next).symm⟩
  · cases next

theorem sleeping_or_finished (c : Command) : (∃ i, c.phase = .sleeping i) ∨ c.Finished := by
  cases hphase : c.phase with
  | sleeping i => exact .inl ⟨i, rfl⟩
  | answered answer => exact .inr ⟨answer, hphase⟩

theorem count_snoc_world (es : List Event) (e : ResponsePolls.Event) :
    (es ++ [Event.world e]).count .wake = es.count .wake := by simp

theorem count_snoc_wake (es : List Event) :
    (es ++ [Event.wake]).count .wake = es.count .wake + 1 := by simp

/-- The command sleeps before each attempt, and makes six at most. -/
theorem attempts_of_run {s : System} {es : List Event} {c : Command}
    (run : Run step (called s) es c) :
    (∃ i, c.phase = .sleeping i ∧ es.count .wake = i ∧ i ≤ maxTimeout) ∨
      c.Finished ∧ es.count .wake ≤ maxTimeout + 1 := by
  refine run.history (I := fun es c => (∃ i, c.phase = .sleeping i ∧ es.count .wake = i ∧
    i ≤ maxTimeout) ∨ c.Finished ∧ es.count .wake ≤ maxTimeout + 1)
    (.inl ⟨0, rfl, rfl, Nat.zero_le _⟩) fun {es c e d} h next => ?_
  cases e with
  | world e =>
    obtain ⟨w, -, rfl⟩ := step_world next
    rw [count_snoc_world]
    exact h
  | wake =>
    obtain ⟨i, hphase, rfl⟩ := step_wake next
    rw [count_snoc_wake]
    rcases h with ⟨j, hj, hcount, hle⟩ | ⟨⟨answer, hanswer⟩, -⟩
    · obtain rfl := PollState.sleeping.inj (hphase.symm.trans hj)
      rcases sleeping_or_finished (c.attempt (some "didexchange-msg") i) with ⟨k, hk⟩ | hfinished
      · obtain ⟨rfl, hlt⟩ := phase_attempt hk
        exact .inl ⟨i + 1, hk, congrArg (· + 1) hcount, hlt⟩
      · exact .inr ⟨hfinished, by omega⟩
    · exact absurd (hphase.symm.trans hanswer) PollState.noConfusion

/-- Before its first attempt the command leaves the world alone. -/
theorem untouched_of_run {s : System} (accounts : Accounts s) {es : List Event} {c : Command}
    (run : Run step (called s) es c) (hwake : .wake ∉ es) :
    Accounts c.world ∧ c.phase = .sleeping 0 ∧ c.taken = [] := by
  refine run.invariant_on (Q := fun e => e ≠ .wake) (I := fun c => Accounts c.world ∧
    c.phase = .sleeping 0 ∧ c.taken = []) ⟨accounts, rfl, rfl⟩ (fun {c e d} h hne next => ?_)
    fun e he hw => hwake (hw ▸ he)
  cases e with
  | world e =>
    obtain ⟨w, hw, rfl⟩ := step_world next
    exact ⟨h.1.step hw, h.2⟩
  | wake => exact absurd rfl hne

/-- What comes after the answer does not change it. -/
theorem finished_of_run {c d : Command} {answer : Except PyError (ℕ × Text)} {es : List Event}
    (hphase : c.phase = .answered answer) (run : Run step c es d) :
    d.phase = .answered answer ∧ d.taken = c.taken := by
  refine run.invariant (I := fun d => d.phase = .answered answer ∧ d.taken = c.taken)
    ⟨hphase, rfl⟩ fun {d e d'} h next => ?_
  cases e with
  | world e =>
    obtain ⟨w, -, rfl⟩ := step_world next
    exact h
  | wake =>
    obtain ⟨i, hsleeping, -⟩ := step_wake next
    exact absurd (h.1.symm.trans hsleeping) PollState.noConfusion

/-- After its first attempt the command takes connection messages. -/
theorem taken_of_run {c d : Command} {i : ℕ} {es : List Event} (run : Run step c es d)
    (hphase : c.phase = .sleeping (i + 1)) (htaken : c.taken = []) :
    ∀ x ∈ d.taken, x.1 = ("connection-msg" : Str) := by
  refine (run.invariant (I := fun d => (∀ j, d.phase = .sleeping j → j ≠ 0) ∧
    ∀ x ∈ d.taken, x.1 = ("connection-msg" : Str)) ⟨?_, ?_⟩ fun {d e d'} h next => ?_).2
  · intro j hj
    obtain rfl := PollState.sleeping.inj (hphase.symm.trans hj)
    exact Nat.succ_ne_zero i
  · rw [htaken]
    exact List.forall_mem_nil _
  · cases e with
    | world e =>
      obtain ⟨w, -, rfl⟩ := step_world next
      exact h
    | wake =>
      obtain ⟨j, hj, rfl⟩ := step_wake next
      obtain ⟨k, rfl⟩ := Nat.exists_eq_succ_of_ne_zero (h.1 j hj)
      refine ⟨fun l hl => ?_, ?_⟩
      · rw [(phase_attempt hl).1]
        exact Nat.succ_ne_zero _
      · obtain ⟨l, hl, htypes⟩ := @taken_attempt d (some "didexchange-msg") (k + 1)
        rw [hl]
        exact List.forall_mem_append.mpr ⟨h.2, htypes⟩

/-- A run is what happens before the first attempt, or goes on with it. -/
theorem split_first {s : System} {es : List Event} {c : Command}
    (run : Run step (called s) es c) :
    es = beforeFirst es ∨ ∃ after u v, Run step (called s) (beforeFirst es) u ∧
      step u .wake = some v ∧ Run step v after c := by
  have hsplit : beforeFirst es ++ es.dropWhile (fun e => decide (e ≠ .wake)) = es :=
    List.takeWhile_append_dropWhile
  cases hdrop : es.dropWhile (fun e => decide (e ≠ .wake)) with
  | nil =>
    rw [hdrop, List.append_nil] at hsplit
    exact .inl hsplit.symm
  | cons e after =>
    have hwake : e = .wake := by
      have hhead := List.head?_dropWhile_not (fun e => decide (e ≠ Event.wake)) es
      rw [hdrop] at hhead
      simpa using hhead
    subst hwake
    have hexec := exec_of_run run
    rw [← hsplit, hdrop, exec_append] at hexec
    obtain ⟨u, hu, hrest⟩ := Option.bind_eq_some_iff.mp hexec
    obtain ⟨v, hv, hafter⟩ := Option.bind_eq_some_iff.mp hrest
    exact .inr ⟨after, u, v, run_of_exec hu, hv, run_of_exec hafter⟩

theorem wake_notMem_beforeFirst (es : List Event) : .wake ∉ beforeFirst es := by
  intro h
  have hne := List.mem_takeWhile_imp (p := fun e => decide (e ≠ Event.wake)) h
  exact of_decide_eq_true hne rfl

/-! The answer. -/

theorem respond_object {m : Json} (object : NonemptyObject m) :
    ResponsePolls.respond "did-exchange".toList m =
      (Acapy.agentStateTranslation "did-exchange".toList (dumps m)).map fun text => (200, text) := by
  rw [ResponsePolls.respond, if_pos (truthy_of_nonemptyObject object),
    if_pos (.inl rfl)]

/-- The answer made of the taken message is its translation just if it can be translated. -/
theorem answersWith_taken {c : Command} {m m' : Json} (object : NonemptyObject m')
    (loadable : Loadable m) (htaken : c.taken = [(("didexchange-msg" : Str), m')])
    (hphase : c.phase = .answered (ResponsePolls.respond "did-exchange".toList m')) :
    c.AnswersWith m ↔ m' = m ∧ Translatable "did-exchange".toList m := by
  constructor
  · rintro ⟨htaken', text, htext, -⟩
    obtain rfl : m' = m := by
      rw [htaken] at htaken'
      exact (Prod.mk.inj (List.singleton_inj.mp htaken')).2
    refine ⟨rfl, (respond_ok_iff object loadable _).mp ⟨(200, text), ?_⟩⟩
    rw [respond_object object, htext]
    rfl
  · rintro ⟨rfl, translatable⟩
    obtain ⟨answer, hanswer⟩ := (respond_ok_iff object loadable _).mpr translatable
    refine ⟨htaken, ?_⟩
    rw [hanswer] at hphase
    rw [respond_object object] at hanswer
    cases htext : Acapy.agentStateTranslation "did-exchange".toList (dumps m') with
    | error e =>
      rw [htext] at hanswer
      cases hanswer
    | ok text =>
      rw [htext] at hanswer
      obtain rfl := Except.ok.inj hanswer
      exact ⟨text, rfl, hphase⟩

/-- The command answers with the message just if its first attempt finds it, as the newest under
the last data id, and it can be translated. -/
theorem answersWith_of_first {c u v : Command} {after : List Event} {m : Json}
    (loadable : Loadable m) (accounts : Accounts u.world) (hphase : u.phase = .sleeping 0)
    (htaken : u.taken = []) (next : step u .wake = some v) (rest : Run step v after c) :
    c.AnswersWith m ↔
      NewestUnderLastId u.world.store m ∧ Translatable "did-exchange".toList m := by
  obtain ⟨i, hi, rfl⟩ := step_wake next
  obtain rfl := PollState.sleeping.inj (hphase.symm.trans hi)
  cases hkeys : u.world.store.storage.keys.getLast? with
  | none =>
    rw [attempt_of_empty accounts.toBalanced hkeys] at rest
    refine iff_of_false ?_ ?_
    · rintro ⟨hc, -⟩
      have := (finished_of_run rfl rest).2
      rw [hc, htaken] at this
      exact List.cons_ne_nil _ _ this
    · rintro ⟨⟨key, hkey, -⟩, -⟩
      rw [hkeys] at hkey
      cases hkey
  | some key =>
    have hnewest : NewestUnderLastId u.world.store m ↔
        (u.world.store.queue key "didexchange-msg").getLast? = some m := by
      simp [NewestUnderLastId, hkeys]
    rw [hnewest]
    cases hqueue : (u.world.store.queue key "didexchange-msg").getLast? with
    | none =>
      rw [@attempt_of_none u (some "didexchange-msg") 0 accounts.toBalanced key hkeys hqueue] at rest
      have hsleeps : afterPop "did-exchange".toList 0 (.ok .null) = .sleeping (0 + 1) := by decide
      rw [hsleeps] at rest
      have htypes := taken_of_run rest rfl htaken
      refine iff_of_false ?_ fun h => by cases h.1
      rintro ⟨hc, -⟩
      rw [hc] at htypes
      have hne : ("didexchange-msg" : Str) ≠ "connection-msg" := by decide
      exact hne (htypes _ List.mem_cons_self)
    | some m' =>
      rw [@attempt_of_some u (some "didexchange-msg") 0 accounts.toBalanced key m' hkeys hqueue] at rest
      obtain ⟨hphase', htaken'⟩ := finished_of_run rfl rest
      rw [htaken] at htaken'
      rw [answersWith_taken (accounts.object_of_mem_queue (List.mem_of_getLast? hqueue)) loadable
        htaken' hphase', Option.some.injEq]

/-- Whatever webhooks and polls do meanwhile, the command makes six attempts at most and ends,
and it answers with a message just if at its first attempt that is the newest of its type under
the data id that came last, and can be translated. -/
theorem answers_newest_iff {history : List ResponsePolls.Event} {s : System}
    (reached : Run ResponsePolls.step ResponsePolls.start history s) {es : List Event}
    {c : Command} (run : Run step (called s) es c) {m : Json} (loadable : Loadable m) :
    es.count .wake ≤ maxTimeout + 1 ∧ (c.Finished ∨ ∃ d, step c .wake = some d) ∧
      (c.Finished → (c.AnswersWith m ↔ ∃ u, Run step (called s) (beforeFirst es) u ∧
        NewestUnderLastId u.world.store m ∧ Translatable "did-exchange".toList m)) := by
  have accounts : Accounts s := reached.invariant PollAccounting.start_accounts Accounts.step
  refine ⟨?_, ?_, fun hfinished => ?_⟩
  · rcases attempts_of_run run with ⟨i, -, hcount, hle⟩ | ⟨-, hle⟩
    · omega
    · exact hle
  · rcases sleeping_or_finished c with ⟨i, hphase⟩ | hfinished
    · refine .inr ⟨c.attempt (some "didexchange-msg") i, ?_⟩
      simp only [step, hphase]
    · exact .inl hfinished
  · rcases split_first run with hnone | ⟨after, u, v, hu, next, rest⟩
    · obtain ⟨answer, hanswer⟩ := hfinished
      have hsleeping := (untouched_of_run accounts run
        (hnone ▸ wake_notMem_beforeFirst es)).2.1
      exact absurd (hsleeping.symm.trans hanswer) PollState.noConfusion
    · obtain ⟨haccounts, hphase, htaken⟩ :=
        untouched_of_run accounts hu (wake_notMem_beforeFirst es)
      rw [answersWith_of_first loadable haccounts hphase htaken next rest]
      constructor
      · exact fun h => ⟨u, hu, h⟩
      · rintro ⟨u', hu', h⟩
        obtain rfl := Option.some.inj ((exec_of_run hu).symm.trans (exec_of_run hu'))
        exact h

/-- A request to a public DID. -/
def requestReceived : Json :=
  .obj [("connection_id", .str "c"), ("connection_protocol", .str "didexchange/1.0"),
    ("request_id", .str "r"), ("their_role", .str "invitee"), ("state", .str "request")]

theorem loadable_requestReceived : Loadable requestReceived :=
  loadable_of_loads (s := dumps requestReceived) (by decide +kernel)

def requestEvent : Event := .world (.webhook "connections".toList requestReceived)

/-- The request comes in the second before the first attempt. -/
theorem first_second_answers_iff :
    ∃ c, Run step (called ResponsePolls.start) [requestEvent, .wake] c ∧ c.Finished ∧
      [requestEvent, .wake].count .wake ≤ maxTimeout + 1 ∧
      (c.Finished ∨ ∃ d, step c .wake = some d) ∧
      (c.Finished → (c.AnswersWith requestReceived ↔
        ∃ u, Run step (called ResponsePolls.start) (beforeFirst [requestEvent, .wake]) u ∧
          NewestUnderLastId u.world.store requestReceived ∧
            Translatable "did-exchange".toList requestReceived)) := by
  have hphase : (exec step (called ResponsePolls.start) [requestEvent, .wake]).map
      Command.phase = some (.answered (Acapy.agentStateTranslation "did-exchange".toList
        (dumps requestReceived) |>.map fun text => (200, text))) := by
    decide +kernel
  obtain ⟨c, hc, hanswered⟩ := Option.map_eq_some_iff.mp hphase
  exact ⟨c, run_of_exec hc, ⟨_, hanswered⟩,
    answers_newest_iff Run.nil (run_of_exec hc) loadable_requestReceived⟩

/-- A proof request is stored, and the request to the public DID comes after the first attempt. -/
theorem later_request_not_answered :
    ¬ ∀ (history : List ResponsePolls.Event) (s : System),
      Run ResponsePolls.step ResponsePolls.start history s →
        ∀ (es : List Event) (c : Command), Run step (called s) es c →
          ∀ m, Loadable m → Arrives s m es → c.Finished → c.AnswersWith m := by
  intro h
  let history : List ResponsePolls.Event := [.webhook "present_proof_v2_0".toList
    (.obj [("thread_id", .str "t"), ("state", .str "request-received")])]
  let es : List Event := [.wake, requestEvent, .wake, .wake, .wake, .wake, .wake]
  have hlate : ((exec ResponsePolls.step ResponsePolls.start history).bind fun s =>
      exec step (called s) es).map (fun c => (c.phase, c.taken)) =
        some (.answered (.ok (200, "{}".toList)), []) := by
    decide +kernel
  obtain ⟨c, hc, hanswer⟩ := Option.map_eq_some_iff.mp hlate
  obtain ⟨s, hs, hc⟩ := Option.bind_eq_some_iff.mp hc
  obtain ⟨hphase, htaken⟩ := Prod.mk.inj hanswer
  have hsleeps : ((exec ResponsePolls.step ResponsePolls.start history).bind fun s =>
      exec step (called s) [.wake]).map Command.phase = some (.sleeping 1) := by
    decide +kernel
  rw [hs] at hsleeps
  obtain ⟨u, hu, hsleeping⟩ := Option.map_eq_some_iff.mp hsleeps
  have hright := h history s (run_of_exec hs) es c (run_of_exec hc) requestReceived
    loadable_requestReceived
    ⟨⟨.str "r", by decide +kernel⟩, [.wake], _, u, 1, rfl, run_of_exec hu, hsleeping⟩
    ⟨_, hphase⟩
  exact absurd (hright.1.symm.trans htaken) (List.cons_ne_nil _ _)

end AgentTestHarness.ResolvableDid
