import AgentTestHarness.PyText
import AgentTestHarness.Runs

/-! The waits of the Credo backchannel. A controller catches the state changes of its records
in a replay subject; a command that acts on a thread first waits for the event that the thread
has come to a state, and a subscriber is given the past events before the new ones. -/
namespace AgentTestHarness.WaitForState
open PyText Runs

/-- The record of a credential or proof exchange as an event carries it. -/
structure StateChanged where
  threadId : Text
  state : Text
  deriving DecidableEq

inductive Status
  | waiting
  | resolved
  | proceeded
  | timedOut
  deriving DecidableEq

/-- One call of `waitForState`, subscribed to the subject that was there when it was made. -/
structure Wait where
  threadId : Text
  state : Text
  subject : ℕ
  status : Status
  deriving DecidableEq

structure Controller where
  history : List StateChanged
  subject : ℕ
  replayed : List StateChanged
  waits : List Wait
  deriving DecidableEq

inductive Event
  | onStartup
  | stateChanged (c : StateChanged)
  | waitForState (threadId state : Text)
  | proceed (n : ℕ)
  | timeout (n : ℕ)
  deriving DecidableEq

def passes (threadId state : Text) (c : StateChanged) : Bool :=
  decide (c.threadId = threadId) && decide (c.state = state)

/-- A waiting subscriber takes the first event that passes both filters. -/
def Wait.next (w : Wait) (subject : ℕ) (c : StateChanged) : Wait :=
  if w.status = .waiting ∧ w.subject = subject ∧ passes w.threadId w.state c then
    { w with status := .resolved }
  else w

/-- A wait that is in one status goes on to another. -/
def move (waits : List Wait) (n : ℕ) (old new : Status) : Option (List Wait) :=
  match waits[n]? with
  | some w => if w.status = old then some (waits.set n { w with status := new }) else none
  | none => none

def step (s : Controller) : Event → Option Controller
  | .onStartup => some { s with subject := s.subject + 1, replayed := [] }
  | .stateChanged c => some { s with
      history := s.history ++ [c]
      replayed := s.replayed ++ [c]
      waits := s.waits.map (·.next s.subject c) }
  | .waitForState threadId state => some { s with
      waits := s.waits ++ [⟨threadId, state, s.subject,
        if (s.replayed.find? (passes threadId state)).isSome then .resolved else .waiting⟩] }
  | .proceed n => (move s.waits n .resolved .proceeded).map fun waits => { s with waits }
  | .timeout n => (move s.waits n .waiting .timedOut).map fun waits => { s with waits }

def start : Controller := ⟨[], 0, [], []⟩

/-- The state that the latest event of a thread gives. -/
def latestState (history : List StateChanged) (threadId : Text) : Option Text :=
  (history.filter fun c => decide (c.threadId = threadId)).getLast?.map (·.state)

/-- From its resolution until its command proceeds, the state waited for is the latest one. -/
def Wait.Fresh (history : List StateChanged) (w : Wait) : Prop :=
  w.status = .resolved → latestState history w.threadId = some w.state

def Fresh (s : Controller) : Prop := ∀ w ∈ s.waits, w.Fresh s.history

/-- A call finds no past event of the state it waits for, or finds it as the latest one of the
thread, and no event of another state overtakes a command that is about to proceed. -/
def Timely (s : Controller) : Event → Prop
  | .waitForState threadId state =>
      (∃ c ∈ s.replayed, c.threadId = threadId ∧ c.state = state) →
        latestState s.history threadId = some state
  | .stateChanged c => ∀ w ∈ s.waits, w.status = .resolved → w.threadId = c.threadId →
      w.state = c.state
  | _ => True

instance (s : Controller) : Decidable (Fresh s) :=
  inferInstanceAs (Decidable (∀ w ∈ s.waits,
    w.status = .resolved → latestState s.history w.threadId = some w.state))

instance (s : Controller) : (e : Event) → Decidable (Timely s e)
  | .waitForState _ _ => inferInstanceAs (Decidable ((∃ c ∈ s.replayed, _) → _))
  | .stateChanged _ => inferInstanceAs (Decidable (∀ w ∈ s.waits, _ → _ → _))
  | .onStartup | .proceed _ | .timeout _ => inferInstanceAs (Decidable True)

theorem passes_iff {threadId state : Text} {c : StateChanged} :
    passes threadId state c = true ↔ c.threadId = threadId ∧ c.state = state := by
  simp [passes]

theorem latestState_append_self (history : List StateChanged) (c : StateChanged) :
    latestState (history ++ [c]) c.threadId = some c.state := by
  simp [latestState]

theorem latestState_append_ne (history : List StateChanged) {c : StateChanged} {threadId : Text}
    (h : c.threadId ≠ threadId) :
    latestState (history ++ [c]) threadId = latestState history threadId := by
  simp [latestState, h]

/-! What one event does to one wait. -/

/-- A fresh wait stays fresh under an event just when it is not overtaken by it. -/
theorem Wait.fresh_next_iff {history : List StateChanged} {w : Wait} (h : w.Fresh history)
    (subject : ℕ) (c : StateChanged) :
    (w.next subject c).Fresh (history ++ [c]) ↔
      (w.status = .resolved → w.threadId = c.threadId → w.state = c.state) := by
  unfold Wait.next
  split
  · next hnext =>
    obtain ⟨hwaiting, -, hpass⟩ := hnext
    obtain ⟨ht, hs⟩ := passes_iff.mp hpass
    have hfresh : latestState (history ++ [c]) w.threadId = some w.state := by
      rw [← ht, latestState_append_self, hs]
    exact iff_of_true (fun _ => hfresh) fun hresolved => absurd (hwaiting ▸ hresolved) (by simp)
  · rcases eq_or_ne c.threadId w.threadId with ht | ht
    · unfold Wait.Fresh
      rw [← ht, latestState_append_self, Option.some.injEq]
      exact ⟨fun hf hr _ => (hf hr).symm, fun hf hr => (hf hr rfl).symm⟩
    · unfold Wait.Fresh
      rw [latestState_append_ne history ht]
      exact iff_of_true h fun _ heq => absurd heq.symm ht

theorem fresh_move {waits waits' : List Wait} {n : ℕ} {old new : Status}
    {history : List StateChanged} (hnew : new ≠ .resolved) (h : ∀ w ∈ waits, w.Fresh history)
    (hmove : move waits n old new = some waits') : ∀ w ∈ waits', w.Fresh history := by
  unfold move at hmove
  split at hmove
  · split at hmove
    · obtain rfl := Option.some.inj hmove
      intro w hw
      rcases List.mem_or_eq_of_mem_set hw with hw | rfl
      · exact h w hw
      · exact fun hresolved => absurd hresolved hnew
    · cases hmove
  · cases hmove

/-- A step keeps the waits fresh exactly when it is timely. -/
theorem fresh_step_iff {s t : Controller} {e : Event} (hs : Fresh s)
    (next : step s e = some t) : Fresh t ↔ Timely s e := by
  cases e with
  | onStartup =>
    obtain rfl := Option.some.inj next
    exact iff_of_true hs trivial
  | stateChanged c =>
    obtain rfl := Option.some.inj next
    simp only [Fresh, Timely, List.forall_mem_map]
    exact forall₂_congr fun w hw => Wait.fresh_next_iff (hs w hw) s.subject c
  | waitForState threadId state =>
    obtain rfl := Option.some.inj next
    have hfound : (s.replayed.find? (passes threadId state)).isSome = true ↔
        ∃ c ∈ s.replayed, c.threadId = threadId ∧ c.state = state := by
      simp [List.find?_isSome, passes_iff]
    simp only [Fresh, Timely, List.forall_mem_append, List.forall_mem_singleton, ← hfound]
    refine ⟨fun h found => h.2 (if_pos found), fun h => ⟨hs, fun hresolved => h ?_⟩⟩
    by_contra hnone
    rw [if_neg hnone] at hresolved
    cases hresolved
  | proceed n =>
    obtain ⟨waits, hmove, rfl⟩ := Option.map_eq_some_iff.mp next
    exact iff_of_true (fresh_move (by decide) hs hmove) trivial
  | timeout n =>
    obtain ⟨waits, hmove, rfl⟩ := Option.map_eq_some_iff.mp next
    exact iff_of_true (fresh_move (by decide) hs hmove) trivial

theorem start_fresh : Fresh start := fun _ hw => absurd hw List.not_mem_nil

/-- The commands proceed on the latest event of their thread just when every step is timely. -/
theorem waits_fresh_iff (es : List Event) :
    Throughout step start Fresh es ↔ StepsMeet step start Timely es :=
  throughout_iff_stepsMeet (I := fun _ => True) trivial (fun _ _ => trivial) start_fresh
    (fun _ hs next => fresh_step_iff hs next) es

/-- A second round: the offer was sent on the first proposal, and the next offer does not wait
for the second one. -/
theorem second_round_not_fresh :
    let proposal : StateChanged := ⟨"thread".toList, "proposal-received".toList⟩
    let offer : StateChanged := ⟨"thread".toList, "offer-sent".toList⟩
    ¬ Throughout step start Fresh [.onStartup, .stateChanged proposal,
      .waitForState proposal.threadId proposal.state, .proceed 0, .stateChanged offer,
      .waitForState proposal.threadId proposal.state] := by
  intro proposal offer fresh
  have last := fresh List.prefix_rfl (run_of_exec rfl)
  revert last
  decide

end AgentTestHarness.WaitForState
