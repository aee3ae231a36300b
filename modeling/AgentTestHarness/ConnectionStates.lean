import AgentTestHarness.OrderedDict
import AgentTestHarness.PyText
import AgentTestHarness.Runs

/-! The cached states of the connections of the .NET backchannel. A command writes the state after
its send has returned, a message while it is processed, and a message may be processed before the
send that caused it returns. -/
namespace AgentTestHarness.ConnectionStates
open PyText OrderedDict Runs

/-- `TestHarnessConnectionState`. -/
inductive ConnectionState
  | invited
  | requested
  | responded
  | complete
  deriving DecidableEq

def rank : ConnectionState → ℕ
  | .invited => 0
  | .requested => 1
  | .responded => 2
  | .complete => 3

/-- The messages that come in. -/
inductive Received
  | connectionRequest
  | connectionResponse
  | trustPing
  deriving DecidableEq

/-- The commands that await `SendAsync`. -/
inductive Command
  | acceptInvitation
  | acceptRequest
  | sendPing
  deriving DecidableEq

/-- What a command sets the state to when its send has returned. -/
def Command.written : Command → ConnectionState
  | .acceptInvitation => .requested
  | .acceptRequest => .responded
  | .sendPing => .complete

/-- How far in the handshake a command and a message are. -/
def Command.stage (c : Command) : ℕ := rank c.written

def Received.stage : Received → ℕ
  | .connectionRequest => 1
  | .connectionResponse => 2
  | .trustPing => 3

/-- A cached connection, the one-shot subscriptions that refer to it and the sends in flight.
The rest is history: which sends have returned, which messages came that were waited for, what was
sent, and whether a ping came after the response. -/
structure Connection where
  state : ConnectionState
  subscriptions : List (Received × ConnectionState)
  sending : List Command
  returned : List Command
  heard : List Received
  requestSent : Bool
  responseSent : Bool
  answered : Bool
  deriving DecidableEq

inductive Action
  | createInvitation
  | receiveInvitation
  | begins (c : Command)
  | returns (c : Command)
  | throws (c : Command)
  | processed (m : Received)
  deriving DecidableEq

namespace Connection

variable (x : Connection)

/-- A command up to the message it sends. -/
def begins : Command → Connection
  | .acceptInvitation => { x with
      subscriptions := x.subscriptions ++ [(.connectionResponse, .responded)]
      sending := .acceptInvitation :: x.sending
      requestSent := true }
  | .acceptRequest => { x with
      sending := .acceptRequest :: x.sending
      responseSent := true }
  | .sendPing => { x with sending := .sendPing :: x.sending }

/-- `UpdateStateOnMessage`: every subscription that waits for the message sets its state and is
gone. -/
def publish (m : Received) : Connection :=
  { x with
    state := match (x.subscriptions.filter fun sub => sub.1 = m).getLast? with
      | some sub => sub.2
      | none => x.state
    subscriptions := x.subscriptions.filter fun sub => sub.1 ≠ m }

/-- `OnMessageAsync` of the middleware for a trust ping. -/
def onPing : Connection :=
  { x with
    state := if x.state = .responded then .complete else x.state
    answered := x.answered || x.responseSent }

/-- A request and a response are waited for by a subscription, a ping from the time on when a send of
the response returned or a response was processed. -/
def Awaits : Received → Prop
  | .trustPing => .acceptRequest ∈ x.returned ∨ .connectionResponse ∈ x.heard
  | m => m ∈ x.subscriptions.map Prod.fst

instance : DecidablePred x.Awaits := by
  intro m
  cases m with
  | trustPing => exact inferInstanceAs (Decidable (_ ∨ _))
  | connectionRequest => exact inferInstanceAs (Decidable (_ ∈ _))
  | connectionResponse => exact inferInstanceAs (Decidable (_ ∈ _))

/-- The message in the history, if it was waited for. -/
def note (m : Received) : Connection :=
  if x.Awaits m then { x with heard := m :: x.heard } else x

def process : Received → Connection
  | .trustPing => (x.note .trustPing).onPing
  | m => (x.note m).publish m

/-- The message that causes this one was sent. -/
def caused : Received → Bool
  | .connectionRequest => true
  | .connectionResponse => x.requestSent
  | .trustPing => x.requestSent || x.responseSent

def act : Action → Option Connection
  | .createInvitation => none
  | .receiveInvitation => none
  | .begins c => some (x.begins c)
  | .returns c =>
    if c ∈ x.sending then
      some { x with
        state := c.written
        sending := x.sending.erase c
        returned := c :: x.returned }
    else none
  | .throws c => if c ∈ x.sending then some { x with sending := x.sending.erase c } else none
  | .processed m => if x.caused m then some (x.process m) else none

end Connection

/-- `_connectionCache`. -/
abbrev Backchannel := Dict Text Connection

/-- What is done where no connection is cached under the id: an invitation makes one, and a command
finds none. -/
def create (b : Backchannel) (id : Text) : Action → Option Backchannel
  | .createInvitation =>
    some (b.set id ⟨.invited, [(.connectionRequest, .requested)], [], [], [], false, false, false⟩)
  | .receiveInvitation => some (b.set id ⟨.invited, [], [], [], [], false, false, false⟩)
  | .begins _ => some b
  | .processed _ => some b
  | .returns _ => none
  | .throws _ => none

def step (b : Backchannel) (e : Text × Action) : Option Backchannel :=
  match b.get? e.1 with
  | none => create b e.1 e.2
  | some x => (x.act e.2).map (b.set e.1)

/-- No connection is lost and none goes back. -/
def Forward (b : Backchannel) (e : Text × Action) : Prop :=
  ∀ c, step b e = some c → ∀ id x, b.get? id = some x →
    ∃ y, c.get? id = some y ∧ rank x.state ≤ rank y.state

/-- Where the response was sent and a ping answered it, and no send is in flight, the connection is
complete. -/
def Completed (b : Backchannel) : Prop :=
  ∀ id x, b.get? id = some x → x.sending = [] → x.responseSent = true → x.answered = true →
    x.state = .complete

namespace Connection

variable (x : Connection)

/-- The stages of what has happened. -/
def passed : List ℕ := x.returned.map Command.stage ++ x.heard.map Received.stage

/-- The order of the events. A command is begun while no other one is in flight and after nothing of a
later stage. A message that is waited for is processed after the sends of earlier stages have
returned, so that no answer overtakes the return of the send that it answers, and after nothing of a
later stage; a ping that comes after the response was sent is waited for, or comes after a ping of
our own. -/
def InOrder : Action → Prop
  | .begins c => (∀ c' ∈ x.sending, c' = c) ∧ ∀ k ∈ x.passed, k ≤ c.stage
  | .processed m =>
    (x.Awaits m → (∀ c ∈ x.sending, m.stage ≤ c.stage) ∧ ∀ k ∈ x.passed, k ≤ m.stage) ∧
    (m = .trustPing → x.responseSent = true →
      x.Awaits .trustPing ∨ .sendPing ∈ x.returned)
  | _ => True

instance : DecidablePred x.InOrder := by
  intro a
  unfold InOrder
  split <;> infer_instance

end Connection

def InOrder (b : Backchannel) (e : Text × Action) : Prop :=
  ∀ x, b.get? e.1 = some x → x.InOrder e.2

instance (b : Backchannel) (e : Text × Action) : Decidable (InOrder b e) :=
  inferInstanceAs (Decidable (∀ x ∈ b.get? e.1, x.InOrder e.2))

/-- The state is the one of the latest stage so far. A send in flight is of no earlier stage than what
has passed, and all that are in flight are of one command. -/
structure Connection.Sound (x : Connection) : Prop where
  subscriptions : ∀ sub ∈ x.subscriptions,
    sub = (.connectionRequest, .requested) ∨ sub = (.connectionResponse, .responded)
  bounded : ∀ k ∈ x.passed, k ≤ rank x.state
  attained : x.state = .invited ∨ rank x.state ∈ x.passed
  in_flight : ∀ c ∈ x.sending, rank x.state ≤ c.stage ∧ ∀ c' ∈ x.sending, c' = c
  answered : x.answered = true → x.state = .complete

theorem rank_injective : Function.Injective rank := by
  intro s t h
  cases s <;> cases t <;> first | rfl | exact absurd h (by decide)

theorem rank_le (s : ConnectionState) : rank s ≤ 3 := by
  cases s <;> decide

theorem eq_complete_of_rank_le {s t : ConnectionState} (hs : s = .complete) (h : rank s ≤ rank t) :
    t = .complete := by
  subst hs
  exact rank_injective (le_antisymm (rank_le t) h)

namespace Connection

variable {x y : Connection}

theorem mem_passed {k : ℕ} : k ∈ x.passed ↔
    (∃ c ∈ x.returned, c.stage = k) ∨ ∃ m ∈ x.heard, m.stage = k := by
  rw [passed, List.mem_append, List.mem_map, List.mem_map]

/-- The second stage is what a ping answers. -/
theorem awaits_ping_iff : x.Awaits .trustPing ↔ 2 ∈ x.passed := by
  rw [mem_passed]
  constructor
  · exact fun h => h.imp (fun h => ⟨_, h, rfl⟩) fun h => ⟨_, h, rfl⟩
  · rintro (⟨c, hc, hstage⟩ | ⟨m, hm, hstage⟩)
    · cases c with
      | acceptRequest => exact .inl hc
      | acceptInvitation => exact absurd hstage (by decide)
      | sendPing => exact absurd hstage (by decide)
    · cases m with
      | connectionResponse => exact .inr hm
      | connectionRequest => exact absurd hstage (by decide)
      | trustPing => exact absurd hstage (by decide)

theorem publish_state (x : Connection) (m : Received) :
    (x.publish m).state = x.state ∧ m ∉ x.subscriptions.map Prod.fst ∨
      ∃ sub ∈ x.subscriptions, sub.1 = m ∧ (x.publish m).state = sub.2 := by
  simp only [publish]
  split
  · next sub hsub =>
    obtain ⟨hmem, hm⟩ := List.mem_filter.mp (List.mem_of_getLast? hsub)
    exact .inr ⟨sub, hmem, of_decide_eq_true hm, rfl⟩
  · next hnone =>
    refine .inl ⟨rfl, fun hmem => ?_⟩
    obtain ⟨sub, hsub, hm⟩ := List.mem_map.mp hmem
    have hempty := List.getLast?_eq_none_iff.mp hnone
    have hin : sub ∈ x.subscriptions.filter fun sub => sub.1 = m :=
      List.mem_filter.mpr ⟨hsub, decide_eq_true hm⟩
    rw [hempty] at hin
    exact List.not_mem_nil hin

/-- A write of a stage that nothing so far is beyond, with the stage noted, leaves a sound state. -/
theorem Sound.write (h : x.Sound) {s : ConnectionState} (hs : s ≠ .invited)
    (hle : ∀ k ∈ x.passed, k ≤ rank s) (hstate : y.state = s)
    (hpassed : ∀ k, k ∈ y.passed ↔ k = rank s ∨ k ∈ x.passed)
    (hanswered : y.answered = true → x.answered = true ∨ s = .complete)
    (hsubs : ∀ sub ∈ y.subscriptions, sub ∈ x.subscriptions)
    (hsending : ∀ c ∈ y.sending, rank s ≤ c.stage ∧ ∀ c' ∈ y.sending, c' = c) :
    y.Sound ∧ rank x.state ≤ rank y.state := by
  have hforward : rank x.state ≤ rank s := by
    rcases h.attained with hinvited | hmem
    · rw [hinvited]
      exact Nat.zero_le _
    · exact hle _ hmem
  subst hstate
  refine ⟨⟨fun sub hsub => h.subscriptions sub (hsubs sub hsub), ?_, ?_, hsending, ?_⟩, hforward⟩
  · exact fun k hk => ((hpassed k).mp hk).elim le_of_eq (hle k)
  · exact .inr ((hpassed _).mpr (.inl rfl))
  · intro hy
    exact (hanswered hy).elim (fun hx => eq_complete_of_rank_le (h.answered hx) hforward) id

theorem Sound.begins (h : x.Sound) {c : Command} (order : x.InOrder (.begins c)) :
    (x.begins c).Sound ∧ rank x.state ≤ rank (x.begins c).state := by
  obtain ⟨hsame, hpassed⟩ := order
  have hrank : rank x.state ≤ c.stage := by
    rcases h.attained with hinvited | hmem
    · rw [hinvited]
      exact Nat.zero_le _
    · exact hpassed _ hmem
  have hflight : ∀ c' ∈ c :: x.sending, rank x.state ≤ c'.stage ∧ ∀ c'' ∈ c :: x.sending, c'' = c' := by
    have hall : ∀ c' ∈ c :: x.sending, c' = c :=
      fun c' hc' => (List.mem_cons.mp hc').elim id (hsame c')
    intro c' hc'
    obtain rfl := hall c' hc'
    exact ⟨hrank, hall⟩
  cases c with
  | acceptInvitation =>
    refine ⟨⟨fun sub hsub => ?_, h.bounded, h.attained, hflight, h.answered⟩, le_rfl⟩
    rcases List.mem_append.mp hsub with hsub | hsub
    · exact h.subscriptions sub hsub
    · exact .inr (List.mem_singleton.mp hsub)
  | acceptRequest => exact ⟨⟨h.subscriptions, h.bounded, h.attained, hflight, h.answered⟩, le_rfl⟩
  | sendPing => exact ⟨⟨h.subscriptions, h.bounded, h.attained, hflight, h.answered⟩, le_rfl⟩

theorem Sound.returns (h : x.Sound) {c : Command} (hc : c ∈ x.sending) :
    ({ x with state := c.written, sending := x.sending.erase c, returned := c :: x.returned } :
      Connection).Sound ∧ rank x.state ≤ rank c.written := by
  obtain ⟨hrank, hsame⟩ := h.in_flight c hc
  refine h.write (s := c.written) (by cases c <;> simp [Command.written])
    (fun k hk => (h.bounded k hk).trans hrank) rfl (fun k => ?_) .inl (fun _ hsub => hsub)
    fun c' hc' => ?_
  · simp only [mem_passed, List.mem_cons, exists_eq_or_imp, or_assoc]
    exact or_congr eq_comm Iff.rfl
  obtain rfl := hsame c' (List.mem_of_mem_erase hc')
  exact ⟨le_rfl, fun c'' hc'' => hsame c'' (List.mem_of_mem_erase hc'')⟩

theorem note_subscriptions (x : Connection) (m : Received) :
    (x.note m).subscriptions = x.subscriptions := by
  unfold Connection.note
  split <;> rfl

/-- What the subscriptions for a message write. -/
theorem Sound.written (h : x.Sound) {m : Received} {sub : Received × ConnectionState}
    (hsub : sub ∈ x.subscriptions) (hm : sub.1 = m) : rank sub.2 = m.stage := by
  subst hm
  rcases h.subscriptions sub hsub with rfl | rfl <;> rfl

/-- A message that was waited for brings the connection to its stage. -/
theorem Sound.rank_process (h : x.Sound) {m : Received} (hm : x.Awaits m) :
    rank (x.process m).state = m.stage := by
  have publishes : ∀ m, m ∈ x.subscriptions.map Prod.fst →
      rank ((x.note m).publish m).state = m.stage := by
    intro m hmem
    rcases (x.note m).publish_state m with ⟨-, hnone⟩ | ⟨sub, hsub, hfst, hstate⟩
    · rw [note_subscriptions] at hnone
      exact absurd hmem hnone
    · rw [note_subscriptions] at hsub
      rw [hstate]
      exact h.written hsub hfst
  cases m with
  | connectionRequest => exact publishes _ hm
  | connectionResponse => exact publishes _ hm
  | trustPing =>
    have hlate : 2 ≤ rank x.state := h.bounded 2 (awaits_ping_iff.mp hm)
    rw [process, Connection.note, if_pos hm, Connection.onPing]
    cases hx : x.state with
    | invited => exact absurd hlate (by rw [hx]; decide)
    | requested => exact absurd hlate (by rw [hx]; decide)
    | responded => rfl
    | complete => rfl

/-- Without the order of an answer and the return of its send the connection would go back. -/
theorem Sound.overtaken (h : x.Sound) {m : Received} {c : Command} (hm : x.Awaits m)
    (hlt : c.stage < m.stage) : rank c.written < rank (x.process m).state := by
  rw [h.rank_process hm]
  exact hlt

/-- A message that was not waited for leaves the state as it is. -/
theorem Sound.state_process (h : x.Sound) {m : Received} (hm : ¬ x.Awaits m) :
    (x.process m).state = x.state := by
  have publishes : ∀ m, ¬ x.Awaits m → m ∉ x.subscriptions.map Prod.fst →
      ((x.note m).publish m).state = x.state := by
    intro m hm hnone
    rw [Connection.note, if_neg hm]
    rcases x.publish_state m with ⟨hstate, -⟩ | ⟨sub, hsub, hfst, -⟩
    · exact hstate
    · exact absurd (List.mem_map.mpr ⟨sub, hsub, hfst⟩) hnone
  cases m with
  | connectionRequest => exact publishes _ hm hm
  | connectionResponse => exact publishes _ hm hm
  | trustPing =>
    have hresponded : x.state ≠ .responded := by
      intro hx
      rcases h.attained with hinvited | hmem
      · exact absurd (hx.symm.trans hinvited) (by simp)
      · rw [hx] at hmem
        exact hm (awaits_ping_iff.mpr hmem)
    rw [process, Connection.note, if_neg hm, Connection.onPing, if_neg hresponded]

/-- A message that was waited for is noted. -/
theorem mem_passed_process (x : Connection) (m : Received) (k : ℕ) :
    k ∈ (x.process m).passed ↔ x.Awaits m ∧ k = m.stage ∨ k ∈ x.passed := by
  have hnote : k ∈ (x.note m).passed ↔ x.Awaits m ∧ k = m.stage ∨ k ∈ x.passed := by
    by_cases hm : x.Awaits m
    · rw [Connection.note, if_pos hm]
      simp only [mem_passed, List.mem_cons, exists_eq_or_imp, hm, true_and]
      rw [or_left_comm]
      exact or_congr eq_comm Iff.rfl
    · rw [Connection.note, if_neg hm]
      simp only [hm, false_and, false_or]
  cases m with
  | connectionRequest => exact hnote
  | connectionResponse => exact hnote
  | trustPing => exact hnote

/-- Apart from the state and the history a message changes the subscriptions, which it only takes
away. -/
theorem process_rest (x : Connection) (m : Received) :
    (x.process m).sending = x.sending ∧
      (∀ sub ∈ (x.process m).subscriptions, sub ∈ x.subscriptions) ∧
      ((x.process m).answered = true →
        x.answered = true ∨ m = .trustPing ∧ x.responseSent = true) := by
  by_cases hm : x.Awaits m <;> cases m <;>
    simp only [process, Connection.note, hm, if_true, if_false, publish, Connection.onPing,
      Bool.or_eq_true, true_and, List.mem_filter, and_imp]
  all_goals simp +contextual

theorem Sound.process (h : x.Sound) {m : Received} (order : x.InOrder (.processed m)) :
    (x.process m).Sound ∧ rank x.state ≤ rank (x.process m).state := by
  obtain ⟨hsending, hsubs, hanswered⟩ := x.process_rest m
  have hpassed := x.mem_passed_process m
  by_cases hm : x.Awaits m
  · obtain ⟨hreturned, hbefore⟩ := order.1 hm
    have hrank := h.rank_process hm
    simp only [hm, true_and, ← hrank] at hpassed
    rw [← hrank] at hreturned hbefore
    refine h.write (s := (x.process m).state) (fun hinvited => ?_) hbefore rfl hpassed ?_ hsubs ?_
    · rw [hinvited] at hrank
      cases m <;> exact absurd hrank (by decide)
    · refine fun hy => (hanswered hy).imp id fun hping => ?_
      rw [hping.1] at hrank ⊢
      exact rank_injective hrank
    · rw [hsending]
      exact fun c hc => ⟨hreturned c hc, (h.in_flight c hc).2⟩
  · have hstate := h.state_process hm
    simp only [hm, false_and, false_or] at hpassed
    refine ⟨⟨fun sub hsub => h.subscriptions sub (hsubs sub hsub), ?_, ?_, ?_, fun hy => ?_⟩,
      hstate ▸ le_rfl⟩
    · rw [hstate]
      exact fun k hk => h.bounded k ((hpassed k).mp hk)
    · rw [hstate]
      exact h.attained.imp id (hpassed _).mpr
    · rw [hsending, hstate]
      exact h.in_flight
    · rw [hstate]
      rcases hanswered hy with hx | ⟨rfl, hsent⟩
      · exact h.answered hx
      · have hpinged : 3 ∈ x.passed :=
          mem_passed.mpr (.inl ⟨_, (order.2 rfl hsent).resolve_left hm, rfl⟩)
        exact rank_injective (le_antisymm (rank_le _) (h.bounded 3 hpinged))

theorem Sound.act (h : x.Sound) {a : Action} (order : x.InOrder a) (next : x.act a = some y) :
    y.Sound ∧ rank x.state ≤ rank y.state := by
  cases a with
  | createInvitation => exact absurd next (by simp [Connection.act])
  | receiveInvitation => exact absurd next (by simp [Connection.act])
  | begins c =>
    obtain rfl := Option.some.inj next
    exact h.begins order
  | returns c =>
    rw [Connection.act] at next
    split at next
    · next hc =>
      obtain rfl := Option.some.inj next
      exact h.returns hc
    · exact absurd next (by simp)
  | throws c =>
    rw [Connection.act] at next
    split at next
    · obtain rfl := Option.some.inj next
      refine ⟨⟨h.subscriptions, h.bounded, h.attained, fun c' hc' => ?_, h.answered⟩, le_rfl⟩
      obtain ⟨hrank, hsame⟩ := h.in_flight c' (List.mem_of_mem_erase hc')
      exact ⟨hrank, fun c'' hc'' => hsame c'' (List.mem_of_mem_erase hc'')⟩
    · exact absurd next (by simp)
  | processed m =>
    rw [Connection.act] at next
    split at next
    · obtain rfl := Option.some.inj next
      exact h.process order
    · exact absurd next (by simp)

/-- A connection that was just invited. -/
theorem sound_invited {subscriptions : List (Received × ConnectionState)}
    (h : ∀ sub ∈ subscriptions,
      sub = (.connectionRequest, .requested) ∨ sub = (.connectionResponse, .responded)) :
    Connection.Sound ⟨.invited, subscriptions, [], [], [], false, false, false⟩ where
  subscriptions := h
  bounded k hk := absurd hk List.not_mem_nil
  attained := .inl rfl
  in_flight c hc := absurd hc List.not_mem_nil
  answered hanswered := absurd hanswered (by simp)

end Connection

def Sound (b : Backchannel) : Prop := ∀ id x, b.get? id = some x → x.Sound

theorem sound_empty : Sound Dict.empty := fun id x hx => absurd hx (by simp)

theorem create_cases {b c : Backchannel} {id : Text} {a : Action} (h : create b id a = some c) :
    c = b ∨ ∃ x, c = b.set id x ∧ x.Sound := by
  cases a with
  | createInvitation =>
    refine .inr ⟨_, (Option.some.inj h).symm, Connection.sound_invited fun sub hsub => ?_⟩
    exact .inl (List.mem_singleton.mp hsub)
  | receiveInvitation =>
    refine .inr ⟨_, (Option.some.inj h).symm, Connection.sound_invited fun sub hsub => ?_⟩
    exact absurd hsub List.not_mem_nil
  | begins c => exact .inl (Option.some.inj h).symm
  | processed m => exact .inl (Option.some.inj h).symm
  | returns c => exact absurd h (by simp [create])
  | throws c => exact absurd h (by simp [create])

/-- A step keeps all connections but the one it is about. -/
theorem step_cases {b c : Backchannel} {e : Text × Action} (next : step b e = some c) :
    c = b ∨ (∃ x, b.get? e.1 = none ∧ c = b.set e.1 x ∧ x.Sound) ∨
      ∃ x y, b.get? e.1 = some x ∧ x.act e.2 = some y ∧ c = b.set e.1 y := by
  unfold step at next
  cases hx : b.get? e.1 with
  | none =>
    rw [hx] at next
    rcases create_cases next with hc | ⟨x, hc, hsound⟩
    · exact .inl hc
    · exact .inr (.inl ⟨x, rfl, hc, hsound⟩)
  | some x =>
    rw [hx] at next
    obtain ⟨y, hy, rfl⟩ := Option.map_eq_some_iff.mp next
    exact .inr (.inr ⟨x, y, rfl, hy, rfl⟩)

theorem sound_step {b c : Backchannel} {e : Text × Action} (h : Sound b) (order : InOrder b e)
    (next : step b e = some c) : Sound c := by
  intro id z hz
  rcases step_cases next with rfl | ⟨x, -, rfl, hsound⟩ | ⟨x, y, hx, hact, rfl⟩
  · exact h id z hz
  · rw [Dict.get?_set] at hz
    split at hz
    · exact Option.some.inj hz ▸ hsound
    · exact h id z hz
  · rw [Dict.get?_set] at hz
    split at hz
    · exact Option.some.inj hz ▸ ((h _ x hx).act (order x hx) hact).1
    · exact h id z hz

theorem forward_step {b c : Backchannel} {e : Text × Action} (h : Sound b) (order : InOrder b e)
    (next : step b e = some c) : Forward b e := by
  intro d hd id z hz
  obtain rfl : c = d := Option.some.inj (next.symm.trans hd)
  rcases step_cases next with rfl | ⟨x, hnone, rfl, -⟩ | ⟨x, y, hx, hact, rfl⟩
  · exact ⟨z, hz, le_rfl⟩
  · have hne : id ≠ e.1 := by
      rintro rfl
      rw [hz] at hnone
      exact absurd hnone (by simp)
    exact ⟨z, by rw [Dict.get?_set, if_neg hne, hz], le_rfl⟩
  · rw [Dict.get?_set]
    split
    · next hid =>
      subst hid
      obtain rfl : x = z := Option.some.inj (hx.symm.trans hz)
      exact ⟨y, rfl, ((h _ x hx).act (order x hx) hact).2⟩
    · exact ⟨z, hz, le_rfl⟩

/-- In a run in which commands and messages come in order no connection goes back, and an answered
one is complete in the end. -/
theorem connections_forward (es : List (Text × Action))
    (order : StepsMeet step Dict.empty InOrder es) :
    StepsMeet step Dict.empty Forward es ∧ Throughout step Dict.empty Completed es := by
  have sound := throughout_of_stepsMeet sound_empty sound_step order
  constructor
  · exact order.imp sound forward_step
  · intro before b hp run id x hx _ _ hanswered
    exact (sound hp run id x hx).answered hanswered

/-- The inviter's and the invitee's part of a handshake, each answer after the return of its
send. -/
def handshake : List (Text × Action) :=
  [("inviter".toList, .createInvitation), ("invitee".toList, .receiveInvitation),
    ("invitee".toList, .begins .acceptInvitation), ("invitee".toList, .returns .acceptInvitation),
    ("inviter".toList, .processed .connectionRequest), ("inviter".toList, .begins .acceptRequest),
    ("inviter".toList, .returns .acceptRequest),
    ("invitee".toList, .processed .connectionResponse), ("invitee".toList, .begins .sendPing),
    ("inviter".toList, .processed .trustPing), ("invitee".toList, .returns .sendPing)]

theorem handshake_forward : StepsMeet step Dict.empty Forward handshake ∧
    Throughout step Dict.empty Completed handshake :=
  connections_forward handshake (stepsMeet_of_meets (by decide +kernel))

/-- The response overtakes the return of the send of the request. -/
def overtaken : List (Text × Action) :=
  [("c".toList, .receiveInvitation), ("c".toList, .begins .acceptInvitation),
    ("c".toList, .processed .connectionResponse), ("c".toList, .returns .acceptInvitation)]

theorem overtaken_goes_back :
    ¬ ∀ es : List (Text × Action), StepsMeet step Dict.empty Forward es ∧
      Throughout step Dict.empty Completed es := by
  intro h
  obtain ⟨y, hy, hrank⟩ := (h overtaken).1
    (show overtaken.take 3 ++ [("c".toList, .returns .acceptInvitation)] <+: overtaken from
      List.prefix_rfl) (run_of_exec rfl) rfl _ rfl "c".toList _ rfl
  obtain rfl := Option.some.inj hy
  exact absurd hrank (by decide)

end AgentTestHarness.ConnectionStates
