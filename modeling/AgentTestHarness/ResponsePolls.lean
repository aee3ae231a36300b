import AgentTestHarness.Runs
import AgentTestHarness.StateTranslation
import AgentTestHarness.Webhooks

/-! The event loop of the ACA-Py backchannel around the store: webhooks push messages, response
polls pop them and retry, commands wait for an exchange id. What runs between two awaits is one
step. -/
namespace AgentTestHarness.ResponsePolls
open PyText PyJson JsonWriting Storage StateTranslation Webhooks

def maxTimeout : ℕ := 5

/-- The data type from which a poll of a topic pops. -/
def responseDataType (topic : Text) : Option Str :=
  if topic = "connection".toList then some "connection-msg"
  else if topic = "did-exchange".toList then some "didexchange-msg"
  else if topic = "issue-credential".toList then some "credential-msg"
  else if topic = "credential".toList then some "credential-msg"
  else if topic = "proof".toList then some "presentation-msg"
  else if topic = "revocation-registry".toList then some "revocation-registry-msg"
  else if topic = "revocation-notification".toList then some "revocation-notification-msg"
  else none

inductive Request
  | pops (recordId dataType : Str)
  | popsLatest
  | answers (status : ℕ) (text : Text)

/-- How `make_agent_GET_request_response` begins. -/
def makeAgentGetRequestResponse (topic : Text) (recordId : Option Str) : Request :=
  match recordId, responseDataType topic with
  | none, _ =>
    if topic = "did-exchange".toList then .popsLatest
    else .answers 501 "501: Not Implemented\n\n".toList
  | some [], _ => .answers 501 "501: Not Implemented\n\n".toList
  | some _, none => .answers 501 "501: Not Implemented\n\n".toList
  | some id, some dataType => .pops id dataType

/-- The answer made of a message, or of None when there is none. -/
def respond (topic : Text) (msg : Json) : Except PyError (ℕ × Text) :=
  if msg.truthy then
    if topic = "did-exchange".toList ∨ topic = "proof".toList then
      (Acapy.agentStateTranslation topic (dumps msg)).map fun respText => (200, respText)
    else .ok (200, dumps msg)
  else .ok (200, "\x7b\x7d".toList)

inductive PollState
  | sleeping (i : ℕ)
  | answered (answer : Except PyError (ℕ × Text))
  deriving DecidableEq

/-- What was stored under the key of a poll when it popped, and what it got. -/
structure Attempt where
  stored : List Json
  msg : Except PyError Json
  deriving DecidableEq

structure Poll where
  topic : Text
  recordId : Str
  dataType : Str
  attempts : List Attempt
  state : PollState
  deriving DecidableEq

/-- After the pop that follows `i` sleeps. -/
def afterPop (topic : Text) (i : ℕ) : Except PyError Json → PollState
  | .error e => .answered (.error e)
  | .ok msg => if msg = .null ∧ i < maxTimeout then .sleeping i else .answered (respond topic msg)

def waitTime : ℕ := 20

/-- `msg[0]`. -/
def firstItem : Json → Except PyError Json
  | .arr (m :: _) => .ok m
  | .arr [] => .error .indexError
  | .str (c :: _) => .ok (.str [c])
  | .str [] => .error .indexError
  | .obj _ => .error .keyError
  | _ => .error .typeError

inductive SwapState
  | sleeping (timeout : ℕ)
  | returned (result : Except PyError Json)
  deriving DecidableEq

/-- The loop of `swap_thread_id_for_exchange_id` up to its next sleep. It waits as long as the
message cannot be indexed; an id found at the very end of the wait time is a timeout too. -/
def swapThreadIdForExchangeId (threadId dataType idTxt : Str) (timeout : ℕ) (s : Store) :
    SwapState :=
  if waitTime < timeout then .returned (.error .timeoutError)
  else match getResource (.str threadId) dataType s with
    | .error e => .returned (.error e)
    | .ok msg => match firstItem msg >>= fun m => m.item idTxt with
      | .ok exId =>
          if waitTime ≤ timeout then .returned (.error .timeoutError) else .returned (.ok exId)
      | .error .typeError => .sleeping timeout
      | .error e => .returned (.error e)

/-- A call of `swap_thread_id_for_exchange_id`; `received` tells whether a message had been
pushed for it when it was made. -/
structure Swap where
  threadId : Str
  dataType : Str
  idTxt : Str
  received : Bool
  state : SwapState
  deriving DecidableEq

/-- A message popped by a poll, with the number of the poll. -/
structure Pop where
  poll : ℕ
  recordId : Str
  dataType : Str
  message : Json
  deriving DecidableEq

/-- The store, the polls and swaps in the order of their start, the anoncreds handlers that wait,
and what was pushed and popped so far. -/
structure System where
  store : Store
  polls : List Poll
  swaps : List Swap
  fetches : List (Option CredentialFetch)
  pushes : List Push
  pops : List Pop

def start : System := ⟨empty, [], [], [], [], []⟩

/-- The messages pushed under a data id and a data type. -/
def under (key : Json) (dataType : Str) (ps : List Push) : List Json :=
  (ps.filter fun p => p.dataId.asKey = .ok key ∧ p.dataType = dataType).map Push.data

namespace System

def pushedUnder (s : System) (key : Json) (dataType : Str) : List Json :=
  under key dataType s.pushes

def poppedUnder (s : System) (key : Json) (dataType : Str) : List Json :=
  (s.pops.filter fun p => .str p.recordId = key ∧ p.dataType = dataType).map Pop.message

def poppedBy (s : System) (n : ℕ) : List Pop := s.pops.filter fun p => p.poll = n

def perform (s : System) (ps : List Push) : System :=
  { s with
    store := (performPushes ps s.store).1
    pushes := s.pushes ++ (performPushes ps s.store).2 }

def popOf (n : ℕ) (p : Poll) : Except PyError Json → List Pop
  | .error _ => []
  | .ok .null => []
  | .ok m => [⟨n, p.recordId, p.dataType, m⟩]

/-- The `n`th poll pops after `i` sleeps. -/
def attempt (s : System) (n : ℕ) (p : Poll) (i : ℕ) : System :=
  let result := popResource (.str p.recordId) p.dataType s.store
  let made : Attempt := ⟨s.store.queue (.str p.recordId) p.dataType, result.1⟩
  { s with
    store := result.2
    polls := s.polls.set n { p with
      attempts := p.attempts ++ [made]
      state := afterPop p.topic i result.1 }
    pops := s.pops ++ popOf n p result.1 }

end System

inductive Event
  | webhook (topic : Text) (payload : Json)
  | fetched (n : ℕ) (respStatus : ℕ) (respText : Text)
  | poll (topic : Text) (recordId : Option Str)
  | wake (n : ℕ)
  | swap (threadId dataType idTxt : Str)
  | resume (n : ℕ)
  deriving DecidableEq

/-- Polls without an id pop the latest message of any id; they do not take part. -/
def step (s : System) : Event → Option System
  | .webhook topic payload => match handleWebhook s.store topic payload with
    | .error _ => some s
    | .ok (.pushes ps) => some (s.perform ps)
    | .ok (.fetches f) => some { s with fetches := s.fetches ++ [some f] }
  | .fetched n respStatus respText => match s.fetches[n]? with
    | some (some f) =>
      let t := { s with fetches := s.fetches.set n none }
      match afterFetch f respStatus respText with
      | .error _ => some t
      | .ok ps => some (t.perform ps)
    | _ => none
  | .poll topic recordId => match makeAgentGetRequestResponse topic recordId with
    | .pops id dataType =>
      let p : Poll := ⟨topic, id, dataType, [], .sleeping 0⟩
      some ({ s with polls := s.polls ++ [p] }.attempt s.polls.length p 0)
    | .popsLatest => none
    | .answers _ _ => some s
  | .wake n => match s.polls[n]? with
    | some p => match p.state with
      | .sleeping i => some (s.attempt n p (i + 1))
      | .answered _ => none
    | none => none
  | .swap threadId dataType idTxt =>
    some { s with swaps := s.swaps ++ [⟨threadId, dataType, idTxt,
      s.pushedUnder (.str threadId) dataType ≠ [],
      swapThreadIdForExchangeId threadId dataType idTxt 0 s.store⟩] }
  | .resume n => match s.swaps[n]? with
    | some w => match w.state with
      | .sleeping timeout => some { s with swaps := s.swaps.set n { w with
          state := swapThreadIdForExchangeId w.threadId w.dataType w.idTxt (timeout + 1) s.store } }
      | .returned _ => none
    | none => none

/-- What one step does, with what enables it. -/
inductive Steps (s : System) : Event → System → Prop
  | rejected {topic payload e} (handled : handleWebhook s.store topic payload = .error e) :
      Steps s (.webhook topic payload) s
  | pushed {topic payload ps} (handled : handleWebhook s.store topic payload = .ok (.pushes ps)) :
      Steps s (.webhook topic payload) (s.perform ps)
  | fetches {topic payload f} (handled : handleWebhook s.store topic payload = .ok (.fetches f)) :
      Steps s (.webhook topic payload) { s with fetches := s.fetches ++ [some f] }
  | failed {n respStatus respText f e} (waiting : s.fetches[n]? = some (some f))
      (fetched : afterFetch f respStatus respText = .error e) :
      Steps s (.fetched n respStatus respText) { s with fetches := s.fetches.set n none }
  | fetched {n respStatus respText f ps} (waiting : s.fetches[n]? = some (some f))
      (fetched : afterFetch f respStatus respText = .ok ps) :
      Steps s (.fetched n respStatus respText)
        ({ s with fetches := s.fetches.set n none }.perform ps)
  | answers {topic recordId status text}
      (begins : makeAgentGetRequestResponse topic recordId = .answers status text) :
      Steps s (.poll topic recordId) s
  | poll {topic recordId id dataType}
      (begins : makeAgentGetRequestResponse topic recordId = .pops id dataType) :
      Steps s (.poll topic recordId)
        (({ s with polls := s.polls ++ [⟨topic, id, dataType, [], .sleeping 0⟩] } : System).attempt
          s.polls.length ⟨topic, id, dataType, [], .sleeping 0⟩ 0)
  | wake {n p i} (polls : s.polls[n]? = some p) (sleeps : p.state = .sleeping i) :
      Steps s (.wake n) (s.attempt n p (i + 1))
  | swap (threadId dataType idTxt) :
      Steps s (.swap threadId dataType idTxt) { s with swaps := s.swaps ++ [⟨threadId, dataType,
        idTxt, s.pushedUnder (.str threadId) dataType ≠ [],
        swapThreadIdForExchangeId threadId dataType idTxt 0 s.store⟩] }
  | resume {n w timeout} (swaps : s.swaps[n]? = some w) (sleeps : w.state = .sleeping timeout) :
      Steps s (.resume n) { s with swaps := s.swaps.set n { w with
        state := swapThreadIdForExchangeId w.threadId w.dataType w.idTxt (timeout + 1) s.store } }

theorem steps_of_step {s t : System} {e : Event} (next : step s e = some t) : Steps s e t := by
  cases e with
  | webhook topic payload =>
    cases hh : handleWebhook s.store topic payload with
    | error e =>
      simp only [step, hh, Option.some.injEq] at next
      exact next ▸ .rejected hh
    | ok handled =>
      cases handled with
      | pushes ps =>
        simp only [step, hh, Option.some.injEq] at next
        exact next ▸ .pushed hh
      | fetches f =>
        simp only [step, hh, Option.some.injEq] at next
        exact next ▸ .fetches hh
  | fetched n respStatus respText =>
    cases hf : s.fetches[n]? with
    | none => simp [step, hf] at next
    | some f =>
      cases f with
      | none => simp [step, hf] at next
      | some f =>
        simp only [step, hf] at next
        cases hr : afterFetch f respStatus respText with
        | error e =>
          rw [hr] at next
          exact Option.some.inj next ▸ .failed hf hr
        | ok ps =>
          rw [hr] at next
          exact Option.some.inj next ▸ .fetched hf hr
  | poll topic recordId =>
    cases hr : makeAgentGetRequestResponse topic recordId with
    | pops id dataType =>
      simp only [step, hr, Option.some.injEq] at next
      exact next ▸ .poll hr
    | popsLatest => simp [step, hr] at next
    | answers status text =>
      simp only [step, hr, Option.some.injEq] at next
      exact next ▸ .answers hr
  | wake n =>
    cases hp : s.polls[n]? with
    | none => simp [step, hp] at next
    | some p =>
      cases hstate : p.state with
      | answered answer => simp [step, hp, hstate] at next
      | sleeping i =>
        simp only [step, hp, hstate, Option.some.injEq] at next
        exact next ▸ .wake hp hstate
  | swap threadId dataType idTxt => exact Option.some.inj next ▸ .swap threadId dataType idTxt
  | resume n =>
    cases hw : s.swaps[n]? with
    | none => simp [step, hw] at next
    | some w =>
      cases hstate : w.state with
      | returned result => simp [step, hw, hstate] at next
      | sleeping timeout =>
        simp only [step, hw, hstate, Option.some.injEq] at next
        exact next ▸ .resume hw hstate

end AgentTestHarness.ResponsePolls
