import AgentTestHarness.OrderedDict
import AgentTestHarness.PyJson
import AgentTestHarness.Runs

/-! The present-proof protocol between .NET backchannels. Every party keeps a cache of exchange
objects; commands, the handlers of the framework and the middleware change them between awaits.
The framework is any that keeps its laws. The network loses, repeats, reorders and misdelivers, but
it does not invent messages. -/
namespace AgentTestHarness.PresentationExchanges
open PyText OrderedDict Runs
open PyJson (Json)
open scoped List

/-- `TestHarnessPresentationExchangeState`. -/
inductive ExchangeState
  | proposalSent
  | proposalReceived
  | requestSent
  | requestReceived
  | presentationSent
  | presentationReceived
  | rejectSent
  | done
  deriving DecidableEq

/-- `TestHarnessPresentationExchange`. -/
structure Exchange where
  threadId : Text
  recordId : Text
  state : ExchangeState
  deriving DecidableEq

inductive Message
  | requestPresentation (threadId : Text)
  | presentation (threadId : Text)
  | ackPresentation (threadId status : Text)
  deriving DecidableEq

/-! The framework. -/

/-- What the backchannel uses of the framework: a wallet of proof records, and what is done with
it. An operation may fail; a new record gets the id that comes with the operation. -/
structure Services where
  Wallet : Type
  start : Wallet
  /-- The tag of a record for its last thread. -/
  threadOf : Wallet → (recordId : Text) → Option Text
  /-- The record holds a presentation on the thread. -/
  Holds : Wallet → (recordId threadId : Text) → Prop
  getByThreadId : Wallet → (threadId : Text) → Option Text
  createRequest : Wallet → Json → (threadId recordId : Text) → Option Wallet
  /-- The wallet and the thread of the message. -/
  createPresentation : Wallet → (recordId : Text) → Json → Option (Wallet × Text)
  verifyProof : Wallet → (recordId : Text) → Bool
  /-- The framework's own handling of a message. -/
  process : Wallet → Message → (recordId : Text) → Option Wallet

/-- The laws of the framework: a record stays on its thread, and holds a presentation only if one
was created from it or received on the thread; a record without one is not valid. -/
structure Framework extends Services where
  threadOf_getByThreadId : ∀ {w t r}, getByThreadId w t = some r → threadOf w r = some t
  threadOf_created : ∀ {w data t r w'}, createRequest w data t r = some w' →
    threadOf w' r = some t
  threadOf_presented : ∀ {w r data w' t}, createPresentation w r data = some (w', t) →
    threadOf w r = some t
  createRequest_kept : ∀ {w data t r w' id u}, createRequest w data t r = some w' →
    threadOf w id = some u → threadOf w' id = some u
  createPresentation_kept : ∀ {w r data w' t id u}, createPresentation w r data = some (w', t) →
    threadOf w id = some u → threadOf w' id = some u
  process_kept : ∀ {w m r w' id u}, process w m r = some w' → threadOf w id = some u →
    threadOf w' id = some u
  not_holds_start : ∀ {id u}, ¬ Holds start id u
  holds_createRequest : ∀ {w data t r w' id u}, createRequest w data t r = some w' →
    Holds w' id u → Holds w id u
  holds_createPresentation : ∀ {w r data w' t id u}, createPresentation w r data = some (w', t) →
    Holds w' id u → Holds w id u ∨ u = t
  holds_process : ∀ {w m r w' id u}, process w m r = some w' → Holds w' id u →
    Holds w id u ∨ m = .presentation u
  holds_of_verifyProof : ∀ {w r t}, verifyProof w r = true → threadOf w r = some t → Holds w r t

/-! A party. -/

/-- A command that awaits the framework, with what it has so far: the exchange that it found in the
cache, a request with its record, the thread of a presentation, or a proof that is valid. -/
inductive Command
  | sendRequest (threadId tag recordId : Text)
  | createPresentation (exchange : ℕ)
  | sendPresentation (exchange : ℕ) (threadId : Text)
  | verifyPresentation (exchange : ℕ) (threadId : Text)
  | acknowledge (exchange : ℕ) (threadId : Text)
  deriving DecidableEq

/-- The cache refers to exchanges by their place among all objects, and so do the one-shot
subscriptions for a presentation. -/
structure Party (F : Framework) where
  wallet : F.Wallet
  processed : List Message
  exchanges : List Exchange
  proofCache : List (Text × ℕ)
  subscriptions : List ℕ
  running : List Command

/-- What happens at a party between two awaits. -/
inductive Action
  | createRequest (data : Json) (threadId recordId : Text)
  | sendRequest (threadId tag recordId : Text)
  | process (message : Message) (recordId : Text)
  | receiveRequest (threadId : Text)
  | beginPresentation (threadId : Text)
  | createPresentation (exchange : ℕ) (data : Json) (threadId : Text)
  | sendPresentation (exchange : ℕ) (threadId : Text)
  | publishPresentation (threadId : Text)
  | beginVerification (threadId : Text)
  | verifyPresentation (exchange : ℕ) (threadId : Text)
  | acknowledge (exchange : ℕ) (threadId : Text)
  | receiveAck (threadId status : Text)
  | throws (c : Command)

namespace Party

variable {F : Framework}

def start : Party F := ⟨F.start, [], [], [], [], []⟩

variable (p : Party F)

/-- `_proofCache.Get`. -/
def cached (threadId : Text) : Option Exchange :=
  (lookup threadId p.proofCache).bind fun i => p.exchanges[i]?

/-- A new exchange object, in the cache under its thread. -/
def cacheExchange (x : Exchange) : Party F :=
  { p with
    exchanges := p.exchanges ++ [x]
    proofCache := assign x.threadId p.exchanges.length p.proofCache }

def setState (i : ℕ) (state : ExchangeState) : Party F :=
  { p with exchanges := p.exchanges.modify i fun x => { x with state } }

/-- `UpdateStateOnMessage`: every subscription whose exchange is on the thread sets its state and
is gone. -/
def updateStateOnMessage (threadId : Text) : Party F :=
  { p with
    exchanges := p.exchanges.mapIdx fun i x =>
      if i ∈ p.subscriptions ∧ x.threadId = threadId then { x with state := .presentationReceived }
      else x
    subscriptions := p.subscriptions.filter fun i =>
      (p.exchanges[i]?).map Exchange.threadId ≠ some threadId }

/-- `SendPresentationRequestAsync` once it has the connection; the tag of the record is the thread
of the exchange. -/
def sendPresentationRequest (tag recordId : Text) : Party F :=
  { p.cacheExchange ⟨tag, recordId, .requestSent⟩ with
    subscriptions := p.subscriptions ++ [p.exchanges.length] }

/-- `OnMessageAsync` of the middleware for a request; without a record it throws. -/
def onMessage (threadId : Text) : Option (Party F) :=
  (F.getByThreadId p.wallet threadId).map fun recordId =>
    p.cacheExchange ⟨threadId, recordId, .requestReceived⟩

/-- `ProcessAsync` of the handler of acknowledgements; without an exchange it throws. -/
def onAck (threadId status : Text) : Party F :=
  match lookup threadId p.proofCache with
  | none => p
  | some i =>
    if status = "OK".toList ∧ (p.exchanges[i]?).map Exchange.state = some .presentationSent then
      p.setState i .done
    else p

def runs (c : Command) : Party F := { p with running := p.running ++ [c] }

def returns (c : Command) : Party F := { p with running := p.running.erase c }

/-- A command reads the cache; without an exchange it throws. -/
def begin (threadId : Text) (command : ℕ → Command) : Party F :=
  match lookup threadId p.proofCache with
  | some i => p.runs (command i)
  | none => p

/-- The record of an exchange. -/
def recordOf (i : ℕ) : Option Text := (p.exchanges[i]?).map Exchange.recordId

/-- `CreateRequestAsync`, with the tag of the record that it made. -/
def createRequest (data : Json) (threadId recordId : Text) : Option (Party F) :=
  (F.createRequest p.wallet data threadId recordId).bind fun wallet =>
    (F.threadOf wallet recordId).map fun tag =>
      ({ p with wallet }).runs (.sendRequest threadId tag recordId)

/-- `CreatePresentationAsync` for an exchange, which makes a message on the thread. -/
def createPresentation (i : ℕ) (data : Json) (threadId : Text) : Option (Party F) :=
  (p.recordOf i).bind fun recordId =>
    (F.createPresentation p.wallet recordId data).bind fun made =>
      if made.2 = threadId then
        some ((({ p with wallet := made.1 }).returns (.createPresentation i)).runs
          (.sendPresentation i threadId))
      else none

/-- An action with the messages it sends, where it can happen: `sent` are the messages that any
party has sent. -/
def act (sent : List Message) : Action → Option (Party F × List Message)
  | .createRequest data t r => (p.createRequest data t r).map fun q => (q, [])
  | .sendRequest t tag r =>
    if .sendRequest t tag r ∈ p.running then
      some ((p.sendPresentationRequest tag r).returns (.sendRequest t tag r),
        [.requestPresentation t])
    else none
  | .process m r =>
    if m ∈ sent then
      (F.process p.wallet m r).map fun wallet =>
        ({ p with wallet, processed := p.processed ++ [m] }, [])
    else none
  | .receiveRequest t =>
    if .requestPresentation t ∈ sent then (p.onMessage t).map fun q => (q, []) else none
  | .beginPresentation t => some (p.begin t .createPresentation, [])
  | .createPresentation i data t =>
    if .createPresentation i ∈ p.running then (p.createPresentation i data t).map fun q => (q, [])
    else none
  | .sendPresentation i t =>
    if .sendPresentation i t ∈ p.running then
      some ((p.setState i .presentationSent).returns (.sendPresentation i t), [.presentation t])
    else none
  | .publishPresentation t =>
    if .presentation t ∈ p.processed then some (p.updateStateOnMessage t, []) else none
  | .beginVerification t => some (p.begin t fun i => .verifyPresentation i t, [])
  | .verifyPresentation i t =>
    if .verifyPresentation i t ∈ p.running ∧
        (p.recordOf i).map (F.verifyProof p.wallet) = some true then
      some ((p.returns (.verifyPresentation i t)).runs (.acknowledge i t), [])
    else none
  | .acknowledge i t =>
    if .acknowledge i t ∈ p.running then
      some ((p.setState i .done).returns (.acknowledge i t), [.ackPresentation t "OK".toList])
    else none
  | .receiveAck t status =>
    if .ackPresentation t status ∈ sent then some (p.onAck t status, []) else none
  | .throws c => if c ∈ p.running then some (p.returns c, []) else none

end Party

structure Network (F : Framework) where
  parties : Dict Text (Party F)
  sent : List Message

namespace Network

variable {F : Framework}

def start : Network F := ⟨Dict.empty, []⟩

def party (n : Network F) (name : Text) : Party F := (n.parties.get? name).getD Party.start

def step (n : Network F) (e : Text × Action) : Option (Network F) :=
  ((n.party e.1).act n.sent e.2).map fun (p, messages) =>
    ⟨n.parties.set e.1 p, n.sent ++ messages⟩

end Network

/-! What has happened on a thread. -/

inductive Stage
  | requestSent
  | requestReceived
  | presentationMade
  | presentationSent
  | presentationReceived
  | verified
  deriving DecidableEq

def stage (threadId : Text) : Action → Option Stage
  | .sendRequest t _ _ => if t = threadId then some .requestSent else none
  | .receiveRequest t => if t = threadId then some .requestReceived else none
  | .createPresentation _ _ t => if t = threadId then some .presentationMade else none
  | .sendPresentation _ t => if t = threadId then some .presentationSent else none
  | .process (.presentation t) _ => if t = threadId then some .presentationReceived else none
  | .verifyPresentation _ t => if t = threadId then some .verified else none
  | _ => none

/-- The stages of a thread, in the order in which the parties came to them. -/
def stages (es : List (Text × Action)) (threadId : Text) : List (Text × Stage) :=
  es.filterMap fun e => (stage threadId e.2).map fun s => (e.1, s)

section

variable (h : List (Text × Stage))

def Requested : Prop := ∃ verifier, [(verifier, Stage.requestSent)] <+ h

def Made (prover : Text) : Prop :=
  ∃ verifier, [(verifier, Stage.requestSent), (prover, .presentationMade)] <+ h

def Sent (prover : Text) : Prop :=
  ∃ verifier, [(verifier, Stage.requestSent), (prover, .presentationMade),
    (prover, .presentationSent)] <+ h

def Received (name : Text) : Prop :=
  ∃ verifier prover, [(verifier, Stage.requestSent), (prover, .presentationMade),
    (prover, .presentationSent), (name, .presentationReceived)] <+ h

/-- A party verified what it had received, or what it had made itself. -/
def Verified (name : Text) : Prop :=
  (∃ verifier prover, [(verifier, Stage.requestSent), (prover, .presentationMade),
    (prover, .presentationSent), (name, .presentationReceived), (name, .verified)] <+ h) ∨
  ∃ verifier, [(verifier, Stage.requestSent), (name, .presentationMade), (name, .verified)] <+ h

/-- What the state of an exchange of a party tells of the thread. The other states are not set. -/
def ExchangeState.Tells (name : Text) : ExchangeState → Prop
  | .requestSent => [(name, Stage.requestSent)] <+ h
  | .requestReceived =>
    ∃ verifier, [(verifier, Stage.requestSent), (name, .requestReceived)] <+ h
  | .presentationSent => Sent h name
  | .presentationReceived => Received h name
  | .done => Verified h name ∨ Sent h name ∧ ∃ verifier, Verified h verifier
  | _ => False

end

/-- A history of the threads, and what an action of a party adds to it. -/
abbrev History := Text → List (Text × Stage)

def after (h : History) (e : Text × Action) : History := fun t =>
  h t ++ ((stage t e.2).map fun s => (e.1, s)).toList

theorem sublist_after (h : History) (e : Text × Action) (t : Text) : h t <+ after h e t :=
  List.sublist_append_left _ _

theorem stages_snoc (es : List (Text × Action)) (e : Text × Action) :
    stages (es ++ [e]) = after (stages es) e := by
  funext t
  simp only [stages, after, List.filterMap_append, List.filterMap_cons, List.filterMap_nil]
  cases stage t e.2 <;> rfl

/-- What the action adds comes after what was there. -/
theorem snoc_sublist_after {h : History} {name t : Text} {a : Action} {xs : List (Text × Stage)}
    {x : Stage} (hxs : xs <+ h t) (hx : stage t a = some x) :
    xs ++ [(name, x)] <+ after h (name, a) t := by
  rw [after, hx]
  exact hxs.append (List.Sublist.refl [(name, x)])

section

variable {h k : List (Text × Stage)} {name : Text}

theorem Requested.mono (hr : Requested h) (hk : h <+ k) : Requested k := by
  obtain ⟨v, hv⟩ := hr
  exact ⟨v, hv.trans hk⟩

theorem Made.mono (hm : Made h name) (hk : h <+ k) : Made k name := by
  obtain ⟨v, hv⟩ := hm
  exact ⟨v, hv.trans hk⟩

theorem Sent.mono (hs : Sent h name) (hk : h <+ k) : Sent k name := by
  obtain ⟨v, hv⟩ := hs
  exact ⟨v, hv.trans hk⟩

theorem Received.mono (hr : Received h name) (hk : h <+ k) : Received k name := by
  obtain ⟨v, q, hv⟩ := hr
  exact ⟨v, q, hv.trans hk⟩

theorem Verified.mono (hv : Verified h name) (hk : h <+ k) : Verified k name := by
  rcases hv with ⟨v, q, hv⟩ | ⟨v, hv⟩
  · exact .inl ⟨v, q, hv.trans hk⟩
  · exact .inr ⟨v, hv.trans hk⟩

theorem ExchangeState.Tells.mono {state : ExchangeState} (ht : state.Tells h name) (hk : h <+ k) :
    state.Tells k name := by
  cases state with
  | requestSent => exact List.Sublist.trans ht hk
  | requestReceived =>
    obtain ⟨v, hv⟩ := ht
    exact ⟨v, hv.trans hk⟩
  | presentationSent => exact Sent.mono ht hk
  | presentationReceived => exact Received.mono ht hk
  | done =>
    rcases ht with hv | ⟨hs, v, hv⟩
    · exact .inl (hv.mono hk)
    · exact .inr ⟨hs.mono hk, v, hv.mono hk⟩
  | _ => exact ht.elim

/-- Whatever is told of a thread, its request was sent first. -/
theorem requested_of_sublist {xs : List (Text × Stage)} (hv : (name, .requestSent) :: xs <+ h) :
    Requested h :=
  ⟨name, (List.sublist_append_left [(name, Stage.requestSent)] xs).trans hv⟩

theorem Sent.requested (hs : Sent h name) : Requested h := by
  obtain ⟨v, hv⟩ := hs
  exact requested_of_sublist hv

theorem Received.requested (hr : Received h name) : Requested h := by
  obtain ⟨v, q, hv⟩ := hr
  exact requested_of_sublist hv

theorem Verified.requested (hv : Verified h name) : Requested h := by
  rcases hv with ⟨v, q, hv⟩ | ⟨v, hv⟩
  · exact requested_of_sublist hv
  · exact requested_of_sublist hv

theorem ExchangeState.Tells.requested {state : ExchangeState} (ht : state.Tells h name) :
    Requested h := by
  cases state with
  | requestSent => exact ⟨name, ht⟩
  | requestReceived =>
    obtain ⟨v, hv⟩ := ht
    exact requested_of_sublist hv
  | presentationSent => exact Sent.requested ht
  | presentationReceived => exact Received.requested ht
  | done =>
    rcases ht with hv | ⟨hs, -⟩
    · exact hv.requested
    · exact hs.requested
  | _ => exact ht.elim

end

/-- What a message tells of its thread. -/
def Message.Told (h : History) : Message → Prop
  | .requestPresentation t => Requested (h t)
  | .presentation t => ∃ prover, Sent (h t) prover
  | .ackPresentation t _ => ∃ verifier, Verified (h t) verifier

theorem Message.Told.mono {h k : History} {m : Message} (hm : m.Told h)
    (hk : ∀ t, h t <+ k t) : m.Told k := by
  cases m with
  | requestPresentation t => exact Requested.mono hm (hk t)
  | presentation t =>
    obtain ⟨q, hq⟩ := hm
    exact ⟨q, hq.mono (hk t)⟩
  | ackPresentation t _ =>
    obtain ⟨v, hv⟩ := hm
    exact ⟨v, hv.mono (hk t)⟩

namespace Party

variable {F : Framework}

def threadAt (p : Party F) (i : ℕ) : Option Text := (p.exchanges[i]?).map Exchange.threadId

/-- What a command holds is on its thread, and has happened. -/
def CommandSound (p : Party F) (h : History) (name : Text) : Command → Prop
  | .sendRequest t tag r => tag = t ∧ F.threadOf p.wallet r = some t
  | .createPresentation _ => True
  | .sendPresentation i t => p.threadAt i = some t ∧ Made (h t) name
  | .verifyPresentation i t => p.threadAt i = some t
  | .acknowledge i t => p.threadAt i = some t ∧ Verified (h t) name

/-- Nothing at a party tells more of a thread than has happened on it. -/
structure Sound (h : History) (name : Text) (p : Party F) : Prop where
  holds : ∀ r t, F.Holds p.wallet r t → Received (h t) name ∨ Made (h t) name
  processed : ∀ t, .presentation t ∈ p.processed → Received (h t) name
  told : ∀ (i : ℕ) (x : Exchange), p.exchanges[i]? = some x → x.state.Tells (h x.threadId) name
  recorded : ∀ (i : ℕ) (x : Exchange), p.exchanges[i]? = some x →
    F.threadOf p.wallet x.recordId = some x.threadId
  cached : ∀ t i, lookup t p.proofCache = some i → p.threadAt i = some t
  running : ∀ c ∈ p.running, p.CommandSound h name c

variable {p : Party F} {h k : History} {name : Text}

theorem sound_start (h : History) (name : Text) : (start : Party F).Sound h name where
  holds _ _ hr := absurd hr F.not_holds_start
  processed _ ht := absurd ht List.not_mem_nil
  told i x hx := absurd hx (by simp [start])
  recorded i x hx := absurd hx (by simp [start])
  cached t i hi := absurd hi (by simp [start])
  running c hc := absurd hc List.not_mem_nil

/-- Commands stay sound when records and exchanges keep their threads, and the history grows. -/
theorem CommandSound.of_kept {q : Party F} {c : Command} (hc : p.CommandSound h name c)
    (threads : ∀ {i t}, p.threadAt i = some t → q.threadAt i = some t)
    (records : ∀ {r t}, F.threadOf p.wallet r = some t → F.threadOf q.wallet r = some t)
    (hk : ∀ t, h t <+ k t) : q.CommandSound k name c := by
  cases c with
  | sendRequest t tag r => exact ⟨hc.1, records hc.2⟩
  | createPresentation i => trivial
  | sendPresentation i t => exact ⟨threads hc.1, hc.2.mono (hk t)⟩
  | verifyPresentation i t => exact threads hc
  | acknowledge i t => exact ⟨threads hc.1, hc.2.mono (hk t)⟩

theorem Sound.mono (s : p.Sound h name) (hk : ∀ t, h t <+ k t) : p.Sound k name where
  holds r t hr := (s.holds r t hr).imp (·.mono (hk t)) (·.mono (hk t))
  processed t ht := (s.processed t ht).mono (hk t)
  told i x hx := (s.told i x hx).mono (hk _)
  recorded := s.recorded
  cached := s.cached
  running c hc := (s.running c hc).of_kept (fun ht => ht) (fun hr => hr) hk

/-! The operations of a party. -/

/-- The wallet changes, and keeps the threads of its records. -/
theorem Sound.withWallet (s : p.Sound h name) {wallet : F.Wallet}
    (records : ∀ {r t}, F.threadOf p.wallet r = some t → F.threadOf wallet r = some t)
    (holds : ∀ r t, F.Holds wallet r t → Received (h t) name ∨ Made (h t) name) :
    Sound h name { p with wallet } where
  holds := holds
  processed := s.processed
  told := s.told
  recorded i x hx := records (s.recorded i x hx)
  cached := s.cached
  running c hc := (s.running c hc).of_kept (fun ht => ht) records fun t => List.Sublist.refl (h t)

theorem Sound.withProcessed (s : p.Sound h name) {m : Message}
    (hm : ∀ t, m = .presentation t → Received (h t) name) :
    Sound h name { p with processed := p.processed ++ [m] } :=
  { s with
    processed := fun t ht => by
      rcases List.mem_append.mp ht with ht | ht
      · exact s.processed t ht
      · exact hm t (List.mem_singleton.mp ht).symm
    running := fun c hc => (s.running c hc).of_kept (fun ht => ht) (fun hr => hr) fun t =>
      List.Sublist.refl (h t) }

/-- The states of exchanges change, to states that tell no more than what has happened. -/
theorem Sound.of_states (s : p.Sound h name) {q : Party F} (wallet : q.wallet = p.wallet)
    (processed : q.processed = p.processed) (cache : q.proofCache = p.proofCache)
    (running : q.running = p.running)
    (exchanges : ∀ i : ℕ, q.exchanges[i]? = p.exchanges[i]? ∨
      ∃ (x : Exchange) (state : ExchangeState), p.exchanges[i]? = some x ∧
        q.exchanges[i]? = some { x with state } ∧ state.Tells (h x.threadId) name) :
    q.Sound h name := by
  have threads : ∀ i, q.threadAt i = p.threadAt i := by
    intro i
    rcases exchanges i with hi | ⟨x, state, hx, hq, -⟩
    · rw [threadAt, hi, threadAt]
    · rw [threadAt, threadAt, hx, hq]
      rfl
  refine ⟨wallet ▸ s.holds, processed ▸ s.processed, ?_, ?_, ?_, ?_⟩
  · intro i y hy
    rcases exchanges i with hi | ⟨x, state, hx, hq, htold⟩
    · exact s.told i y (hi ▸ hy)
    · obtain rfl := Option.some.inj (hq.symm.trans hy)
      exact htold
  · intro i y hy
    rw [wallet]
    rcases exchanges i with hi | ⟨x, state, hx, hq, -⟩
    · exact s.recorded i y (hi ▸ hy)
    · obtain rfl := Option.some.inj (hq.symm.trans hy)
      exact s.recorded i x hx
  · intro t i hi
    rw [threads]
    exact s.cached t i (cache ▸ hi)
  · intro c hc
    refine (s.running c (running ▸ hc)).of_kept ?_ ?_ fun t => List.Sublist.refl (h t)
    · exact fun ht => (threads _).trans ht
    · exact fun hr => wallet ▸ hr

theorem Sound.setState (s : p.Sound h name) {i : ℕ} {state : ExchangeState} {t : Text}
    (hi : p.threadAt i = some t) (htold : state.Tells (h t) name) :
    (p.setState i state).Sound h name := by
  refine s.of_states rfl rfl rfl rfl fun j => ?_
  rw [Party.setState, List.getElem?_modify]
  by_cases hij : i = j
  · subst hij
    obtain ⟨x, hx, rfl⟩ := Option.map_eq_some_iff.mp hi
    exact .inr ⟨x, state, hx, by simp [hx], htold⟩
  · refine .inl ?_
    simp [hij]

/-- A published presentation has been received on its thread. -/
theorem Sound.updateStateOnMessage (s : p.Sound h name) {t : Text} (ht : Received (h t) name) :
    (p.updateStateOnMessage t).Sound h name := by
  refine s.of_states rfl rfl rfl rfl fun i => ?_
  rw [Party.updateStateOnMessage, List.getElem?_mapIdx]
  cases hx : p.exchanges[i]? with
  | none => exact .inl rfl
  | some x =>
    by_cases hsub : i ∈ p.subscriptions ∧ x.threadId = t
    · refine .inr ⟨x, .presentationReceived, rfl, ?_, hsub.2 ▸ ht⟩
      rw [Option.map_some, if_pos hsub]
    · refine .inl ?_
      rw [Option.map_some, if_neg hsub]

theorem threadAt_cacheExchange {x : Exchange} {i : ℕ} {t : Text} (hi : p.threadAt i = some t) :
    (p.cacheExchange x).threadAt i = some t := by
  obtain ⟨y, hy, rfl⟩ := Option.map_eq_some_iff.mp hi
  have hlt : i < p.exchanges.length := (List.getElem?_eq_some_iff.mp hy).1
  rw [threadAt, cacheExchange, List.getElem?_append_left hlt, hy, Option.map_some]

/-- The exchanges after one is cached. -/
theorem exchange_cacheExchange {x y : Exchange} {i : ℕ}
    (hy : (p.cacheExchange x).exchanges[i]? = some y) : p.exchanges[i]? = some y ∨ y = x := by
  rw [cacheExchange, List.getElem?_append] at hy
  split at hy
  · exact .inl hy
  · exact .inr (List.mem_singleton.mp (List.mem_of_getElem? hy))

theorem Sound.cacheExchange (s : p.Sound h name) {x : Exchange}
    (htold : x.state.Tells (h x.threadId) name)
    (hrecord : F.threadOf p.wallet x.recordId = some x.threadId) :
    (p.cacheExchange x).Sound h name where
  holds := s.holds
  processed := s.processed
  told i y hy := by
    rcases exchange_cacheExchange hy with hy | rfl
    · exact s.told i y hy
    · exact htold
  recorded i y hy := by
    rcases exchange_cacheExchange hy with hy | rfl
    · exact s.recorded i y hy
    · exact hrecord
  cached t i hi := by
    rw [Party.cacheExchange, lookup_assign] at hi
    split at hi
    · next heq =>
      obtain rfl := Option.some.inj hi
      simp [threadAt, Party.cacheExchange, heq]
    · exact threadAt_cacheExchange (s.cached t i hi)
  running c hc := (s.running c hc).of_kept threadAt_cacheExchange (fun hr => hr) fun t =>
    List.Sublist.refl (h t)

theorem Sound.runs (s : p.Sound h name) {c : Command} (hc : p.CommandSound h name c) :
    (p.runs c).Sound h name :=
  { s with
    running := fun d hd => by
      rcases List.mem_append.mp hd with hd | hd
      · exact s.running d hd
      · exact List.mem_singleton.mp hd ▸ hc }

theorem Sound.returns (s : p.Sound h name) (c : Command) : (p.returns c).Sound h name :=
  { s with running := fun d hd => s.running d (List.mem_of_mem_erase hd) }

/-- Subscriptions tell nothing. -/
theorem Sound.subscribes (s : p.Sound h name) (subscriptions : List ℕ) :
    Sound h name { p with subscriptions } :=
  ⟨s.holds, s.processed, s.told, s.recorded, s.cached, s.running⟩

theorem Sound.begin (s : p.Sound h name) {t : Text} {command : ℕ → Command}
    (hcommand : ∀ {i}, p.threadAt i = some t → p.CommandSound h name (command i)) :
    (p.begin t command).Sound h name := by
  rw [Party.begin]
  split
  · next i hi => exact s.runs (hcommand (s.cached t i hi))
  · exact s

/-- Only an exchange whose presentation was sent is done by an acknowledgement. -/
theorem Sound.onAck (s : p.Sound h name) {t : Text} (ht : ∃ verifier, Verified (h t) verifier)
    (status : Text) : (p.onAck t status).Sound h name := by
  rw [Party.onAck]
  split
  · exact s
  · next i hi =>
    split
    · next hstatus =>
      have hthread := s.cached t i hi
      obtain ⟨x, hx, hsent⟩ := Option.map_eq_some_iff.mp hstatus.2
      have htold := s.told i x hx
      rw [hsent] at htold
      rw [threadAt, hx, Option.map_some, Option.some.injEq] at hthread
      exact s.setState (s.cached t i hi) (.inr ⟨hthread ▸ htold, ht⟩)
    · exact s

/-- The record of an exchange is on its thread. -/
theorem Sound.recordOf (s : p.Sound h name) {i : ℕ} {r : Text} (hr : p.recordOf i = some r) :
    ∃ x, p.exchanges[i]? = some x ∧ F.threadOf p.wallet r = some x.threadId := by
  obtain ⟨x, hx, rfl⟩ := Option.map_eq_some_iff.mp hr
  exact ⟨x, hx, s.recorded i x hx⟩

/-- The tag of a new record is the thread of its request. -/
theorem Sound.createRequest (s : p.Sound h name) {data : Json} {t r : Text} {q : Party F}
    (hq : p.createRequest data t r = some q) : q.Sound h name := by
  obtain ⟨wallet, hwallet, hq⟩ := Option.bind_eq_some_iff.mp hq
  obtain ⟨tag, htag, rfl⟩ := Option.map_eq_some_iff.mp hq
  have hcreated := F.threadOf_created hwallet
  obtain rfl : tag = t := Option.some.inj (htag.symm.trans hcreated)
  have hkept : Sound h name { p with wallet } :=
    s.withWallet (F.createRequest_kept hwallet) fun id u hid =>
      s.holds id u (F.holds_createRequest hwallet hid)
  exact hkept.runs ⟨rfl, hcreated⟩

/-- A presentation is made on the thread of its exchange. -/
theorem Sound.threadAt_of_createPresentation (s : p.Sound h name) {i : ℕ} {data : Json} {t : Text}
    {q : Party F} (hq : p.createPresentation i data t = some q) : p.threadAt i = some t := by
  obtain ⟨r, hr, hq⟩ := Option.bind_eq_some_iff.mp hq
  obtain ⟨made, hmade, hq⟩ := Option.bind_eq_some_iff.mp hq
  split at hq
  · next ht =>
    obtain ⟨x, hx, hthread⟩ := s.recordOf hr
    rw [threadAt, hx, Option.map_some, ← hthread, ← ht]
    exact F.threadOf_presented (t := made.2) hmade
  · cases hq

theorem Sound.createPresentation (s : p.Sound h name) {i : ℕ} {data : Json} {t : Text}
    {q : Party F} (hq : p.createPresentation i data t = some q) (ht : Made (h t) name) :
    q.Sound h name := by
  have hthread := s.threadAt_of_createPresentation hq
  obtain ⟨r, hr, hq⟩ := Option.bind_eq_some_iff.mp hq
  obtain ⟨⟨wallet, u⟩, hmade, hq⟩ := Option.bind_eq_some_iff.mp hq
  split at hq
  · next hu =>
    obtain rfl : u = t := hu
    obtain rfl := Option.some.inj hq
    have hkept : Sound h name { p with wallet } :=
      s.withWallet (F.createPresentation_kept hmade) fun id v hid => by
        rcases F.holds_createPresentation hmade hid with hid | rfl
        · exact s.holds id v hid
        · exact .inr ht
    exact (hkept.returns _).runs ⟨hthread, ht⟩
  · cases hq

/-- What the framework stores has been received. -/
theorem Sound.process (s : p.Sound h name) {m : Message} {r : Text} {wallet : F.Wallet}
    (hwallet : F.process p.wallet m r = some wallet)
    (hm : ∀ t, m = .presentation t → Received (h t) name) :
    Sound h name { p with wallet, processed := p.processed ++ [m] } := by
  refine (s.withWallet (F.process_kept hwallet) fun id u hid => ?_).withProcessed hm
  rcases F.holds_process hwallet hid with hid | hu
  · exact s.holds id u hid
  · exact .inl (hm u hu)

/-- A proof that is valid was received, or made by the party itself. -/
theorem Sound.verifyProof (s : p.Sound h name) {i : ℕ} {t : Text} (hi : p.threadAt i = some t)
    (hvalid : (p.recordOf i).map (F.verifyProof p.wallet) = some true) :
    Received (h t) name ∨ Made (h t) name := by
  obtain ⟨r, hr, hvalid⟩ := Option.map_eq_some_iff.mp hvalid
  obtain ⟨x, hx, hthread⟩ := s.recordOf hr
  obtain rfl : x.threadId = t := by
    rw [threadAt, hx] at hi
    exact Option.some.inj hi
  exact s.holds r x.threadId (F.holds_of_verifyProof hvalid hthread)

/-- An exchange on a thread stands for a request on it. -/
theorem Sound.requested (s : p.Sound h name) {i : ℕ} {t : Text} (hi : p.threadAt i = some t) :
    Requested (h t) := by
  obtain ⟨x, hx, rfl⟩ := Option.map_eq_some_iff.mp hi
  exact (s.told i x hx).requested

end Party

theorem told_nil {h : History} : ∀ n ∈ ([] : List Message), n.Told h :=
  fun _ hn => absurd hn List.not_mem_nil

theorem told_singleton {h : History} {m : Message} (hm : m.Told h) : ∀ n ∈ [m], n.Told h :=
  fun _ hn => List.mem_singleton.mp hn ▸ hm

/-- What follows a stage on the thread, once an action adds it. -/
theorem requested_after {h : History} {name t : Text} {a : Action}
    (hstage : stage t a = some .requestSent) :
    [(name, Stage.requestSent)] <+ after h (name, a) t :=
  snoc_sublist_after (List.nil_sublist (h t)) hstage

theorem made_after {h : History} {name t : Text} {a : Action} (hr : Requested (h t))
    (hstage : stage t a = some .presentationMade) : Made (after h (name, a) t) name := by
  obtain ⟨v, hv⟩ := hr
  exact ⟨v, snoc_sublist_after hv hstage⟩

theorem sent_after {h : History} {name t : Text} {a : Action} (hm : Made (h t) name)
    (hstage : stage t a = some .presentationSent) : Sent (after h (name, a) t) name := by
  obtain ⟨v, hv⟩ := hm
  exact ⟨v, snoc_sublist_after hv hstage⟩

theorem received_after {h : History} {name t : Text} {a : Action}
    (hs : ∃ prover, Sent (h t) prover) (hstage : stage t a = some .presentationReceived) :
    Received (after h (name, a) t) name := by
  obtain ⟨q, v, hv⟩ := hs
  exact ⟨v, q, snoc_sublist_after hv hstage⟩

theorem verified_after {h : History} {name t : Text} {a : Action}
    (hp : Received (h t) name ∨ Made (h t) name) (hstage : stage t a = some .verified) :
    Verified (after h (name, a) t) name := by
  rcases hp with ⟨v, q, hv⟩ | ⟨v, hv⟩
  · exact .inl ⟨v, q, snoc_sublist_after hv hstage⟩
  · exact .inr ⟨v, snoc_sublist_after hv hstage⟩

/-- An action keeps a party sound, and its messages tell what has happened. -/
theorem Party.Sound.act {F : Framework} {p q : Party F} {h : History} {name : Text}
    {sent messages : List Message} {a : Action} (s : p.Sound h name)
    (hsent : ∀ m ∈ sent, m.Told h) (next : p.act sent a = some (q, messages)) :
    q.Sound (after h (name, a)) name ∧ ∀ m ∈ messages, m.Told (after h (name, a)) := by
  have mono := s.mono (sublist_after h (name, a))
  cases a with
  | createRequest data t r =>
    obtain ⟨hq, rfl⟩ : p.createRequest data t r = some q ∧ [] = messages := by
      simpa [Party.act] using next
    exact ⟨mono.createRequest hq, told_nil⟩
  | sendRequest t tag r =>
    obtain ⟨hrun, rfl, rfl⟩ : .sendRequest t tag r ∈ p.running ∧
        (p.sendPresentationRequest tag r).returns (.sendRequest t tag r) = q ∧
        [.requestPresentation t] = messages := by simpa [Party.act] using next
    obtain ⟨rfl, hr⟩ := s.running _ hrun
    have hnew : [(name, Stage.requestSent)] <+ after h (name, .sendRequest tag tag r) tag :=
      requested_after (if_pos rfl)
    refine ⟨Party.Sound.returns ?_ _, told_singleton ⟨name, hnew⟩⟩
    exact (mono.cacheExchange (x := ⟨tag, r, .requestSent⟩) hnew hr).subscribes _
  | process m r =>
    obtain ⟨hm, wallet, hwallet, rfl, rfl⟩ : m ∈ sent ∧ ∃ wallet,
        F.process p.wallet m r = some wallet ∧
        { p with wallet, processed := p.processed ++ [m] } = q ∧ [] = messages := by
      simpa [Party.act] using next
    refine ⟨mono.process hwallet ?_, told_nil⟩
    rintro t rfl
    exact received_after (hsent _ hm) (if_pos rfl)
  | receiveRequest t =>
    obtain ⟨hm, hq, rfl⟩ : .requestPresentation t ∈ sent ∧ p.onMessage t = some q ∧
        [] = messages := by simpa [Party.act] using next
    obtain ⟨r, hr, rfl⟩ := Option.map_eq_some_iff.mp hq
    obtain ⟨v, hv⟩ := hsent _ hm
    refine ⟨mono.cacheExchange ⟨v, ?_⟩ (F.threadOf_getByThreadId hr), told_nil⟩
    exact snoc_sublist_after hv (if_pos rfl)
  | beginPresentation t =>
    obtain ⟨rfl, rfl⟩ : p.begin t .createPresentation = q ∧ [] = messages := by
      simpa [Party.act] using next
    exact ⟨mono.begin fun _ => trivial, told_nil⟩
  | createPresentation i data t =>
    obtain ⟨-, hq, rfl⟩ : .createPresentation i ∈ p.running ∧
        p.createPresentation i data t = some q ∧ [] = messages := by
      simpa [Party.act] using next
    have hrequested := s.requested (s.threadAt_of_createPresentation hq)
    exact ⟨mono.createPresentation hq (made_after hrequested (if_pos rfl)), told_nil⟩
  | sendPresentation i t =>
    obtain ⟨hrun, rfl, rfl⟩ : .sendPresentation i t ∈ p.running ∧
        (p.setState i .presentationSent).returns (.sendPresentation i t) = q ∧
        [.presentation t] = messages := by simpa [Party.act] using next
    obtain ⟨hi, hmade⟩ := s.running _ hrun
    have hnew : ExchangeState.presentationSent.Tells
        (after h (name, .sendPresentation i t) t) name := sent_after hmade (if_pos rfl)
    exact ⟨(mono.setState hi hnew).returns _, told_singleton ⟨name, hnew⟩⟩
  | publishPresentation t =>
    obtain ⟨ht, rfl, rfl⟩ : .presentation t ∈ p.processed ∧ p.updateStateOnMessage t = q ∧
        [] = messages := by simpa [Party.act] using next
    exact ⟨mono.updateStateOnMessage (mono.processed t ht), told_nil⟩
  | beginVerification t =>
    obtain ⟨rfl, rfl⟩ : (p.begin t fun i => .verifyPresentation i t) = q ∧ [] = messages := by
      simpa [Party.act] using next
    exact ⟨mono.begin fun hi => hi, told_nil⟩
  | verifyPresentation i t =>
    obtain ⟨⟨hrun, hvalid⟩, rfl, rfl⟩ : (.verifyPresentation i t ∈ p.running ∧
        (p.recordOf i).map (F.verifyProof p.wallet) = some true) ∧
        (p.returns (.verifyPresentation i t)).runs (.acknowledge i t) = q ∧ [] = messages :=
      (Option.ite_none_right_eq_some.mp next).imp_right fun hq => Prod.mk.inj (Option.some.inj hq)
    have hi : p.threadAt i = some t := s.running _ hrun
    have hnew : Verified (after h (name, .verifyPresentation i t) t) name :=
      verified_after (s.verifyProof hi hvalid) (if_pos rfl)
    exact ⟨(mono.returns _).runs ⟨hi, hnew⟩, told_nil⟩
  | acknowledge i t =>
    obtain ⟨hrun, rfl, rfl⟩ : .acknowledge i t ∈ p.running ∧
        (p.setState i .done).returns (.acknowledge i t) = q ∧
        [.ackPresentation t "OK".toList] = messages := by simpa [Party.act] using next
    obtain ⟨hi, hverified⟩ := mono.running _ hrun
    have hdone : ExchangeState.done.Tells (after h (name, .acknowledge i t) t) name :=
      .inl hverified
    exact ⟨(mono.setState hi hdone).returns _, told_singleton ⟨name, hverified⟩⟩
  | receiveAck t status =>
    obtain ⟨hm, rfl, rfl⟩ : .ackPresentation t status ∈ sent ∧ p.onAck t status = q ∧
        [] = messages := by simpa [Party.act] using next
    obtain ⟨v, hv⟩ := hsent _ hm
    exact ⟨mono.onAck ⟨v, hv.mono (sublist_after h _ t)⟩ status, told_nil⟩
  | throws c =>
    obtain ⟨-, rfl, rfl⟩ : c ∈ p.running ∧ p.returns c = q ∧ [] = messages := by
      simpa [Party.act] using next
    exact ⟨mono.returns c, told_nil⟩

/-! Runs. -/

section

variable {F : Framework}

/-- Every party is sound, and no message tells more than has happened. -/
structure Network.Sound (h : History) (n : Network F) : Prop where
  parties : ∀ name, (n.party name).Sound h name
  sent : ∀ m ∈ n.sent, m.Told h

theorem Network.sound_start (h : History) : (start : Network F).Sound h where
  parties := Party.sound_start h
  sent _ hm := absurd hm List.not_mem_nil

theorem Network.Sound.step {n m : Network F} {h : History} {e : Text × Action} (s : n.Sound h)
    (next : n.step e = some m) : m.Sound (after h e) := by
  obtain ⟨⟨p, messages⟩, hact, rfl⟩ := Option.map_eq_some_iff.mp next
  obtain ⟨hp, hmessages⟩ := (s.parties e.1).act s.sent hact
  refine ⟨fun name => ?_, List.forall_mem_append.mpr ⟨fun m hm => ?_, hmessages⟩⟩
  · rw [party, Dict.get?_set]
    split
    · next heq => exact heq ▸ hp
    · exact (s.parties name).mono (sublist_after h e)
  · exact (s.sent m hm).mono (sublist_after h e)

theorem sound_of_run {es : List (Text × Action)} {n : Network F}
    (run : Run Network.step Network.start es n) : n.Sound (stages es) :=
  run.history (I := fun es n => n.Sound (stages es)) (Network.sound_start _)
    fun s next => stages_snoc _ _ ▸ s.step next

/-- In every run, whatever the framework, an exchange in any party's cache tells only what has
happened on its thread, in that order. -/
theorem cached_told {es : List (Text × Action)} {n : Network F}
    (run : Run Network.step Network.start es n) {name threadId : Text} {x : Exchange}
    (hx : (n.party name).cached threadId = some x) :
    x.threadId = threadId ∧ x.state.Tells (stages es threadId) name := by
  obtain ⟨i, hi, hget⟩ := Option.bind_eq_some_iff.mp hx
  have s := (sound_of_run run).parties name
  have hthread := s.cached threadId i hi
  rw [Party.threadAt, hget, Option.map_some, Option.some.injEq] at hthread
  exact ⟨hthread, hthread ▸ s.told i x hget⟩

end

/-! A plain framework. -/

/-- The thread of each record, and whether it holds a presentation. -/
abbrev Wallet := Dict Text (Text × Bool)

namespace Wallet

variable {w w' : Wallet} {t r id u : Text}

def threadOf (w : Wallet) (r : Text) : Option Text := (w.get? r).map Prod.fst

def addRecord (w : Wallet) (t r : Text) : Option Wallet :=
  if w.get? r = none then some (w.set r (t, false)) else none

/-- A record takes one presentation, created or received. -/
def accept (w : Wallet) (t r : Text) : Option Wallet :=
  if w.get? r = some (t, false) then some (w.set r (t, true)) else none

theorem get?_of_addRecord (h : w.addRecord t r = some w') :
    w.get? r = none ∧ ∀ id, w'.get? id = if id = r then some (t, false) else w.get? id := by
  obtain ⟨hnone, hset⟩ := Option.ite_none_right_eq_some.mp h
  obtain rfl := Option.some.inj hset
  exact ⟨hnone, fun id => Dict.get?_set w id r (t, false)⟩

theorem get?_of_accept (h : w.accept t r = some w') :
    w.get? r = some (t, false) ∧
      ∀ id, w'.get? id = if id = r then some (t, true) else w.get? id := by
  obtain ⟨hrecord, hset⟩ := Option.ite_none_right_eq_some.mp h
  obtain rfl := Option.some.inj hset
  exact ⟨hrecord, fun id => Dict.get?_set w id r (t, true)⟩

theorem threadOf_addRecord (h : w.addRecord t r = some w') (hid : w.threadOf id = some u) :
    w'.threadOf id = some u := by
  obtain ⟨hnone, hget⟩ := get?_of_addRecord h
  have hne : id ≠ r := by
    rintro rfl
    rw [threadOf, hnone] at hid
    cases hid
  rw [threadOf, hget, if_neg hne]
  exact hid

theorem threadOf_accept (h : w.accept t r = some w') (hid : w.threadOf id = some u) :
    w'.threadOf id = some u := by
  obtain ⟨hrecord, hget⟩ := get?_of_accept h
  rw [threadOf, hget]
  split
  · next heq =>
    subst heq
    rw [threadOf, hrecord] at hid
    exact hid
  · exact hid

theorem holds_addRecord (h : w.addRecord t r = some w') (hid : w'.get? id = some (u, true)) :
    w.get? id = some (u, true) := by
  rw [(get?_of_addRecord h).2] at hid
  split at hid
  · cases hid
  · exact hid

theorem holds_accept (h : w.accept t r = some w') (hid : w'.get? id = some (u, true)) :
    w.get? id = some (u, true) ∨ u = t := by
  rw [(get?_of_accept h).2] at hid
  split at hid
  · exact .inr (congrArg Prod.fst (Option.some.inj hid)).symm
  · exact .inl hid

def createPresentation (w : Wallet) (r : Text) : Option (Wallet × Text) :=
  (w.threadOf r).bind fun t => (w.accept t r).map fun w' => (w', t)

theorem accept_of_createPresentation (h : w.createPresentation r = some (w', t)) :
    w.threadOf r = some t ∧ w.accept t r = some w' := by
  obtain ⟨u, hu, h⟩ := Option.bind_eq_some_iff.mp h
  obtain ⟨v, hv, heq⟩ := Option.map_eq_some_iff.mp h
  obtain ⟨rfl, rfl⟩ := Prod.mk.inj heq
  exact ⟨hu, hv⟩

def process (w : Wallet) (m : Message) (r : Text) : Option Wallet :=
  match m with
  | .requestPresentation t => w.addRecord t r
  | .presentation t => w.accept t r
  | .ackPresentation _ _ => some w

end Wallet

/-- A framework whose wallet tells all it knows. -/
def plain : Framework where
  Wallet := Wallet
  start := Dict.empty
  threadOf := Wallet.threadOf
  Holds w r t := w.get? r = some (t, true)
  getByThreadId w t := (w.entries.find? fun e => e.2.1 = t).map Prod.fst
  createRequest w _ t r := w.addRecord t r
  createPresentation w r _ := w.createPresentation r
  verifyProof w r := (w.get? r).map Prod.snd = some true
  process := Wallet.process
  threadOf_getByThreadId := by
    intro w t r h
    obtain ⟨⟨id, x⟩, hfind, rfl⟩ := Option.map_eq_some_iff.mp h
    have hget : w.get? id = some x := lookup_of_mem w.nodup (List.mem_of_find?_eq_some hfind)
    have hthread : x.1 = t := by simpa using List.find?_some hfind
    change (w.get? id).map Prod.fst = some t
    rw [hget, Option.map_some, hthread]
  threadOf_created := by
    intro w _ t r w' h
    rw [Wallet.threadOf, (Wallet.get?_of_addRecord h).2, if_pos rfl]
    rfl
  threadOf_presented h := (Wallet.accept_of_createPresentation h).1
  createRequest_kept h hid := Wallet.threadOf_addRecord h hid
  createPresentation_kept h hid :=
    Wallet.threadOf_accept (Wallet.accept_of_createPresentation h).2 hid
  process_kept := by
    intro w m r w' id u h hid
    cases m with
    | requestPresentation t => exact Wallet.threadOf_addRecord h hid
    | presentation t => exact Wallet.threadOf_accept h hid
    | ackPresentation t status => exact Option.some.inj h ▸ hid
  not_holds_start h := by cases h
  holds_createRequest h hid := Wallet.holds_addRecord h hid
  holds_createPresentation h hid :=
    Wallet.holds_accept (Wallet.accept_of_createPresentation h).2 hid
  holds_process := by
    intro w m r w' id u h hid
    cases m with
    | requestPresentation t => exact .inl (Wallet.holds_addRecord h hid)
    | presentation t =>
      exact (Wallet.holds_accept h hid).imp_right fun hu => congrArg Message.presentation hu.symm
    | ackPresentation t status => exact .inl (Option.some.inj h ▸ hid)
  holds_of_verifyProof := by
    intro w r t hvalid hthread
    obtain ⟨x, hx, hheld⟩ := Option.map_eq_some_iff.mp (of_decide_eq_true hvalid)
    rw [Wallet.threadOf, hx, Option.map_some] at hthread
    rw [hx, ← hheld, ← Option.some.inj hthread]

def faber : Text := "faber".toList
def alice : Text := "alice".toList
def thread : Text := "thread".toList

/-- A presentation that is sent, verified and acknowledged, its request delivered twice. -/
def verified : List (Text × Action) :=
  [(faber, .createRequest .null thread "r1".toList),
    (faber, .sendRequest thread thread "r1".toList),
    (alice, .process (.requestPresentation thread) "r2".toList), (alice, .receiveRequest thread),
    (alice, .process (.requestPresentation thread) "r3".toList), (alice, .receiveRequest thread),
    (alice, .beginPresentation thread), (alice, .createPresentation 1 .null thread),
    (alice, .sendPresentation 1 thread), (faber, .process (.presentation thread) "r1".toList),
    (faber, .publishPresentation thread), (faber, .beginVerification thread),
    (faber, .verifyPresentation 0 thread), (faber, .acknowledge 0 thread),
    (alice, .receiveAck thread "OK".toList)]

theorem cached_told_verified : ExchangeState.done.Tells (stages verified thread) alice :=
  have hcached : ((exec Network.step (Network.start : Network plain) verified).bind fun n =>
      (n.party alice).cached thread) = some ⟨thread, "r2".toList, .done⟩ := by decide +kernel
  have ⟨_, hrun, hx⟩ := Option.bind_eq_some_iff.mp hcached
  (cached_told (run_of_exec hrun) hx).2

end AgentTestHarness.PresentationExchanges
