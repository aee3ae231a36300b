import AgentTestHarness.AdminPosts
import AgentTestHarness.MessageQueue

/-! The exchanges of the AFGO backchannel: webhooks store messages under the thread they name, and
the requests for a thread take them out while others run. The DID of the agent is kept for all of
them in one place. -/
namespace AgentTestHarness.AfgoThreads
open PyText OrderedDict PyJson JsonReading JsonWriting Storage StateTranslation AdminPosts
open AsyncQueue Runs

/-- `MAX_TIMEOUT` -/
def maxTimeout : ℕ := 20

def issueStates : Str := "issue-credential-states-msg"
def issueActions : Str := "issue-credential-actions-msg"
def proofStates : Str := "present-proof-states-msg"
def proofActions : Str := "present-proof-actions-msg"
def credentialDetails : Str := "credential-details-msg"
def credentialCache : Str := "credential-cache-msg"

/-- `message["message"]["Properties"]` -/
def properties (message : Json) : Except PyError Json := do
  let inner ← message.item "message"
  inner.item "Properties"

def piid (message : Json) : Except PyError Json := do
  let props ← properties message
  props.item "piid"

/-! Webhooks. -/

inductive Webhook
  | issueCredentialStates
  | issueCredentialActions
  | presentProofStates
  | presentProofActions
  deriving DecidableEq

namespace Webhook

def dataType : Webhook → Str
  | issueCredentialStates => issueStates
  | issueCredentialActions => issueActions
  | presentProofStates => proofStates
  | presentProofActions => proofActions

def name : Webhook → String
  | issueCredentialStates => "issue_credential_states"
  | issueCredentialActions => "issue_credential_actions"
  | presentProofStates => "present_proof_states"
  | presentProofActions => "present_proof_actions"

def threadId (w : Webhook) (message : Json) : Except PyError Json := do
  let props ← properties message
  if ← props.contains "piid" then props.item "piid"
  else throw (.exception ("piid not found in " ++ w.name ++ " Webhook Message"))

/-- The stack on which the states of one thread's proof wait for GET. -/
def proofStack (thread : Str) : Str := proofStates ++ "," ++ thread

/-- What the handler pushes, and what it goes on to put on a stack. An exception keeps what was
pushed before. -/
def handle (w : Webhook) (message : Json) (s : Store) : Store × List (Str × Json) :=
  match w.threadId message with
  | .error _ => (s, [])
  | .ok id => match pushResource id w.dataType message none s with
    | (.error _, t) => (t, [])
    | (.ok _, t) => match w, id with
      | issueCredentialStates, _ =>
        if message.contains "revocation_id" = .ok true then
          ((pushResource id "revocation-registry-msg" message none t).2, [])
        else (t, [])
      | presentProofStates, .str thread => (t, [(proofStack thread, message)])
      | _, _ => (t, [])

end Webhook

/-! What a request for a credential exchange waits for. -/

/-- `IssueCredentialTypeToStateTranslationDict` -/
def issueCredentialTypeToState : Table :=
  table [("https://didcomm.org/issue-credential/2.0/offer-credential", "offer-received"),
    ("https://didcomm.org/issue-credential/2.0/request-credential", "request-received"),
    ("https://didcomm.org/issue-credential/2.0/issue-credential", "credential-received")]

/-- The message with the state that its type stands for. -/
def guessed (message : Json) : Except PyError Json := do
  let inner ← message.item "message"
  let didcomm ← inner.item "Message"
  let opType ← didcomm.item "@type"
  let (_, state) ← tableEntry issueCredentialTypeToState opType
  let inner ← Webhooks.setItem inner "StateID" (.str (ofText state))
  let message ← Webhooks.setItem message "message" inner
  Webhooks.setItem message "state" (.str (ofText state))

/-! Changes of a message where it is stored. -/

/-- An object with the member of that name changed. -/
def within (key : Str) (f : Json → Except PyError Json) (j : Json) : Except PyError Json := do
  let inner ← j.item key
  let inner ← f inner
  Webhooks.setItem j key inner

def withinNth (n : ℕ) (f : Json → Except PyError Json) : Json → Except PyError Json
  | .arr items => do
    let item ← nth items n
    let item ← f item
    pure (.arr (items.set n item))
  | _ => .error .typeError

def deleted (key : Str) : Json → Except PyError Json
  | .obj ms => .ok (.obj (remove key ms))
  | _ => .error .typeError

/-- The lists of attachments that a message has in its versions. -/
inductive Attachments
  | credentials
  | attachments
  | filters
  deriving DecidableEq

def Attachments.name : Attachments → Str
  | credentials => "credentials~attach"
  | attachments => "attachments"
  | filters => "filters~attach"

/-- What a presentation and an issuance do to an attachment: they name its type, put what is known
of a credential into it, take it out of its wrapping, and replace it by the signed one. -/
inductive Edit
  | mimeType
  | mediaType
  | merge (member : Str)
  | unwrap
  | sign (credential : Json)
  | dropBase64
  deriving DecidableEq

def Edit.apply : Edit → Json → Except PyError Json
  | mimeType, a => Webhooks.setItem a "mime-type" (.str "application/ld+json")
  | mediaType, a => Webhooks.setItem a "media_type" (.str "application/ld+json")
  | merge member, a => within "data" (within "json" fun json => do
      let value ← json.item member
      within "json-ld" (within "credential" fun credential =>
        Webhooks.setItem credential member value) json) a
  | unwrap, a => within "data" (within "json" fun json => do
      let wrapped ← json.item "json-ld"
      wrapped.item "credential") a
  | sign credential, a => within "data" (fun data => Webhooks.setItem data "json" credential) a
  | dropBase64, a => within "data" (deleted "base64") a

/-- One message object can stand in several slots, so that a change is seen in all of them. -/
inductive Change
  | state
  | attachment (list : Attachments) (n : ℕ) (edit : Edit)
  deriving DecidableEq

def Change.apply : Change → Json → Except PyError Json
  | state, message => guessed message
  | attachment list n edit, message =>
    within "message" (within "Message" (within list.name (withinNth n edit.apply))) message

/-- The newest message under the last data id is changed where it is stored. -/
def setLatest (dataType : Str) (message : Json) (s : Store) : Store :=
  match s.storage.keys.getLast? with
  | none => s
  | some key => s.setSlot key dataType (.arr ((s.queue key dataType).dropLast ++ [message]))

/-- Without a states message the newest actions message is read and given a state; it stays
stored. Nothing is awaited here, as what is read is never None. -/
def guessState (s : Store) : Except PyError Json × Store :=
  match getResourceLatest issueActions s with
  | .error e => (.error e, s)
  | .ok message => match message.contains "message" with
    | .error e => (.error e, s)
    | .ok false => (.error (.exception "Could not retieve State from webhook message"), s)
    | .ok true => match guessed message with
      | .error e => (.error e, s)
      | .ok marked => (.ok marked, setLatest issueActions marked s)

def needsGuess (messageName : Str) (message : Json) : Except PyError Bool :=
  if messageName ≠ issueStates then .ok false
  else if message = .null then .ok true
  else (message.contains "message").map (!·)

/-- A message whose text has one of the words is stored again under its thread. -/
def pushAgain (words : List String) (dataType : Str) (message : Json) (s : Store) :
    Except PyError Json × Store :=
  if words.any fun word => isIn word.toList (dumps message) then
    match piid message with
    | .error e => (.error e, s)
    | .ok id => pushResource id dataType message none s
  else (.ok message, s)

def keepDetails (message : Json) (s : Store) : Except PyError Json × Store :=
  match pushAgain ["filters~attach", "/3.0/propose-credential"] credentialDetails message s with
  | (.error e, t) => (.error e, t)
  | (.ok _, t) => pushAgain ["credentials~attach", "/3.0/issue-credential"] credentialCache message t

inductive Outcome
  | sleeps
  | raises
  | gives (message : Json)
  deriving DecidableEq

/-- What was found is given after its details are kept. -/
def kept : Except PyError Json × Store → Outcome × Store
  | (.error _, s) => (.raises, s)
  | (.ok message, s) => match keepDetails message s with
    | (.error _, t) => (.raises, t)
    | (.ok _, t) => (.gives message, t)

/-- `request_response_issue_credential` after a sleep that follows `i` others. The record id it is
given does not occur in it. -/
def requestResponseIssueCredential (messageName : Str) (i : ℕ) (s : Store) : Outcome × Store :=
  match popResourceLatest messageName s with
  | (.error _, t) => (.raises, t)
  | (.ok message, t) =>
    if message = .null ∧ i < maxTimeout then (.sleeps, t)
    else match needsGuess messageName message with
      | .error _ => (.raises, t)
      | .ok guess => kept (if guess then guessState t else (.ok message, t))

/-! Requests. -/

/-- For the credential topics of all versions, and for proofs. -/
inductive Command
  | issueCredential (topic operation : Text) (recordId : Option Text) (data : Json)
  | getIssueCredential (recordId : Text)
  | presentProof (topic operation : Text) (recordId : Option Text) (data : Json)
  deriving DecidableEq

/-- A list whose first attachment has the word in its JSON. -/
def attaches (word : Str) : Json → Except PyError Bool
  | .arr items => do
    let attachment ← itemAt items 0
    let data ← attachment.item "data"
    let json ← data.item "json"
    json.contains word
  | _ => .ok false

def isWaci (operation : Text) (data : Json) : Except PyError Bool :=
  if operation = "send-proposal".toList then data.contains "pthid"
  else if operation = "send-offer".toList then attaches "credential_manifest" data
  else if operation = "send-request".toList then attaches "credential_application" data
  else if operation = "issue".toList then attaches "credential_fulfillment" data
  else .ok false

/-- The message that `handle_issue_credential_POST` asks for before it asks the agent. -/
def firstMessage (operation : Text) (recordId : Option Text) (data : Json) :
    Except PyError (Option Str) := do
  let waci ← isWaci operation data
  if operation = "send-offer".toList then
    if waci then pure (some issueActions)
    else if data ≠ .null then pure none
    else if recordId = none then throw (.exception "Cannot have both data and rec_id empty")
    else pure (some issueActions)
  else if operation = "send-request".toList ∨ operation = "store".toList then
    pure (some issueActions)
  else if operation = "issue".toList then
    if waci then pure (some issueStates)
    else
      let given ← if data = .null then pure false else data.contains "issue_credential"
      if given then pure none
      else if recordId = none then throw (.exception "Have not passed a thread id")
      else pure (some issueStates)
  else pure none

/-- The operations whose answer has a state from a webhook. -/
def answersState (operation : Text) : Bool :=
  ["send-proposal", "send-offer", "send-request", "store", "issue"].any (·.toList = operation)

/-- Where a request is: asleep before an attempt to take a message, awaiting the record of its
connection or what else the agent answers, or over. -/
inductive Stage
  | fetches (messageName : Str) (i : ℕ) (first : Bool)
  | popsActions (i : ℕ)
  | asks
  | posts
  | takesState
  | ended
  deriving DecidableEq

/-- What a message is used for: as one of the request's own thread, or as the credential of that
id, which the data of the request name. -/
inductive Use
  | own
  | credential (id : Json)
  deriving DecidableEq

structure Request where
  command : Command
  thread : Option Json
  stage : Stage
  used : List (Use × Json)
  deriving DecidableEq

namespace Command

def recordId : Command → Option Text
  | .issueCredential _ _ recordId _ => recordId
  | .getIssueCredential recordId => some recordId
  | .presentProof _ _ recordId _ => recordId

/-- `record_id` as a data id. -/
def dataId (c : Command) : Json := (c.recordId.map fun id => Json.str (ofText id)).getD .null

/-- The DIDs of the participants are asked for by the connection that the data name. -/
def asksParticipants : Command → Bool
  | .issueCredential _ operation _ _ =>
    operation = "send-proposal".toList ∨ operation = "send-offer".toList
  | .getIssueCredential _ => false
  | .presentProof topic operation _ _ =>
    topic ≠ "proof-v3".toList ∧ operation = "send-request".toList

/-- The first stage of a command that takes messages. -/
def stage : Command → Option Stage
  | .issueCredential topic operation recordId data =>
    match firstMessage operation recordId data with
    | .error _ => none
    | .ok (some messageName) => some (.fetches messageName 0 true)
    | .ok none =>
      if answersState operation then
        if (issueCredential topic operation recordId data).asksParticipants then some .asks
        else some .posts
      else none
  | .getIssueCredential recordId =>
    if recordId = "retrieve-credential-proposal".toList ∨
        recordId = "retrieve-credential-application".toList then none
    else some (.fetches issueStates 0 true)
  | .presentProof topic operation recordId data =>
    if operation = "send-presentation".toList then some (.popsActions 0)
    else if (presentProof topic operation recordId data).asksParticipants then some .asks
    else some .posts

/-- The command is made up of what the message of its thread says. -/
def issues : Command → Bool
  | .issueCredential _ operation _ data =>
    operation = "issue".toList ∧ isWaci operation data = .ok false
  | _ => false

/-- To issue a credential its details are needed, if the message does not have them. -/
def readsDetails (message : Json) (c : Command) : Bool :=
  c.issues && !isIn "filters~attach".toList (dumps message)

/-- The versions that send on what the details have attached. -/
def attachesDetails : Command → Bool
  | .issueCredential topic _ _ _ =>
    topic = "issue-credential-v2".toList ∨ topic = "issue-credential-v3".toList
  | _ => false

/-- The other version names the DID that was kept last as the issuer. -/
def readsDID (c : Command) : Bool := c.issues && !c.attachesDetails

/-- An offer that answers a proposal keeps the DID that the proposal was sent to. -/
def keepsDID : Command → Bool
  | .issueCredential _ operation _ data => operation = "send-offer".toList ∧ data = .null
  | _ => false

/-- A proof that begins must be given its thread by the agent. -/
def needsPiid : Command → Bool
  | .presentProof topic operation _ _ =>
    if topic = "proof-v3".toList then operation = "send-proposal".toList
    else operation = "send-request".toList
  | _ => false

end Command

/-- The newest cached credential of an id. -/
def cachedCredential (s : Store) (id : Json) : Except PyError (List (Use × Json)) := do
  let records ← getResource id credentialCache s
  match records with
  | .arr messages => pure (messages.getLast?.toList.map (.credential id, ·))
  | _ => throw .typeError

/-- The credentials that `send-presentation` presents. -/
def presented (data : Json) (s : Store) : Except PyError (List (Use × Json)) := do
  let format ← data.item "format"
  let underscore ← format.contains "json_ld"
  let dash ← format.contains "json-ld"
  if (underscore || dash) && (data.contains "record_ids" = .ok true) then
    match ← data.item "record_ids" with
    | .obj lists =>
      let ids ← lists.mapM fun l => iterated l.2
      let credentials ← ids.flatten.mapM (cachedCredential s)
      pure credentials.flatten
    | _ => throw .attributeError
  else pure []

namespace Request

def serve (r : Request) (use : Use) (message : Json) : Request :=
  { r with used := r.used ++ [(use, message)] }

def goto (r : Request) (stage : Stage) : Request := { r with stage := stage }

/-- The thread of a request without a record id is the one it is told. -/
def onThread (r : Request) (id : Json) : Request :=
  { r with thread := r.thread.or id.asKey.toOption }

/-- `self.myDID` as the issuer: what is told by the message that it was read from. -/
def serveDID (r : Request) (myDID : Option Json) : Request :=
  if r.command.readsDID then { r with used := r.used ++ (myDID.toList.map (.own, ·)) } else r

/-- With the message of its thread a request has its answer, or goes on to the agent. -/
def given (r : Request) (first : Bool) (message : Json) (s : Store) (myDID : Option Json) :
    Request × Store × Option Json :=
  if message = .null then (r.goto .ended, s, myDID)
  else
    let r := r.serve .own message
    match first, r.command with
    | true, .issueCredential _ _ _ _ => match piid message with
      | .error _ => (r.goto .ended, s, myDID)
      | .ok id =>
        let r := r.onThread id
        if r.command.readsDetails message then
          match popResource id credentialDetails s with
          | (.error _, t) => (r.goto .ended, t, myDID)
          | (.ok details, t) =>
            if details = .null then
              if r.command.attachesDetails then (r.goto .ended, t, myDID)
              else ((r.serveDID myDID).goto .posts, t, myDID)
            else (((r.serve .own details).serveDID myDID).goto .posts, t, myDID)
        else if r.command.keepsDID then
          match (properties message).bind fun props => props.item "myDID" with
          | .error _ => (r.goto .ended, s, myDID)
          | .ok _ => (r.goto .posts, s, some message)
        else ((r.serveDID myDID).goto .posts, s, myDID)
    | _, _ => (r.goto .ended, s, myDID)

def fetch (r : Request) (messageName : Str) (i : ℕ) (first : Bool) (s : Store)
    (myDID : Option Json) : Request × Store × Option Json :=
  match requestResponseIssueCredential messageName i s with
  | (.sleeps, t) => (r.goto (.fetches messageName (i + 1) first), t, myDID)
  | (.raises, t) => (r.goto .ended, t, myDID)
  | (.gives message, t) => r.given first message t myDID

/-- `request_response_present_proof` for the message that `send-presentation` answers. -/
def popActions (r : Request) (i : ℕ) (s : Store) : Request × Store :=
  match popResource r.command.dataId proofActions s with
  | (.error _, t) => (r.goto .ended, t)
  | (.ok message, t) =>
    if message = .null then
      if i < maxTimeout then (r.goto (.popsActions (i + 1)), t) else (r.goto .ended, t)
    else match r.command with
      | .presentProof topic _ _ data =>
        match Afgo.agentStateTranslation topic none (dumps message) with
        | .error _ => (r.goto .ended, t)
        | .ok _ =>
          let r := (r.onThread r.command.dataId).serve .own message
          match presented data t with
          | .error _ => (r.goto .ended, t)
          | .ok credentials => ({ r with used := r.used ++ credentials }.goto .posts, t)
      | _ => (r.goto .ended, t)

/-- The state for the answer to a proof command. -/
def takeState (r : Request) (s : Store) : Request × Store :=
  match popResourceLatest proofStates s with
  | (.error _, t) => (r.goto .ended, t)
  | (.ok message, t) =>
    if message = .null then (r.goto .ended, t) else ((r.serve .own message).goto .ended, t)

/-- The sleep of a request is over. -/
def wake (r : Request) (s : Store) (myDID : Option Json) : Option (Request × Store × Option Json) :=
  match r.stage with
  | .fetches messageName i first => some (r.fetch messageName i first s myDID)
  | .popsActions i => some ((r.popActions i s).1, (r.popActions i s).2, myDID)
  | .takesState => some ((r.takeState s).1, (r.takeState s).2, myDID)
  | .asks => none
  | .posts => none
  | .ended => none

/-- The agent has answered. -/
def answered (r : Request) (status : ℕ) (text : Text) : Request :=
  if status ≠ 200 then r.goto .ended
  else match loads text, r.command with
    | .error _, _ => r.goto .ended
    | .ok json, .presentProof _ _ _ _ => match json.item "piid" with
      | .ok id => (r.onThread id).goto .takesState
      | .error _ => if r.command.needsPiid then r.goto .ended else r.goto .takesState
    | .ok json, _ =>
      if r.thread.isSome then r.goto (.fetches issueStates 0 false)
      else match json.item "piid" with
        | .ok id => (r.onThread id).goto (.fetches issueStates 0 false)
        | .error _ => r.goto .ended

end Request

/-! The system. -/

/-- The webhook messages so far, the store, the webhook message that `self.myDID` was read from if it
is from one, the stacks with the pops of GET proof, the puts on them that have not run yet, and the
requests. -/
structure System where
  received : List Json
  store : Store
  myDID : Option Json
  messageStacks : Loop Str Json
  puts : List (Str × Json)
  requests : List Request

def start : System := ⟨[], Storage.empty, none, AsyncQueue.start Str Json, [], []⟩

/-- A request may end early: when the agent fails it, and when it raises, also while it makes use of a
message it has taken. A presentation and an issuance change stored messages in place. -/
inductive Event
  | webhook (w : Webhook) (message : Json)
  | put (n : ℕ)
  | command (c : Command)
  | getProof (recordId : Text)
  | wake (n : ℕ)
  | fails (n : ℕ)
  | participants (n : ℕ)
  | agent (n : ℕ) (status : ℕ) (text : Text)
  | ends (n : ℕ)
  | edited (key : Json) (dataType : Str) (n : ℕ) (change : Change)
  | resume (pop : ℕ)
  | deliver (pop : ℕ)
  | expire (pop : ℕ)

def stackStep (s : System) (e : AsyncQueue.Event Str Json) : Option System :=
  (AsyncQueue.step (fun _ => .lifo) s.messageStacks e).map fun loop => { s with messageStacks := loop }

def step (s : System) : Event → Option System
  | .webhook w message =>
    let (store, puts) := w.handle message s.store
    some { s with received := s.received ++ [message], store := store, puts := s.puts ++ puts }
  | .put n => match s.puts[n]? with
    | some (stack, message) =>
      stackStep { s with puts := s.puts.eraseIdx n } (.put stack message)
    | none => none
  | .command c => match c.stage with
    | some stage =>
      let thread := c.recordId.map fun id => Json.str (ofText id)
      some { s with requests := s.requests ++ [⟨c, thread, stage, []⟩] }
    | none => some s
  | .getProof recordId =>
    stackStep s (.pop (Webhook.proofStack (ofText recordId)) (some maxTimeout))
  | .wake n => match s.requests[n]? with
    | some r => (r.wake s.store s.myDID).map fun (r, store, myDID) =>
        { s with requests := s.requests.set n r, store := store, myDID := myDID }
    | none => none
  | .fails n => match s.requests[n]? with
    | some r => (r.wake s.store none).map fun (r, store, _) =>
        { s with requests := s.requests.set n (r.goto .ended), store := store }
    | none => none
  | .participants n => match s.requests[n]? with
    | some r =>
      if r.stage = .asks then
        some { s with requests := s.requests.set n (r.goto .posts), myDID := none }
      else none
    | none => none
  | .agent n status text => match s.requests[n]? with
    | some r =>
      if r.stage = .posts then
        some { s with requests := s.requests.set n (r.answered status text) }
      else none
    | none => none
  | .ends n => match s.requests[n]? with
    | some r => some { s with requests := s.requests.set n (r.goto .ended) }
    | none => none
  | .edited key dataType n change => match (s.store.queue key dataType)[n]? with
    | some message => match change.apply message with
      | .ok message => some { s with
          store := s.store.setSlot key dataType (.arr ((s.store.queue key dataType).set n message)) }
      | .error _ => none
    | none => none
  | .resume n => stackStep s (.resume n)
  | .deliver n => stackStep s (.deliver n)
  | .expire n => stackStep s (.expire n)

/-- A step of the stacks. -/
abbrev StackStep (s : System) (e : AsyncQueue.Event Str Json) (loop : Loop Str Json) : Prop :=
  AsyncQueue.step (fun _ => .lifo) s.messageStacks e = some loop

/-- What one step does, with what enables it. -/
inductive Steps (s : System) : Event → System → Prop
  | webhook (w message) : Steps s (.webhook w message) { s with
      received := s.received ++ [message]
      store := (w.handle message s.store).1
      puts := s.puts ++ (w.handle message s.store).2 }
  | put {n stack message loop} (waits : s.puts[n]? = some (stack, message))
      (acts : StackStep s (.put stack message) loop) :
      Steps s (.put n) { s with puts := s.puts.eraseIdx n, messageStacks := loop }
  | answers {c} (begins : Command.stage c = none) : Steps s (.command c) s
  | command {c stage} (begins : c.stage = some stage) : Steps s (.command c) { s with
      requests := s.requests ++
        [⟨c, c.recordId.map fun id => Json.str (ofText id), stage, []⟩] }
  | getProof {recordId loop} (acts : StackStep s
      (.pop (Webhook.proofStack (ofText recordId)) (some maxTimeout)) loop) :
      Steps s (.getProof recordId) { s with messageStacks := loop }
  | wake {n r r' store myDID} (requests : s.requests[n]? = some r)
      (wakes : r.wake s.store s.myDID = some (r', store, myDID)) :
      Steps s (.wake n) { s with requests := s.requests.set n r', store := store, myDID := myDID }
  | fails {n r r' store myDID} (requests : s.requests[n]? = some r)
      (wakes : r.wake s.store none = some (r', store, myDID)) :
      Steps s (.fails n) { s with requests := s.requests.set n (r'.goto .ended), store := store }
  | participants {n r} (requests : s.requests[n]? = some r) (asks : r.stage = .asks) :
      Steps s (.participants n)
        { s with requests := s.requests.set n (r.goto .posts), myDID := none }
  | agent {n r} (status text) (requests : s.requests[n]? = some r) (posts : r.stage = .posts) :
      Steps s (.agent n status text) { s with requests := s.requests.set n (r.answered status text) }
  | ends {n r} (requests : s.requests[n]? = some r) :
      Steps s (.ends n) { s with requests := s.requests.set n (r.goto .ended) }
  | edited {key dataType n change message message'}
      (stored : (s.store.queue key dataType)[n]? = some message)
      (changes : change.apply message = .ok message') :
      Steps s (.edited key dataType n change) { s with
        store := s.store.setSlot key dataType (.arr ((s.store.queue key dataType).set n message')) }
  | resume {n loop} (acts : StackStep s (.resume n) loop) :
      Steps s (.resume n) { s with messageStacks := loop }
  | deliver {n loop} (acts : StackStep s (.deliver n) loop) :
      Steps s (.deliver n) { s with messageStacks := loop }
  | expire {n loop} (acts : StackStep s (.expire n) loop) :
      Steps s (.expire n) { s with messageStacks := loop }

theorem steps_of_step {s t : System} {e : Event} (next : step s e = some t) : Steps s e t := by
  cases e with
  | webhook w message => exact Option.some.inj next ▸ .webhook w message
  | put n =>
    cases hp : s.puts[n]? with
    | none => simp [step, hp] at next
    | some p =>
      simp only [step, hp] at next
      obtain ⟨loop, hloop, rfl⟩ := Option.map_eq_some_iff.mp next
      exact .put hp hloop
  | command c =>
    cases hstage : c.stage with
    | none =>
      simp only [step, hstage, Option.some.injEq] at next
      exact next ▸ .answers hstage
    | some stage =>
      simp only [step, hstage, Option.some.injEq] at next
      exact next ▸ .command hstage
  | getProof recordId =>
    have next : stackStep s (.pop (Webhook.proofStack (ofText recordId)) (some maxTimeout)) =
        some t := next
    obtain ⟨loop, hloop, rfl⟩ := Option.map_eq_some_iff.mp next
    exact .getProof hloop
  | wake n =>
    cases hr : s.requests[n]? with
    | none => simp [step, hr] at next
    | some r =>
      simp only [step, hr] at next
      obtain ⟨⟨r', store, myDID⟩, hwake, rfl⟩ := Option.map_eq_some_iff.mp next
      exact .wake hr hwake
  | fails n =>
    cases hr : s.requests[n]? with
    | none => simp [step, hr] at next
    | some r =>
      simp only [step, hr] at next
      obtain ⟨⟨r', store, myDID⟩, hwake, rfl⟩ := Option.map_eq_some_iff.mp next
      exact .fails hr hwake
  | participants n =>
    cases hr : s.requests[n]? with
    | none => simp [step, hr] at next
    | some r =>
      simp only [step, hr] at next
      split at next
      · next hstage => exact Option.some.inj next ▸ .participants hr hstage
      · cases next
  | agent n status text =>
    cases hr : s.requests[n]? with
    | none => simp [step, hr] at next
    | some r =>
      simp only [step, hr] at next
      split at next
      · next hstage => exact Option.some.inj next ▸ .agent status text hr hstage
      · cases next
  | ends n =>
    cases hr : s.requests[n]? with
    | none => simp [step, hr] at next
    | some r =>
      simp only [step, hr, Option.some.injEq] at next
      exact next ▸ .ends hr
  | edited key dataType n change =>
    cases hm : (s.store.queue key dataType)[n]? with
    | none => simp [step, hm] at next
    | some message =>
      simp only [step, hm] at next
      cases hchange : change.apply message with
      | error e => simp [hchange] at next
      | ok message' =>
        rw [hchange] at next
        exact Option.some.inj next ▸ .edited hm hchange
  | resume n =>
    obtain ⟨loop, hloop, rfl⟩ := Option.map_eq_some_iff.mp next
    exact .resume hloop
  | deliver n =>
    obtain ⟨loop, hloop, rfl⟩ := Option.map_eq_some_iff.mp next
    exact .deliver hloop
  | expire n =>
    obtain ⟨loop, hloop, rfl⟩ := Option.map_eq_some_iff.mp next
    exact .expire hloop

end AgentTestHarness.AfgoThreads
