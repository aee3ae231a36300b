import AgentTestHarness.OrderedDict
import AgentTestHarness.PyJson
import AgentTestHarness.Runs

/-! Credential exchanges of the .NET backchannel: the cache of exchanges, which are shared
objects, the records of the wallet, the one-shot subscriptions, and the handler of proposals and
offers together with the commands that send them. -/
namespace AgentTestHarness.CredentialExchanges
open PyText OrderedDict PyJson

/-- `TestHarnessCredentialExchangeState`. -/
inductive ExchangeState
  | proposalSent
  | proposalReceived
  | offerSent
  | offerReceived
  | requestSent
  | requestReceived
  | credentialIssued
  | credentialReceived
  | done
  deriving DecidableEq

/-- `TestHarnessCredentialExchange`. -/
structure Exchange where
  threadId : Text
  recordId : Text
  state : ExchangeState
  credentialId : Option Text
  deriving DecidableEq

inductive Role
  | issuer
  | holder
  deriving DecidableEq

inductive CredentialState
  | offered
  | requested
  | issued
  | rejected
  | revoked
  deriving DecidableEq

structure Attribute where
  name : Option Text
  mimeType : Option Text
  value : Json
  deriving DecidableEq

/-- A record of the wallet with its two tags. -/
structure CredentialRecord where
  id : Text
  connectionId : Option Text
  role : Role
  lastThreadId : Text
  credentialDefinitionId : Option Text
  schemaId : Option Text
  credentialAttributesValues : Option (List Attribute)
  offerJson : Option Text
  state : CredentialState
  deriving DecidableEq

inductive MessageType
  | propose
  | offer
  | request
  | issue
  deriving DecidableEq

/-- `UpdateStateOnMessage`: the next message of the type on the thread of the exchange sets the
state of the exchange object. -/
structure Subscription where
  exchange : ℕ
  nextState : ExchangeState
  messageType : MessageType
  deriving DecidableEq

/-- The cache refers to exchanges by their place among all objects. -/
structure Backchannel where
  records : List CredentialRecord
  exchanges : List Exchange
  credentialCache : List (Text × ℕ)
  subscriptions : List Subscription
  deriving DecidableEq

def start : Backchannel := ⟨[], [], [], []⟩

/-- A preview may lack its attributes, and an attribute may be null. -/
abbrev Preview := Option (List (Option Attribute))

structure ProposeMessage where
  threadId : Text
  credentialDefinitionId : Option Text
  schemaId : Option Text
  credentialProposal : Option Preview
  deriving DecidableEq

structure Attachment where
  id : Option Text
  base64 : Option Text
  deriving DecidableEq

structure OfferMessage where
  threadId : Text
  offers : Option (List (Option Attachment))
  credentialPreview : Option Preview
  deriving DecidableEq

/-- What is read from the offer in an attachment. -/
structure OfferData where
  offerJson : Text
  definitionId : Option Text
  schemaId : Option Text
  deriving DecidableEq

/-- `preview?.Attributes.Select(...)`; none where it throws. -/
def attributesValues : Option Preview → Option (Option (List Attribute))
  | none => some none
  | some none => none
  | some (some attributes) => (attributes.mapM id).map some

/-- `FirstOrDefault(x => x.Id == ...)`; none where it throws or gives null. -/
def offerAttachment : List (Option Attachment) → Option Attachment
  | [] => none
  | none :: _ => none
  | some a :: as =>
    if a.id = some "libindy-cred-offer-0".toList then some a else offerAttachment as

namespace Backchannel

variable (b : Backchannel)

/-- `_credentialCache.Get`. -/
def cached (threadId : Text) : Option Exchange :=
  (lookup threadId b.credentialCache).bind fun i => b.exchanges[i]?

/-- A new exchange object for a record, in the cache. -/
def setExchange (record : CredentialRecord) (state : ExchangeState) : Backchannel :=
  { b with
    records := b.records ++ [record]
    exchanges := b.exchanges ++ [⟨record.lastThreadId, record.id, state, none⟩]
    credentialCache := assign record.lastThreadId b.exchanges.length b.credentialCache }

/-- `UpdateAsync`. -/
def update (record : CredentialRecord) : Backchannel :=
  { b with records := b.records.map fun r => if r.id = record.id then record else r }

def subscribe (exchange : ℕ) (nextState : ExchangeState) (messageType : MessageType) :
    Backchannel :=
  { b with subscriptions := b.subscriptions ++ [⟨exchange, nextState, messageType⟩] }

/-- The subscription waits for a message of the type on the thread. -/
def fires (messageType : MessageType) (threadId : Text) (sub : Subscription) : Bool :=
  sub.messageType = messageType ∧ (b.exchanges[sub.exchange]?).map Exchange.threadId = some threadId

/-- Publish a message: every subscription that waits for it sets its state and is gone. -/
def publish (messageType : MessageType) (threadId : Text) : Backchannel :=
  { b with
    exchanges := b.exchanges.mapIdx fun i x =>
      match (b.subscriptions.filter fun sub =>
        b.fires messageType threadId sub ∧ sub.exchange = i).getLast? with
      | some sub => { x with state := sub.nextState }
      | none => x
    subscriptions := b.subscriptions.filter fun sub => ¬ b.fires messageType threadId sub }

end Backchannel

inductive Outcome
  | processed
  | rejected
  deriving DecidableEq

/-- The updates for a record that exists or is new. Where the attributes cannot be read this
throws before the record is stored. -/
def updateRecord (b : Backchannel) (record : CredentialRecord) (preview : Option Preview)
    (messageType : MessageType) (threadId : Text) : Outcome × Backchannel :=
  match attributesValues preview with
  | none => (.rejected, b)
  | some values => (.processed, (b.update { record with
      credentialAttributesValues := values, state := .offered }).publish messageType threadId)

/-! The lookup of a record by its thread id, which throws where it gives none, and the reading of
an encoded offer are those of the framework. -/

section

variable (getByThreadId : List CredentialRecord → Text → Option CredentialRecord)
  (readOffer : Text → Option OfferData)

/-- The record that the `try` block finds for a proposal. -/
def proposedRecord (b : Backchannel) (connection : Option Text) (threadId : Text) :
    Option CredentialRecord :=
  (b.cached threadId).bind fun x => (getByThreadId b.records x.threadId).filter fun r =>
    connection = r.connectionId

/-- The record that the `try` block finds for an offer. -/
def offeredRecord (b : Backchannel) (connection : Option Text) (threadId : Text) :
    Option CredentialRecord :=
  connection.bind fun c => (getByThreadId b.records threadId).filter fun r =>
    r.connectionId = some c

/-- A record as the `catch` block makes it. -/
def newRecord (id : Text) (connection : Option Text) (role : Role) (threadId : Text) :
    CredentialRecord :=
  ⟨id, connection, role, threadId, none, none, none, none, .offered⟩

/-- The record found, or a new one with a new exchange: the `catch` takes a message of another
connection for the first of its thread. -/
def recordFor (b : Backchannel) (found : Option CredentialRecord) (new : CredentialRecord)
    (state : ExchangeState) : CredentialRecord × Backchannel :=
  match found with
  | some record => (record, b)
  | none => (new, b.setExchange new state)

def processPropose (b : Backchannel) (connection : Option Text) (newId : Text)
    (m : ProposeMessage) : Outcome × Backchannel :=
  let found := recordFor b (proposedRecord getByThreadId b connection m.threadId)
    (newRecord newId connection .issuer m.threadId) .proposalReceived
  updateRecord found.2
    { found.1 with
      credentialDefinitionId := m.credentialDefinitionId
      schemaId := m.schemaId }
    m.credentialProposal .propose m.threadId

def readAttachment (m : OfferMessage) : Option OfferData :=
  ((m.offers.bind offerAttachment).bind Attachment.base64).bind readOffer

def processOffer (b : Backchannel) (connection : Option Text) (newId : Text)
    (m : OfferMessage) : Outcome × Backchannel :=
  match readAttachment readOffer m with
  | none => (.rejected, b)
  | some offer =>
    let found := recordFor b (offeredRecord getByThreadId b connection m.threadId)
      (newRecord newId connection .holder m.threadId) .offerReceived
    updateRecord found.2
      { found.1 with
        offerJson := some offer.offerJson
        credentialDefinitionId := offer.definitionId
        schemaId := offer.schemaId }
      m.credentialPreview .offer m.threadId

/-- An incoming message, none where its body cannot be read as one, and the identifier that is
drawn for a new record. -/
inductive Message
  | propose (connection : Option Text) (newId : Text) (m : Option ProposeMessage)
  | offer (connection : Option Text) (newId : Text) (m : Option OfferMessage)
  deriving DecidableEq

/-- `ProcessAsync` of the handler. -/
def process (b : Backchannel) : Message → Outcome × Backchannel
  | .propose _ _ none => (.rejected, b)
  | .offer _ _ none => (.rejected, b)
  | .propose connection newId (some m) => processPropose getByThreadId b connection newId m
  | .offer connection newId (some m) => processOffer getByThreadId readOffer b connection newId m

/-- The identifier was not used before. -/
def Unused (b : Backchannel) (id : Text) : Prop :=
  id ∉ b.records.map CredentialRecord.id ∧ id ∉ b.exchanges.map Exchange.recordId

def UnusedThread (b : Backchannel) (threadId : Text) : Prop :=
  threadId ∉ b.credentialCache.map Prod.fst ∧
    threadId ∉ b.records.map CredentialRecord.lastThreadId

instance (b : Backchannel) (id : Text) : Decidable (Unused b id) :=
  inferInstanceAs (Decidable (_ ∧ _))

instance (b : Backchannel) (threadId : Text) : Decidable (UnusedThread b threadId) :=
  inferInstanceAs (Decidable (_ ∧ _))

def Message.newId : Message → Text
  | .propose _ newId _ => newId
  | .offer _ newId _ => newId

/-- `SendCredentialOfferAsync` for a thread. The state is set when the record is stored and the
attributes are read. -/
def sendOffer (b : Backchannel) (threadId offerJson : Text) (schemaId : Option Text) :
    Backchannel :=
  match lookup threadId b.credentialCache with
  | none => b
  | some i => match b.exchanges[i]? with
    | none => b
    | some x => match b.records.find? fun r => r.id = x.recordId with
      | none => b
      | some record =>
        let c := b.update { record with
          schemaId := schemaId, offerJson := some offerJson, state := .offered }
        match record.credentialAttributesValues with
        | none => c
        | some _ => ({ c with exchanges := c.exchanges.set i { x with state := .offerSent }
          }).subscribe i .requestReceived .request

/-- A message comes in, or a command is given. `SendCredentialOfferAsync` without a thread has the
framework make a record. -/
inductive Event
  | message (m : Message)
  | sendProposal (threadId recordId connectionId : Text) (attributes : List Attribute)
      (credentialDefinitionId schemaId : Option Text)
  | startOffer (record : CredentialRecord)
  | sendOffer (threadId offerJson : Text) (schemaId : Option Text)
  deriving DecidableEq

def step (b : Backchannel) : Event → Option Backchannel
  | .message m =>
    if Unused b m.newId then some (process getByThreadId readOffer b m).2 else none
  | .sendProposal threadId recordId connectionId attributes credentialDefinitionId schemaId =>
    if Unused b recordId ∧ UnusedThread b threadId then
      let record := ⟨recordId, some connectionId, .holder, threadId, credentialDefinitionId,
        schemaId, some attributes, none, .offered⟩
      some ((b.setExchange record .proposalSent).subscribe b.exchanges.length .offerReceived
        .offer)
    else none
  | .startOffer record =>
    if Unused b record.id ∧ UnusedThread b record.lastThreadId then
      some ((b.setExchange record .offerSent).subscribe b.exchanges.length .requestReceived
        .request)
    else none
  | .sendOffer threadId offerJson schemaId => some (sendOffer b threadId offerJson schemaId)

end

end AgentTestHarness.CredentialExchanges
