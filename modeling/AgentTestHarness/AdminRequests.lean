import AgentTestHarness.CredentialDefinitions
import AgentTestHarness.ConnectionLists
import AgentTestHarness.PresentationMapping
import AgentTestHarness.ResponsePolls
import AgentTestHarness.RevocationCommands
import AgentTestHarness.ServiceCalls

/-! The commands of the ACA-Py backchannel as programs that call the agent's admin API and read the
store that webhooks fill. Both may change between two calls. -/
namespace AgentTestHarness.AdminRequests
open PyText OrderedDict PyJson JsonReading JsonWriting Webhooks CommandRequests ServiceCalls
open AdminPosts
open RevocationCommands (Python asStr)
open ConnectionLists.Afgo (len)
open Program (computes ask throws)

inductive AdminCall
  | adminGet (path : Str) (params : List (Str × Str))
  | adminPost (path : Str) (data : Json) (params : List (Str × Str))
  | adminDelete (path : Str)
  | register (data : Json)
  | getResource (dataId : Json) (dataType : Str)
  | popResource (dataId : Json) (dataType : Str)
  | popResourceLatest (dataType : Str)
  deriving DecidableEq

/-- A request that fails is answered with a body that raises. The ledger answers a registration
with a status. -/
abbrev Reply : AdminCall → Type
  | .adminGet _ _ => Answer
  | .adminPost _ _ _ => Answer
  | .adminDelete _ => Answer
  | .register _ => Except PyError ℕ
  | .getResource _ _ => Except PyError Json
  | .popResource _ _ => Except PyError Json
  | .popResourceLatest _ => Except PyError Json

abbrev Admin (α : Type) := Program Reply PyError α

structure Backchannel where
  settings : Settings
  acapyVersion : Option Text
  active : Bool

/-! The calls of `make_admin_request`. -/

/-- Parameters without a value are left out. -/
def queryParams (params : List (Str × Json)) : Except PyError (List (Str × Str)) :=
  (params.filter fun p => p.2 ≠ .null).mapM fun p => (queryText p.2).map fun text => (p.1, text)

def adminGet (path : Str) (params : List (Str × Json)) : Admin (ℕ × Text) := do
  let params ← computes (queryParams params)
  let answer : Answer ← ask (AdminCall.adminGet path params)
  computes answer.read

def adminPost (path : Str) (data : Json) (params : List (Str × Json)) : Admin (ℕ × Text) := do
  let params ← computes (queryParams params)
  let answer : Answer ← ask (AdminCall.adminPost path data params)
  computes answer.read

def adminDelete (path : Str) : Admin (ℕ × Text) := do
  let answer : Answer ← ask (AdminCall.adminDelete path)
  computes answer.read

section

variable {path : Str} {data : Json} {params : List (Str × Json)} {events : List (Event Reply)}
  {r : Except PyError (ℕ × Text)}

theorem behaves_adminGet : Program.Behaves (adminGet path params) events r ↔
    (∃ e, queryParams params = .error e ∧ events = [] ∧ r = .error e) ∨
      ∃ query, ∃ answer : Answer, queryParams params = .ok query ∧
        events = [⟨.adminGet path query, answer⟩] ∧ r = answer.read := by
  simp only [adminGet, Program.behaves_computes_bind, Program.behaves_ask_bind,
    Program.behaves_computes]
  constructor
  · rintro (h | ⟨query, hquery, answer, rest, rfl, rfl, hr⟩)
    · exact .inl h
    · exact .inr ⟨query, answer, hquery, rfl, hr⟩
  · rintro (h | ⟨query, answer, hquery, rfl, hr⟩)
    · exact .inl h
    · exact .inr ⟨query, hquery, answer, [], rfl, rfl, hr⟩

theorem behaves_adminGet_ok {status : ℕ} {text : Text} :
    Program.Behaves (adminGet path params) events (.ok (status, text)) ↔
      ∃ query, ∃ answer : Answer, queryParams params = .ok query ∧
        events = [⟨.adminGet path query, answer⟩] ∧ answer.read = .ok (status, text) := by
  simp [behaves_adminGet, eq_comm]

theorem behaves_adminPost : Program.Behaves (adminPost path data params) events r ↔
    (∃ e, queryParams params = .error e ∧ events = [] ∧ r = .error e) ∨
      ∃ query, ∃ answer : Answer, queryParams params = .ok query ∧
        events = [⟨.adminPost path data query, answer⟩] ∧ r = answer.read := by
  simp only [adminPost, Program.behaves_computes_bind, Program.behaves_ask_bind,
    Program.behaves_computes]
  constructor
  · rintro (h | ⟨query, hquery, answer, rest, rfl, rfl, hr⟩)
    · exact .inl h
    · exact .inr ⟨query, answer, hquery, rfl, hr⟩
  · rintro (h | ⟨query, answer, hquery, rfl, hr⟩)
    · exact .inl h
    · exact .inr ⟨query, hquery, answer, [], rfl, rfl, hr⟩

end

/-- The loop of `swap_thread_id_for_exchange_id`, with the polls that the wait time leaves. An id
that the last of them finds is a timeout too. -/
def swapPolls (threadId : Json) (dataType idTxt : Str) : ℕ → Admin Json
  | 0 => throws .timeoutError
  | polls + 1 => do
    let stored : Except PyError Json ← ask (AdminCall.getResource threadId dataType)
    let msg ← computes stored
    match ResponsePolls.firstItem msg >>= fun m => m.item idTxt with
    | .ok exId => if polls = 0 then throws .timeoutError else pure exId
    | .error .typeError => swapPolls threadId dataType idTxt polls
    | .error e => throws e

def swapThreadIdForExchangeId (threadId : Json) (dataType idTxt : Str) : Admin Json :=
  swapPolls threadId dataType idTxt (ResponsePolls.waitTime + 1)

/-- The rounds of `expected_agent_state`. -/
def statePolls (path statusTxt : Str) : ℕ → Admin Bool
  | 0 => pure false
  | rounds + 1 => do
    let (respStatus, respText) ← adminGet path []
    if respStatus = 200 then
      let respJson ← computes (loads respText)
      let state ← computes (respJson.item "state")
      if state = .str statusTxt then pure true else statePolls path statusTxt rounds
    else statePolls path statusTxt rounds

/-- With a wait time of 60 seconds and half a second of sleep. -/
def expectedAgentState (path statusTxt : Str) : Admin Bool := statePolls path statusTxt 120

/-- The wait of a command for a state without which it raises. -/
def requireState (path statusTxt : Str) (message : String) : Admin Unit := do
  let expected ← expectedAgentState path statusTxt
  if expected then pure () else throws (.exception message)

def requireStateIf (needed : Bool) (path statusTxt : Str) (message : String) : Admin Unit :=
  if needed then requireState path statusTxt message else pure ()

def getMediationRecordByConnectionId (connectionId : Json) : Admin Json := do
  let (_, respText) ← adminGet "/mediation/requests" [("conn_id", connectionId)]
  let respJson ← computes (loads respText)
  let results ← computes (respJson.item "results")
  let count ← computes (len results)
  if count = 0 then throws (.exception "No mediation record found for connection")
  else if 1 < count then throws (.exception "Multiple mediation records found for connection")
  else computes (subscript results (.int 0))

/-- The mediation id for the connection that the data name, or None. -/
def mediationIdOf (data : Json) : Admin Json := do
  if ← computes (data.contains "mediator_connection_id") then
    let connectionId ← computes (data.item "mediator_connection_id")
    if connectionId = .null then pure .null
    else
      let mediationRecord ← getMediationRecordByConnectionId connectionId
      computes (mediationRecord.item "mediation_id")
  else pure .null

/-! What leads to the POST of a command. -/

inductive Plan
  | answers (status : ℕ) (text : Text)
  | posts (p : Posting) (path : Str) (data : Json)

def notImplemented : Plan := .answers 501 "501: Not Implemented\n\n".toList

def operationOf (command : BackchannelCommand) : Str := ofText (command.operation.getD [])

/-- `topic + operation` -/
def withOperation (acapyTopic : Str) (command : BackchannelCommand) : Except PyError Str :=
  match command.operation with
  | some operation => .ok (acapyTopic ++ ofText operation)
  | none => .error .typeError

section Plans

variable (py : Python) (b : Backchannel) (command : BackchannelCommand)

def connectionPath : Str := ("/connections/" : Str) ++ py.str command.recordId

def connectionOperationPlan : Admin Plan := do
  requireStateIf (Is command "accept-request" ∧ ¬ b.settings.autoAcceptRequests)
    (connectionPath py command) "request" "Expected state request but not received"
  if b.settings.autoAcceptRequests ∧ Is command "accept-request" then
    pure (.answers 200 autoAccepted)
  else pure (.posts .connectionOperation
    (connectionPath py command ++ ("/" : Str) ++ operationOf command) command.data)

def mediationQuery (name : Str) (mediationId : Json) : Str :=
  if mediationId.truthy then name ++ py.str mediationId else []

def mediationData (mediationId : Json) : List (Str × Json) :=
  if mediationId.truthy then [("mediation_id", mediationId)] else []

def connectionPlan : Admin Plan := do
  let mediationId ← (if command.data.truthy then mediationIdOf command.data else pure .null)
  if Is command "create-invitation" then
    pure (.posts .createInvitation "/connections/create-invitation"
      (.obj (mediationData mediationId)))
  else if Is command "receive-invitation" then
    pure (.posts .receiveInvitation
      (("/connections/receive-invitation" : Str) ++ mediationQuery py "?mediation_id=" mediationId)
      command.data)
  else if Is command "accept-invitation" ∨ Is command "accept-request" ∨ Is command "remove" ∨
      Is command "start-introduction" ∨ Is command "send-ping" then
    connectionOperationPlan py b command
  else pure notImplemented

structure SchemaRequest where
  schemaName : Json
  schemaVersion : Json
  data : Json

def newSchema (data : Json) : Except PyError Json := do
  let issuerId ← data.get "issuer_id"
  let schemaName ← data.get "schema_name"
  let schemaVersion ← data.get "schema_version"
  let attributes ← data.get "attributes"
  pure (.obj [("schema", .obj [("issuerId", issuerId), ("name", schemaName),
    ("version", schemaVersion), ("attrNames", attributes)])])

def readSchema (anoncreds : Bool) (data : Json) : Except PyError SchemaRequest :=
  if anoncreds then do
    let data ← (do if ← data.contains "schema" then pure data else newSchema data)
    let schema ← data.item "schema"
    let schemaName ← schema.get "name"
    let schemaVersion ← schema.get "version"
    pure ⟨schemaName, schemaVersion, data⟩
  else do
    let schemaName ← data.get "schema_name"
    let schemaVersion ← data.get "schema_version"
    pure ⟨schemaName, schemaVersion, CredentialDefinitions.withoutIssuer data⟩

/-- A schema that exists already is answered without a POST. -/
def schemaPlan : Admin Plan :=
  let anoncreds := useAnoncreds b.settings command
  if anoncreds ∧ ¬ b.settings.isWalletAnoncreds then
    pure (.answers 400 "Bad request - agent wallet cannot support anoncreds format".toList)
  else do
    let schema ← computes (readSchema anoncreds command.data)
    let (_, respText) ← adminGet (if anoncreds then "/anoncreds/schemas" else "/schemas/created")
      [("schema_version", schema.schemaVersion), ("schema_name", schema.schemaName)]
    let respJson ← computes (loads respText)
    let schemaIds ← computes (respJson.item "schema_ids")
    if 0 < (← computes (len schemaIds)) then
      let schemaId ← computes (subscript schemaIds (.int 0))
      pure (.answers 200 (dumps (.obj [("schema_id", schemaId)])))
    else pure (.posts .schema (if anoncreds then "/anoncreds/schema" else "/schemas") schema.data)

/-- The definition with the tag, if the agent has one for the schema. -/
def credentialDefinitionPlan : Admin Plan :=
  let anoncreds := useAnoncreds b.settings command
  if anoncreds ∧ ¬ b.settings.isWalletAnoncreds then
    pure (.answers 400 "Bad request - agent wallet cannot support anoncreds format".toList)
  else do
    let definition ← computes (CredentialDefinitions.readDefinition anoncreds command.data)
    let (_, respText) ← adminGet
      (if anoncreds then "/anoncreds/credential-definitions" else "/credential-definitions/created")
      [("schema_id", definition.schemaId)]
    let respJson ← computes (loads respText)
    let credDefIds ← computes (respJson.item "credential_definition_ids" >>= iterated)
    match ← computes (CredentialDefinitions.findDefinition definition.tag credDefIds) with
    | some credDefId => pure (.answers 200 (CredentialDefinitions.foundAnswer credDefId))
    | none => pure (.posts .credentialDefinition
        (if anoncreds then "/anoncreds/credential-definition" else "/credential-definitions")
        definition.data)

def isSwapped (operations : List String) : Prop := ∃ operation ∈ operations, Is command operation

instance (operations : List String) : Decidable (isSwapped command operations) :=
  inferInstanceAs (Decidable (∃ operation ∈ operations, Is command operation))

/-- `revoke` passes its parameters in the query. The connection to notify is not filled in. -/
def revokePath (data : Json) : Except PyError Str := do
  let revRegId ← data.item "rev_registry_id"
  let publish ← data.item "publish_immediately"
  let notifyConnectionId ← data.get "notify_connection_id"
  pure (("/issue-credential/revoke?cred_rev_id=" : Str) ++ py.str command.recordId ++
    ("&rev_reg_id=" : Str) ++ py.str revRegId ++ ("&publish=" : Str) ++ py.lower (py.str publish) ++
    if notifyConnectionId.truthy then
      ("&notify=true&connection_id=\x7bnotify_connection_id\x7d" : Str) else [])

/-- The path for an operation on the record of a credential. -/
def credentialRecordPath : Admin Str := do
  let credExId ← swapThreadIdForExchangeId command.recordId "credential-msg"
    "credential_exchange_id"
  let record := ("/issue-credential/records/" : Str) ++ py.str credExId
  requireStateIf (Is command "issue" ∧ ¬ b.settings.autoRespondCredentialRequest)
    record "request_received" "Expected state request-received but not received"
  pure (record ++ ("/" : Str) ++ operationOf command)

def issueCredentialPlan : Admin Plan :=
  match credentialResponse b.settings command with
  | some text => pure (.answers 200 text)
  | none =>
    if command.recordId ≠ .null ∧
        isSwapped command ["send-offer", "send-request", "issue", "store"] then do
      let path ← credentialRecordPath py b command
      pure (.posts (.issueCredential command.operation) path command.data)
    else if command.recordId ≠ .null ∧ Is command "revoke" then do
      let path ← computes (revokePath py command command.data)
      pure (.posts (.issueCredential command.operation) path .null)
    else do
      let path ← computes (withOperation "/issue-credential/" command)
      pure (.posts (.issueCredential command.operation) path command.data)

def proofTypeKeyTypeTranslationDict : List (Str × Str) :=
  [("Ed25519Signature2018", "ed25519"), ("BbsBlsSignature2020", "bls12381g2")]

def credFormatFilterTranslationDict : List (Str × Str) :=
  [("indy", "indy"), ("json-ld", "ld_proof"), ("anoncreds", "anoncreds")]

/-- The DID that the agent has already, or None. -/
def matchingDid (didMethod keyType : Json) : Admin Json := do
  let params := [(("method" : Str), didMethod), ("key_type", keyType)] ++
    if didMethod = .str "sov" then [(("posture" : Str), .str "public")] else []
  let (respStatus, respText) ← adminGet "/wallet/did" params
  if respStatus = 200 then
    let respJson ← computes (loads respText)
    let results ← computes (respJson.item "results")
    if 0 < (← computes (len results)) then
      let first ← computes (subscript results (.int 0))
      computes (first.item "did")
    else pure .null
  else pure .null

/-- The answer with a DID. Its method is a text or a number in the request. -/
def didAnswer (didMethod : Str) (did : Json) : Except PyError Text :=
  match did with
  | .str did =>
    let didUrl := if ("did:" : Str) ++ didMethod <+: did then did
      else ("did:" : Str) ++ didMethod ++ (":" : Str) ++ did
    .ok (dumps (.obj [("did", .str didUrl)]))
  | _ => .error .attributeError

/-- A DID of method sov cannot be created. The answer's status is that of the lookup. -/
def prepareJsonLdPlan : Admin Plan := do
  let proofType ← computes (command.data.item "proof_type")
  let keyType ← computes (itemOf proofTypeKeyTypeTranslationDict proofType)
  let didMethod ← computes (command.data.item "did_method")
  let did ← matchingDid didMethod (.str keyType)
  let method ← computes (queryText didMethod)
  if ¬ did.truthy ∧ didMethod ≠ .str "sov" then
    pure (.posts (.createDid method) "/wallet/did/create"
      (.obj [("method", didMethod), ("options", .obj [("key_type", .str keyType)])]))
  else if did.truthy then
    let text ← computes (didAnswer method did)
    pure (.answers 200 text)
  else pure (.answers 500 "Unable to create did".toList)

def translateFormats : List (Str × Json) → Except PyError (List (Str × Json))
  | [] => .ok []
  | (name, val) :: ms => do
    let format ← itemOf credFormatFilterTranslationDict (.str name)
    let ms ← translateFormats ms
    pure ((format, val) :: ms)

def translatedFilter : Json → Except PyError Json
  | .obj ms => do
    let formats ← translateFormats ms
    pure (.obj formats)
  | _ => .error .attributeError

/-- The formats of the filter under the names of the agent. -/
def withFilter (data : Json) : Except PyError Json := do
  if data.truthy then
    if ← data.contains "filter" then
      let filter ← data.item "filter"
      setItem data "filter" (← translatedFilter filter)
    else pure data
  else pure data

/-- The path of a topic up to the operation: the id of the exchange is a text, or made one. -/
def exchangePath (topic dataType idTxt : Str) (text : Json → Except PyError Str) : Admin Str :=
  if command.recordId = .null then pure topic
  else do
    let exId ← swapThreadIdForExchangeId command.recordId dataType idTxt
    let exId ← computes (text exId)
    pure (topic ++ ("records/" : Str) ++ exId ++ ("/" : Str))

def issueCredentialV2Plan : Admin Plan :=
  match credentialResponse b.settings command with
  | some text => pure (.answers 200 text)
  | none =>
    if Is command "prepare-json-ld" then prepareJsonLdPlan command
    else do
      let path ← exchangePath command "/issue-credential-2.0/" "credential-msg" "cred_ex_id"
        fun credExId => .ok (py.str credExId)
      let operation ← computes
        (translatedOperation issueCredentialv2Operations command.operation)
      let data ← computes (withFilter command.data)
      pure (.posts (.issueCredentialV2 operation) (path ++ ofText operation) data)

/-- Data that are None are not mapped. -/
def mapped (mapTestJson : Option Text → Json → Except PyError Json) : Except PyError Json :=
  if command.data = .null then .ok .null else mapTestJson command.operation command.data

/-- `f"/present-proof/\x7boperation\x7d"` -/
def proofPath : Str :=
  ("/present-proof/" : Str) ++ ofText (command.operation.getD "None".toList)

/-- The path for an operation on the record of a proof. -/
def proofRecordPath : Admin Str := do
  let presExId ← swapThreadIdForExchangeId command.recordId "presentation-msg"
    "presentation_exchange_id"
  let record := ("/present-proof/records/" : Str) ++ py.str presExId
  requireStateIf (Is command "verify-presentation" ∧ ¬ b.settings.autoRespondPresentationRequest)
    record "presentation_received" "Expected state presentation-received but not received"
  pure (record ++ ("/" : Str) ++ operationOf command)

def proofPlan : Admin Plan :=
  match presentationResponse b.settings command with
  | some text => pure (.answers 200 text)
  | none => do
    let path ← (if command.recordId ≠ .null ∧ isSwapped command
        ["send-presentation", "send-request", "verify-presentation", "remove"] then
      proofRecordPath py b command
    else pure (proofPath command))
    let data ← computes (mapped command PresentationMapping.Proof.mapTestJson)
    pure (.posts (.proof command.operation) path data)

def proofV2Plan : Admin Plan :=
  match presentationResponse b.settings command with
  | some text => pure (.answers 200 text)
  | none => do
    let path ← exchangePath command "/present-proof-2.0/" "presentation-msg" "pres_ex_id" asStr
    let operation ← computes (translatedOperation proofv2Operations command.operation)
    let data ← computes (mapped command PresentationMapping.ProofV2.mapTestJson)
    pure (.posts (.proofV2 operation) (path ++ ofText operation) data)

def revocationPlan : Admin Plan := do
  let (agentOperation, adminData) ← computes
    (RevocationCommands.getAgentOperationAcapyVersionBased py b.acapyVersion command)
  pure (.posts .revocation agentOperation adminData)

/-! Out of band. -/

/-- Where a record is asked for by its thread, where its id stands in the first result, and the
type of an attachment of it. -/
structure AttachmentKind where
  suffix : Str
  records : Str
  idPath : List Str
  type : Str

def attachmentKinds : List AttachmentKind :=
  [⟨"/issue-credential/1.0/offer-credential", "/issue-credential/records",
      ["credential_exchange_id"], "credential-offer"⟩,
    ⟨"/issue-credential/2.0/offer-credential", "/issue-credential-2.0/records",
      ["cred_ex_record", "cred_ex_id"], "credential-offer"⟩,
    ⟨"present-proof/1.0/request-presentation", "/present-proof/records",
      ["presentation_exchange_id"], "present-proof"⟩,
    ⟨"present-proof/2.0/request-presentation", "/present-proof-2.0/records", ["pres_ex_id"],
      "present-proof"⟩]

def kindOf (messageType : Str) : Option AttachmentKind :=
  attachmentKinds.find? fun kind => kind.suffix <:+ messageType

/-- `attachment.get("~thread", {}).get("thid") or attachment.get("@id")` -/
def attachmentThread (attachment : Json) : Except PyError Json := do
  let thread ← PresentationMapping.getOr attachment "~thread" PresentationMapping.empty
  let thid ← thread.get "thid"
  if thid.truthy then pure thid else attachment.get "@id"

/-- The type of a message; only texts have a suffix. -/
def messageType (attachment : Json) : Except PyError Json := attachment.item "@type"

/-- An attachment for the admin API, or the type that has none. -/
def formatAttachment (attachment : Json) : Admin (Sum Str Json) := do
  let type ← computes (messageType attachment)
  let threadId ← computes (attachmentThread attachment)
  match type with
  | .str messageType =>
    match kindOf messageType with
    | none => pure (.inl messageType)
    | some kind => do
      let (_, respText) ← adminGet kind.records [("thread_id", threadId)]
      let respJson ← computes (loads respText)
      let results ← computes (respJson.item "results")
      let first ← computes (subscript results (.int 0))
      let recordId ← computes (kind.idPath.foldlM Json.item first)
      pure (.inr (.obj [("id", recordId), ("type", .str kind.type)]))
  | _ => throws .attributeError

/-- The attachments in order, up to one of an unsupported type. -/
def formatAttachments : List Json → Admin (Sum Str (List Json))
  | [] => pure (.inr [])
  | attachment :: attachments => do
    match ← formatAttachment attachment with
    | .inl messageType => pure (.inl messageType)
    | .inr formatted => do
      match ← formatAttachments attachments with
      | .inl messageType => pure (.inl messageType)
      | .inr rest => pure (.inr (formatted :: rest))

def unsupported (messageType : Str) : Str :=
  ("Unsupported message type '" : Str) ++ messageType ++ ("'" : Str)

def didexchange : Json := .str "did:sov:BzCbsNYhMrjHiqZDTUASHg;spec/didexchange/1.0"

def ifTrue (name : Str) (value : Json) (ms : List (Str × Json)) : List (Str × Json) :=
  if value.truthy then assign name value ms else ms

/-- Without handshake protocols and attachments the handshake is a did exchange. -/
def handshakeProtocols (handshake : Json) (formatted : List Json) : Json :=
  if handshake = .null ∧ formatted = [] then .arr [didexchange]
  else if handshake.truthy then handshake else .arr []

def withoutMember (name : Str) : Json → Json
  | .obj ms => .obj (remove name ms)
  | data => data

/-- A response with a lone surrogate cannot be encoded. -/
def responseText (s : Str) : Except PyError Text :=
  s.mapM fun
    | .ch c => .ok c
    | .surrogate _ => .error (.exception "surrogates not allowed")

def invitationData (data mediationId : Json) (formatted : List Json) : Except PyError Json := do
  let handshake ← data.get "handshake_protocols"
  let useDidMethod ← data.get "use_did_method"
  let useDid ← data.get "use_did"
  let usePublicDid ← PresentationMapping.getOr data "use_public_did" (.bool false)
  pure (.obj (ifTrue "mediation_id" mediationId (ifTrue "use_did" useDid
    (ifTrue "use_did_method" useDidMethod [("use_public_did", usePublicDid),
      ("attachments", .arr formatted),
      ("handshake_protocols", handshakeProtocols handshake formatted)]))))

def sendInvitationPlan (mediationId : Json) : Admin Plan := do
  let attachments ← computes (PresentationMapping.getOr command.data "attachments" (.arr []))
  let attachments ← computes (iterated attachments)
  match ← formatAttachments attachments with
  | .inl messageType =>
    let text ← computes (responseText (unsupported messageType))
    pure (.answers 500 text)
  | .inr formatted =>
    let data ← computes (invitationData command.data mediationId formatted)
    pure (.posts (.outOfBand command.operation) "/out-of-band/create-invitation?multi_use=false"
      data)

def useExistingConnection (data : Json) : Except PyError Str := do
  if ← data.contains "use_existing_connection" then
    let useExisting ← data.item "use_existing_connection"
    pure (py.lower (py.str useExisting))
  else pure ("false" : Str)

def receiveInvitationPlan (mediationId : Json) : Admin Plan := do
  let useExisting ← computes (useExistingConnection py command.data)
  pure (.posts (.outOfBand command.operation)
    (("/out-of-band/receive-invitation?use_existing_connection=" : Str) ++ useExisting ++
      mediationQuery py "&mediation_id=" mediationId)
    (withoutMember "use_existing_connection" command.data))

def outOfBandPlan : Admin Plan := do
  let mediationId ← mediationIdOf command.data
  if Is command "send-invitation-message" then sendInvitationPlan command mediationId
  else if Is command "receive-invitation" then receiveInvitationPlan py command mediationId
  else pure (.posts (.outOfBand command.operation) "/out-of-band/" command.data)

/-! The polls for a message of a webhook. -/

def popResource (dataId : Json) (dataType : Str) : Admin Json := do
  let popped : Except PyError Json ← ask (AdminCall.popResource dataId dataType)
  computes popped

def popResourceLatest (dataType : Str) : Admin Json := do
  let popped : Except PyError Json ← ask (AdminCall.popResourceLatest dataType)
  computes popped

/-- Pops until there is a message, a number of times. -/
def popPolls (pops : Admin Json) : ℕ → Admin Json
  | 0 => pure .null
  | polls + 1 => do
    let msg ← pops
    if msg = .null then popPolls pops polls else pure msg

/-- The name of the message is used for the first pop only. -/
def popLatestPolls (messageName : Option Str) : Admin Json := do
  let msg ← popResourceLatest (messageName.getD "connection-msg")
  if msg = .null then popPolls (popResourceLatest "connection-msg") ResponsePolls.maxTimeout
  else pure msg

def makeAgentGetRequestResponse (messageName : Option Str) : Admin (ℕ × Text) :=
  let topic := command.topic.getD []
  if command.recordId.truthy then
    match ResponsePolls.responseDataType topic with
    | some dataType => do
      let msg ← popPolls (popResource command.recordId dataType) (ResponsePolls.maxTimeout + 1)
      computes (ResponsePolls.respond topic msg)
    | none => pure (501, "501: Not Implemented\n\n".toList)
  else if topic = "did-exchange".toList ∧ command.recordId = .null then do
    let msg ← popLatestPolls messageName
    computes (ResponsePolls.respond topic msg)
  else pure (501, "501: Not Implemented\n\n".toList)

/-! DID exchange. -/

/-- The DID method is passed in the query. -/
def withDidMethod (path : Str) (data : Json) : Except PyError (Str × Json) := do
  if data.truthy then
    if ← data.contains "use_did_method" then
      let useDidMethod ← data.item "use_did_method"
      pure (path ++ ("?use_did_method=" : Str) ++ py.str useDidMethod,
        withoutMember "use_did_method" data)
    else pure (path, data)
  else pure (path, data)

def didExchangePath (data : Json) : Except PyError (Str × Json) :=
  let agentOperation : Str := "/didexchange/"
  if Is command "send-request" then
    withDidMethod py (agentOperation ++ py.str command.recordId ++ ("/accept-invitation" : Str)) data
  else if Is command "receive-invitation" then
    withDidMethod py (agentOperation ++ operationOf command) data
  else if Is command "send-response" then
    withDidMethod py (agentOperation ++ py.str command.recordId ++ ("/accept-request" : Str)) data
  else if Is command "create-request-resolvable-did" then do
    let theirPublicDid ← data.item "their_public_did"
    pure (agentOperation ++ ("create-request?their_public_did=" : Str) ++ py.str theirPublicDid,
      .null)
  else withDidMethod py agentOperation data

def didExchangePlan : Admin Plan :=
  if Is command "send-response" ∧ b.settings.autoAcceptRequests then
    pure (.answers 200 autoAccepted)
  else if Is command "receive-request-resolvable-did" then do
    let (status, text) ← makeAgentGetRequestResponse command (some "didexchange-msg")
    pure (.answers status text)
  else do
    let (path, data) ← computes (didExchangePath py command command.data)
    pure (.posts .didExchange path data)

def plan : Admin Plan :=
  if command.topic = some "connection".toList then connectionPlan py b command
  else if command.topic = some "schema".toList then schemaPlan b command
  else if command.topic = some "credential-definition".toList then
    credentialDefinitionPlan b command
  else if command.topic = some "issue-credential".toList then issueCredentialPlan py b command
  else if command.topic = some "issue-credential-v2".toList then
    issueCredentialV2Plan py b command
  else if command.topic = some "proof-v2".toList then proofV2Plan b command
  else if command.topic = some "revocation".toList then revocationPlan py b command
  else if command.topic = some "proof".toList then proofPlan py b command
  else if command.topic = some "out-of-band".toList then outOfBandPlan py command
  else if command.topic = some "did-exchange".toList then didExchangePlan py b command
  else pure notImplemented

/-! What follows the POST. -/

/-- The connection of a received invitation is fetched, if there is one. -/
def afterReceivedInvitation (topic text : Text) : Admin (ℕ × Text) := do
  let respJson ← computes (loads text)
  let connectionId ← computes (respJson.get "connection_id")
  let state ← computes (respJson.get "state")
  if connectionId.truthy then
    let (status, text) ← adminGet (("/connections/" : Str) ++ py.str connectionId) []
    let text ← computes (StateTranslation.Acapy.agentStateTranslation topic text)
    pure (status, text)
  else if state = .str "prepare-response" then
    let respJson ← computes (setItem respJson "state" (.str "invitation-received"))
    pure (200, dumps respJson)
  else pure (200, text)

/-- An agent that is asked nothing. -/
def silent : Agent :=
  ⟨.ok none, ⟨0, .ok []⟩, ⟨0, .ok []⟩, .ok (0, [])⟩

def afterPost (p : Posting) (status : ℕ) (text : Text) : Admin (ℕ × Text) :=
  let topic := command.topic.getD []
  match p with
  | .outOfBand operation =>
    if status = 200 ∧ operation = some "receive-invitation".toList then
      afterReceivedInvitation py topic text
    else computes (AdminPosts.afterPost b.settings silent topic p status text)
  | p => computes (AdminPosts.afterPost b.settings silent topic p status text)

def makeAgentPostRequest : Admin (ℕ × Text) := do
  match ← plan py b command with
  | .answers status text => pure (status, text)
  | .posts p path data =>
    let (status, text) ← adminPost path data []
    afterPost py b command p status text

end Plans

/-- A POST that was planned, with its answer and what follows. -/
structure Posted (py : Python) (b : Backchannel) (command : BackchannelCommand)
    (events : List (Event Reply)) (r : Except PyError (ℕ × Text)) where
  p : Posting
  path : Str
  data : Json
  before : List (Event Reply)
  answer : Answer
  after : List (Event Reply)
  planned : Program.Behaves (plan py b command) before (.ok (.posts p path data))
  events_eq : events = before ++ ⟨.adminPost path data [], answer⟩ :: after
  followed : (∃ e, answer.read = .error e ∧ after = [] ∧ r = .error e) ∨
    ∃ status text, answer.read = .ok (status, text) ∧
      Program.Behaves (afterPost py b command p status text) after r

/-- A POST command raises or answers before its POST, or makes it. -/
theorem post_cases {py : Python} {b : Backchannel} {command : BackchannelCommand}
    {events : List (Event Reply)} {r : Except PyError (ℕ × Text)}
    (h : Program.Behaves (makeAgentPostRequest py b command) events r) :
    (∃ e, r = .error e ∧ Program.Behaves (plan py b command) events (.error e)) ∨
      (∃ status text, r = .ok (status, text) ∧
        Program.Behaves (plan py b command) events (.ok (.answers status text))) ∨
      Nonempty (Posted py b command events r) := by
  rcases Program.behaves_bind.mp h with ⟨e, rfl, hplan⟩ | ⟨planned, before, rest, rfl, hplan, hrest⟩
  · exact .inl ⟨e, rfl, hplan⟩
  · cases planned with
    | answers status text =>
      obtain ⟨rfl, rfl⟩ := Program.behaves_pure.mp hrest
      rw [List.append_nil]
      exact .inr (.inl ⟨status, text, rfl, hplan⟩)
    | posts p path data =>
      have posted : ∀ {first : List (Event Reply)} {x : Except PyError (ℕ × Text)},
          Program.Behaves (adminPost path data []) first x → ∃ answer : Answer,
            first = [⟨.adminPost path data [], answer⟩] ∧ x = answer.read := by
        intro first x hpost
        rcases behaves_adminPost.mp hpost with ⟨e, hnone, -⟩ | ⟨query, answer, hquery, hfirst, hx⟩
        · cases hnone
        · obtain rfl : ([] : List (Str × Str)) = query := Except.ok.inj hquery
          exact ⟨answer, hfirst, hx⟩
      refine .inr (.inr ?_)
      rcases Program.behaves_bind.mp hrest with ⟨e, rfl, hpost⟩ | ⟨x, first, after, rfl, hpost, hafter⟩
      · obtain ⟨answer, rfl, he⟩ := posted hpost
        exact ⟨p, path, data, before, answer, [], hplan, rfl, .inl ⟨e, he.symm, rfl, rfl⟩⟩
      · obtain ⟨answer, rfl, hx⟩ := posted hpost
        exact ⟨p, path, data, before, answer, after, hplan, rfl,
          .inr ⟨x.1, x.2, hx.symm, hafter⟩⟩

end AgentTestHarness.AdminRequests
