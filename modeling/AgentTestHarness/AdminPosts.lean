import AgentTestHarness.CommandRequests
import AgentTestHarness.StateTranslation
import AgentTestHarness.Webhooks

/-! `make_agent_POST_request` of the ACA-Py backchannel: which POST to the admin API a command
leads to, and what becomes of its answer. What is sent is left out, since nothing that processes
the answer reads it. -/
namespace AgentTestHarness.AdminPosts
open PyText OrderedDict PyJson JsonReading JsonWriting StateTranslation Webhooks CommandRequests

structure Settings where
  autoAcceptRequests : Bool
  autoRespondCredentialProposal : Bool
  autoRespondCredentialOffer : Bool
  autoRespondCredentialRequest : Bool
  autoRespondPresentationProposal : Bool
  autoRespondPresentationRequest : Bool
  isWalletAnoncreds : Bool
  aip20 : Bool

/-- An answer of the admin API; decoding the bytes of its body may raise. -/
structure Answer where
  status : ℕ
  body : Except PyError Text

def Answer.read (a : Answer) : Except PyError (ℕ × Text) := a.body.map fun text => (a.status, text)

/-- The agent as one command meets it. The preparation of a POST reads the command's data, asks
the agent and waits for it; it raises, or has the command's answer already, or has none. -/
structure Agent where
  preparation : Except PyError (Option (ℕ × Text))
  post : Answer
  connection : Answer
  didExchangeMessage : Except PyError (ℕ × Text)

/-- The places that POST to the admin API. -/
inductive Posting
  | createInvitation
  | receiveInvitation
  | connectionOperation
  | schema
  | credentialDefinition
  | issueCredential (operation : Option Text)
  | createDid (didMethod : Str)
  | issueCredentialV2 (operation : Text)
  | revocation
  | proof (operation : Option Text)
  | proofV2 (operation : Text)
  | outOfBand (operation : Option Text)
  | didExchange

inductive Course
  | answers (status : ℕ) (text : Text)
  | posts (p : Posting)

/-! The way to the POST. -/

def notImplemented : Course := .answers 501 "501: Not Implemented\n\n".toList

def prepared (agent : Agent) (p : Posting) : Except PyError Course :=
  agent.preparation.map fun
    | some (status, text) => .answers status text
    | none => .posts p

def Is (command : BackchannelCommand) (operation : String) : Prop :=
  command.operation = some operation.toList

instance (command : BackchannelCommand) (operation : String) : Decidable (Is command operation) :=
  inferInstanceAs (Decidable (_ = _))

def useAnoncreds (settings : Settings) (command : BackchannelCommand) : Bool :=
  settings.isWalletAnoncreds || command.anoncreds.truthy

def autoAccepted : Text :=
  "Aca-py agent in auto accept request mode. accept-request operation not called.".toList

/-- The message of a command that an automatic response has made superfluous. -/
def autoResponded (mode operation : String) : Text :=
  dumps (.obj [("message", .str (ofText ("Aca-py agent in auto respond mode for " ++ mode ++ ". " ++
    operation ++ " operation not called.").toList))])

/-- The mediation record is looked up before the operation is. -/
def connectionCourse (settings : Settings) (agent : Agent) (command : BackchannelCommand) :
    Except PyError Course :=
  if Is command "create-invitation" then prepared agent .createInvitation
  else if Is command "receive-invitation" then prepared agent .receiveInvitation
  else if Is command "accept-request" ∧ settings.autoAcceptRequests then
    agent.preparation.map fun _ => .answers 200 autoAccepted
  else if Is command "accept-invitation" ∨ Is command "accept-request" ∨ Is command "remove" ∨
      Is command "start-introduction" ∨ Is command "send-ping" then
    prepared agent .connectionOperation
  else agent.preparation.map fun _ => notImplemented

/-- The topics that need a wallet of the right kind. -/
def ledgerCourse (settings : Settings) (agent : Agent) (command : BackchannelCommand)
    (p : Posting) : Except PyError Course :=
  if useAnoncreds settings command ∧ ¬ settings.isWalletAnoncreds then
    .ok (.answers 400 "Bad request - agent wallet cannot support anoncreds format".toList)
  else prepared agent p

/-- The response to a credential message that the agent gives by itself. -/
def credentialResponse (settings : Settings) (command : BackchannelCommand) : Option Text :=
  if settings.autoRespondCredentialProposal ∧ Is command "send-offer" ∧ command.recordId.truthy then
    some (autoResponded "proposal" "send-offer")
  else if settings.autoRespondCredentialOffer ∧ Is command "send-request" then
    some (autoResponded "offer" "send-request")
  else if settings.autoRespondCredentialRequest ∧ Is command "issue" then
    some (autoResponded "request" "issue")
  else none

def issueCredentialCourse (settings : Settings) (agent : Agent) (command : BackchannelCommand) :
    Except PyError Course :=
  match credentialResponse settings command with
  | some text => .ok (.answers 200 text)
  | none => prepared agent (.issueCredential command.operation)

/-- The text of a value that can be a query parameter; None is left out of the query. What is not a
number and infinities are refused. -/
def queryText : Json → Except PyError Str
  | .null => .ok "None"
  | .str s => .ok s
  | .int n => .ok (ofText (dumpsInt n))
  | .float literal =>
    if literal ∈ ["NaN", "Infinity", "-Infinity"].map String.toList then
      .error (.exception "float is not supported")
    else .ok (ofText literal)
  | _ => .error .typeError

def issueCredentialv2Operations : List Text :=
  ["send-proposal", "send-offer", "create-offer", "send-request", "issue", "store"].map
    String.toList

/-- `table[operation]`, for a table that keeps every name as it is. -/
def translatedOperation (table : List Text) (operation : Option Text) : Except PyError Text :=
  match operation with
  | some operation => if operation ∈ table then .ok operation else .error .keyError
  | none => .error .keyError

def issueCredentialV2Course (settings : Settings) (agent : Agent) (command : BackchannelCommand) :
    Except PyError Course :=
  match credentialResponse settings command with
  | some text => .ok (.answers 200 text)
  | none =>
    if Is command "prepare-json-ld" then do
      let didMethod ← command.data.item "did_method"
      prepared agent (.createDid (← queryText didMethod))
    else do
      let operation ← translatedOperation issueCredentialv2Operations command.operation
      prepared agent (.issueCredentialV2 operation)

/-- The response to a presentation message that the agent gives by itself. -/
def presentationResponse (settings : Settings) (command : BackchannelCommand) : Option Text :=
  if settings.autoRespondPresentationProposal ∧ Is command "send-request" ∧
      command.recordId.truthy then
    some (autoResponded "presentation proposal" "send-request")
  else if settings.autoRespondPresentationRequest ∧ Is command "send-presentation" then
    some (autoResponded "presentation request" "send-presentation")
  else none

def proofCourse (settings : Settings) (agent : Agent) (command : BackchannelCommand) :
    Except PyError Course :=
  match presentationResponse settings command with
  | some text => .ok (.answers 200 text)
  | none => prepared agent (.proof command.operation)

def proofv2Operations : List Text :=
  ["send-presentation", "send-request", "create-request", "verify-presentation",
    "send-proposal"].map String.toList

def proofV2Course (settings : Settings) (agent : Agent) (command : BackchannelCommand) :
    Except PyError Course :=
  match presentationResponse settings command with
  | some text => .ok (.answers 200 text)
  | none => do
    let operation ← translatedOperation proofv2Operations command.operation
    prepared agent (.proofV2 operation)

def didExchangeCourse (settings : Settings) (agent : Agent) (command : BackchannelCommand) :
    Except PyError Course :=
  if Is command "send-response" ∧ settings.autoAcceptRequests then .ok (.answers 200 autoAccepted)
  else if Is command "receive-request-resolvable-did" then
    agent.didExchangeMessage.map fun (status, text) => .answers status text
  else prepared agent .didExchange

def course (settings : Settings) (agent : Agent) (command : BackchannelCommand) :
    Except PyError Course :=
  if command.topic = some "connection".toList then connectionCourse settings agent command
  else if command.topic = some "schema".toList then ledgerCourse settings agent command .schema
  else if command.topic = some "credential-definition".toList then
    ledgerCourse settings agent command .credentialDefinition
  else if command.topic = some "issue-credential".toList then
    issueCredentialCourse settings agent command
  else if command.topic = some "issue-credential-v2".toList then
    issueCredentialV2Course settings agent command
  else if command.topic = some "proof-v2".toList then proofV2Course settings agent command
  else if command.topic = some "revocation".toList then prepared agent .revocation
  else if command.topic = some "proof".toList then proofCourse settings agent command
  else if command.topic = some "out-of-band".toList then
    prepared agent (.outOfBand command.operation)
  else if command.topic = some "did-exchange".toList then
    didExchangeCourse settings agent command
  else .ok notImplemented

/-! What becomes of the answer. -/

/-- `items[n]`, from the end for a negative index. -/
def itemAt (items : List Json) (n : ℤ) : Except PyError Json :=
  let position := if n < 0 then n + items.length else n
  if position < 0 then .error .indexError
  else match items[position.toNat]? with
    | some v => .ok v
    | none => .error .indexError

def characters (s : Str) : List Json := s.map fun c => .str [c]

/-- `value[key]` for any key; a text gives its characters. -/
def subscript (value key : Json) : Except PyError Json :=
  match value, key with
  | .obj ms, .str k => (Json.obj ms).item k
  | .obj _, key => key.asKey >>= fun _ => .error .keyError
  | .arr items, .int n => itemAt items n
  | .arr items, .bool b => itemAt items (if b then 1 else 0)
  | .str s, .int n => itemAt (characters s) n
  | .str s, .bool b => itemAt (characters s) (if b then 1 else 0)
  | _, _ => .error .typeError

/-- What `for key in value` runs over. -/
def iterated : Json → Except PyError (List Json)
  | .obj ms => .ok (ms.map fun m => .str m.1)
  | .arr items => .ok items
  | .str s => .ok (characters s)
  | _ => .error .typeError

/-- The field of the first member that contains it. -/
def findField (respJson : Json) (field : Str) : List Json → Except PyError (Option Json)
  | [] => .ok none
  | key :: keys => do
    let value ← subscript respJson key
    if ← value.contains field then
      let fieldValue ← value.item field
      pure (some fieldValue)
    else findField respJson field keys

def moveFieldToTopLevel (respText : Text) (fieldToMove : Str) : Except PyError Text := do
  let respJson ← loads respText
  if ← respJson.contains fieldToMove then pure respText
  else
    let keys ← iterated respJson
    match ← findField respJson fieldToMove keys with
    | some fieldValue => (setItem respJson fieldToMove fieldValue).map dumps
    | none => pure respText

def translatedIf (success : Bool) (topic text : Text) : Except PyError Text :=
  if success then Acapy.agentStateTranslation topic text else .ok text

/-- The JSON of a text beside the message in it. -/
def withMessage (respText : Text) (messageName : Str) : Except PyError Text := do
  let respJson ← loads respText
  let message ← respJson.item messageName
  pure (dumps (.obj [("record", respJson), ("message", message)]))

def afterCreateInvitation (topic : Text) (status : ℕ) (text : Text) : Except PyError Text := do
  let invitationResp ← loads text
  translatedIf (status = 200) topic (dumps invitationResp)

def afterIssueCredential (settings : Settings) (topic : Text) (operation : Option Text)
    (status : ℕ) (text : Text) : Except PyError Text := do
  let text ← translatedIf (status = 200 ∧ ¬ settings.aip20) topic text
  if operation = some "create-offer".toList then withMessage text "credential_offer_dict"
  else pure text

/-- The body of a failed create-request is parsed, though not used. -/
def afterProof (topic : Text) (operation : Option Text) (status : ℕ) (text : Text) :
    Except PyError Text := do
  let text ← translatedIf (status = 200) topic text
  if operation = some "create-request".toList then
    let respJson ← loads text
    if status = 200 then
      let message ← respJson.item "presentation_request_dict"
      pure (dumps (.obj [("record", respJson), ("message", message)]))
    else pure text
  else pure text

/-- The DID that was looked up before is not true, so it is as good as none. -/
def createdDid (status : ℕ) (text : Text) : Except PyError Json :=
  if status = 200 then do
    let respJson ← loads text
    let result ← respJson.item "result"
    result.item "did"
  else pure .null

def afterCreateDid (didMethod : Str) (status : ℕ) (text : Text) : Except PyError (ℕ × Text) := do
  let did ← createdDid status text
  if did.truthy then
    match did with
    | .str did =>
      let didUrl := if ("did:" : Str) ++ didMethod <+: did then did
        else ("did:" : Str) ++ didMethod ++ (":" : Str) ++ did
      pure (status, dumps (.obj [("did", .str didUrl)]))
    | _ => throw .attributeError
  else pure (500, "Unable to create did".toList)

/-- A true value is asked for its stored id. -/
def withCredentialId (value : Json) : Except PyError Json :=
  if value.truthy then do
    let credIdStored ← value.get "cred_id_stored"
    if credIdStored.truthy then setItem value "credential_id" credIdStored else pure value
  else pure value

def withCredentialIds : List (Str × Json) → Except PyError (List (Str × Json))
  | [] => .ok []
  | (key, value) :: ms => do
    let value ← withCredentialId value
    let ms ← withCredentialIds ms
    pure ((key, value) :: ms)

/-- A true linked-data proof is named "json-ld". -/
def renameLdProof : Json → Except PyError (List (Str × Json))
  | .obj ms => match lookup ("ld_proof" : Str) ms with
    | some ldProof =>
        .ok (if ldProof.truthy then assign "json-ld" ldProof (remove "ld_proof" ms) else ms)
    | none => .error .keyError
  | _ => .error .typeError

def storedCredential (text : Text) : Except PyError Text := do
  let respJson ← loads text
  let ms ← renameLdProof respJson
  let ms ← withCredentialIds ms
  pure (dumps (.obj ms))

def afterIssueCredentialV2 (operation text : Text) : Except PyError Text := do
  let text ← (if operation = "store".toList then storedCredential text else .ok text)
  let text ← moveFieldToTopLevel text "state"
  if operation = "create-offer".toList then withMessage text "cred_offer" else pure text

def afterProofV2 (operation text : Text) : Except PyError Text := do
  let text ← (if operation = "create-request".toList then withMessage text "pres_request"
    else .ok text)
  moveFieldToTopLevel text "state"

/-- The connection of a received invitation is fetched, if there is one. -/
def afterOutOfBand (agent : Agent) (topic : Text) (operation : Option Text) (status : ℕ)
    (text : Text) : Except PyError (ℕ × Text) :=
  if status = 200 ∧ operation = some "receive-invitation".toList then do
    let respJson ← loads text
    let connectionId ← respJson.get "connection_id"
    let state ← respJson.get "state"
    if connectionId.truthy then
      let (status, text) ← agent.connection.read
      let text ← Acapy.agentStateTranslation topic text
      pure (status, text)
    else if state = .str "prepare-response" then
      let respJson ← setItem respJson "state" (.str "invitation-received")
      pure (status, dumps respJson)
    else pure (status, text)
  else do
    let text ← translatedIf (status = 200) topic text
    pure (status, text)

/-- The answer to the command, from the answer to its POST. -/
def afterPost (settings : Settings) (agent : Agent) (topic : Text) (p : Posting) (status : ℕ)
    (text : Text) : Except PyError (ℕ × Text) :=
  let withStatus (text : Except PyError Text) := text.map fun text => (status, text)
  match p with
  | .createInvitation => withStatus (afterCreateInvitation topic status text)
  | .receiveInvitation | .connectionOperation | .revocation | .didExchange =>
      withStatus (translatedIf (status = 200) topic text)
  | .schema => withStatus (moveFieldToTopLevel text "schema_id")
  | .credentialDefinition => withStatus (moveFieldToTopLevel text "credential_definition_id")
  | .issueCredential operation =>
      withStatus (afterIssueCredential settings topic operation status text)
  | .createDid didMethod => afterCreateDid didMethod status text
  | .issueCredentialV2 operation => withStatus (afterIssueCredentialV2 operation text)
  | .proof operation => withStatus (afterProof topic operation status text)
  | .proofV2 operation => withStatus (afterProofV2 operation text)
  | .outOfBand operation => afterOutOfBand agent topic operation status text

def makeAgentPostRequest (settings : Settings) (agent : Agent) (command : BackchannelCommand) :
    Except PyError (ℕ × Text) := do
  match ← course settings agent command with
  | .answers status text => pure (status, text)
  | .posts p =>
    let (status, text) ← agent.post.read
    afterPost settings agent (command.topic.getD []) p status text

/-! The HTTP response. -/

/-- The text is none where it is that of an exception. -/
structure Response where
  status : ℕ
  text : Option Text

def textOrNone : Option Text → Json
  | none => .null
  | some s => .str (ofText s)

def methodName : Method → Str
  | .get => "GET"
  | .post => "POST"
  | .delete => "DELETE"

def commandDict (command : BackchannelCommand) : Json :=
  .obj [("topic", textOrNone command.topic), ("method", .str (methodName command.method)),
    ("operation", textOrNone command.operation), ("record_id", command.recordId),
    ("data", command.data), ("anoncreds", command.anoncreds)]

/-- `_post_command_backchannel`, from the parsed command on. -/
def postCommandBackchannel (settings : Settings) (agent : Agent) (command : BackchannelCommand) :
    Response :=
  match makeAgentPostRequest settings agent command with
  | .error _ => ⟨500, none⟩
  | .ok (status, text) =>
    if status = 200 then ⟨status, some text⟩
    else if status = 404 then
      ⟨404, some ("404 not found: ".toList ++ dumps (commandDict command))⟩
    else if status = 501 then
      ⟨501, some ("501 not implemented: ".toList ++ dumps (commandDict command))⟩
    else ⟨status, some text⟩

end AgentTestHarness.AdminPosts
