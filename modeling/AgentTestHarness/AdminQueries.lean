import AgentTestHarness.AdminRequests

/-! The GET and DELETE commands of the ACA-Py backchannel, and the three methods together. -/
namespace AgentTestHarness.AdminQueries
open PyText OrderedDict PyJson JsonReading JsonWriting Webhooks StateTranslation CommandRequests
open ServiceCalls AdminPosts AdminRequests
open RevocationCommands (Python asStr)
open ConnectionLists (infoOf infosOf)
open Program (computes ask throws)

abbrev Answered := Admin (ℕ × Text)

def notImplemented : ℕ × Text := (501, "501: Not Implemented\n\n".toList)

/-- The answer of a GET, changed if it succeeded. -/
def getThen (path : Str) (change : Text → Except PyError Text) : Answered := do
  let (respStatus, respText) ← adminGet path []
  if respStatus = 200 then
    let text ← computes (change respText)
    pure (respStatus, text)
  else pure (respStatus, respText)

section Queries

variable (py : Python) (b : Backchannel) (command : BackchannelCommand)

def statusQuery : ℕ × Text :=
  (if b.active then 200 else 418,
    dumps (.obj [("status", .str (if b.active then "Active" else "Inactive"))]))

def versionQuery : ℕ × Text :=
  match b.acapyVersion with
  | some version => (200, version)
  | none => (404, "not found".toList)

def connectionInfos (respText : Text) : Except PyError Text := do
  let respJson ← loads respText
  let info ← (if command.recordId.truthy then infoOf "connection_id" "state" respJson respJson
    else infosOf "connection_id" "state" respJson)
  Acapy.agentStateTranslation "connection".toList (dumps info)

def connectionQuery : Answered :=
  getThen (if command.recordId.truthy then connectionPath py command else "/connections")
    (connectionInfos command)

/-- After a failed creation the DID is looked for where there is none. -/
def createdDid (status : ℕ) (text : Text) : Except PyError (Json × Json) :=
  if status = 200 then do
    let respJson ← loads text
    let result ← respJson.item "result"
    pure (← result.item "did", ← result.item "verkey")
  else .error .typeError

def registration (did verkey : Json) : Json :=
  .obj [("did", did), ("verkey", verkey), ("role", .str "ENDORSER")]

def register (data : Json) : Admin Unit := do
  let answer : Except PyError ℕ ← ask (AdminCall.register data)
  let status ← computes answer
  if status = 200 then pure () else throws (.exception "Error registering DID")

def publicDid (respText : Text) : Except PyError Json := do
  (← loads respText).item "result"

/-- A new DID is created, registered and made public. -/
def newPublicDid : Answered := do
  let (respStatus, respText) ← adminPost "/wallet/did/create" (.obj []) []
  let (did, verkey) ← computes (createdDid respStatus respText)
  register (registration did verkey)
  let _ ← adminPost "/wallet/did/public" (.obj []) [("did", did)]
  getThen "/wallet/did/public" fun respText => (publicDid respText).map dumps

def didQuery : Answered := do
  let (respStatus, respText) ← adminGet "/wallet/did/public" []
  let result ← computes (publicDid respText)
  if result ≠ .null then pure (respStatus, dumps result) else newPublicDid

/-- The first active connection. -/
def findActive : List Json → Except PyError (Option Json)
  | [] => .ok none
  | connection :: connections => do
    let state ← connection.item "state"
    if state = .str "active" then pure (some connection) else findActive connections

def activeConnectionQuery : Answered := do
  let (respStatus, respText) ← adminGet
    (("/connections?their_did=" : Str) ++ py.str command.recordId) []
  if respStatus ≠ 200 then pure (respStatus, respText)
  else
    let respJson ← computes (loads respText)
    let results ← computes (respJson.item "results" >>= iterated)
    match ← computes (findActive results) with
    | some connection => pure (respStatus, dumps connection)
    | none =>
      let text ← computes (responseText
        (("Active connection not found for their_did " : Str) ++ py.str command.recordId))
      pure (400, text)

/-- An object of the ledger; that of an anoncreds ledger gets its id. -/
def ledgerObject (anoncreds : Bool) (name idName : Str) (respText : Text) : Except PyError Text := do
  let respJson ← loads respText
  let object ← respJson.item name
  let object ← (if anoncreds then respJson.item idName >>= setItem object "id" else .ok object)
  pure (dumps object)

def ledgerQuery (anoncredsPath path name idName : Str) : Answered :=
  let anoncreds := useAnoncreds b.settings command
  getThen ((if anoncreds then anoncredsPath else path) ++ py.str command.recordId)
    (ledgerObject anoncreds name idName)

/-- The record of an exchange, whose id is appended to a text. -/
def recordPath (records dataType idTxt : Str) : Admin Str := do
  let exId ← swapThreadIdForExchangeId command.recordId dataType idTxt
  let exId ← computes (asStr exId)
  pure (records ++ exId)

def issueCredentialQuery : Answered := do
  let path ← recordPath command "/issue-credential/records/" "credential-msg"
    "credential_exchange_id"
  getThen path (Acapy.agentStateTranslation "issue-credential".toList)

def issueCredentialV2Query : Answered := do
  let path ← recordPath command "/issue-credential-2.0/records/" "credential-msg" "cred_ex_id"
  let (respStatus, respText) ← adminGet path []
  let text ← computes (moveFieldToTopLevel respText "state")
  pure (respStatus, text)

def w3cCredential (respText : Text) : Except PyError Text := do
  let respJson ← loads respText
  pure (dumps (.obj [("credential_id", ← respJson.item "record_id"),
    ("credential", ← respJson.item "cred_value")]))

/-- First an indy credential is looked for, then one of W3C. -/
def credentialQuery : Answered :=
  if Is command "revoked" then adminGet (("/credential/revoked/" : Str) ++ py.str command.recordId) []
  else do
    let (respStatus, respText) ← adminGet (("/credential/" : Str) ++ py.str command.recordId) []
    if respStatus = 404 then
      getThen (("/credential/w3c/" : Str) ++ py.str command.recordId) w3cCredential
    else pure (respStatus, respText)

def proofQuery : Answered := do
  let presExId ← swapThreadIdForExchangeId command.recordId "presentation-msg"
    "presentation_exchange_id"
  getThen (("/present-proof/records/" : Str) ++ py.str presExId)
    (Acapy.agentStateTranslation "proof".toList)

def proofV2Query : Answered := do
  let path ← recordPath command "/present-proof-2.0/records/" "presentation-msg" "pres_ex_id"
  adminGet path []

def revocationQuery : Answered := do
  let (agentOperation, _) ← computes
    (RevocationCommands.getAgentOperationAcapyVersionBased py b.acapyVersion command)
  adminGet agentOperation []

def makeAgentGetRequest : Answered :=
  if command.topic = some "status".toList then pure (statusQuery b)
  else if command.topic = some "version".toList then pure (versionQuery b)
  else if command.topic = some "connection".toList then connectionQuery py command
  else if command.topic = some "did".toList then didQuery
  else if command.topic = some "active-connection".toList ∧ command.recordId.truthy then
    activeConnectionQuery py command
  else if command.topic = some "schema".toList then
    ledgerQuery py b command "/anoncreds/schema/" "/schemas/" "schema" "schema_id"
  else if command.topic = some "credential-definition".toList then
    ledgerQuery py b command "/anoncreds/credential-definition/" "/credential-definitions/"
      "credential_definition" "credential_definition_id"
  else if command.topic = some "issue-credential".toList then issueCredentialQuery command
  else if command.topic = some "issue-credential-v2".toList then issueCredentialV2Query command
  else if command.topic = some "credential".toList then credentialQuery py command
  else if command.topic = some "proof".toList then proofQuery py command
  else if command.topic = some "proof-v2".toList then proofV2Query command
  else if command.topic = some "revocation".toList then revocationQuery py b command
  else if command.topic = some "did-exchange".toList then
    getThen (connectionPath py command) (Acapy.agentStateTranslation "did-exchange".toList)
  else pure notImplemented

def makeAgentDeleteRequest : Answered :=
  if command.topic = some "credential".toList ∧ command.recordId.truthy then do
    let (respStatus, respText) ← adminDelete (("/credential/" : Str) ++ py.str command.recordId)
    if respStatus = 200 then
      let text ← computes (Acapy.agentStateTranslation "credential".toList respText)
      pure (respStatus, text)
    else pure (respStatus, respText)
  else pure notImplemented

def makeAgentRequest : Answered :=
  match command.method with
  | .get => makeAgentGetRequest py b command
  | .post => makeAgentPostRequest py b command
  | .delete => makeAgentDeleteRequest py command

end Queries

end AgentTestHarness.AdminQueries
