import AgentTestHarness.IssuanceSteps
import AgentTestHarness.PyFloats

/-! The steps of the harness for proofs, protocols 0037 and 0454 and version 3, the revocation of
credentials and the invitations with a message, and scenarios of all steps. -/
namespace AgentTestHarness.ProofSteps
open PyText OrderedDict PyJson JsonReading ServiceCalls IssuanceSteps
open ConnectionSteps (Harness py asserts posts gets agentBackchannelGET agentBackchannelPOST
  agentBackchannelDELETE expectedAgentState)
open Program (throws)
open ProofRequests (setItem)

section Steps

variable (cfg : Config)

/-! Credentials to be presented. -/

/-- The attributes of every schema. -/
def setCredentialData (credentialData : Text) (ctx : Context) (entry : Text × Json) :
    Except PyError Context := do
  let json ← opened (cfg.credDataFile entry.1)
  let data ← json.item (ofText credentialData)
  let attributes ← data.item "attributes"
  pure { ctx with credentialDataDict := ctx.credentialDataDict.set entry.1 attributes }

/-- The next schema of the scenario. -/
def withSchema (entry : Text × Json) (ctx : Context) : Except PyError Context := do
  let supportRevocation ← itemAt ctx.supportRevocationDict entry.1
  pure { ctx with supportRevocation, schema := entry.2 }

def withCredentialData (entry : Text × Json) (ctx : Context) : Except PyError Context := do
  let credentialData ← itemAt ctx.credentialDataDict entry.1
  pure { ctx with credentialData, schema := entry.2 }

/-- The prover is the holder; the issuer is not in the agents table. -/
def withHolderAndIssuer (prover issuer : Text) (ctx : Context) : Harness Context := do
  let ctx := ctx.withRole .holder prover (cfg.userdata prover)
  asserts (∃ url ∈ cfg.userdata prover, url ≠ [])
  let ctx := ctx.withRole .issuer issuer (cfg.userdata issuer)
  asserts (∃ url ∈ cfg.userdata issuer, url ≠ [])
  pure ctx

def connected (prover issuer : Text) (ctx : Context) : Prop :=
  (ctx.connections.connectionIds.get? (some prover, some issuer)).isSome

instance (prover issuer : Text) (ctx : Context) : Decidable (connected prover issuer ctx) :=
  inferInstanceAs (Decidable (_ = true))

/-- A step of the protocols that connect agents. -/
def connects (step : ConnectionSteps.Context → Harness ConnectionSteps.Context) (ctx : Context) :
    Harness Context := do
  let connections ← step ctx.connections
  pure { ctx with connections }

def haveAnExistingConnection (issuer prover : Text) : Context → Harness Context :=
  connects (ConnectionSteps.haveAnExistingConnection cfg.toConfig issuer prover)

/-- From the proposal, in features of indy, to the credential in the wallet. -/
def issueTo (prover issuer : Text) (ctx : Context) : Harness Context := do
  let ctx ← (if cfg.Tagged "Indy" then proposesACredential cfg prover issuer ctx
    else pure ctx)
  let ctx ← offersACredential cfg issuer ctx
  let ctx ← requestsTheCredential prover ctx
  let ctx ← issuesTheCredential cfg issuer ctx
  let ctx ← acknowledgesTheCredentialIssue cfg prover ctx
  hasTheCredentialIssued cfg prover ctx

def hasAnIssuedCredential (prover issuer : Text) (ctx : Context) : Harness Context := do
  let ctx ← (if connected prover issuer ctx then pure ctx
    else haveAnExistingConnection cfg issuer prover ctx)
  let ctx ← (if ctx.schemaDict.entries = [] then
      hasAnExistingSchemaAndCredentialDefinition cfg issuer ctx
    else ctx.schemaDict.entries.foldlM (fun ctx entry => do
      let ctx ← py (withSchema entry ctx)
      hasAnExistingSchemaAndCredentialDefinition cfg issuer ctx) ctx)
  let ctx ← withHolderAndIssuer cfg prover issuer ctx
  if ctx.schemaDict.entries = [] then issueTo cfg prover issuer ctx
  else ctx.schemaDict.entries.foldlM (fun ctx entry => do
    let ctx ← py (withCredentialData entry ctx)
    issueTo cfg prover issuer ctx) ctx

/-- The same step issues a new credential. -/
def hasAnIssuedCredentialWith (prover issuer credentialData : Text) (ctx : Context) :
    Harness Context := do
  let ctx ← py (ctx.schemaDict.entries.foldlM (setCredentialData cfg credentialData) ctx)
  hasAnIssuedCredential cfg prover issuer ctx

/-! Protocol 0037. -/

/-- What is asked for without a request from a file. -/
def attributeRequest (name : Str) (ctx : Context) : Except PyError Json :=
  match ctx.connections.nameOf .issuer with
  | none => .error .typeError
  | some issuer => .ok (.obj [("requested_attributes", .obj [(name, .obj [
      ("name", .str name), ("restrictions", .arr [.obj [
        ("schema_name", .str (("test_schema." : Str) ++ ofText issuer)),
        ("schema_version", .str "1.0.0")]])])])])

/-- The request of the context gets the interval of non-revocation, if there is one. -/
def dataOfRequest (ctx : Context) : Except PyError (Json × Context) :=
  if ctx.requestForProof.truthy then do
    let data ← (if ctx.nonRevokedTimeframe.truthy then do
        let interval ← ctx.nonRevokedTimeframe.item "non_revoked"
        setItem ctx.requestForProof "non_revoked" interval
      else pure ctx.requestForProof)
    pure (data, { ctx with requestForProof := data })
  else do
    let data ← attributeRequest "attr_1" ctx
    pure (data, ctx)

def presentationRequest (data : Json) : List (Str × Json) :=
  [("presentation_request", .obj [
    ("comment", .str "This is a comment for the request for presentation."),
    ("proof_request", .obj [("data", data)])])]

def sendsARequestForProof (verifier prover : Text) (ctx : Context) : Harness Context := do
  let (data, ctx) ← py (dataOfRequest ctx)
  let connectionId ← py (ctx.connections.connectionId (some verifier) (some prover))
  let json ← commands (ctx.urlOf .verifier) "proof" "send-request" .null
    (.obj (presentationRequest data ++ [(("connection_id" : Str), connectionId)]))
  let thread ← py (json.item "thread_id")
  expectedAgentState (ctx.urlOf .prover) "proof" thread ["request-received"] 2
  pure { ctx with presentationThreadId := thread }

def createsAProofRequest (ctx : Context) : Harness Context := do
  let (data, ctx) ← py (dataOfRequest ctx)
  let json ← commands (ctx.urlOf .verifier) "proof" "create-request" .null
    (.obj (presentationRequest data))
  let (thread, message) ← createdMessage json
  pure { ctx with presentationThreadId := thread, proofRequest := message }

/-- What a file has under a name. -/
def ofFile (name : Text) (member : Str) : Except PyError Json := do
  let json ← opened (cfg.dataFile name)
  json.item member

def sendsAPresentationRequest (verifier requestForProof prover : Text) (ctx : Context) :
    Harness Context := do
  let request ← py (ofFile cfg requestForProof "presentation_request")
  sendsARequestForProof verifier prover { ctx with requestForProof := request }

/-- The presentation of the context is filled in its place. -/
def presentationToSend (ctx : Context) : Except PyError (Json × Context) :=
  if ctx.presentation.truthy then do
    let presentation ← PresentationFilling.makesThePresentation cfg.truncated (cfg.clock ctx.uses)
      ctx.credentialIds ctx.presentation
    pure (presentation, { ctx with presentation, uses := ctx.uses + 1 })
  else do
    let name ← ctx.schemaName
    let id ← ctx.latestCredentialId name
    pure (.obj [("comment", .str "This is a comment for the send presentation."),
      ("requested_attributes", .obj [("attr_1", .obj [("revealed", .bool true),
        ("cred_id", id)])])], ctx)

def makesThePresentation (ctx : Context) : Harness Context := do
  let (presentation, ctx) ← py (presentationToSend cfg ctx)
  let _ ← posts (ctx.urlOf .prover) "proof" "send-presentation" ctx.presentationThreadId
    presentation
  pure ctx

def makesThe (presentation : Text) (ctx : Context) : Harness Context := do
  let presentation ← py (ofFile cfg presentation "presentation")
  makesThePresentation cfg { ctx with presentation }

/-- `value == True`; a number is true if it is one. -/
def isTrue : Json → Bool
  | .bool b => b
  | .int n => decide (n = 1)
  | .float literal => PyFloats.isOne literal
  | _ => false

def isVerified (value : Json) : Bool := isTrue value || decide (value = .str "true")

/-- `credential_verification_dict[presentation_thread_id] = verified` -/
def withVerification (verified : Bool) (ctx : Context) : Except PyError Context := do
  let key ← ctx.presentationThreadId.asKey
  pure { ctx with
    credentialVerificationDict := ctx.credentialVerificationDict.set key verified }

def acknowledgesTheProof (ctx : Context) : Harness Context := do
  let json ← commands (ctx.urlOf .verifier) "proof" "verify-presentation"
    ctx.presentationThreadId .null
  let state ← py (json.item "state")
  asserts (state = .str "done")
  let verified ← py (json.item "verified")
  py (withVerification (isVerified verified) ctx)

/-- The verification is looked at, if there was one for this thread. -/
def hasTheProofVerified (ctx : Context) : Harness Context := do
  expectedAgentState (ctx.urlOf .prover) "proof" ctx.presentationThreadId
    ["done", "presentation-sent"] 10
  let key ← py ctx.presentationThreadId.asKey
  asserts (ctx.credentialVerificationDict.get? key ≠ some false)
  pure ctx

/-- If anything was verified, this thread was, and in vain. -/
def hasTheProofUnverified (ctx : Context) : Harness Context := do
  expectedAgentState (ctx.urlOf .prover) "proof" ctx.presentationThreadId ["done"] 2
  if ctx.credentialVerificationDict.entries = [] then pure ctx
  else
    let key ← py ctx.presentationThreadId.asKey
    let verified ← py (itemAt ctx.credentialVerificationDict key)
    asserts (verified = false)
    pure ctx

/-- `data.get(member) or []` -/
def orEmpty (data : Json) (member : Str) : Except PyError Json := do
  let value ← data.get member
  pure (if value.truthy then value else .arr [])

def proposedPresentation (ctx : Context) : Except PyError Json :=
  if ctx.presentationProposal.truthy then .ok ctx.presentationProposal
  else do
    let name ← ctx.schemaName
    let credDefId ← itemAt ctx.credentialDefinitionIdDict name
    pure (.obj [("attributes", .arr [.obj [("name", .str "attr_2"),
      ("cred_def_id", credDefId)]])])

def makesAPresentationProposal (prover : Text) (ctx : Context) : Harness Context := do
  let data ← py (proposedPresentation ctx)
  let attributes ← py (orEmpty data "attributes")
  let predicates ← py (orEmpty data "predicates")
  let connectionId ← py (ctx.connections.connectionId (some prover)
    (ctx.connections.nameOf .verifier))
  let json ← commands (ctx.urlOf .prover) "proof" "send-proposal" .null
    (.obj [("presentation_proposal", .obj [
      ("comment", .str "This is a comment for the presentation proposal."),
      ("attributes", attributes), ("predicates", predicates)]), ("connection_id", connectionId)])
  let thread ← py (json.item "thread_id")
  pure { ctx with presentationThreadId := thread }

def makesAProposal (prover proposal : Text) (ctx : Context) : Harness Context := do
  let proposal ← py (ofFile cfg proposal "presentation_proposal")
  let presentationProposal ← py (PresentationFilling.makesAProposal cfg.truncated
    (cfg.clock ctx.uses) ctx.credentialDefinitionIdDict.entries proposal)
  makesAPresentationProposal prover { ctx with presentationProposal, uses := ctx.uses + 1 }

/-- No step sets the attribute that tells whether there is a connection. -/
def agreesToContinue (ctx : Context) : Harness Context := do
  let _ ← py (attributeRequest "attr_2" ctx)
  throws (.raised .attributeError)

/-- The presentation must be refused. -/
def makesTheProofIncorrectly (presentation : Text) (ctx : Context) : Harness Context := do
  let presentation ← py (ofFile cfg presentation "presentation")
  let (status, _) ← agentBackchannelPOST (ctx.urlOf .prover) "proof" (some "send-presentation")
    ctx.presentationThreadId presentation false
  asserts (status = 400)
  pure { ctx with presentation }

/-! Protocol 0454. -/

/-- The step is that of version 3. -/
def UsesV3 : Prop := cfg.Tagged "PresentProofV3"

instance : Decidable (UsesV3 cfg) := inferInstanceAs (Decidable (cfg.Tagged _))

def proofEndpoint : String := if UsesV3 cfg then "proof-v3" else "proof-v2"

/-- The format of the credentials by the tags. -/
def credFormatOf (ctx : Context) : Context :=
  if cfg.Tagged "CredFormat_Indy" then
    { ctx with currentCredFormat := some "indy".toList }
  else if cfg.Tagged "CredFormat_Anoncreds" then
    { ctx with currentCredFormat := some "anoncreds".toList }
  else if cfg.Tagged "CredFormat_JSON-LD" then
    { ctx with currentCredFormat := some "json-ld".toList }
  else ctx

/-- The format as it stands in the text of a step. -/
def formatText (ctx : Context) : Text := ctx.currentCredFormat.getD "None".toList

/-- A connection of DIDComm version 2 is made around the proposal, anew for each schema. -/
def startsIssuance (create : Bool) (prover issuer credentialData : Text) (ctx : Context) :
    Harness Context := do
  let propose := fun ctx : Context =>
    if cfg.Tagged "CredProposalStart" then
      proposesInFormat cfg prover (formatText ctx) issuer credentialData ctx
    else pure ctx
  if create = true ∧ cfg.Tagged "DIDComm-V2" then
    let ctx ← connects (ConnectionSteps.createsADidcommV2Invitation cfg.toConfig issuer none) ctx
    let ctx ← connects
      (ConnectionSteps.acceptsTheDidcommV2Invitation cfg.toConfig prover issuer) ctx
    let ctx ← propose ctx
    connects (ConnectionSteps.hasReceivedADidcommV2Message cfg.toConfig issuer prover) ctx
  else propose ctx

def issueInFormat (create : Bool) (prover issuer credentialData : Text) (ctx : Context) :
    Harness Context := do
  let ctx ← startsIssuance cfg create prover issuer credentialData ctx
  let ctx ← offersInFormat cfg issuer (formatText ctx) ctx
  let ctx ← requestsInFormat ctx
  let ctx ← issuesInFormat cfg issuer ctx
  let ctx ← acknowledgesInFormat cfg prover (formatText ctx) ctx
  hasIssuedInFormat cfg prover (formatText ctx) ctx

def schemaNotTagged : PyError :=
  .exception "Schema not tagged in Feature File Scenario. Use @SchemaName as a feature tag that points to a corresponding file."

def hasAnIssuedCredentialWithFormats (prover issuer credentialData : Text) (ctx : Context) :
    Harness Context := do
  let ctx ← py (setupSchemasForIssuance cfg credentialData ctx)
  let create := !decide (connected prover issuer ctx)
  let ctx := credFormatOf cfg ctx
  if ctx.schemaDict.entries = [] then throws (.raised schemaNotTagged)
  else
    let ctx ← ctx.schemaDict.entries.foldlM (fun ctx entry => do
      let ctx ← py (withSchema entry ctx)
      isReadyToIssueInFormat cfg issuer (formatText ctx) ctx) ctx
    let ctx ← withHolderAndIssuer cfg prover issuer ctx
    let ctx ← (if create = true ∧ ¬ cfg.Tagged "DIDComm-V2" then
        haveAnExistingConnection cfg issuer prover ctx
      else pure ctx)
    ctx.schemaDict.entries.foldlM (fun ctx entry => do
      let ctx ← py (withCredentialData entry ctx)
      issueInFormat cfg create prover issuer credentialData ctx) ctx

def sendsAPresentationProposal (prover verifier : Text) (ctx : Context) : Harness Context := do
  let connectionId ← py (ctx.connections.connectionId (some prover) (some verifier))
  let json ← commands (ctx.urlOf .prover) (proofEndpoint cfg) "send-proposal" .null
    (.obj [("presentation_proposal", .obj [
      ("comment", .str "This is a comment for the proposed presentation."),
      ("connection_id", connectionId)])])
  let thread ← py (json.item "thread_id")
  pure { ctx with presentationThreadId := thread }

/-- `value.get(member, default)` -/
def getOr (j : Json) (member : Str) (default : Json) : Except PyError Json :=
  match j with
  | .obj ms => .ok ((lookup member ms).getD default)
  | _ => .error .attributeError

/-- `values[values.index("replace_me")] = value` -/
def replaceFirst (value : Json) : List Json → List Json
  | [] => []
  | x :: xs => if x = FilterAmending.replaceMe then value :: xs else x :: replaceFirst value xs

/-- The proof type of linked data. A text that holds the placeholder cannot be changed. -/
def amendPresentationDefinition (proofType definition : Json) : Except PyError Json := do
  let pd ← getOr definition "presentation_definition" (.obj [])
  let format ← getOr pd "format" (.obj [])
  let ldpVp ← getOr format "ldp_vp" (.obj [])
  let proofTypes ← getOr ldpVp "proof_type" (.arr [])
  if ← proofTypes.contains "replace_me" then
    match proofTypes with
    | .arr types =>
      let ldpVp ← setItem ldpVp "proof_type" (.arr (replaceFirst proofType types))
      setItem definition "presentation_definition"
        (← setItem pd "format" (← setItem format "ldp_vp" ldpVp))
    | .str _ => throw .typeError
    | _ => throw .attributeError
  else pure definition

/-- The request of the context is changed in its place. -/
def prepareProofRequest (requestForProof : Text) (ctx : Context) :
    Except PyError (Json × Context) := do
  let amend := amendPresentationDefinition ctx.proofType
  let file := cfg.dataFile requestForProof
  let proofs : ProofRequests.Context :=
    ⟨ctx.requestForProof, ctx.currentCredFormat, ctx.nonRevokedTimeframe⟩
  let loaded ← ProofRequests.loadRequest proofs file
  let data ← ProofRequests.requestData amend loaded
  let message ← ProofRequests.prepareProofRequest amend proofs file
  let request := if loaded.requestForProof.truthy then data else loaded.requestForProof
  pure (message, { ctx with requestForProof := request })

/-- `message["presentation_request"]["connection_id"] = connection_id` -/
def withRequestConnection (message connectionId : Json) : Except PyError Json := do
  let request ← message.item "presentation_request"
  setItem message "presentation_request" (← setItem request "connection_id" connectionId)

/-- The id and the message: version 3 goes on the thread of a proposal, if there was one, and has
the connection beside the request. -/
def requestWithFormats (verifier prover : Text) (message : Json) (ctx : Context) :
    Except PyError (Json × Json) :=
  if UsesV3 cfg ∧ ctx.presentationThreadId.truthy then .ok (ctx.presentationThreadId, message)
  else do
    let connectionId ← ctx.connections.connectionId (some verifier) (some prover)
    let message ← (if UsesV3 cfg then setItem message "connection_id" connectionId
      else withRequestConnection message connectionId)
    pure (.null, message)

/-- A thread that there was before stays. -/
def sendsAPresentationWithFormats (verifier requestForProof prover : Text) (ctx : Context) :
    Harness Context := do
  let (message, ctx) ← py (prepareProofRequest cfg requestForProof ctx)
  let (id, message) ← py (requestWithFormats cfg verifier prover message ctx)
  let json ← commands (ctx.urlOf .verifier) (proofEndpoint cfg) "send-request" id message
  if ctx.presentationThreadId.truthy then pure ctx
  else
    let thread ← py (json.item "thread_id")
    pure { ctx with presentationThreadId := thread }

def createsAProofRequestWithFormats (requestForProof : Text) (ctx : Context) :
    Harness Context := do
  let (message, ctx) ← py (prepareProofRequest cfg requestForProof ctx)
  let json ← commands (ctx.urlOf .verifier) "proof-v2" "create-request" .null message
  let (thread, request) ← createdMessage json
  pure { ctx with presentationThreadId := thread, proofRequest := request }

/-- What a `for` goes over. -/
def iterated : Json → Except PyError (List Json)
  | .arr xs => .ok xs
  | .str s => .ok (s.map fun c => .str [c])
  | .obj ms => .ok (ms.map fun m => .str m.1)
  | _ => .error .typeError

/-- The latest credential for each type of a descriptor. -/
def recordIds (ctx : Context) (presentation : Json) : Except PyError Json := do
  match ← getOr presentation "record_ids" (.obj []) with
  | .obj descriptors => do
    let ids ← descriptors.mapM fun descriptor => do
      let names ← iterated descriptor.2
      let ids ← names.mapM (PresentationFilling.latestId ctx.credentialIds)
      pure (descriptor.1, .arr ids)
    setItem presentation "record_ids" (.obj ids)
  | _ => throw .attributeError

def unknownProofFormat (ctx : Context) : PyError :=
  .exception (String.ofList ("Unknown format ".toList ++ formatText ctx))

def filledWithFormats (ctx : Context) : Except PyError Json :=
  if ctx.currentCredFormat = some "indy".toList ∨
      ctx.currentCredFormat = some "anoncreds".toList then
    PresentationFilling.makesThePresentation cfg.truncated (cfg.clock ctx.uses) ctx.credentialIds
      ctx.presentation
  else if ctx.currentCredFormat = some "json-ld".toList then recordIds ctx ctx.presentation
  else .error (unknownProofFormat ctx)

/-- An empty presentation leaves the name of the file to be sent. -/
def presentationWithFormats (file : Text) (ctx : Context) : Except PyError (Json × Context) :=
  if ctx.presentation.truthy then do
    let filled ← filledWithFormats cfg ctx
    let presentation ← setItem filled "format" (CommandRequests.strOrNone ctx.currentCredFormat)
    pure (presentation, { ctx with presentation, uses := ctx.uses + 1 })
  else .ok (.str (ofText file), ctx)

def makesTheProofWithFormats (presentation : Text) (ctx : Context) : Harness Context := do
  let loaded ← py (ofFile cfg presentation "presentation")
  let ctx := { ctx with presentation := loaded }
  let (data, ctx) ← py (presentationWithFormats cfg presentation ctx)
  let _ ← posts (ctx.urlOf .prover) (proofEndpoint cfg) "send-presentation"
    ctx.presentationThreadId data
  pure ctx

/-- `strtobool(value)`; only letters of ASCII can become those of the words. -/
def strtobool : Json → Except PyError Bool
  | .str s =>
    let lower := s.map fun c => match c with
      | .ch c => .ch c.toLower
      | c => c
    if lower ∈ (["y", "yes", "t", "true", "on", "1"] : List Str) then .ok true
    else if lower ∈ (["n", "no", "f", "false", "off", "0"] : List Str) then .ok false
    else .error (.exception "invalid truth value")
  | _ => .error .attributeError

def acknowledgesTheProofWithFormats (ctx : Context) : Harness Context := do
  let json ← commands (ctx.urlOf .verifier) (proofEndpoint cfg) "verify-presentation"
    ctx.presentationThreadId .null
  let state ← py (json.item "state")
  asserts (state = .str "done")
  let verified ← py (json.item "verified")
  let verified ← py (strtobool verified)
  py (withVerification verified ctx)

def hasTheProofWithFormatsVerified (ctx : Context) : Harness Context := do
  expectedAgentState (ctx.urlOf .prover) (proofEndpoint cfg) ctx.presentationThreadId ["done"] 2
  let key ← py ctx.presentationThreadId.asKey
  asserts (ctx.credentialVerificationDict.get? key ≠ some false)
  pure ctx

/-! Revocation, 0011 and 0183. -/

/-- Without a format of the revocation it is that of indy. -/
def isAnoncredsRevocation (ctx : Context) : Bool :=
  decide (ctx.revCredFormat = some "anoncreds".toList)

def credentialRevocation (issuer : Text) (ctx : Context) : Except PyError Json := do
  let connectionId ← ctx.connections.connectionId (some issuer) (ctx.connections.nameOf .holder)
  pure (.obj [("cred_rev_id", ctx.credRevId), ("rev_registry_id", ctx.revRegId),
    ("publish_immediately", .bool true), ("anoncreds", .bool (isAnoncredsRevocation ctx)),
    ("notify_connection_id", connectionId)])

/-- The name of the schema of the revoked credential. -/
def revokedName (ctx : Context) : Except PyError Str :=
  if isAnoncredsRevocation ctx then do
    let schema ← ctx.schema.item "schema"
    let name ← schema.item "name"
    textOf name
  else ctx.schemaName

/-- A credential of the wallet that was revoked is deleted. -/
def deletesFromWallet (ctx : Context) : Harness Unit := do
  let name ← py ctx.schemaName
  let id ← py (ctx.latestCredentialId name)
  let json ← gets (ctx.urlOf .prover) .command "credential" (some "revoked") id
  let revoked ← py (json.item "revoked")
  if isTrue revoked then
    let (status, _) ← agentBackchannelDELETE (ctx.urlOf .prover) "credential" id
    asserts (status = 200)
  else pure ()

def revokesTheCredential (issuer : Text) (ctx : Context) : Harness Context := do
  let data ← py (credentialRevocation issuer ctx)
  let _ ← posts (cfg.userdata issuer) "revocation" "revoke" .null data
  let name ← py (revokedName ctx)
  let id ← py (ctx.latestCredentialId name)
  let (status, _) ← agentBackchannelGET (cfg.urlOf (ctx.connections.nameOf .holder)) .command
    "credential" none id false
  asserts (status = 200)
  if cfg.Tagged "delete_cred_from_wallet" then deletesFromWallet ctx else pure ()
  pure ctx

/-- The ids of the schema in the other order: the last becomes the first. -/
def makesThePresentationWithTheRevokedCredential (presentation : Text) (ctx : Context) :
    Harness Context := do
  let name ← py ctx.schemaName
  makesThe cfg presentation { ctx with
    credentialIdDict := ctx.credentialIdDict.set name (ctx.credentialIds name).reverse }

def sendsWithCredentialValidity (verifier requestForProof prover timeframe : Text)
    (ctx : Context) : Harness Context := do
  let interval ← py (RelativeTimes.createNonRevokeInterval (cfg.clock ctx.uses) (ofText timeframe))
  sendsAPresentationRequest cfg verifier requestForProof prover { ctx with
    nonRevokedTimeframe := interval
    uses := ctx.uses + 1 }

/-- A text as it is, and None by its name; other values are not shown. -/
def shown : Json → Except PyError Str
  | .str s => .ok s
  | .null => .ok "None"
  | _ => .error .typeError

/-- Both forms of the id are asked for, and the status of the answer is not looked at. -/
def receivesTheRevocationNotification (holder : Text) (ctx : Context) : Harness Context := do
  let notified := fun id : Json => (do
    let (_, text) ← agentBackchannelGET (cfg.userdata holder) .response "revocation-notification"
      none id false
    let json ← py (loads text)
    py (json.contains "thread_id") : Harness Bool)
  if ← notified ctx.credThreadId then pure ctx
  else
    let registry ← py (shown ctx.revRegId)
    let revocation ← py (shown ctx.credRevId)
    if ← notified (.str (("indy::" : Str) ++ registry ++ ("::" : Str) ++ revocation)) then pure ctx
    else throws (.raised (.exception "Could not find revocation notification event"))

/-! Messages in invitations, 0434. -/

def sendsAConnectionlessInvitation (sender receiver messageType : Text) (ctx : Context) :
    Harness Context := do
  let attachment ← py (if messageType = "credential-offer".toList then .ok ctx.credentialOffer
    else if messageType = "proof-request".toList then .ok ctx.proofRequest
    else .error (.exception (String.ofList ("Unsupported message type ".toList ++ messageType))))
  let json ← commands (cfg.userdata sender) "out-of-band" "send-invitation-message" .null
    (.obj [("attachments", .arr [attachment])])
  let state ← py (json.item "state")
  asserts (state = .str "invitation-sent")
  let invitation ← py (json.item "invitation")
  let connections := { ctx.connections with responderInvitation := invitation }
  pure { ctx with connections := ConnectionSteps.withPair cfg.toConfig sender receiver connections }

end Steps

/-! Scenarios. -/

/-- A step of a feature file, under its words. -/
inductive Step
  | connecting (step : ConnectionSteps.Step)
  | hasAPublicDid (issuer : Text)
  | isReadyToIssueACredential (issuer : Text)
  | createsANewSchema (issuer : Text)
  | createsANewCredentialDefinition (issuer : Text)
  | hasAnExistingSchema (issuer : Text)
  | hasAnExistingCredentialDefinition (issuer : Text)
  | hasAnExistingSchemaAndCredentialDefinition (issuer : Text)
  | initiatesAnAutomatedCredentialIssuance (issuer : Text)
  | proposesACredential (holder issuer : Text)
  | offersACredential (issuer : Text)
  | createsACredentialOffer (issuer : Text)
  | requestsTheCredential (holder : Text)
  | issuesTheCredential (issuer : Text)
  | acknowledgesTheCredentialIssue (holder : Text)
  | hasTheCredentialIssued (holder : Text)
  | isReadyToIssueInFormat (issuer credFormat : Text)
  | proposesInFormat (holder credFormat issuer credentialData : Text)
  | offersInFormat (issuer credFormat : Text)
  | createsAnOfferInFormat (issuer credFormat credentialData : Text)
  | requestsInFormat
  | issuesInFormat (issuer : Text)
  | acknowledgesInFormat (holder credFormat : Text)
  | hasIssuedInFormat (holder credFormat : Text)
  | negotiatesTheOfferWithAnotherProposal
  | isReadyUsingWaci (issuer : Text)
  | usesWaciToPropose (holder issuer : Text)
  | validatesTheProposal (issuer : Text)
  | sendsACredentialManifest (issuer : Text)
  | sendsACredentialApplication (holder : Text)
  | validatesTheCredentialApplication (issuer : Text)
  | sendsACredentialFulfillment (issuer : Text)
  | acceptsTheCredentialFulfillment (holder : Text)
  | hasAnIssuedCredential (prover issuer : Text)
  | hasAnIssuedCredentialWith (prover issuer credentialData : Text)
  | sendsARequestForProof (verifier prover : Text)
  | createsAProofRequest
  | sendsAPresentationRequest (verifier requestForProof prover : Text)
  | makesThePresentation
  | makesThe (presentation : Text)
  | acknowledgesTheProof
  | hasTheProofVerified
  | hasTheProofUnverified
  | makesAPresentationProposal (prover : Text)
  | makesAProposal (prover proposal : Text)
  | agreesToContinue
  | makesTheProofIncorrectly (presentation : Text)
  | hasAnIssuedCredentialWithFormats (prover issuer credentialData : Text)
  | sendsAPresentationProposal (prover verifier : Text)
  | sendsAPresentationWithFormats (verifier requestForProof prover : Text)
  | createsAProofRequestWithFormats (requestForProof : Text)
  | makesTheProofWithFormats (presentation : Text)
  | acknowledgesTheProofWithFormats
  | hasTheProofWithFormatsVerified
  | revokesTheCredential (issuer : Text)
  | makesThePresentationWithTheRevokedCredential (presentation : Text)
  | sendsWithCredentialValidity (verifier requestForProof prover timeframe : Text)
  | receivesTheRevocationNotification (holder : Text)
  | sendsAConnectionlessInvitation (sender receiver messageType : Text)

def Step.perform (cfg : Config) (ctx : Context) : Step → Harness Context
  | .connecting step =>
    connects (fun c => ConnectionSteps.Step.perform cfg.toConfig c step) ctx
  | .hasAPublicDid a => IssuanceSteps.hasAPublicDid cfg a ctx
  | .isReadyToIssueACredential a => IssuanceSteps.isReadyToIssueACredential cfg a ctx
  | .createsANewSchema a => IssuanceSteps.createsANewSchema cfg a ctx
  | .createsANewCredentialDefinition a => IssuanceSteps.createsANewCredentialDefinition cfg a ctx
  | .hasAnExistingSchema a => IssuanceSteps.hasAnExistingSchema cfg a ctx
  | .hasAnExistingCredentialDefinition a =>
    IssuanceSteps.hasAnExistingCredentialDefinition cfg a ctx
  | .hasAnExistingSchemaAndCredentialDefinition a =>
    IssuanceSteps.hasAnExistingSchemaAndCredentialDefinition cfg a ctx
  | .initiatesAnAutomatedCredentialIssuance a =>
    IssuanceSteps.initiatesAnAutomatedCredentialIssuance a ctx
  | .proposesACredential a b => IssuanceSteps.proposesACredential cfg a b ctx
  | .offersACredential a => IssuanceSteps.offersACredential cfg a ctx
  | .createsACredentialOffer a => IssuanceSteps.createsACredentialOffer cfg a ctx
  | .requestsTheCredential a => IssuanceSteps.requestsTheCredential a ctx
  | .issuesTheCredential a => IssuanceSteps.issuesTheCredential cfg a ctx
  | .acknowledgesTheCredentialIssue a => IssuanceSteps.acknowledgesTheCredentialIssue cfg a ctx
  | .hasTheCredentialIssued a => IssuanceSteps.hasTheCredentialIssued cfg a ctx
  | .isReadyToIssueInFormat a f => IssuanceSteps.isReadyToIssueInFormat cfg a f ctx
  | .proposesInFormat a f b d => IssuanceSteps.proposesInFormat cfg a f b d ctx
  | .offersInFormat a f => IssuanceSteps.offersInFormat cfg a f ctx
  | .createsAnOfferInFormat a f d => IssuanceSteps.createsAnOfferInFormat cfg a f d ctx
  | .requestsInFormat => IssuanceSteps.requestsInFormat ctx
  | .issuesInFormat a => IssuanceSteps.issuesInFormat cfg a ctx
  | .acknowledgesInFormat a f => IssuanceSteps.acknowledgesInFormat cfg a f ctx
  | .hasIssuedInFormat a f => IssuanceSteps.hasIssuedInFormat cfg a f ctx
  | .negotiatesTheOfferWithAnotherProposal =>
    IssuanceSteps.negotiatesTheOfferWithAnotherProposal ctx
  | .isReadyUsingWaci a => IssuanceSteps.isReadyUsingWaci cfg a ctx
  | .usesWaciToPropose a b => IssuanceSteps.usesWaciToPropose cfg a b ctx
  | .validatesTheProposal a => IssuanceSteps.validatesTheProposal cfg a ctx
  | .sendsACredentialManifest a => IssuanceSteps.sendsACredentialManifest cfg a ctx
  | .sendsACredentialApplication a => IssuanceSteps.sendsACredentialApplication cfg a ctx
  | .validatesTheCredentialApplication a =>
    IssuanceSteps.validatesTheCredentialApplication cfg a ctx
  | .sendsACredentialFulfillment a => IssuanceSteps.sendsACredentialFulfillment cfg a ctx
  | .acceptsTheCredentialFulfillment a => IssuanceSteps.acceptsTheCredentialFulfillment cfg a ctx
  | .hasAnIssuedCredential a b => ProofSteps.hasAnIssuedCredential cfg a b ctx
  | .hasAnIssuedCredentialWith a b d => ProofSteps.hasAnIssuedCredentialWith cfg a b d ctx
  | .sendsARequestForProof a b => ProofSteps.sendsARequestForProof a b ctx
  | .createsAProofRequest => ProofSteps.createsAProofRequest ctx
  | .sendsAPresentationRequest a f b => ProofSteps.sendsAPresentationRequest cfg a f b ctx
  | .makesThePresentation => ProofSteps.makesThePresentation cfg ctx
  | .makesThe f => ProofSteps.makesThe cfg f ctx
  | .acknowledgesTheProof => ProofSteps.acknowledgesTheProof ctx
  | .hasTheProofVerified => ProofSteps.hasTheProofVerified ctx
  | .hasTheProofUnverified => ProofSteps.hasTheProofUnverified ctx
  | .makesAPresentationProposal a => ProofSteps.makesAPresentationProposal a ctx
  | .makesAProposal a f => ProofSteps.makesAProposal cfg a f ctx
  | .agreesToContinue => ProofSteps.agreesToContinue ctx
  | .makesTheProofIncorrectly f => ProofSteps.makesTheProofIncorrectly cfg f ctx
  | .hasAnIssuedCredentialWithFormats a b d =>
    ProofSteps.hasAnIssuedCredentialWithFormats cfg a b d ctx
  | .sendsAPresentationProposal a b => ProofSteps.sendsAPresentationProposal cfg a b ctx
  | .sendsAPresentationWithFormats a f b => ProofSteps.sendsAPresentationWithFormats cfg a f b ctx
  | .createsAProofRequestWithFormats f => ProofSteps.createsAProofRequestWithFormats cfg f ctx
  | .makesTheProofWithFormats f => ProofSteps.makesTheProofWithFormats cfg f ctx
  | .acknowledgesTheProofWithFormats => ProofSteps.acknowledgesTheProofWithFormats cfg ctx
  | .hasTheProofWithFormatsVerified => ProofSteps.hasTheProofWithFormatsVerified cfg ctx
  | .revokesTheCredential a => ProofSteps.revokesTheCredential cfg a ctx
  | .makesThePresentationWithTheRevokedCredential f =>
    ProofSteps.makesThePresentationWithTheRevokedCredential cfg f ctx
  | .sendsWithCredentialValidity a f b t => ProofSteps.sendsWithCredentialValidity cfg a f b t ctx
  | .receivesTheRevocationNotification a => ProofSteps.receivesTheRevocationNotification cfg a ctx
  | .sendsAConnectionlessInvitation a b m => ProofSteps.sendsAConnectionlessInvitation cfg a b m ctx

/-- A scenario starts with the hook and ends with the first step that fails. -/
def scenario (cfg : Config) (steps : List Step) : Harness Context := do
  let ctx ← py (beforeScenario cfg)
  steps.foldlM (Step.perform cfg) ctx

end AgentTestHarness.ProofSteps
