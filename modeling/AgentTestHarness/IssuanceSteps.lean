import AgentTestHarness.ConnectionSteps
import AgentTestHarness.CredentialIds
import AgentTestHarness.FilterAmending
import AgentTestHarness.JsonOrder
import AgentTestHarness.LegacyIds
import AgentTestHarness.PresentationFilling

/-! The steps of the harness that issue credentials: protocols 0036 and 0453, and version 3 with
WACI. Ids of threads, schemas, credential definitions and credentials come from the answers of the
backchannels. -/
namespace AgentTestHarness.IssuanceSteps
open PyText OrderedDict PyJson JsonReading ServiceCalls
open ConnectionSteps (Harness py asserts posts postsWith getsWith agentBackchannelGET
  expectedAgentState)
open LegacyIds (normalisedSchemaId normalisedCredDefId)
open Program (throws)
open ProofRequests (setItem)

/-! The context of a scenario. -/

/-- The files with data, by the tag of a schema or by their names, and what is random or read from
the clock, in the order of its uses. -/
structure Config extends ConnectionSteps.Config where
  schemaFile : Text → Option Json
  credDataFile : Text → Option Json
  dataFile : Text → Option Json
  randomTag : ℕ → Str
  clock : ℕ → RelativeTimes.Clock
  created : ℕ → Str
  truncated : Text → Except PyError ℤ

def Config.Tagged (cfg : Config) (tag : String) : Prop := tag.toList ∈ cfg.tags

instance (cfg : Config) (tag : String) : Decidable (cfg.Tagged tag) :=
  inferInstanceAs (Decidable (_ ∈ _))

def Config.anoncreds (cfg : Config) : Bool := decide (cfg.Tagged "Anoncreds")

/-- Whether credentials have filters for their formats. -/
def Config.WithFilters (cfg : Config) : Prop :=
  cfg.Tagged "AIP20" ∨ cfg.Tagged "DIDComm-V2"

instance (cfg : Config) : Decidable cfg.WithFilters := inferInstanceAs (Decidable (_ ∨ _))

/-- Schemas are named by texts. -/
structure Context where
  connections : ConnectionSteps.Context
  schema : Json
  schemaDict : Dict Text Json
  supportRevocation : Json
  supportRevocationDict : Dict Text Json
  proofType : Json
  didMethod : Json
  credentialData : Json
  credentialDataDict : Dict Text Json
  filters : Json
  currentCredFormat : Option Text
  issuerDid : Json
  issuerDidDict : Dict Str Json
  issuerSchemaIdDict : Dict Str Json
  credentialDefinitionIdDict : Dict Str Json
  issuerSchemaDict : Dict Str Json
  issuerCredentialDefinitionDict : Dict Str Json
  credentialIdDict : Dict Str (List Json)
  credThreadId : Json
  credRevId : Json
  revRegId : Json
  revCredFormat : Option Text
  manifestId : Option Json
  nonRevokedTimeframe : Json
  requestForProof : Json
  proofRequest : Json
  credentialOffer : Json
  presentation : Json
  presentationThreadId : Json
  presentationProposal : Json
  credentialVerificationDict : Dict Json Bool
  uses : ℕ

/-- `setup_scenario_context` -/
def Context.fresh : Context where
  connections := ConnectionSteps.Context.fresh
  schema := .null
  schemaDict := Dict.empty
  supportRevocation := .bool false
  supportRevocationDict := Dict.empty
  proofType := .null
  didMethod := .null
  credentialData := .null
  credentialDataDict := Dict.empty
  filters := .null
  currentCredFormat := none
  issuerDid := .null
  issuerDidDict := Dict.empty
  issuerSchemaIdDict := Dict.empty
  credentialDefinitionIdDict := Dict.empty
  issuerSchemaDict := Dict.empty
  issuerCredentialDefinitionDict := Dict.empty
  credentialIdDict := Dict.empty
  credThreadId := .null
  credRevId := .null
  revRegId := .null
  revCredFormat := none
  manifestId := none
  nonRevokedTimeframe := .null
  requestForProof := .null
  proofRequest := .null
  credentialOffer := .null
  presentation := .null
  presentationThreadId := .null
  presentationProposal := .null
  credentialVerificationDict := Dict.empty
  uses := 0

/-- `d[key]` -/
def itemAt {κ ν : Type} [DecidableEq κ] (d : Dict κ ν) (key : κ) : Except PyError ν :=
  match d.get? key with
  | some v => .ok v
  | none => .error .keyError

/-- An attribute that was never set. -/
def attributeOf {α : Type} : Option α → Except PyError α
  | some a => .ok a
  | none => .error .attributeError

def textOf : Json → Except PyError Str
  | .str s => .ok s
  | _ => .error .typeError

namespace Context

variable (ctx : Context)

def urlOf (role : ConnectionSteps.Role) : Option Text := (ctx.connections.roles role).url

def withRole (role : ConnectionSteps.Role) (name : Text) (url : Option Text) : Context :=
  { ctx with connections := ctx.connections.withRole role name url }

/-- `context.schema["schema_name"]` -/
def schemaName : Except PyError Str := ctx.schema.item "schema_name" >>= textOf

/-- What the utilities read. -/
def amending (cfg : Config) : FilterAmending.Context where
  anoncreds := .bool cfg.anoncreds
  schema := ctx.schema
  issuerDidDict := ctx.issuerDidDict.entries
  issuerCredentialDefinitionDict := ctx.issuerCredentialDefinitionDict.entries
  issuerSchemaDict := ctx.issuerSchemaDict.entries
  proofType := ctx.proofType

/-- `get_schema_name` -/
def getSchemaName (cfg : Config) : Except PyError Str :=
  FilterAmending.getSchemaName (ctx.amending cfg) >>= textOf

/-- `context.credential_id_dict[name]`, empty by default. -/
def credentialIds (name : Str) : List Json := (ctx.credentialIdDict.get? name).getD []

/-- `context.credential_id_dict[name][-1]` -/
def latestCredentialId (name : Str) : Except PyError Json :=
  PresentationFilling.latestId ctx.credentialIds (.str name)

def withCredentialId (name : Str) (id : Json) : Context :=
  { ctx with credentialIdDict := ctx.credentialIdDict.set name (ctx.credentialIds name ++ [id]) }

end Context

/-- `a == b` of JSON values; the order of members does not matter. -/
def Same (a b : Json) : Prop := JsonOrder.normal true a = JsonOrder.normal true b

instance (a b : Json) : Decidable (Same a b) := inferInstanceAs (Decidable (_ = _))

/-- A command that must succeed, with what its answer holds. -/
def commands (url : Option Text) (topic operation : String) (id data : Json) : Harness Json := do
  let text ← posts url topic operation id data
  py (loads text)

/-- `open` and `json.load` where a missing file is reported by adding a text to an exception. -/
def opened : Option Json → Except PyError Json
  | some json => .ok json
  | none => .error .typeError

section Steps

variable (cfg : Config)

/-! What the tags of a scenario load. -/

/-- The part of a tag behind a word, up to where the word comes again. -/
def upTo (word : Text) : Text → Text
  | [] => []
  | c :: rest => if word <+: c :: rest then [] else c :: upTo word rest

def behind (word : Text) : Text → Option Text
  | [] => none
  | c :: rest =>
    if word <+: c :: rest then some (upTo word ((c :: rest).drop word.length))
    else behind word rest

/-- The features whose scenarios load schemas. -/
def loadsSchemas (featureName : Text) : Prop :=
  ∃ word ∈ ["present proof", "revocation", "Issue Credential", "WACI", "RFC 0434"],
    word.toList <:+: featureName

instance (featureName : Text) : Decidable (loadsSchemas featureName) :=
  inferInstanceAs (Decidable (∃ word ∈ _, _))

/-- The features whose scenarios have one schema. -/
def hasOneSchema (featureName : Text) : Prop :=
  ∃ word ∈ ["Issue Credential", "WACI", "RFC 0434"], word.toList <:+: featureName

instance (featureName : Text) : Decidable (hasOneSchema featureName) :=
  inferInstanceAs (Decidable (∃ word ∈ _, _))

/-- A file that is not there is only printed. -/
def loadSchema (tag : Text) (ctx : Context) : Except PyError Context :=
  match cfg.schemaFile tag with
  | none => .ok ctx
  | some json => do
    let schema ← json.item "schema"
    let supportRevocation ← json.item "cred_def_support_revocation"
    let ctx := { ctx with
      schemaDict := ctx.schemaDict.set tag schema
      supportRevocationDict := ctx.supportRevocationDict.set tag supportRevocation }
    pure (if hasOneSchema cfg.featureName then { ctx with schema, supportRevocation } else ctx)

def readTag (ctx : Context) (tag : Text) : Except PyError Context :=
  let ctx := match behind "ProofType_".toList tag with
    | some proofType => { ctx with proofType := .str (ofText proofType) }
    | none => ctx
  let ctx := match behind "DidMethod_".toList tag with
    | some didMethod => { ctx with didMethod := .str (ofText didMethod) }
    | none => ctx
  if "Schema_".toList <:+: tag then
    loadSchema cfg (if cfg.anoncreds then
        PyText.replace "Schema_".toList "Anoncreds_Schema_".toList tag
      else tag) ctx
  else .ok ctx

/-- The hook, without what it only prints. -/
def beforeScenario : Except PyError Context :=
  if loadsSchemas cfg.featureName then cfg.tags.foldlM (readTag cfg) Context.fresh
  else .ok Context.fresh

/-! Protocol 0036. -/

def attributeNames : Json := .arr [.str "attr_1", .str "attr_2", .str "attr_3"]

def schemaTemplate : List (Str × Json) :=
  [("schema_name", .str "test_schema."), ("schema_version", .str "1.0.0"),
    ("attributes", attributeNames)]

def schemaTemplateAnoncreds : List (Str × Json) :=
  [("schema", .obj [("name", .str "test_schema."), ("version", .str "1.0.0"),
    ("attrNames", attributeNames)]), ("options", .obj [])]

def credentialAttrTemplate : Json :=
  .arr [.obj [("name", .str "attr_1"), ("value", .str "value_1")],
    .obj [("name", .str "attr_2"), ("value", .str "value_2")],
    .obj [("name", .str "attr_3"), ("value", .str "value_3")]]

def templateName (issuer : Text) : Json := .str (("test_schema." : Str) ++ ofText issuer)

/-- Without a schema a template is taken, under the name of the issuer. -/
def withTemplate (issuer : Text) (ctx : Context) : Context :=
  if ctx.schema.truthy then ctx
  else { ctx with schema := .obj (assign "schema_name" (templateName issuer)
    (if cfg.anoncreds then schemaTemplateAnoncreds else schemaTemplate)) }

def hasAPublicDid (issuer : Text) (ctx : Context) : Harness Context := do
  let json ← getsWith (cfg.userdata issuer) .command "did" none .null false
  let ctx := withTemplate cfg issuer ctx
  let did ← py (json.item "did")
  let name ← py (ctx.getSchemaName cfg)
  pure { ctx with issuerDid := did, issuerDidDict := ctx.issuerDidDict.set name did }

/-- The schema with the DID of its issuer; that of the context gets it too. -/
def schemaToCreate (issuer : Text) (ctx : Context) : Except PyError (Json × Context) :=
  if ctx.schema.truthy then do
    let schema ← (if cfg.anoncreds then do
        let inner ← ctx.schema.item "schema"
        let name ← ctx.getSchemaName cfg
        let did ← itemAt ctx.issuerDidDict name
        setItem ctx.schema "schema" (← setItem inner "issuerId" did)
      else pure ctx.schema)
    let name ← ctx.getSchemaName cfg
    let did ← itemAt ctx.issuerDidDict name
    let schema ← setItem schema "issuer_id" did
    pure (schema, { ctx with schema })
  else pure (.obj (assign "issuer_id" ctx.issuerDid
    (assign "schema_name" (templateName issuer) schemaTemplate)), ctx)

/-- An id that has "indy" in it becomes a legacy id. -/
def recorded (normalised : Str → Except PyError Str) (id : Json) : Except PyError Json :=
  match id with
  | .str s => return .str (← normalised s)
  | j => do if ← j.contains "indy" then throw .attributeError else return j

def createsANewSchema (issuer : Text) (ctx : Context) : Harness Context := do
  let (schema, ctx) ← py (schemaToCreate cfg issuer ctx)
  let text ← postsWith (cfg.userdata issuer) "schema" none .null schema cfg.anoncreds
  let json ← py (loads text)
  let id ← py (json.item "schema_id")
  let id ← py (recorded normalisedSchemaId id)
  let name ← py (ctx.getSchemaName cfg)
  pure { ctx with issuerSchemaIdDict := ctx.issuerSchemaIdDict.set name id }

def credDefToCreate (ctx : Context) : Except PyError Json := do
  let name ← ctx.getSchemaName cfg
  let schemaId ← itemAt ctx.issuerSchemaIdDict name
  let did ← itemAt ctx.issuerDidDict name
  let tag := Json.str (cfg.randomTag ctx.uses)
  if cfg.anoncreds then
    pure (.obj [("credential_definition", .obj [("schemaId", schemaId), ("tag", tag),
      ("issuerId", did)]), ("options", .obj (if ctx.supportRevocation.truthy then
        [("support_revocation", ctx.supportRevocation)] else []))])
  else
    pure (.obj [("support_revocation", if ctx.supportRevocation.truthy then ctx.supportRevocation
      else .bool false), ("schema_id", schemaId), ("tag", tag), ("issuer_id", did)])

def createsANewCredentialDefinition (issuer : Text) (ctx : Context) : Harness Context := do
  let credDef ← py (credDefToCreate cfg ctx)
  let ctx := { ctx with uses := ctx.uses + 1 }
  let text ← postsWith (cfg.userdata issuer) "credential-definition" none .null credDef
    cfg.anoncreds
  let json ← py (loads text)
  let id ← py (json.item "credential_definition_id")
  let id ← py (recorded normalisedCredDefId id)
  let name ← py (ctx.getSchemaName cfg)
  pure { ctx with credentialDefinitionIdDict := ctx.credentialDefinitionIdDict.set name id }

def hasAnExistingSchema (issuer : Text) (ctx : Context) : Harness Context := do
  let name ← py (ctx.getSchemaName cfg)
  let id ← py (itemAt ctx.issuerSchemaIdDict name)
  let json ← getsWith (cfg.userdata issuer) .command "schema" none id cfg.anoncreds
  pure { ctx with issuerSchemaDict := ctx.issuerSchemaDict.set name json }

def hasAnExistingCredentialDefinition (issuer : Text) (ctx : Context) : Harness Context := do
  let name ← py (ctx.getSchemaName cfg)
  let id ← py (itemAt ctx.credentialDefinitionIdDict name)
  let json ← getsWith (cfg.userdata issuer) .command "credential-definition" none id cfg.anoncreds
  pure { ctx with
    issuerCredentialDefinitionDict := ctx.issuerCredentialDefinitionDict.set name json }

def isReadyToIssueACredential (issuer : Text) (ctx : Context) : Harness Context := do
  let ctx ← createsANewSchema cfg issuer ctx
  let ctx ← createsANewCredentialDefinition cfg issuer ctx
  let ctx ← hasAnExistingSchema cfg issuer ctx
  hasAnExistingCredentialDefinition cfg issuer ctx

def hasAnExistingSchemaAndCredentialDefinition (issuer : Text) (ctx : Context) :
    Harness Context := do
  let ctx ← hasAPublicDid cfg issuer ctx
  isReadyToIssueACredential cfg issuer ctx

/-- No step sets the schema and the credential definition that this one reads. -/
def initiatesAnAutomatedCredentialIssuance (issuer : Text) (ctx : Context) : Harness Context := do
  let _ ← py (ctx.connections.connectionId (some issuer) (ctx.connections.nameOf .holder))
  throws (.raised .attributeError)

/-- The data of the scenario, or those of a template. -/
def credData (ctx : Context) : Json :=
  if ctx.credentialData.truthy then ctx.credentialData else credentialAttrTemplate

def credentialPreview (ctx : Context) : Json :=
  .obj [("@type",
      .str "did:sov:BzCbsNYhMrjHiqZDTUASHg;spec/issue-credential/1.0/credential-preview"),
    ("attributes", credData ctx)]

def credentialProposal (holder issuer : Text) (ctx : Context) : Except PyError Json := do
  let name ← ctx.getSchemaName cfg
  let did ← itemAt ctx.issuerDidDict name
  let schema ← itemAt ctx.issuerSchemaDict name
  let credDef ← itemAt ctx.issuerCredentialDefinitionDict name
  let schemaName ← schema.item "name"
  let credDefId ← credDef.item "id"
  let schemaVersion ← schema.item "version"
  let connectionId ← ctx.connections.connectionId (some holder) (some issuer)
  let schemaId ← schema.item "id"
  pure (.obj [("schema_issuer_did", did), ("issuer_did", did), ("schema_name", schemaName),
    ("cred_def_id", credDefId), ("schema_version", schemaVersion),
    ("credential_proposal", credentialPreview ctx), ("connection_id", connectionId),
    ("schema_id", schemaId)])

def proposesACredential (holder issuer : Text) (ctx : Context) : Harness Context := do
  let data ← py (credentialProposal cfg holder issuer ctx)
  let json ← commands (cfg.userdata holder) "issue-credential" "send-proposal" .null data
  let state ← py (json.item "state")
  asserts (state = .str "proposal-sent")
  let thread ← py (json.item "thread_id")
  pure { ctx with credThreadId := thread }

/-- The id and the data of an offer: on the thread of a proposal, or the start of one. -/
def offerToSend (issuer : Text) (ctx : Context) : Except PyError (Json × Json) :=
  if ctx.credThreadId.truthy then .ok (ctx.credThreadId, .null)
  else do
    let name ← ctx.schemaName
    let credDef ← itemAt ctx.issuerCredentialDefinitionDict name
    let credDefId ← credDef.item "id"
    let connectionId ← ctx.connections.connectionId (some issuer) (ctx.connections.nameOf .holder)
    pure (.null, .obj [("cred_def_id", credDefId), ("credential_preview", credentialPreview ctx),
      ("connection_id", connectionId)])

def offersACredential (issuer : Text) (ctx : Context) : Harness Context := do
  let (id, data) ← py (offerToSend issuer ctx)
  let json ← commands (cfg.userdata issuer) "issue-credential" "send-offer" id data
  let given ← py (json.contains "thread_id")
  let thread ← py (if given then json.item "thread_id" else .ok ctx.credThreadId)
  expectedAgentState (ctx.urlOf .holder) "issue-credential" thread ["offer-received"] 2
  pure { ctx with credThreadId := thread }

/-- The thread and the message of an offer or a request that is sent by other means. -/
def createdMessage (json : Json) : Harness (Json × Json) := do
  let given ← py (json.contains "record")
  asserts (given = true)
  let record ← py (json.item "record")
  let thread ← py (record.item "thread_id")
  let message ← py (json.item "message")
  pure (thread, message)

def createsACredentialOffer (issuer : Text) (ctx : Context) : Harness Context := do
  let name ← py (ctx.getSchemaName cfg)
  let credDef ← py (itemAt ctx.issuerCredentialDefinitionDict name)
  let credDefId ← py (credDef.item "id")
  let json ← commands (cfg.userdata issuer) "issue-credential" "create-offer" .null
    (.obj [("cred_def_id", credDefId), ("credential_preview", credentialPreview ctx)])
  let (thread, message) ← createdMessage json
  pure { ctx with credThreadId := thread, credentialOffer := message }

/-- A request that starts the protocol goes on the connection. The thread of its answer is not
kept: the context always has a thread, be it None. -/
def requestsTheCredential (holder : Text) (ctx : Context) : Harness Context := do
  let id ← py (if ctx.credThreadId.truthy then .ok ctx.credThreadId
    else ctx.connections.connectionId (some holder) (ctx.connections.nameOf .issuer))
  let _ ← commands (ctx.urlOf .holder) "issue-credential" "send-request" id .null
  pure ctx

def issuesTheCredential (issuer : Text) (ctx : Context) : Harness Context := do
  let _ ← commands (cfg.userdata issuer) "issue-credential" "issue" ctx.credThreadId
    (.obj [("credential_preview", credentialPreview ctx), ("comment", .str "issuing credential")])
  pure ctx

/-- The answer of the backchannel to the webhook of a revocation registry. -/
def revocationRegistry (agent : Option Text) (ctx : Context) : Harness Json :=
  getsWith (cfg.urlOf agent) .response "revocation-registry" none ctx.credThreadId false

def withRevocation (json : Json) (ctx : Context) : Except PyError Context := do
  let revocationId ← json.item "revocation_id"
  let revocRegId ← json.item "revoc_reg_id"
  pure { ctx with credRevId := revocationId, revRegId := revocRegId }

def acknowledgesTheCredentialIssue (holder : Text) (ctx : Context) : Harness Context := do
  let json ← commands (cfg.userdata holder) "issue-credential" "store" ctx.credThreadId
    (.obj [("credential_id", ctx.credThreadId)])
  let state ← py (json.item "state")
  asserts (state = .str "done")
  let name ← py ctx.schemaName
  let id ← py (json.item "credential_id")
  let ctx := ctx.withCredentialId name id
  if ctx.supportRevocation.truthy then
    let json ← revocationRegistry cfg (ctx.connections.nameOf .issuer) ctx
    py (withRevocation json ctx)
  else pure ctx

/-- An id of the wallet's credential, if it has one, is the one that was recorded. -/
def checksId (member : Str) (normalised : Str → Except PyError Str) (ids : Dict Str Json)
    (name : Str) (json : Json) : Harness Unit := do
  let given ← py (json.contains member)
  if given then
    let id ← py (json.item member)
    let id ← py (recorded normalised id)
    let expected ← py (itemAt ids name)
    asserts (Same id expected)
  else pure ()

def hasTheCredentialIssued (holder : Text) (ctx : Context) : Harness Context := do
  let name ← py ctx.schemaName
  let id ← py (ctx.latestCredentialId name)
  let json ← getsWith (cfg.userdata holder) .command "credential" none id false
  let given ← py (json.contains "state")
  let state ← py (if given then json.item "state" else .ok .null)
  if state = .str "N/A" then pure ctx
  else
    let referent ← py (json.item "referent")
    asserts (Same referent id)
    checksId "schema_id" normalisedSchemaId ctx.issuerSchemaIdDict name json
    checksId "cred_def_id" normalisedCredDefId ctx.credentialDefinitionIdDict name json
    pure ctx

/-! Protocol 0453. -/

/-- The attributes and the filters of every schema; those of the last one stay. -/
def setupSchema (credentialData : Text) (ctx : Context) (entry : Text × Json) :
    Except PyError Context := do
  let json ← opened (cfg.credDataFile entry.1)
  let data ← json.item (ofText credentialData)
  let attributes ← data.item "attributes"
  let ctx := { ctx with
    credentialDataDict := ctx.credentialDataDict.set entry.1 attributes
    credentialData := attributes
    schema := entry.2 }
  if cfg.WithFilters then
    let filters ← data.item "filters"
    pure { ctx with filters }
  else pure ctx

def setupSchemasForIssuance (credentialData : Text) (ctx : Context) : Except PyError Context :=
  ctx.schemaDict.entries.foldlM (setupSchema cfg credentialData) ctx

def jsonLdOptions (ctx : Context) : Json :=
  .obj [("did_method", ctx.didMethod), ("proof_type", ctx.proofType)]

/-- `create_did_for_id` -/
def preparesJsonLd (agent : Text) (ctx : Context) : Harness Json := do
  let json ← commands (cfg.userdata agent) "issue-credential-v2" "prepare-json-ld" .null
    (jsonLdOptions ctx)
  py (json.item "did")

def unknownFormat (credFormat : Text) : PyError :=
  .exception (String.ofList ("Unknown credential format ".toList ++ credFormat))

def isReadyToIssueInFormat (issuer credFormat : Text) (ctx : Context) : Harness Context :=
  if credFormat = "indy".toList ∨ credFormat = "anoncreds".toList then
    (do
      let ctx ← hasAPublicDid cfg issuer ctx
      isReadyToIssueACredential cfg issuer ctx)
  else if credFormat = "json-ld".toList then do
    let did ← preparesJsonLd cfg issuer ctx
    let name ← py (ctx.getSchemaName cfg)
    pure { ctx with issuerDidDict := ctx.issuerDidDict.set name did }
  else throws (.raised (unknownFormat credFormat))

/-- `format_cred_proposal_by_aip_version` of the filters for a format, which are amended in the
context too. -/
def formatCredProposal (credFormat : Text) (connectionId didForId : Json) (ctx : Context) :
    Except PyError (Json × Context) := do
  let filter ← ctx.filters.item (ofText credFormat)
  let amended ← FilterAmending.amendFiltersWithRuntimeData (ctx.amending cfg) didForId
    (cfg.created ctx.uses) (.obj [(ofText credFormat, filter)])
  let filters ← setItem ctx.filters (ofText credFormat) (← amended.item (ofText credFormat))
  let members : List (Str × Json) := [("credential_preview", .obj [
      ("@type", .str "https://didcomm.org/issue-credential/2.0/credential-preview"),
      ("attributes", ctx.credentialData)]), ("filter", amended)]
  let connection : List (Str × Json) :=
    if connectionId.truthy then [("connection_id", connectionId)] else []
  pure (.obj (members ++ connection), { ctx with filters, uses := ctx.uses + 1 })

/-- Only the filter for the format is sent, which must be there. -/
def hasFilter (credFormat : Text) (ctx : Context) : Harness Unit := do
  let given ← py (ctx.filters.contains (ofText credFormat))
  asserts (given = true)

/-- The data of a proposal are unbound where credentials have no filters. -/
def proposesInFormat (holder credFormat issuer credentialData : Text) (ctx : Context) :
    Harness Context := do
  let ctx ← py (setupSchemasForIssuance cfg credentialData ctx)
  if cfg.WithFilters then
    hasFilter credFormat ctx
    let didForId ← (if credFormat = "json-ld".toList then preparesJsonLd cfg holder ctx
      else pure .null)
    let connectionId ← py (ctx.connections.connectionId (some holder) (some issuer))
    let (data, ctx) ← py (formatCredProposal cfg credFormat connectionId didForId ctx)
    let json ← commands (cfg.userdata holder) "issue-credential-v2" "send-proposal" .null data
    let thread ← py (json.item "thread_id")
    pure { ctx with credThreadId := thread }
  else throws (.raised .unboundLocalError)

def offersInFormat (issuer credFormat : Text) (ctx : Context) : Harness Context :=
  if ctx.credThreadId.truthy then do
    let _ ← commands (cfg.userdata issuer) "issue-credential-v2" "send-offer" ctx.credThreadId
      .null
    pure ctx
  else do
    hasFilter credFormat ctx
    let connectionId ← py (ctx.connections.connectionId (some issuer)
      (ctx.connections.nameOf .holder))
    let (data, ctx) ← py (formatCredProposal cfg credFormat connectionId .null ctx)
    let json ← commands (cfg.userdata issuer) "issue-credential-v2" "send-offer" .null data
    let thread ← py (json.item "thread_id")
    pure { ctx with credThreadId := thread }

def createsAnOfferInFormat (issuer credFormat credentialData : Text) (ctx : Context) :
    Harness Context := do
  let ctx ← py (setupSchemasForIssuance cfg credentialData ctx)
  hasFilter credFormat ctx
  let (data, ctx) ← py (formatCredProposal cfg credFormat .null .null ctx)
  let json ← commands (cfg.userdata issuer) "issue-credential-v2" "create-offer" .null data
  let (thread, message) ← createdMessage json
  pure { ctx with credThreadId := thread, credentialOffer := message }

/-- The formats of these steps are not looked at. -/
def requestsInFormat (ctx : Context) : Harness Context := do
  let _ ← posts (ctx.urlOf .holder) "issue-credential-v2" "send-request" ctx.credThreadId .null
  pure ctx

def issuesInFormat (issuer : Text) (ctx : Context) : Harness Context := do
  let _ ← posts (cfg.userdata issuer) "issue-credential-v2" "issue" ctx.credThreadId
    (.obj [("comment", .str "issuing credential")])
  pure ctx

/-- The holder is asked where the issuer knows nothing of a revocation. -/
def acknowledgesInFormat (holder credFormat : Text) (ctx : Context) : Harness Context := do
  let json ← commands (cfg.userdata holder) "issue-credential-v2" "store" ctx.credThreadId .null
  let state ← py (json.item "state")
  asserts (state = .str "done")
  let name ← py (ctx.getSchemaName cfg)
  let ctx := ctx.withCredentialId name (CredentialIds.findCredentialId json)
  if ctx.supportRevocation.truthy then
    let json ← revocationRegistry cfg (ctx.connections.nameOf .issuer) ctx
    let given ← py (json.contains "revocation_id")
    let json ← (if given then pure json else revocationRegistry cfg (some holder) ctx)
    let ctx ← py (withRevocation json ctx)
    pure { ctx with revCredFormat := some credFormat }
  else pure ctx

def hasIssuedInFormat (holder credFormat : Text) (ctx : Context) : Harness Context := do
  let name ← py (ctx.getSchemaName cfg)
  let id ← py (ctx.latestCredentialId name)
  let json ← getsWith (cfg.userdata holder) .command "credential" none id false
  if credFormat = "indy".toList ∨ credFormat = "anoncreds".toList then
    let referent ← py (json.item "referent")
    asserts (Same referent id)
    pure ctx
  else if credFormat = "json-ld".toList then
    let credentialId ← py (json.item "credential_id")
    asserts (Same credentialId id)
    pure ctx
  else pure ctx

/-- The step calls one that is not defined. -/
def negotiatesTheOfferWithAnotherProposal (_ : Context) : Harness Context := throws .assertion

/-! WACI. -/

def isReadyUsingWaci (issuer : Text) (ctx : Context) : Harness Context := do
  let _ ← posts (cfg.userdata issuer) "issue-credential-v3" "prepare-json-ld" .null
    (jsonLdOptions ctx)
  pure ctx

/-- `context.invitation_v2[issuer]["id"]` -/
def invitationId (issuer : Text) (ctx : Context) : Except PyError Json := do
  let invitation ← ConnectionSteps.invitationOf issuer ctx.connections
  invitation.item "id"

def usesWaciToPropose (holder issuer : Text) (ctx : Context) : Harness Context := do
  let pthid ← py (invitationId issuer ctx)
  let connectionId ← py (ctx.connections.connectionId (some holder) (some issuer))
  let json ← commands (cfg.userdata holder) "issue-credential-v3" "send-proposal" .null
    (.obj [("pthid", pthid), ("connectionID", connectionId)])
  let thread ← py (json.item "thread_id")
  pure { ctx with credThreadId := thread }

/-- The status of the answer is not looked at. -/
def validatesTheProposal (issuer : Text) (ctx : Context) : Harness Context := do
  let (_, text) ← agentBackchannelGET (cfg.userdata issuer) .command "issue-credential-v3" none
    (.str "retrieve-credential-proposal") false
  let json ← py (loads text)
  let pthid ← py (json.item "pthid")
  let expected ← py (invitationId issuer ctx)
  asserts (Same pthid expected)
  pure ctx

/-- `open` and `json.load` of a file that must be there. -/
def required (name : String) : Except PyError Json :=
  match cfg.dataFile name.toList with
  | some json => .ok json
  | none => .error (.exception "FileNotFoundError")

/-- `json[0]["data"]["json"]["credential_manifest"]["id"]` -/
def manifestOf : Json → Except PyError Json
  | .arr attachments => do
    let attachment ← nth attachments 0
    let data ← attachment.item "data"
    let json ← data.item "json"
    let manifest ← json.item "credential_manifest"
    manifest.item "id"
  | .obj _ => .error .keyError
  | _ => .error .typeError

def sendsACredentialManifest (issuer : Text) (ctx : Context) : Harness Context := do
  let attachments ← py (required cfg "waci_send_offer_attachments")
  let manifest ← py (manifestOf attachments)
  let _ ← posts (cfg.userdata issuer) "issue-credential-v3" "send-offer" ctx.credThreadId
    attachments
  pure { ctx with manifestId := some manifest }

def sendsACredentialApplication (holder : Text) (ctx : Context) : Harness Context := do
  let attachment ← py (required cfg "waci_send_request_attachment")
  let _ ← posts (cfg.userdata holder) "issue-credential-v3" "send-request" ctx.credThreadId
    attachment
  pure ctx

def validatesTheCredentialApplication (issuer : Text) (ctx : Context) : Harness Context := do
  let json ← getsWith (cfg.userdata issuer) .command "issue-credential-v3" none
    (.str "retrieve-credential-application") false
  let application ← py (json.item "credential_application")
  let manifest ← py (application.item "manifest_id")
  let expected ← py (attributeOf ctx.manifestId)
  asserts (Same manifest expected)
  pure ctx

def sendsACredentialFulfillment (issuer : Text) (ctx : Context) : Harness Context := do
  let attachment ← py (required cfg "waci_issue_credential_attachment")
  let _ ← posts (cfg.userdata issuer) "issue-credential-v3" "issue" ctx.credThreadId attachment
  pure ctx

def acceptsTheCredentialFulfillment (holder : Text) (ctx : Context) : Harness Context := do
  let json ← commands (cfg.userdata holder) "issue-credential-v3" "store" ctx.credThreadId .null
  let state ← py (json.item "state")
  asserts (state = .str "done")
  pure ctx

end Steps

end AgentTestHarness.IssuanceSteps
