import AgentTestHarness.CommandRequests

/-! The requests for proofs that the steps of the harness build, and the controllers of the Credo
backchannel that read them. -/
namespace AgentTestHarness.ProofRequests
open PyText OrderedDict PyJson CommandRequests

/-! The steps for protocol 0454. -/

structure Context where
  requestForProof : Json
  currentCredFormat : Option Text
  nonRevokedTimeframe : Json
  deriving DecidableEq

/-- `value[key] = element` for a string key. -/
def setItem (j : Json) (key : Str) (element : Json) : Except PyError Json :=
  match j with
  | .obj ms => .ok (.obj (assign key element ms))
  | _ => .error .typeError

/-- The request is taken from the file of that name, if there is one. -/
def loadRequest (context : Context) (file : Option Json) : Except PyError Context :=
  match file with
  | none => .ok context
  | some json => do
    let request ← json.item "presentation_request"
    .ok { context with requestForProof := request }

/-- The data of the request; the amendment for JSON-LD is a function of the utilities. -/
def requestData (amend : Json → Except PyError Json) (context : Context) : Except PyError Json :=
  if context.requestForProof.truthy then
    if context.currentCredFormat = some "indy".toList ∨
        context.currentCredFormat = some "anoncreds".toList then
      if context.nonRevokedTimeframe.truthy then do
        let nonRevoked ← context.nonRevokedTimeframe.item "non_revoked"
        setItem context.requestForProof "non_revoked" nonRevoked
      else .ok context.requestForProof
    else if context.currentCredFormat = some "json-ld".toList then amend context.requestForProof
    else .error (.exception (String.ofList
      ("Unknown cred format ".toList ++ context.currentCredFormat.getD "None".toList)))
  else .ok .null

def prepareProofRequest (amend : Json → Except PyError Json) (context : Context)
    (file : Option Json) : Except PyError Json := do
  let context ← loadRequest context file
  let data ← requestData amend context
  .ok (.obj [("presentation_request", .obj [
    ("format", strOrNone context.currentCredFormat),
    ("comment", .str "This is a comment for the request for presentation."),
    ("data", data)])])

/-- The step "sends a presentation with formats", but for version 3. -/
def sendsPresentation (amend : Json → Except PyError Json) (context : Context)
    (file : Option Json) (connectionId url : Text) : Except PyError Request := do
  let message ← prepareProofRequest amend context file
  let request ← message.item "presentation_request"
  let request ← setItem request "connection_id" (.str (ofText connectionId))
  let message ← setItem message "presentation_request" request
  .ok (agentBackchannelPOST url "proof-v2".toList (some "send-request".toList) none message false)

/-- The step "acknowledges the proof with formats", but for version 3. -/
def acknowledgesProof (url threadId : Text) : Request :=
  agentBackchannelPOST url "proof-v2".toList (some "verify-presentation".toList) (some threadId)
    .null false

/-- The message of the step of protocol 0037 that sends a request for a proof. -/
def sendsRequest (data : Json) (connectionId url : Text) : Request :=
  agentBackchannelPOST url "proof".toList (some "send-request".toList) none
    (.obj [("presentation_request", .obj [
        ("comment", .str "This is a comment for the request for presentation."),
        ("proof_request", .obj [("data", data)])]),
      ("connection_id", .str (ofText connectionId))]) false

/-! The controllers. -/

inductive JsError
  | typeError
  | notFound (id : Option Json)
  | timeout
  deriving DecidableEq

/-- `value.name`, none being undefined. No property of strings, numbers or arrays is read. -/
def property (v : Option Json) (name : Str) : Except JsError (Option Json) :=
  match v with
  | none => .error .typeError
  | some .null => .error .typeError
  | some (.obj ms) => .ok (lookup name ms)
  | some _ => .ok none

/-- `value ?? other`. -/
def nullish (v : Option Json) (other : Json) : Json :=
  match v with
  | none => other
  | some .null => other
  | some w => w

/-- What `requestProof` is called with. -/
structure RequestProof where
  connectionId : Text
  protocolVersion : Text
  name : Json
  version : Json
  nonRevoked : Option Json
  requestedAttributes : Option Json
  requestedPredicates : Option Json
  comment : Option Json
  deriving DecidableEq

structure ProofExchangeRecord where
  state : Text
  threadId : Text
  deriving DecidableEq

/-- What the controllers use of the agent: its connections by id and by out-of-band id, the proof
exchange of a thread once it has reached a state, if it does within the time, and the exchange
that accepting the presentation gives. -/
structure Agent where
  findById : Option Json → Option Text
  findAllByOutOfBandId : Option Json → List Text
  waitForState : Option Json → Text → Bool
  getProofByThreadId : Option Json → Except JsError (Option ProofExchangeRecord)
  acceptPresentation : ProofExchangeRecord → Except JsError ProofExchangeRecord

def getConnectionByConnectionIdOrOutOfBandId (agent : Agent) (id : Option Json) :
    Except JsError Text :=
  match agent.findById id with
  | some connection => .ok connection
  | none => match agent.findAllByOutOfBandId id with
    | [] => .error (.notFound id)
    | connection :: _ => .ok connection

/-- `sendRequest` up to its call of `requestProof`. The controllers of versions 1 and 2 differ in
the version of the protocol and the default version of a request. -/
def sendRequest (protocolVersion defaultVersion : Text) (agent : Agent) (body : Option Json) :
    Except JsError RequestProof := do
  let data ← property body "data"
  let presentationRequest ← property data "presentation_request"
  let proofRequest ← property presentationRequest "proof_request"
  let proofRequest ← property proofRequest "data"
  let connectionId ← property data "connection_id"
  let connection ← getConnectionByConnectionIdOrOutOfBandId agent connectionId
  let name ← property proofRequest "name"
  let version ← property proofRequest "version"
  let nonRevoked ← property proofRequest "non_revoked"
  let requestedAttributes ← property proofRequest "requested_attributes"
  let requestedPredicates ← property proofRequest "requested_predicates"
  let comment ← property presentationRequest "comment"
  .ok ⟨connection, protocolVersion, nullish name (.str "proof-request"),
    nullish version (.str (ofText defaultVersion)), nonRevoked, requestedAttributes,
    requestedPredicates, comment⟩

def sendRequestV1 : Agent → Option Json → Except JsError RequestProof :=
  sendRequest "v1".toList "1.0".toList

def sendRequestV2 : Agent → Option Json → Except JsError RequestProof :=
  sendRequest "v2".toList "2.0".toList

def mapProofExchangeRecord (record : ProofExchangeRecord) : Json :=
  .obj [("state", .str (ofText record.state)), ("thread_id", .str (ofText record.threadId))]

/-- The answer is undefined where there is no proof exchange. -/
def verifyPresentation (agent : Agent) (body : Option Json) : Except JsError (Option Json) := do
  let threadId ← property body "id"
  if agent.waitForState threadId "presentation-received".toList then
    match ← agent.getProofByThreadId threadId with
    | none => .ok none
    | some record => do
      let accepted ← agent.acceptPresentation record
      .ok (some (mapProofExchangeRecord accepted))
  else .error .timeout

/-- What the data of the request asks for is passed on, for the connection with the id. -/
def Passes (agent : Agent) (request : Request) (data : Json) (connectionId : Text) : Prop :=
  ∃ call, sendRequestV2 agent request.json = .ok call ∧
    getConnectionByConnectionIdOrOutOfBandId agent (some (.str (ofText connectionId))) =
      .ok call.connectionId ∧
    property (some data) "requested_attributes" = .ok call.requestedAttributes ∧
    property (some data) "requested_predicates" = .ok call.requestedPredicates ∧
    property (some data) "non_revoked" = .ok call.nonRevoked

/-- What the step reads from the answer. -/
def CarriesVerified (answer : Option Json) : Prop :=
  ∃ json verified, answer = some json ∧ json.item "verified" = .ok verified

/-- The body of the request has no member `proof_request`, and the connection beside the data. -/
theorem sendsPresentation_json {amend : Json → Except PyError Json} {context : Context}
    {file : Option Json} {connectionId url : Text} {request : Request}
    (h : sendsPresentation amend context file connectionId url = .ok request) :
    ∃ format comment data, request.json = some (.obj [("data", .obj [("presentation_request",
      .obj [("format", format), ("comment", comment), ("data", data),
        ("connection_id", .str (ofText connectionId))])])]) := by
  obtain ⟨message, hmessage, h⟩ := bind_eq_ok h
  obtain ⟨context', -, hmessage⟩ := bind_eq_ok hmessage
  obtain ⟨data, -, hmessage⟩ := bind_eq_ok hmessage
  obtain rfl := Except.ok.inj hmessage
  obtain rfl := Except.ok.inj h
  exact ⟨_, _, data, rfl⟩

theorem sendRequest_typeError (protocolVersion defaultVersion : Text) (agent : Agent)
    {amend : Json → Except PyError Json} {context : Context} {file : Option Json}
    {connectionId url : Text} {request : Request}
    (h : sendsPresentation amend context file connectionId url = .ok request) :
    sendRequest protocolVersion defaultVersion agent request.json = .error .typeError := by
  obtain ⟨format, comment, data, hjson⟩ := sendsPresentation_json h
  rw [hjson]
  rfl

theorem mapProofExchangeRecord_verified (record : ProofExchangeRecord) :
    (mapProofExchangeRecord record).item "verified" = .error .keyError := rfl

/-- Whatever a step builds, the controller passes nothing on, and no answer has what the step that
verifies reads. -/
theorem proof_v2_never_served (agent : Agent) (amend : Json → Except PyError Json)
    (context : Context) (file : Option Json) (connectionId url : Text) (request : Request)
    (h : sendsPresentation amend context file connectionId url = .ok request) (data : Json)
    (threadId : Text) :
    ¬ Passes agent request data connectionId ∧
      ∀ answer, verifyPresentation agent (acknowledgesProof url threadId).json = .ok answer →
        ¬ CarriesVerified answer := by
  constructor
  · rintro ⟨call, hcall, -⟩
    rw [sendRequestV2, sendRequest_typeError _ _ agent h] at hcall
    exact absurd hcall (by simp)
  · rintro answer hanswer ⟨json, verified, rfl, hverified⟩
    obtain ⟨id, -, hanswer⟩ := bind_eq_ok hanswer
    split at hanswer
    · obtain ⟨found, -, hanswer⟩ := bind_eq_ok hanswer
      cases found with
      | none => exact absurd hanswer (by simp)
      | some record =>
        obtain ⟨accepted, -, hjson⟩ := bind_eq_ok hanswer
        obtain rfl := Option.some.inj (Except.ok.inj hjson)
        rw [mapProofExchangeRecord_verified] at hverified
        exact absurd hverified (by simp)
    · exact absurd hanswer (by simp)

/-- What is passed on for a request in an object, by either controller. -/
def passed (protocolVersion defaultVersion : Text) (members : List (Str × Json)) (comment : Json)
    (connection : Text) : RequestProof where
  connectionId := connection
  protocolVersion := protocolVersion
  name := nullish (lookup ("name" : Str) members) (.str "proof-request")
  version := nullish (lookup ("version" : Str) members) (.str (ofText defaultVersion))
  nonRevoked := lookup ("non_revoked" : Str) members
  requestedAttributes := lookup ("requested_attributes" : Str) members
  requestedPredicates := lookup ("requested_predicates" : Str) members
  comment := some comment

/-- The message of protocol 0037 has the members that both controllers read. -/
theorem sendRequestV1_passes (agent : Agent) (members : List (Str × Json))
    {connectionId connection url : Text}
    (hconnection : getConnectionByConnectionIdOrOutOfBandId agent
      (some (.str (ofText connectionId))) = .ok connection) :
    sendRequestV1 agent (sendsRequest (.obj members) connectionId url).json =
      .ok (passed "v1".toList "1.0".toList members
        (.str "This is a comment for the request for presentation.") connection) := by
  have hread : sendRequestV1 agent (sendsRequest (.obj members) connectionId url).json =
      getConnectionByConnectionIdOrOutOfBandId agent (some (.str (ofText connectionId))) >>=
        fun connection => .ok (passed "v1".toList "1.0".toList members
          (.str "This is a comment for the request for presentation.") connection) := rfl
  rw [hread, hconnection]
  rfl

/-! An agent with one connection, and a proof exchange that is accepted. -/

def verifier : Agent where
  findById id := if id = some (.str "c") then some "c".toList else none
  findAllByOutOfBandId _ := []
  waitForState _ _ := true
  getProofByThreadId _ := .ok (some ⟨"presentation-received".toList, "t".toList⟩)
  acceptPresentation record := .ok { record with state := "done".toList }

def anoncreds : Context :=
  ⟨.obj [("requested_attributes", .obj [("address", .obj [("name", .str "address")])]),
    ("requested_predicates", .obj [])], some "anoncreds".toList, .null⟩

def anoncredsRequest : Request :=
  ⟨.post, "/agent/command/proof-v2/send-request/".toList, [], some (.obj [("data", .obj [
    ("presentation_request", .obj [("format", .str "anoncreds"),
      ("comment", .str "This is a comment for the request for presentation."),
      ("data", anoncreds.requestForProof), ("connection_id", .str "c")])])])⟩

theorem anoncredsRequest_sent :
    sendsPresentation .ok anoncreds none "c".toList "/agent/command/".toList =
      .ok anoncredsRequest := by
  decide +kernel

theorem anoncreds_never_served :
    ¬ Passes verifier anoncredsRequest anoncreds.requestForProof "c".toList ∧
      ∀ answer, verifyPresentation verifier
          (acknowledgesProof "/agent/command/".toList "t".toList).json = .ok answer →
        ¬ CarriesVerified answer :=
  proof_v2_never_served verifier .ok anoncreds none "c".toList "/agent/command/".toList
    anoncredsRequest anoncredsRequest_sent anoncreds.requestForProof "t".toList

theorem anoncreds_request_not_passed :
    ¬ ∀ (agent : Agent) (amend : Json → Except PyError Json) (context : Context)
      (file : Option Json) (connectionId url : Text) (request : Request),
      sendsPresentation amend context file connectionId url = .ok request → ∀ data,
      (loadRequest context file >>= requestData amend) = .ok data → ∀ threadId : Text,
      Passes agent request data connectionId ∧
        ∀ answer, verifyPresentation agent (acknowledgesProof url threadId).json = .ok answer →
          CarriesVerified answer := by
  intro h
  obtain ⟨⟨call, hcall, -⟩, -⟩ := h verifier .ok anoncreds none "c".toList
    "/agent/command/".toList anoncredsRequest anoncredsRequest_sent anoncreds.requestForProof
    (by decide +kernel) "t".toList
  have hraises : sendRequestV2 verifier anoncredsRequest.json = .error .typeError := by
    decide +kernel
  rw [hraises] at hcall
  exact absurd hcall (by simp)

end AgentTestHarness.ProofRequests
