import Mathlib.Logic.Function.Basic
import AgentTestHarness.ProofRequests
import AgentTestHarness.JsonReading
import AgentTestHarness.ServiceCalls

/-! The steps of the harness that connect agents: protocols 0160 and 0023, the mediation of 0211
and the invitations of DIDComm version 2. What the harness knows it learns from the answers of the
backchannels. -/
namespace AgentTestHarness.ConnectionSteps
open PyText OrderedDict PyJson JsonReading ServiceCalls
open CommandRequests (Site)
open ProofRequests (setItem)
open Program (computes ask throws)

/-- A request of the client to the backchannel of an agent. -/
inductive Call
  | get (agent : Text) (site : Site) (topic : String) (operation : Option String) (id : Option Str)
      (anoncreds : Bool)
  | post (agent : Text) (topic : String) (operation : Option String) (id data : Json)
      (anoncreds : Bool)
  | delete (agent : Text) (topic : String) (id : Option Str)
  deriving DecidableEq

def Call.agent : Call → Text
  | .get agent _ _ _ _ _ => agent
  | .post agent _ _ _ _ _ => agent
  | .delete agent _ _ => agent

def Call.topic : Call → String
  | .get _ _ topic _ _ _ => topic
  | .post _ topic _ _ _ _ => topic
  | .delete _ topic _ => topic

/-- The status and the text of the response. -/
abbrev Reply (_ : Call) := Except PyError (ℕ × Text)

inductive StepError
  | raised (e : PyError)
  | assertion
  deriving DecidableEq

abbrev Harness (α : Type) := Program Reply StepError α

def py {α : Type} (x : Except PyError α) : Harness α := computes (x.mapError StepError.raised)

def asserts (p : Prop) [Decidable p] : Harness Unit := if p then pure () else throws .assertion

/-! The client. -/

/-- `agent_url + …`, where the url may be None. -/
def urlOf : Option Text → Except PyError Text
  | some url => .ok url
  | none => .error .typeError

/-- An id behind the path of a GET. -/
def pathId (id : Json) : Except PyError (Option Str) :=
  if id.truthy then
    match id with
    | .str s => .ok (some s)
    | _ => .error .typeError
  else .ok none

def agentBackchannelGET (url : Option Text) (site : Site) (topic : String)
    (operation : Option String) (id : Json) (anoncreds : Bool) : Harness (ℕ × Text) := do
  let agent ← py (urlOf url)
  let id ← py (pathId id)
  let answer ← ask (Call.get agent site topic operation id anoncreds)
  py answer

def agentBackchannelPOST (url : Option Text) (topic : String) (operation : Option String)
    (id data : Json) (anoncreds : Bool) : Harness (ℕ × Text) := do
  let agent ← py (urlOf url)
  let answer ← ask (Call.post agent topic operation id data anoncreds)
  py answer

/-- The data of a DELETE are not sent. -/
def agentBackchannelDELETE (url : Option Text) (topic : String) (id : Json) :
    Harness (ℕ × Text) := do
  let agent ← py (urlOf url)
  let id ← py (pathId id)
  let answer ← ask (Call.delete agent topic id)
  py answer

/-- A command that must succeed. -/
def postsWith (url : Option Text) (topic : String) (operation : Option String) (id data : Json)
    (anoncreds : Bool) : Harness Text := do
  let (status, text) ← agentBackchannelPOST url topic operation id data anoncreds
  asserts (status = 200)
  pure text

def posts (url : Option Text) (topic operation : String) (id data : Json) : Harness Text :=
  postsWith url topic (some operation) id data false

/-- A query that must succeed. -/
def getsWith (url : Option Text) (site : Site) (topic : String) (operation : Option String)
    (id : Json) (anoncreds : Bool) : Harness Json := do
  let (status, text) ← agentBackchannelGET url site topic operation id anoncreds
  asserts (status = 200)
  py (loads text)

def gets (url : Option Text) (site : Site) (topic : String) (operation : Option String)
    (id : Json) : Harness Json :=
  getsWith url site topic operation id false

/-- The rounds of `expected_agent_state`. -/
def statePolls (url : Option Text) (topic : String) (id : Json) (states : List String) :
    ℕ → Harness Bool
  | 0 => pure false
  | rounds + 1 => do
    let (status, text) ← agentBackchannelGET url .command topic none id false
    if status = 200 then
      let json ← py (loads text)
      let state ← py (json.item "state")
      if ∃ s ∈ states, state = .str s then pure true
      else statePolls url topic id states rounds
    else statePolls url topic id states rounds

/-- With half a second between two rounds; a backchannel that cannot tell a state is believed. -/
def expectedAgentState (url : Option Text) (topic : String) (id : Json) (states : List String)
    (waitTime : ℕ) : Harness Unit := do
  let expected ← statePolls url topic id (states ++ ["N/A"]) (2 * waitTime)
  asserts (expected = true)

/-! The context of a scenario. -/

inductive Role
  | inviter
  | invitee
  | inviteinterceptor
  | issuer
  | holder
  | verifier
  | prover
  | requester
  | responder
  | mediator
  deriving DecidableEq

def Role.ofName (name : Text) : Option Role :=
  lookup name [("inviter".toList, inviter), ("invitee".toList, invitee),
    ("inviteinterceptor".toList, inviteinterceptor), ("issuer".toList, issuer),
    ("holder".toList, holder), ("verifier".toList, verifier), ("prover".toList, prover),
    ("requester".toList, requester), ("responder".toList, responder),
    ("mediator".toList, mediator)]

structure Party where
  name : Option Text
  url : Option Text

structure Config where
  userdata : Text → Option Text
  tags : List Text
  featureName : Text

/-- Whether agents connect by protocol 0023. -/
def Config.ByDidExchange (cfg : Config) : Prop := "DIDExchangeConnection".toList ∈ cfg.tags

instance (cfg : Config) : Decidable cfg.ByDidExchange := inferInstanceAs (Decidable (_ ∈ _))

/-- `context.config.userdata.get(name)` of a name that may be None. -/
def Config.urlOf (cfg : Config) (name : Option Text) : Option Text := name.bind cfg.userdata

/-- The ids of connections stand under the names of an agent and of its partner. -/
structure Context where
  roles : Role → Party
  tempConnectionIds : Dict Text Json
  connectionIds : Dict (Option Text × Option Text) Json
  mediators : Dict Text Text
  inviterInvitation : Option Json
  responderInvitation : Json
  invitationV2 : Option (Dict Text Json)
  requesterPublicDid : Json
  requesterDid : Json
  requesterPublicDidDoc : Json
  useExistingConnection : Bool
  useExistingConnectionSuccessful : Bool
  peerDidMethod : Option Text
  useDid : Option Json

/-- `setup_scenario_context` -/
def Context.fresh : Context where
  roles _ := ⟨none, none⟩
  tempConnectionIds := Dict.empty
  connectionIds := Dict.empty
  mediators := Dict.empty
  inviterInvitation := none
  responderInvitation := .null
  invitationV2 := none
  requesterPublicDid := .null
  requesterDid := .null
  requesterPublicDidDoc := .null
  useExistingConnection := false
  useExistingConnectionSuccessful := false
  peerDidMethod := none
  useDid := none

namespace Context

variable (ctx : Context)

def nameOf (role : Role) : Option Text := (ctx.roles role).name

def withRole (role : Role) (name : Text) (url : Option Text) : Context :=
  { ctx with roles := Function.update ctx.roles role ⟨some name, url⟩ }

/-- `context.connection_id_dict[agent][partner]` -/
def connectionId (agent partner : Option Text) : Except PyError Json :=
  match ctx.connectionIds.get? (agent, partner) with
  | some id => .ok id
  | none => .error .keyError

def withConnectionId (agent partner : Option Text) (id : Json) : Context :=
  { ctx with connectionIds := ctx.connectionIds.set (agent, partner) id }

/-- The mediator of an agent, if its name is not empty. -/
def mediatorOf (agent : Text) : Option Text := (ctx.mediators.get? agent).filter (· ≠ [])

/-- The data with the id of the agent's connection to its mediator. -/
def mediated (agent : Text) (data : Json) : Except PyError Json :=
  match ctx.mediatorOf agent with
  | none => .ok data
  | some mediator => do
    let id ← ctx.connectionId (some agent) (some mediator)
    setItem data "mediator_connection_id" id

end Context

section Steps

variable (cfg : Config)

/-! The agents table. -/

structure Row where
  role : Text
  name : Text
  startParameters : Option Text

/-- The roles of a row: an issuer or a verifier responds and a holder or a prover requests, where
agents connect by protocol 0023. -/
def Row.roles (row : Row) : List Role :=
  match Role.ofName row.role with
  | none => []
  | some role =>
    if cfg.ByDidExchange ∧ (role = .issuer ∨ role = .verifier) then [role, .responder]
    else if cfg.ByDidExchange ∧ (role = .holder ∨ role = .prover) then [role, .requester]
    else [role]

/-- A row with a role that is not known is only printed. -/
def assignRole (ctx : Context) (row : Row) : Harness Context := do
  asserts (Role.ofName row.role = none ∨ ∃ url ∈ cfg.userdata row.name, url ≠ [])
  pure ((row.roles cfg).foldl (fun ctx role => ctx.withRole role row.name (cfg.userdata row.name))
    ctx)

def isRunningWithParameters (agent parameters : Text) (ctx : Context) : Harness Context := do
  let params ← py (loads parameters)
  let _ ← posts (cfg.userdata agent) "agent" "start" .null (.obj [("parameters", params)])
  pure ctx

/-- An empty text is no parameter. -/
def startRow (ctx : Context) (row : Row) : Harness Context :=
  match row.startParameters with
  | none => pure ctx
  | some parameters =>
    if parameters = [] ∨ parameters = "use_running_agent".toList then pure ctx
    else isRunningWithParameters cfg row.name parameters ctx

def agents (table : List Row) (ctx : Context) : Harness Context := do
  let ctx ← table.foldlM (assignRole cfg) ctx
  table.foldlM (startRow cfg) ctx

/-! Protocol 0160. -/

def generatesAConnectionInvitation (inviter : Text) (ctx : Context) : Harness Context := do
  let data ← py (ctx.mediated inviter (.obj []))
  let text ← posts (cfg.userdata inviter) "connection" "create-invitation" .null data
  let json ← py (loads text)
  let invitation ← py (json.item "invitation")
  let ctx := { ctx with inviterInvitation := some invitation }
  let given ← py (json.contains "connection_id")
  let ctx ← (if given then do
      let id ← py (json.item "connection_id")
      pure { ctx with tempConnectionIds := ctx.tempConnectionIds.set inviter id }
    else pure ctx)
  pure (if ctx.nameOf .inviter = some inviter then ctx
    else ctx.withRole .inviter inviter (cfg.userdata inviter))

/-- The id of the inviter's connection, from its invitation or by the id of that. -/
def inviterConnectionId (invitation : Json) (ctx : Context) : Harness (Json × Context) :=
  if ctx.tempConnectionIds.entries ≠ [] then
    match (ctx.nameOf .inviter).bind ctx.tempConnectionIds.get? with
    | some id => pure (id, { ctx with tempConnectionIds := Dict.empty })
    | none => throws (.raised .keyError)
  else do
    let invitationId ← py (invitation.item "@id")
    let json ← gets (ctx.roles .inviter).url .response "connection" none invitationId
    let id ← py (json.item "connection_id")
    pure (id, ctx)

/-- The invitation is changed in the context too. -/
def receivesTheConnectionInvitation (invitee : Text) (ctx : Context) : Harness Context := do
  let data ← py (ctx.inviterInvitation.elim (.error .attributeError) .ok)
  let data ← py (ctx.mediated invitee data)
  let ctx := { ctx with inviterInvitation := some data }
  let text ← posts (cfg.userdata invitee) "connection" "receive-invitation" .null data
  let json ← py (loads text)
  let id ← py (json.item "connection_id")
  let inviter := ctx.nameOf .inviter
  let ctx := ctx.withConnectionId (some invitee) inviter id
  let (inviterId, ctx) ← inviterConnectionId data ctx
  let ctx := ctx.withConnectionId inviter (some invitee) inviterId
  pure (if (ctx.nameOf .invitee).getD [] = [] then
      ctx.withRole .invitee invitee (cfg.userdata invitee)
    else ctx)

/-- A command of an agent on its connection with a partner. -/
def commandsConnection (agent : Text) (partner : Option Text) (topic operation : String)
    (data : Json) (ctx : Context) : Harness Context := do
  let id ← py (ctx.connectionId (some agent) partner)
  let _ ← posts (cfg.userdata agent) topic operation id data
  pure ctx

/-- The ids of both agents are read, the partner's too. -/
def commandsBoth (agent partner : Text) (operation : String) (ctx : Context) :
    Harness Context := do
  let _ ← py (ctx.connectionId (some partner) (some agent))
  commandsConnection cfg agent (some partner) "connection" operation .null ctx

def sendsAConnectionResponse (inviter invitee : Text) : Context → Harness Context :=
  commandsBoth cfg inviter invitee "accept-request"

def acceptsTheConnectionResponse (inviter invitee : Text) : Context → Harness Context :=
  commandsBoth cfg inviter invitee "accept-request"

def sendsAConnectionRequest (invitee inviter : Text) : Context → Harness Context :=
  commandsBoth cfg invitee inviter "accept-invitation"

def receivesTheConnectionRequest (ctx : Context) : Harness Context := pure ctx

def receivesTheConnectionResponse (invitee : Text) (ctx : Context) : Harness Context := do
  let _ ← py (ctx.connectionId (some invitee) (ctx.nameOf .inviter))
  pure ctx

def comment (text : String) (agent : Text) : Json :=
  .obj [("comment", .str (ofText (text.toList ++ agent)))]

def reachesState (agent : Text) (partner : Option Text) (topic : String) (states : List String)
    (waitTime : ℕ) (ctx : Context) : Harness Context := do
  let id ← py (ctx.connectionId (some agent) partner)
  expectedAgentState (cfg.userdata agent) topic id states waitTime
  pure ctx

def sendsAResponsePing (invitee : Text) (ctx : Context) : Harness Context := do
  let ctx ← commandsConnection cfg invitee (ctx.nameOf .inviter) "connection" "send-ping"
    (comment "Hello from " invitee) ctx
  reachesState cfg invitee (ctx.nameOf .inviter) "connection" ["complete"] 2 ctx

def receivesTheResponsePing (inviter : Text) (ctx : Context) : Harness Context := do
  let ctx ← commandsConnection cfg inviter (ctx.nameOf .invitee) "connection" "send-ping"
    (comment "Hello from " inviter) ctx
  reachesState cfg inviter (ctx.nameOf .invitee) "connection" ["complete"] 2 ctx

/-- A responder is there only when the agents connect by protocol 0023. -/
def connectedStates (ctx : Context) : String × List String :=
  if ((ctx.roles .responder).url.getD []) ≠ [] then ("did-exchange", ["completed"])
  else ("connection", ["responded", "complete"])

def haveAConnection (inviter invitee : Text) (ctx : Context) : Harness Context := do
  let (topic, states) := connectedStates ctx
  let _ ← py (ctx.connectionId (some inviter) (some invitee))
  let _ ← py (ctx.connectionId (some invitee) (some inviter))
  let ctx ← reachesState cfg inviter (some invitee) topic states 60 ctx
  reachesState cfg invitee (some inviter) topic states 60 ctx

def isConnectedTo (invitee inviter : Text) (ctx : Context) : Harness Context := do
  let _ ← py (ctx.connectionId (some inviter) (some invitee))
  let _ ← py (ctx.connectionId (some invitee) (some inviter))
  let ctx ← reachesState cfg inviter (some invitee) "connection" ["responded"] 2 ctx
  reachesState cfg invitee (some inviter) "connection" ["complete"] 2 ctx

def sendsATrustPing (sender : Text) (ctx : Context) : Harness Context := do
  let inviter := ctx.nameOf .inviter
  let ctx ← reachesState cfg sender inviter "connection" ["active"] 2 ctx
  let ctx ← commandsConnection cfg sender inviter "connection" "send-ping"
    (comment "Hello from " sender) ctx
  reachesState cfg sender inviter "connection" ["complete"] 2 ctx

def inviteeIsComplete (invitee : Text) (ctx : Context) : Harness Context :=
  reachesState cfg invitee (ctx.nameOf .inviter) "connection" ["complete"] 2 ctx

def inviterIsResponded (inviter : Text) (ctx : Context) : Harness Context :=
  reachesState cfg inviter (ctx.nameOf .invitee) "connection" ["responded"] 2 ctx

def inviterIsComplete (inviter : Text) (ctx : Context) : Harness Context :=
  reachesState cfg inviter (ctx.nameOf .invitee) "connection" ["complete"] 2 ctx

def sendsAcks (sender : Text) (ctx : Context) : Harness Context :=
  commandsConnection cfg sender (ctx.nameOf .inviter) "connection" "acks"
    (comment "acknowledgement from " sender) ctx

def sendsTrustping (sender receiver : Text) : Context → Harness Context :=
  commandsConnection cfg sender (some receiver) "connection" "send-ping"
    (comment "acknowledgement from " sender)

/-- The interceptor is an invitee of its own. -/
def sendsAnInterceptedRequest (interceptor inviter : Text) (ctx : Context) : Harness Context := do
  let ctx ← receivesTheConnectionInvitation cfg interceptor ctx
  let ctx ← reachesState cfg interceptor (some inviter) "connection" ["invited"] 2 ctx
  let ctx ← commandsConnection cfg interceptor (some inviter) "connection" "accept-invitation"
    .null ctx
  reachesState cfg interceptor (some inviter) "connection" ["requested"] 2 ctx

def sendsARequestNotAcceptedError (inviter : Text) (ctx : Context) : Harness Context := do
  let id ← py (ctx.connectionId (some inviter) (ctx.nameOf .invitee))
  let (status, _) ← agentBackchannelPOST (cfg.userdata inviter) "connection"
    (some "accept-request") id .null false
  asserts (status = 406)
  pure ctx

def completeTheConnectionProcess (sender receiver : Text) (ctx : Context) : Harness Context := do
  let ctx ← receivesTheConnectionInvitation cfg receiver ctx
  let ctx ← sendsAConnectionRequest cfg receiver sender ctx
  let ctx ← receivesTheConnectionRequest ctx
  let ctx ← sendsAConnectionResponse cfg sender receiver ctx
  let ctx ← receivesTheConnectionResponse receiver ctx
  sendsTrustping cfg receiver sender ctx

def createANewV1Connection (sender receiver : Text) (ctx : Context) : Harness Context := do
  let ctx ← generatesAConnectionInvitation cfg sender ctx
  let ctx ← completeTheConnectionProcess cfg sender receiver ctx
  haveAConnection cfg sender receiver ctx

/-- The connection is there already. -/
def haveTheConnection (inviter invitee : Text) (ctx : Context) : Harness Context := do
  let ctx ← sendsTrustping cfg invitee inviter ctx
  haveAConnection cfg inviter invitee ctx

/-! Protocol 0023. -/

/-- `"connection_id" in resp_text` looks for the word anywhere in the text. -/
def mentionsConnectionId (text : Text) : Prop := "connection_id".toList <:+: text

instance (text : Text) : Decidable (mentionsConnectionId text) :=
  inferInstanceAs (Decidable (_ <:+: _))

/-- The id of an answer that mentions one. -/
def mentionedId (agent : Text) (partner : Option Text) (text : Text) (json : Json)
    (ctx : Context) : Harness Context :=
  if mentionsConnectionId text then do
    let id ← py (json.item "connection_id")
    pure (ctx.withConnectionId (some agent) partner id)
  else pure ctx

/-- The text of a response, which must succeed, and what it reads. -/
def getsResponse (url : Option Text) (id : Json) : Harness (Text × Json) := do
  let (status, text) ← agentBackchannelGET url .response "did-exchange" none id false
  asserts (status = 200)
  let json ← py (loads text)
  pure (text, json)

/-- The latest responder and requester. -/
def withPair (responder requester : Text) (ctx : Context) : Context :=
  let ctx := if ctx.nameOf .responder = some responder then ctx
    else ctx.withRole .responder responder (cfg.userdata responder)
  if ctx.nameOf .requester = some requester then ctx
  else ctx.withRole .requester requester (cfg.userdata requester)

structure InvitationRow where
  usePublicDid : Text
  handshakeProtocols : Text

/-- `text.split(", ")` -/
def splitCommas (text : Text) : List Text :=
  match text with
  | [] => [[]]
  | ',' :: ' ' :: rest => [] :: splitCommas rest
  | c :: rest => (splitCommas rest).modifyHead (c :: ·)

def InvitationRow.data (row : InvitationRow) : List (Str × Json) :=
  ("use_public_did", .bool (decide (row.usePublicDid = "True".toList))) ::
    if row.handshakeProtocols = [] then []
    else [("handshake_protocols",
      .arr ((splitCommas row.handshakeProtocols).map fun p => .str (ofText p)))]

/-- The last row of the table counts; an empty one leaves the data unbound. -/
def tableData : Option (List InvitationRow) → Except PyError (List (Str × Json))
  | none => .ok [("use_public_did", .bool false)]
  | some rows => match rows.getLast? with
    | some row => .ok row.data
    | none => .error .unboundLocalError

/-- A method for peer DIDs that is to be used. -/
def qualified (method : Option Text) : Option Text :=
  method.filter fun m => m ≠ [] ∧ m ≠ "unqualified".toList

def withDidMethod (method : Option Text) (data : List (Str × Json)) : List (Str × Json) :=
  match qualified method with
  | some m => assign "use_did_method" (.str (ofText m)) data
  | none => data

/-- The invitation of the responder, and the id of its connection if the agent has one by now. -/
def sendsInvitationMessage (responder requester : Text) (data : Json) (ctx : Context) :
    Harness Context := do
  let url := cfg.userdata responder
  let text ← posts url "out-of-band" "send-invitation-message" .null data
  let json ← py (loads text)
  let state ← py (json.item "state")
  asserts (state = .str "invitation-sent")
  let invitation ← py (json.item "invitation")
  let ctx := { ctx with responderInvitation := invitation }
  let invitationId ← py (invitation.item "@id")
  let (text, json) ← getsResponse url invitationId
  let ctx ← mentionedId responder (some requester) text json ctx
  pure (withPair cfg responder requester ctx)

def sendsAnExplicitInvitation (responder requester : Text) (method : Option Text)
    (table : Option (List InvitationRow)) (ctx : Context) : Harness Context := do
  let data ← py (tableData table)
  let ctx := { ctx with peerDidMethod := (qualified method).or ctx.peerDidMethod }
  let data ← py (ctx.mediated responder (.obj (withDidMethod method data)))
  sendsInvitationMessage cfg responder requester data ctx

def sendsAnExplicitInvitationWithAPublicDid (responder requester : Text) (ctx : Context) :
    Harness Context := do
  let (status, _) ← agentBackchannelGET (cfg.userdata responder) .command "did" none .null false
  asserts (status = 200)
  sendsInvitationMessage cfg responder requester (.obj [("use_public_did", .bool true)]) ctx

def hasAResolvableDid (requester : Text) (ctx : Context) : Harness Context := do
  let json ← gets (cfg.userdata requester) .command "did" none .null
  pure { ctx with requesterPublicDid := json }

def acquiresTheResolvableDid (ctx : Context) : Harness Context := do
  let did ← py (ctx.requesterPublicDid.item "did")
  pure { ctx with requesterDid := did }

/-- The text of the last answer decides whether it has an id. -/
def sendsTheRequestWithThePublicDid (requester responder : Text) (ctx : Context) :
    Harness Context := do
  let url := cfg.userdata requester
  let text ← posts url "did-exchange" "create-request-resolvable-did" .null
    (.obj [("their_public_did", ctx.requesterDid), ("their_did", ctx.requesterDid)])
  let doc ← py (loads text)
  let ctx := { ctx with requesterPublicDidDoc := doc }
  let given ← py (doc.contains "connection_id")
  let (text, json) ← (if given then pure (text, doc)
    else do
      let requestId ← py (doc.item "@id")
      getsResponse url requestId)
  mentionedId requester (some responder) text json ctx

def receivesTheRequestWithTheirPublicDid (responder : Text) (ctx : Context) :
    Harness Context := do
  let text ← posts (cfg.userdata responder) "did-exchange" "receive-request-resolvable-did" .null
    ctx.requesterPublicDidDoc
  let json ← py (loads text)
  mentionedId responder (ctx.nameOf .requester) text json ctx

def noConnectionId (requester : Text) (responder : Option Text) (text : Text) : PyError :=
  .exception (String.ofList ("Problem retreiving responder's (".toList ++
    responder.getD "None".toList ++
    ") connection id for active connection. Requester's (".toList ++ requester ++
    ") active connection info: ".toList ++ text))

/-- `setup_already_connected` -/
def setupAlreadyConnected (info : Json) (requester : Text) (ctx : Context) : Harness Context := do
  let responder := ctx.nameOf .responder
  let requesterId ← py (info.item "connection_id")
  let requesterDid ← py (info.item "my_did")
  let (status, text) ← agentBackchannelGET (cfg.urlOf responder) .command "active-connection" none
    requesterDid false
  if status = 200 then
    let json ← py (loads text)
    let responderId ← py (json.item "connection_id")
    pure ((ctx.withConnectionId (some requester) responder requesterId).withConnectionId responder
      (some requester) responderId)
  else throws (.raised (noConnectionId requester responder text))

/-- A feature of protocols 0023 and 0044 never reuses a connection. -/
def reuses (ctx : Context) : Bool :=
  ctx.useExistingConnection &&
    !decide ("0023".toList <:+: cfg.featureName ∨ "0044".toList <:+: cfg.featureName)

/-- The invitation is changed in the context too. -/
def receivesTheInvitation (requester : Text) (ctx : Context) : Harness Context := do
  let reuse := reuses cfg ctx
  let ctx := { ctx with useExistingConnection := reuse }
  let data ← py (setItem ctx.responderInvitation "use_existing_connection" (.bool reuse))
  let data ← py (ctx.mediated requester data)
  let ctx := { ctx with responderInvitation := data }
  let text ← posts (cfg.userdata requester) "out-of-band" "receive-invitation" .null data
  let json ← py (loads text)
  let state ← py (if reuse then json.item "state" else .ok .null)
  if reuse = true ∧ state = .str "completed" then
    setupAlreadyConnected cfg json requester { ctx with useExistingConnectionSuccessful := true }
  else
    let state ← py (json.item "state")
    asserts (state = .str "invitation-received")
    let given ← py (json.contains "connection_id")
    if given then
      let id ← py (json.item "connection_id")
      pure (ctx.withConnectionId (some requester) (ctx.nameOf .responder) id)
    else pure ctx

/-- The invitation is refused. -/
def cantAcceptTheInvitation (requester : Text) (ctx : Context) : Harness Context := do
  let data ← py (setItem ctx.responderInvitation "use_existing_connection" (.bool false))
  let (status, _) ← agentBackchannelPOST (cfg.userdata requester) "out-of-band"
    (some "receive-invitation") .null data false
  asserts (status = 500)
  pure { ctx with responderInvitation := data }

/-- The method for peer DIDs: that of the step before that of the invitation. -/
def methodFor (method : Option Text) (ctx : Context) : Option Text :=
  if method.getD [] ≠ [] then qualified method else qualified ctx.peerDidMethod

/-- The DID to use is of no account beside a method of the step. -/
def requestData (method : Option Text) (ctx : Context) : Json :=
  .obj (withDidMethod (methodFor method ctx) [] ++
    match if method.getD [] ≠ [] then none else ctx.useDid.filter fun did => did.truthy with
    | some did => [("use_did", did)]
    | none => [])

/-- Whether a DID of an answer begins so. -/
def didBegins (member start : Str) (json : Json) : Except PyError Bool := do
  match ← json.item member with
  | .str did => .ok (decide (start <+: did))
  | _ => .error .attributeError

def checksMethod (method : Option Text) (text : Text) : Harness Unit :=
  match method with
  | none => pure ()
  | some m => do
    let json ← py (loads text)
    let begins ← py (didBegins "my_did" (ofText m) json)
    asserts (begins = true)

def sendsTheRequest (requester responder : Text) (method : Option Text) (ctx : Context) :
    Harness Context := do
  let id ← py (ctx.connectionId (some requester) (some responder))
  let text ← posts (cfg.userdata requester) "did-exchange" "send-request" id
    (requestData method ctx)
  checksMethod (methodFor method ctx) text
  pure ctx

/-- The id of the responder's connection is asked for if it is not known; without an id the answer
is none. -/
def responderConnectionId (responder : Text) (ctx : Context) : Harness (Option Context) :=
  if (ctx.connectionIds.get? (some responder, ctx.nameOf .requester)).isSome then pure (some ctx)
  else do
    let invitationId ← py (ctx.responderInvitation.item "@id")
    let (text, json) ← getsResponse (cfg.userdata responder) invitationId
    if mentionsConnectionId text then
      let id ← py (json.item "connection_id")
      pure (some (ctx.withConnectionId (some responder) (ctx.nameOf .requester) id))
    else pure none

/-- Without an id the request is taken not to have arrived. -/
def doesNotReceiveTheRequest (responder : Text) (ctx : Context) : Harness Context := do
  match ← responderConnectionId cfg responder ctx with
  | none => pure ctx
  | some ctx =>
    reachesState cfg responder (ctx.nameOf .requester) "did-exchange" ["invitation-sent"] 2 ctx

def receivesTheRequest (responder : Text) (ctx : Context) : Harness Context := do
  match ← responderConnectionId cfg responder ctx with
  | none => throws .assertion
  | some ctx => pure ctx

def checksDids (ctx : Context) (text : Text) : Harness Unit :=
  match qualified ctx.peerDidMethod with
  | none => pure ()
  | some _ => do
    let json ← py (loads text)
    let mine ← py (didBegins "my_did" "did:" json)
    asserts (mine = true)
    let theirs ← py (didBegins "their_did" "did:" json)
    asserts (theirs = true)

def sendsAResponse (responder requester : Text) (ctx : Context) : Harness Context := do
  let id ← py (ctx.connectionId (some responder) (some requester))
  let data ← py (ctx.mediated responder (.obj []))
  let text ← posts (cfg.userdata responder) "did-exchange" "send-response" id data
  checksDids ctx text
  pure ctx

def sendsAResponseWithAProblem (responder requester : Text) (ctx : Context) :
    Harness Context := do
  let id ← py (ctx.connectionId (some responder) (some requester))
  let (status, _) ← agentBackchannelPOST (cfg.userdata responder) "did-exchange"
    (some "send-response") id .null false
  asserts (status = 400)
  pure ctx

def receivesTheResponse (requester : Text) (ctx : Context) : Harness Context :=
  reachesState cfg requester (ctx.nameOf .responder) "did-exchange" ["completed"] 2 ctx

def sendsComplete (ctx : Context) : Harness Context := pure ctx

/-- From the request to the connection of both. -/
def exchangeDids (sender receiver : Text) (ctx : Context) : Harness Context := do
  let ctx ← sendsTheRequest cfg receiver sender none ctx
  let ctx ← receivesTheRequest cfg sender ctx
  let ctx ← sendsAResponse cfg sender receiver ctx
  let ctx ← receivesTheResponse cfg receiver ctx
  let ctx ← sendsComplete ctx
  haveAConnection cfg sender receiver ctx

def createANewDidexchangeConnection (sender receiver : Text) (ctx : Context) :
    Harness Context := do
  let ctx := { ctx with
    useExistingConnection := false
    useExistingConnectionSuccessful := false }
  let ctx ← sendsAnExplicitInvitation cfg sender receiver none none ctx
  let ctx ← receivesTheInvitation cfg receiver ctx
  exchangeDids cfg sender receiver ctx

def createANewConnection (sender receiver : Text) (ctx : Context) : Harness Context :=
  if cfg.ByDidExchange then createANewDidexchangeConnection cfg sender receiver ctx
  else createANewV1Connection cfg sender receiver ctx

def haveAnExistingConnection (sender receiver : Text) (ctx : Context) : Harness Context :=
  if cfg.ByDidExchange then do
    let ctx := { ctx with
      useExistingConnection := true
      useExistingConnectionSuccessful := false }
    let ctx ← sendsAnExplicitInvitationWithAPublicDid cfg sender receiver ctx
    let ctx ← receivesTheInvitation cfg receiver ctx
    if ctx.useExistingConnectionSuccessful = true then pure ctx
    else exchangeDids cfg sender receiver ctx
  else createANewV1Connection cfg sender receiver ctx

/-! The mediation of 0211. The HTTP client refuses a url that is None here. -/

def requestsMediation (recipient mediator : Text) : Context → Harness Context :=
  commandsConnection cfg recipient (some mediator) "mediation" "send-request" .null

def grantsTheMediationRequest (mediator recipient : Text) : Context → Harness Context :=
  commandsConnection cfg mediator (some recipient) "mediation" "send-grant" .null

def deniesTheMediationRequest (mediator recipient : Text) : Context → Harness Context :=
  commandsConnection cfg mediator (some recipient) "mediation" "send-deny" .null

def mediationStates (recipient mediator : Text) (received sent : String) (ctx : Context) :
    Harness Context := do
  let _ ← py (ctx.connectionId (some mediator) (some recipient))
  let ctx ← reachesState cfg recipient (some mediator) "mediation" [received] 60 ctx
  reachesState cfg mediator (some recipient) "mediation" [sent] 60 ctx

def hasSetUpAsAMediator (recipient mediator : Text) : Context → Harness Context :=
  mediationStates cfg recipient mediator "grant-received" "grant-sent"

def hasDeniedTheMediationRequest (mediator recipient : Text) : Context → Harness Context :=
  mediationStates cfg recipient mediator "deny-received" "deny-sent"

def usesAsAMediator (recipient mediator : Text) (ctx : Context) : Harness Context :=
  pure { ctx with mediators := ctx.mediators.set recipient mediator }

/-! The invitations of DIDComm version 2. -/

def createsADidcommV2Invitation (inviter : Text) (goalCode : Option Text) (ctx : Context) :
    Harness Context := do
  let data : List (Str × Json) := match goalCode.filter (· ≠ []) with
    | some code => [("goal-code", .str (ofText code))]
    | none => []
  let text ← posts (cfg.userdata inviter) "oob-v2" "create-invitation" .null (.obj data)
  let json ← py (loads text)
  let invitation ← py (json.item "invitation")
  pure { ctx with
    invitationV2 := some ((ctx.invitationV2.getD Dict.empty).set inviter invitation) }

/-- `context.invitation_v2[inviter]` -/
def invitationOf (inviter : Text) (ctx : Context) : Except PyError Json :=
  match ctx.invitationV2 with
  | none => .error .attributeError
  | some invitations => match invitations.get? inviter with
    | some invitation => .ok invitation
    | none => .error .keyError

def acceptsTheDidcommV2Invitation (invitee inviter : Text) (ctx : Context) : Harness Context := do
  let invitation ← py (invitationOf inviter ctx)
  let text ← posts (cfg.userdata invitee) "oob-v2" "accept-invitation" .null
    (.obj [("invitation", invitation)])
  let json ← py (loads text)
  let id ← py (json.item "connection_id")
  pure (ctx.withConnectionId (some invitee) (some inviter) id)

def hasReceivedADidcommV2Message (inviter invitee : Text) (ctx : Context) : Harness Context := do
  let invitation ← py (invitationOf inviter ctx)
  let invitationId ← py (invitation.item "id")
  let json ← gets (cfg.userdata inviter) .command "oob-v2" (some "invitation-connection")
    invitationId
  let id ← py (json.item "connection_id")
  pure (ctx.withConnectionId (some inviter) (some invitee) id)

/-- The connection of an agent, which must be there. -/
def getsConnection (agent : Text) (id : Json) : Harness Unit := do
  let (status, _) ← agentBackchannelGET (cfg.userdata agent) .command "connection" none id false
  asserts (status = 200)

def haveADidcommV2Connection (inviter invitee : Text) (ctx : Context) : Harness Context := do
  asserts (ctx.connectionIds.get? (some inviter, some invitee)).isSome
  asserts (ctx.connectionIds.get? (some invitee, some inviter)).isSome
  let inviterId ← py (ctx.connectionId (some inviter) (some invitee))
  let inviteeId ← py (ctx.connectionId (some invitee) (some inviter))
  getsConnection cfg inviter inviterId
  getsConnection cfg invitee inviteeId
  pure ctx

end Steps

/-! Scenarios. -/

/-- A step of a feature file, under its words. -/
inductive Step
  | agents (table : List Row)
  | isRunningWithParameters (agent parameters : Text)
  | generatesAConnectionInvitation (inviter : Text)
  | receivesTheConnectionInvitation (invitee : Text)
  | sendsAConnectionResponse (inviter invitee : Text)
  | acceptsTheConnectionResponse (inviter invitee : Text)
  | sendsAConnectionRequest (invitee inviter : Text)
  | receivesTheConnectionRequest
  | receivesTheConnectionResponse (invitee : Text)
  | sendsAResponsePing (invitee : Text)
  | receivesTheResponsePing (inviter : Text)
  | haveAConnection (inviter invitee : Text)
  | haveTheConnection (inviter invitee : Text)
  | isConnectedTo (invitee inviter : Text)
  | sendsATrustPing (sender : Text)
  | inviteeIsComplete (invitee : Text)
  | inviterIsResponded (inviter : Text)
  | inviterIsComplete (inviter : Text)
  | sendsAcks (sender : Text)
  | sendsTrustping (sender receiver : Text)
  | sendsAnInterceptedRequest (interceptor inviter : Text)
  | sendsARequestNotAcceptedError (inviter : Text)
  | completeTheConnectionProcess (sender receiver : Text)
  | createANewConnection (sender receiver : Text)
  | haveAnExistingConnection (sender receiver : Text)
  | sendsAnExplicitInvitation (responder requester : Text) (method : Option Text)
      (table : Option (List InvitationRow))
  | sendsAnExplicitInvitationWithAPublicDid (responder requester : Text)
  | hasAResolvableDid (requester : Text)
  | acquiresTheResolvableDid
  | sendsTheRequestWithThePublicDid (requester responder : Text)
  | receivesTheRequestWithTheirPublicDid (responder : Text)
  | receivesTheInvitation (requester : Text)
  | cantAcceptTheInvitation (requester : Text)
  | sendsTheRequest (requester responder : Text) (method : Option Text)
  | doesNotReceiveTheRequest (responder : Text)
  | receivesTheRequest (responder : Text)
  | sendsAResponse (responder requester : Text)
  | sendsAResponseWithAProblem (responder requester : Text)
  | receivesTheResponse (requester : Text)
  | sendsComplete
  | createANewDidexchangeConnection (sender receiver : Text)
  | requestsMediation (recipient mediator : Text)
  | grantsTheMediationRequest (mediator recipient : Text)
  | deniesTheMediationRequest (mediator recipient : Text)
  | hasSetUpAsAMediator (recipient mediator : Text)
  | hasDeniedTheMediationRequest (mediator recipient : Text)
  | usesAsAMediator (recipient mediator : Text)
  | createsADidcommV2Invitation (inviter : Text) (goalCode : Option Text)
  | acceptsTheDidcommV2Invitation (invitee inviter : Text)
  | hasReceivedADidcommV2Message (inviter invitee : Text)
  | haveADidcommV2Connection (inviter invitee : Text)

def Step.perform (cfg : Config) (ctx : Context) : Step → Harness Context
  | .agents table => ConnectionSteps.agents cfg table ctx
  | .isRunningWithParameters a p => ConnectionSteps.isRunningWithParameters cfg a p ctx
  | .generatesAConnectionInvitation a => ConnectionSteps.generatesAConnectionInvitation cfg a ctx
  | .receivesTheConnectionInvitation a => ConnectionSteps.receivesTheConnectionInvitation cfg a ctx
  | .sendsAConnectionResponse a b => ConnectionSteps.sendsAConnectionResponse cfg a b ctx
  | .acceptsTheConnectionResponse a b => ConnectionSteps.acceptsTheConnectionResponse cfg a b ctx
  | .sendsAConnectionRequest a b => ConnectionSteps.sendsAConnectionRequest cfg a b ctx
  | .receivesTheConnectionRequest => ConnectionSteps.receivesTheConnectionRequest ctx
  | .receivesTheConnectionResponse a => ConnectionSteps.receivesTheConnectionResponse a ctx
  | .sendsAResponsePing a => ConnectionSteps.sendsAResponsePing cfg a ctx
  | .receivesTheResponsePing a => ConnectionSteps.receivesTheResponsePing cfg a ctx
  | .haveAConnection a b => ConnectionSteps.haveAConnection cfg a b ctx
  | .haveTheConnection a b => ConnectionSteps.haveTheConnection cfg a b ctx
  | .isConnectedTo a b => ConnectionSteps.isConnectedTo cfg a b ctx
  | .sendsATrustPing a => ConnectionSteps.sendsATrustPing cfg a ctx
  | .inviteeIsComplete a => ConnectionSteps.inviteeIsComplete cfg a ctx
  | .inviterIsResponded a => ConnectionSteps.inviterIsResponded cfg a ctx
  | .inviterIsComplete a => ConnectionSteps.inviterIsComplete cfg a ctx
  | .sendsAcks a => ConnectionSteps.sendsAcks cfg a ctx
  | .sendsTrustping a b => ConnectionSteps.sendsTrustping cfg a b ctx
  | .sendsAnInterceptedRequest a b => ConnectionSteps.sendsAnInterceptedRequest cfg a b ctx
  | .sendsARequestNotAcceptedError a => ConnectionSteps.sendsARequestNotAcceptedError cfg a ctx
  | .completeTheConnectionProcess a b => ConnectionSteps.completeTheConnectionProcess cfg a b ctx
  | .createANewConnection a b => ConnectionSteps.createANewConnection cfg a b ctx
  | .haveAnExistingConnection a b => ConnectionSteps.haveAnExistingConnection cfg a b ctx
  | .sendsAnExplicitInvitation a b m t => ConnectionSteps.sendsAnExplicitInvitation cfg a b m t ctx
  | .sendsAnExplicitInvitationWithAPublicDid a b =>
    ConnectionSteps.sendsAnExplicitInvitationWithAPublicDid cfg a b ctx
  | .hasAResolvableDid a => ConnectionSteps.hasAResolvableDid cfg a ctx
  | .acquiresTheResolvableDid => ConnectionSteps.acquiresTheResolvableDid ctx
  | .sendsTheRequestWithThePublicDid a b =>
    ConnectionSteps.sendsTheRequestWithThePublicDid cfg a b ctx
  | .receivesTheRequestWithTheirPublicDid a =>
    ConnectionSteps.receivesTheRequestWithTheirPublicDid cfg a ctx
  | .receivesTheInvitation a => ConnectionSteps.receivesTheInvitation cfg a ctx
  | .cantAcceptTheInvitation a => ConnectionSteps.cantAcceptTheInvitation cfg a ctx
  | .sendsTheRequest a b m => ConnectionSteps.sendsTheRequest cfg a b m ctx
  | .doesNotReceiveTheRequest a => ConnectionSteps.doesNotReceiveTheRequest cfg a ctx
  | .receivesTheRequest a => ConnectionSteps.receivesTheRequest cfg a ctx
  | .sendsAResponse a b => ConnectionSteps.sendsAResponse cfg a b ctx
  | .sendsAResponseWithAProblem a b => ConnectionSteps.sendsAResponseWithAProblem cfg a b ctx
  | .receivesTheResponse a => ConnectionSteps.receivesTheResponse cfg a ctx
  | .sendsComplete => ConnectionSteps.sendsComplete ctx
  | .createANewDidexchangeConnection a b =>
    ConnectionSteps.createANewDidexchangeConnection cfg a b ctx
  | .requestsMediation a b => ConnectionSteps.requestsMediation cfg a b ctx
  | .grantsTheMediationRequest a b => ConnectionSteps.grantsTheMediationRequest cfg a b ctx
  | .deniesTheMediationRequest a b => ConnectionSteps.deniesTheMediationRequest cfg a b ctx
  | .hasSetUpAsAMediator a b => ConnectionSteps.hasSetUpAsAMediator cfg a b ctx
  | .hasDeniedTheMediationRequest a b => ConnectionSteps.hasDeniedTheMediationRequest cfg a b ctx
  | .usesAsAMediator a b => ConnectionSteps.usesAsAMediator a b ctx
  | .createsADidcommV2Invitation a g => ConnectionSteps.createsADidcommV2Invitation cfg a g ctx
  | .acceptsTheDidcommV2Invitation a b => ConnectionSteps.acceptsTheDidcommV2Invitation cfg a b ctx
  | .hasReceivedADidcommV2Message a b => ConnectionSteps.hasReceivedADidcommV2Message cfg a b ctx
  | .haveADidcommV2Connection a b => ConnectionSteps.haveADidcommV2Connection cfg a b ctx

/-- A scenario ends with the first step that fails. -/
def scenario (cfg : Config) (steps : List Step) : Harness Context :=
  steps.foldlM (Step.perform cfg) Context.fresh

end AgentTestHarness.ConnectionSteps
