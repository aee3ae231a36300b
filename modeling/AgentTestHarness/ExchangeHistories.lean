import AgentTestHarness.ConnectionHistories
import AgentTestHarness.ProofSteps

/-! The exchange of a scenario as its answers tell it: the threads, the messages, the verdicts and
the revocation that the backchannels reported last. It is what the harness may speak of. -/
namespace AgentTestHarness.ExchangeHistories
open PyText OrderedDict PyJson JsonReading ServiceCalls ServiceHistories IssuanceSteps ProofSteps
open ConnectionSteps (Call Reply)
open ConnectionHistories
open LegacyIds (normalisedSchemaId normalisedCredDefId)

/-! The exchange. -/

structure Exchange where
  credThread : Json
  offer : Json
  proofThread : Json
  request : Json
  verdicts : Dict Json Bool
  revocation : Json × Json

def Exchange.start : Exchange := ⟨.null, .null, .null, .null, Dict.empty, .null, .null⟩

def issuing : List String := ["issue-credential", "issue-credential-v2", "issue-credential-v3"]

def proving : List String := ["proof", "proof-v2", "proof-v3"]

def answered (answer : Except PyError (ℕ × Text)) : Option Json :=
  match answer with
  | .ok (_, text) => (loads text).toOption
  | .error _ => none

/-- The thread and the message of what was created. -/
def created (json : Json) : Option (Json × Json) := do
  let record ← (json.item "record").toOption
  let thread ← (record.item "thread_id").toOption
  let message ← (json.item "message").toOption
  return (thread, message)

namespace Exchange

variable (x : Exchange)

/-- A proposal and an offer tell the thread. An offer on the thread of a proposal tells it only in
protocol 0036. -/
def afterIssuance (topic operation : String) (id json : Json) : Exchange :=
  if operation = "create-offer" then
    match created json with
    | some (thread, message) => { x with credThread := thread, offer := message }
    | none => x
  else if operation = "send-proposal" ∨ operation = "send-offer" ∧
      (topic = "issue-credential" ∨ topic = "issue-credential-v2" ∧ id = .null) then
    { x with credThread := (json.item "thread_id").toOption.getD x.credThread }
  else x

def verdict (topic : String) (id json : Json) : Option (Json × Bool) := do
  let key ← id.asKey.toOption
  let value ← (json.item "verified").toOption
  let verified ← if topic = "proof" then some (isVerified value) else (strtobool value).toOption
  return (key, verified)

/-- A request of the later protocols tells the thread where there was none. -/
def afterProof (topic operation : String) (id json : Json) : Exchange :=
  if operation = "create-request" then
    match created json with
    | some (thread, message) => { x with proofThread := thread, request := message }
    | none => x
  else if operation = "send-proposal" ∨ operation = "send-request" ∧
      (topic = "proof" ∨ x.proofThread.truthy = false) then
    { x with proofThread := (json.item "thread_id").toOption.getD x.proofThread }
  else if operation = "verify-presentation" then
    match verdict topic id json with
    | some (key, verified) => { x with verdicts := x.verdicts.set key verified }
    | none => x
  else x

def afterRegistry (json : Json) : Exchange :=
  match (json.item "revocation_id").toOption, (json.item "revoc_reg_id").toOption with
  | some revocationId, some revocRegId => { x with revocation := (revocationId, revocRegId) }
  | _, _ => x

def after (event : Event Reply) : Exchange :=
  match event.1, answered event.2 with
  | .post _ topic (some operation) id _ _, some json =>
    if topic ∈ issuing then x.afterIssuance topic operation id json
    else if topic ∈ proving then x.afterProof topic operation id json
    else x
  | .get _ .response topic _ _ _, some json =>
    if topic = "revocation-registry" then x.afterRegistry json else x
  | _, _ => x

end Exchange

/-- The exchange that the answers tell. -/
def exchange (past : List (Event Reply)) : Exchange := past.foldl Exchange.after Exchange.start

theorem exchange_concat (past : List (Event Reply)) (event : Event Reply) :
    exchange (past ++ [event]) = (exchange past).after event := List.foldl_concat ..

/-- A call whose answer tells nothing about the exchange. -/
def Quiet (call : Call) : Prop := ∀ (answer : Reply call) (x : Exchange), x.after ⟨call, answer⟩ = x

theorem quiet_get (agent : Text) (topic : String) (operation : Option String) (id : Option Str)
    (anoncreds : Bool) : Quiet (.get agent .command topic operation id anoncreds) := fun _ _ => rfl

theorem quiet_creation (agent : Text) (topic : String) (id data : Json) (anoncreds : Bool) :
    Quiet (.post agent topic none id data anoncreds) := fun _ _ => rfl

theorem quiet_delete (agent : Text) (topic : String) (id : Option Str) :
    Quiet (.delete agent topic id) := fun _ _ => rfl

/-- Other topics tell nothing. -/
theorem quiet_of_topic {call : Call} (topic : String) (htopic : call.topic = topic)
    (hother : topic ∉ issuing ∧ topic ∉ proving ∧ topic ≠ "revocation-registry") : Quiet call := by
  obtain ⟨hissuing, hproving, hregistry⟩ := htopic ▸ hother
  intro answer x
  unfold Exchange.after
  split
  · next heq _ =>
    change call = _ at heq
    subst heq
    exact (if_neg hissuing).trans (if_neg hproving)
  · next heq _ =>
    change call = _ at heq
    subst heq
    exact if_neg hregistry
  · rfl

section

variable {agent : Text} {topic operation : String} {id data json : Json} {anoncreds : Bool}
  {status : ℕ} {text : Text} (x : Exchange)

theorem answered_ok (hjson : loads text = .ok json) :
    answered (.ok (status, text)) = some json := by
  rw [answered, hjson]
  rfl

theorem after_issuance (htopic : topic ∈ issuing) (hjson : loads text = .ok json) :
    x.after ⟨.post agent topic (some operation) id data anoncreds, .ok (status, text)⟩ =
      x.afterIssuance topic operation id json := by
  unfold Exchange.after
  rw [answered_ok hjson]
  exact if_pos htopic

theorem after_proof (htopic : topic ∈ proving) (hjson : loads text = .ok json) :
    x.after ⟨.post agent topic (some operation) id data anoncreds, .ok (status, text)⟩ =
      x.afterProof topic operation id json := by
  have hdisjoint : ∀ t ∈ proving, t ∉ issuing := by decide
  unfold Exchange.after
  rw [answered_ok hjson]
  exact (if_neg (hdisjoint topic htopic)).trans (if_pos htopic)

/-- Whatever is answered, the exchange stays. -/
theorem quiet_of_afterIssuance (htopic : topic ∈ issuing)
    (h : ∀ (x : Exchange) json, x.afterIssuance topic operation id json = x) :
    Quiet (.post agent topic (some operation) id data anoncreds) := by
  intro answer x
  unfold Exchange.after
  split
  · next heq _ =>
    cases heq
    exact (if_pos htopic).trans (h x _)
  · next heq _ => cases heq
  · rfl

/-- An issuance that is under way tells nothing. -/
theorem quiet_issuance (htopic : topic ∈ issuing)
    (hoperation : operation ∉ ["create-offer", "send-proposal", "send-offer"]) :
    Quiet (.post agent topic (some operation) id data anoncreds) := by
  have hne : ∀ op ∈ ["create-offer", "send-proposal", "send-offer"], operation ≠ op :=
    fun op hop heq => hoperation (heq ▸ hop)
  refine quiet_of_afterIssuance htopic fun x json => ?_
  rw [Exchange.afterIssuance, if_neg (hne _ (by decide)), if_neg]
  rintro (h | ⟨h, -⟩)
  · exact hne _ (by decide) h
  · exact hne _ (by decide) h

/-- An offer of a later protocol on a thread tells nothing. -/
theorem quiet_offer (htopic : topic = "issue-credential-v2" ∧ id ≠ .null ∨
      topic = "issue-credential-v3") :
    Quiet (.post agent topic (some "send-offer") id data anoncreds) := by
  have hissuing : topic ∈ issuing := by
    rcases htopic with ⟨rfl, -⟩ | rfl
    · decide
    · decide
  refine quiet_of_afterIssuance hissuing fun x json => ?_
  rw [Exchange.afterIssuance, if_neg (by decide), if_neg]
  rcases htopic with ⟨rfl, hid⟩ | rfl
  · rintro (h | ⟨-, h | ⟨-, h⟩⟩)
    · exact absurd h (by decide)
    · exact absurd h (by decide)
    · exact hid h
  · rintro (h | ⟨-, h | ⟨h, -⟩⟩)
    · exact absurd h (by decide)
    · exact absurd h (by decide)
    · exact absurd h (by decide)

theorem quiet_presentation (htopic : topic ∈ proving) :
    Quiet (.post agent topic (some "send-presentation") id data anoncreds) := by
  have hdisjoint : ∀ t ∈ proving, t ∉ issuing := by decide
  intro answer x
  unfold Exchange.after
  split
  · next heq _ =>
    cases heq
    rw [if_neg (hdisjoint topic htopic), if_pos htopic, Exchange.afterProof, if_neg (by decide),
      if_neg (by simp), if_neg (by decide)]
  · next heq _ => cases heq
  · rfl

theorem afterIssuance_thread (hoperation : operation = "send-proposal" ∨
      operation = "send-offer" ∧
        (topic = "issue-credential" ∨ topic = "issue-credential-v2" ∧ id = .null)) :
    x.afterIssuance topic operation id json =
      { x with credThread := (json.item "thread_id").toOption.getD x.credThread } := by
  have hne : operation ≠ "create-offer" := by
    rcases hoperation with rfl | ⟨rfl, -⟩
    · decide
    · decide
  rw [Exchange.afterIssuance, if_neg hne, if_pos hoperation]

theorem afterProof_thread (hoperation : operation = "send-proposal" ∨
      operation = "send-request" ∧ (topic = "proof" ∨ x.proofThread.truthy = false)) :
    x.afterProof topic operation id json =
      { x with proofThread := (json.item "thread_id").toOption.getD x.proofThread } := by
  have hne : operation ≠ "create-request" := by
    rcases hoperation with rfl | ⟨rfl, -⟩
    · decide
    · decide
  rw [Exchange.afterProof, if_neg hne, if_pos hoperation]

end

theorem exchange_of_grows {past past' : List (Event Reply)} (h : Grows Quiet past past') :
    exchange past' = exchange past := foldl_of_grows (fun e he => he e.2) h Exchange.start

/-! What else the backchannels told. -/

def DidTold (past : List (Event Reply)) (did : Json) : Prop := ∃ agent, Told past agent "did" did

/-- An agent told that what it was asked to create has the id. -/
def CreatedTold (past : List (Event Reply)) (topic : String) (member : Str) (told : Json) : Prop :=
  ∃ agent data anoncreds text json,
    (⟨.post agent topic none .null data anoncreds, .ok (200, text)⟩ : Event Reply) ∈ past ∧
      loads text = .ok json ∧ json.item member = .ok told

/-- The recorded form of an id that was told when something was created. -/
def IdTold (past : List (Event Reply)) (topic : String) (member : Str)
    (normalised : Str → Except PyError Str) (id : Json) : Prop :=
  ∃ told, CreatedTold past topic member told ∧ recorded normalised told = .ok id

def SchemaTold (past : List (Event Reply)) (id : Json) : Prop :=
  IdTold past "schema" "schema_id" normalisedSchemaId id

def DefinitionTold (past : List (Event Reply)) (id : Json) : Prop :=
  IdTold past "credential-definition" "credential_definition_id" normalisedCredDefId id

/-- A holder told the id when it had stored a credential. -/
def Stored (past : List (Event Reply)) (id : Json) : Prop :=
  ∃ agent topic thread data text json,
    (⟨.post agent topic (some "store") thread data false, .ok (200, text)⟩ : Event Reply) ∈ past ∧
      loads text = .ok json ∧ json.item "state" = .ok (.str "done") ∧
      (topic = "issue-credential" ∧ json.item "credential_id" = .ok id ∨
        topic = "issue-credential-v2" ∧ CredentialIds.findCredentialId json = id)

theorem DidTold.mono {past past' : List (Event Reply)} {did : Json} (h : DidTold past did)
    (hpast : past <+: past') : DidTold past' did := by
  obtain ⟨agent, htold⟩ := h
  exact ⟨agent, htold.mono hpast⟩

theorem CreatedTold.mono {past past' : List (Event Reply)} {topic : String} {member : Str}
    {told : Json} (h : CreatedTold past topic member told) (hpast : past <+: past') :
    CreatedTold past' topic member told := by
  obtain ⟨agent, data, anoncreds, text, json, hmem, hjson⟩ := h
  exact ⟨agent, data, anoncreds, text, json, hpast.subset hmem, hjson⟩

theorem IdTold.mono {past past' : List (Event Reply)} {topic : String} {member : Str}
    {normalised : Str → Except PyError Str} {id : Json} (h : IdTold past topic member normalised id)
    (hpast : past <+: past') : IdTold past' topic member normalised id := by
  obtain ⟨told, htold, hid⟩ := h
  exact ⟨told, htold.mono hpast, hid⟩

theorem Stored.mono {past past' : List (Event Reply)} {id : Json} (h : Stored past id)
    (hpast : past <+: past') : Stored past' id := by
  obtain ⟨agent, topic, thread, data, text, json, hmem, hjson⟩ := h
  exact ⟨agent, topic, thread, data, text, json, hpast.subset hmem, hjson⟩

/-! What the harness may call. -/

/-- A connection of the agent, or none. -/
def OwnOrNull (past : List (Event Reply)) (agent : Text) (id : Json) : Prop :=
  id = .null ∨ Own past agent id

/-- A connection of some agent, or none. -/
def SomeOwn (past : List (Event Reply)) (id : Json) : Prop :=
  id = .null ∨ ∃ agent, Own past agent id

/-- What starts an exchange need not go on a thread. -/
def starting : List String :=
  ["prepare-json-ld", "send-proposal", "create-offer", "send-offer", "create-request"]

/-- A command of an issuance goes on its thread. A request without one goes on a connection. -/
def IssuanceFits (past : List (Event Reply)) (agent : Text) (topic operation : String)
    (id data : Json) : Prop :=
  (id = (exchange past).credThread ∨ operation ∈ starting ∧ id = .null ∨
    topic = "issue-credential" ∧ operation = "send-request" ∧
      (exchange past).credThread.truthy = false ∧ ∃ other, Own past other id) ∧
  (topic ≠ "issue-credential-v3" → ∀ connection, data.get "connection_id" = .ok connection →
    OwnOrNull past agent connection) ∧
  (operation = "send-proposal" → ∀ connection, data.get "connectionID" = .ok connection →
    OwnOrNull past agent connection)

/-- The connections that a request or a proposal names are those of some agent. -/
def OnConnections (past : List (Event Reply)) (data : Json) : Prop :=
  (∀ connection, data.get "connection_id" = .ok connection → SomeOwn past connection) ∧
    ∀ member ∈ (["presentation_request", "presentation_proposal"] : List Str), ∀ inner,
      data.get member = .ok inner → ∀ connection, inner.get "connection_id" = .ok connection →
        SomeOwn past connection

/-- A proof goes on its thread, and is asked for or proposed on a connection. -/
def ProofFits (past : List (Event Reply)) (operation : String) (id data : Json) : Prop :=
  (id = (exchange past).proofThread ∨ operation ∈ "send-request" :: starting ∧ id = .null) ∧
  (operation = "send-request" ∨ operation = "send-proposal" → OnConnections past data)

/-- What is revoked is what an agent reported last, and the holder is told on the issuer's own
connection. -/
def RevocationFits (past : List (Event Reply)) (agent : Text) (data : Json) : Prop :=
  data.get "cred_rev_id" = .ok (exchange past).revocation.1 ∧
    data.get "rev_registry_id" = .ok (exchange past).revocation.2 ∧
    ∀ connection, data.get "notify_connection_id" = .ok connection → Own past agent connection

/-- A message in an invitation is the one that was created last. -/
def MessageFits (past : List (Event Reply)) (data : Json) : Prop :=
  ∃ message, data = .obj [("attachments", .arr [message])] ∧
    (message = (exchange past).offer ∨ message = (exchange past).request)

/-- A schema is created for a DID that an agent told, and a credential definition for its schema. -/
def SchemaFits (past : List (Event Reply)) (data : Json) : Prop :=
  ∃ did, data.item "issuer_id" = .ok did ∧ (did = .null ∨ DidTold past did)

def DefinitionFits (past : List (Event Reply)) (data : Json) : Prop :=
  ∃ schemaId did, SchemaTold past schemaId ∧ DidTold past did ∧
    (data.item "schema_id" = .ok schemaId ∧ data.item "issuer_id" = .ok did ∨
      ∃ definition, data.item "credential_definition" = .ok definition ∧
        definition.item "schemaId" = .ok schemaId ∧ definition.item "issuerId" = .ok did)

def Fits (past : List (Event Reply)) : Call → Prop
  | .post agent topic (some operation) id data _ =>
    topic ∈ issuing ∧ IssuanceFits past agent topic operation id data ∨
    topic ∈ proving ∧ ProofFits past operation id data ∨
    topic = "revocation" ∧ operation = "revoke" ∧ id = .null ∧ RevocationFits past agent data ∨
    topic = "out-of-band" ∧ operation = "send-invitation-message" ∧ id = .null ∧
      MessageFits past data
  | .post _ topic none id data _ =>
    id = .null ∧ (topic = "schema" ∧ SchemaFits past data ∨
      topic = "credential-definition" ∧ DefinitionFits past data)
  | .get _ .command topic operation id _ =>
    ∀ s ∈ id, topic = "schema" ∧ SchemaTold past (.str s) ∨
      topic = "credential-definition" ∧ DefinitionTold past (.str s) ∨
      topic = "credential" ∧ Stored past (.str s) ∨
      operation = none ∧ topic ∈ issuing ∧ .str s = (exchange past).credThread ∨
      operation = none ∧ topic ∈ proving ∧ .str s = (exchange past).proofThread ∨
      topic = "issue-credential-v3" ∧
        s ∈ (["retrieve-credential-proposal", "retrieve-credential-application"] : List Str)
  | .get _ .response topic _ id _ =>
    ∀ s ∈ id, topic ∈ ["revocation-registry", "revocation-notification"] ∧
        .str s = (exchange past).credThread ∨
      topic = "revocation-notification" ∧ ∃ registry revocation,
        shown (exchange past).revocation.2 = .ok registry ∧
        shown (exchange past).revocation.1 = .ok revocation ∧
        s = ("indy::" : Str) ++ registry ++ ("::" : Str) ++ revocation
  | .delete _ topic id => topic = "credential" ∧ ∀ s ∈ id, Stored past (.str s)

/-- A call of the steps that connect agents, or one of the exchange. -/
def Allowed (past : List (Event Reply)) (call : Call) : Prop := Grounded past call ∨ Fits past call

/-! What the context holds. -/

/-- What stays true while the history grows. -/
structure Holds (cfg : Config) (past : List (Event Reply)) (ctx : Context) : Prop where
  connections : Sound cfg.toConfig past ctx.connections
  dids : ∀ name did, ctx.issuerDidDict.get? name = some did → DidTold past did
  did : ctx.issuerDid = .null ∨ DidTold past ctx.issuerDid
  schemaIds : ∀ name id, ctx.issuerSchemaIdDict.get? name = some id → SchemaTold past id
  definitionIds : ∀ name id, ctx.credentialDefinitionIdDict.get? name = some id →
    DefinitionTold past id
  credentials : ∀ name, ∀ id ∈ ctx.credentialIds name, Stored past id

/-- The exchange that the context knows of. -/
def known (ctx : Context) : Exchange where
  credThread := ctx.credThreadId
  offer := ctx.credentialOffer
  proofThread := ctx.presentationThreadId
  request := ctx.proofRequest
  verdicts := ctx.credentialVerificationDict
  revocation := (ctx.credRevId, ctx.revRegId)

/-- The context knows exactly what the answers told last. -/
structure Knows (cfg : Config) (past : List (Event Reply)) (ctx : Context) : Prop
    extends Holds cfg past ctx where
  known : known ctx = exchange past

section

variable {cfg : Config} {past past' : List (Event Reply)} {ctx : Context}

theorem Holds.mono (h : Holds cfg past ctx) (hpast : past <+: past') : Holds cfg past' ctx where
  connections := h.connections.mono hpast
  dids name did hdid := (h.dids name did hdid).mono hpast
  did := h.did.imp_right (·.mono hpast)
  schemaIds name id hid := (h.schemaIds name id hid).mono hpast
  definitionIds name id hid := (h.definitionIds name id hid).mono hpast
  credentials name id hid := (h.credentials name id hid).mono hpast

theorem Knows.grows (h : Knows cfg past ctx) (hpast : Grows Quiet past past') :
    Knows cfg past' ctx where
  toHolds := h.toHolds.mono hpast.isPrefix
  known := h.known.trans (exchange_of_grows hpast).symm

/-- The context follows the exchange. -/
theorem Knows.after (h : Knows cfg past ctx) {event : Event Reply} {ctx' : Context}
    (hholds : Holds cfg (past ++ [event]) ctx')
    (hknown : ExchangeHistories.known ctx' = (ExchangeHistories.known ctx).after event) :
    Knows cfg (past ++ [event]) ctx' where
  toHolds := hholds
  known := by rw [hknown, h.known, exchange_concat]

theorem Knows.credThread (h : Knows cfg past ctx) : (exchange past).credThread = ctx.credThreadId :=
  congrArg Exchange.credThread h.known.symm

theorem Knows.proofThread (h : Knows cfg past ctx) :
    (exchange past).proofThread = ctx.presentationThreadId :=
  congrArg Exchange.proofThread h.known.symm

theorem Knows.quiet (h : Knows cfg past ctx) {event : Event Reply} (hquiet : Quiet event.1) :
    Knows cfg (past ++ [event]) ctx :=
  h.grows ⟨[event], rfl, List.forall_mem_singleton.mpr hquiet⟩

theorem holds_fresh (cfg : Config) : Holds cfg [] Context.fresh where
  connections := sound_fresh cfg.toConfig
  dids _ _ h := by cases h
  did := .inl rfl
  schemaIds _ _ h := by cases h
  definitionIds _ _ h := by cases h
  credentials _ _ h := absurd h List.not_mem_nil

namespace Holds

theorem withRole (h : Holds cfg past ctx) (role : ConnectionSteps.Role) (name : Text) :
    Holds cfg past (ctx.withRole role name (cfg.userdata name)) :=
  { h with connections := h.connections.withRole role name }

theorem withDid (h : Holds cfg past ctx) {did : Json} (hdid : DidTold past did) (name : Str) :
    Holds cfg past { ctx with issuerDidDict := ctx.issuerDidDict.set name did } :=
  { h with dids := Dict.forall_get?_set h.dids hdid }

theorem withSchemaId (h : Holds cfg past ctx) {id : Json} (hid : SchemaTold past id) (name : Str) :
    Holds cfg past { ctx with issuerSchemaIdDict := ctx.issuerSchemaIdDict.set name id } :=
  { h with schemaIds := Dict.forall_get?_set h.schemaIds hid }

theorem withDefinitionId (h : Holds cfg past ctx) {id : Json} (hid : DefinitionTold past id)
    (name : Str) :
    Holds cfg past { ctx with
      credentialDefinitionIdDict := ctx.credentialDefinitionIdDict.set name id } :=
  { h with definitionIds := Dict.forall_get?_set h.definitionIds hid }

/-- The ids of a schema become others that were told. -/
theorem withCredentialIds (h : Holds cfg past ctx) {ids : List Json} (name : Str)
    (hids : ∀ id ∈ ids, Stored past id) :
    Holds cfg past { ctx with credentialIdDict := ctx.credentialIdDict.set name ids } :=
  { h with
    credentials := fun n id hid => by
      change id ∈ ((ctx.credentialIdDict.set name ids).get? n).getD [] at hid
      rw [Dict.get?_set] at hid
      split at hid
      · exact hids id hid
      · exact h.credentials n id hid }

theorem withCredentialId (h : Holds cfg past ctx) {id : Json} (hid : Stored past id) (name : Str) :
    Holds cfg past (ctx.withCredentialId name id) :=
  h.withCredentialIds name fun i hi => (List.mem_append.mp hi).elim (h.credentials name i)
    fun hi => List.mem_singleton.mp hi ▸ hid

theorem own (h : Holds cfg past ctx) {name : Text} {partner : Option Text} {id : Json}
    (hid : ctx.connections.connectionId (some name) partner = .ok id) {agent : Text}
    (hagent : cfg.userdata name = some agent) : Own past agent id :=
  h.connections.own hid hagent

end Holds

end

end AgentTestHarness.ExchangeHistories
