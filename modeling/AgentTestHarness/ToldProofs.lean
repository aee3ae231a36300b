import AgentTestHarness.ToldIssuances

/-! The steps for proofs and revocation keep what the context knows of the exchange. In every
scenario, whatever the backchannels answer, the harness speaks of what it was told. -/
namespace AgentTestHarness.ToldProofs
open PyText OrderedDict PyJson JsonReading ServiceCalls ServiceHistories IssuanceSteps ProofSteps
open ConnectionSteps (Call Reply StepError Harness py asserts posts pathId agentBackchannelGET
  agentBackchannelDELETE expectedAgentState)
open ConnectionHistories ExchangeHistories ToldIssuances
open OwnConnectionIds (acme bob)
open Program

section

variable {cfg : Config} {past : List (Event Reply)} {ctx : Context}

/-! Calls for a proof. -/

theorem proofEndpoint_mem (cfg : Config) : proofEndpoint cfg ∈ proving := by
  unfold proofEndpoint
  split
  · decide
  · decide

theorem proofEndpoint_ne (cfg : Config) : proofEndpoint cfg ≠ "proof" := by
  unfold proofEndpoint
  split
  · decide
  · decide

theorem someOwn_of_connectionId (h : Knows cfg past ctx) {name : Text} {partner : Option Text}
    {id : Json} (hid : ctx.connections.connectionId (some name) partner = .ok id) :
    SomeOwn past id := by
  obtain ⟨agent, -, hown⟩ := h.connections.ownOf hid
  exact .inr ⟨agent, hown⟩

/-- A message with a connection in one of its places. -/
theorem onConnections_of {data outer request proposal : Json}
    (houter : data.get "connection_id" = .ok outer)
    (hrequest : data.get "presentation_request" = .ok request)
    (hproposal : data.get "presentation_proposal" = .ok proposal) (hown : SomeOwn past outer)
    (hrequested : ∀ id, request.get "connection_id" = .ok id → SomeOwn past id)
    (hproposed : ∀ id, proposal.get "connection_id" = .ok id → SomeOwn past id) :
    OnConnections past data := by
  refine ⟨fun id hid => ?_, fun member hmember inner hinner id hid => ?_⟩
  · obtain rfl := Except.ok.inj (houter.symm.trans hid)
    exact hown
  · rcases List.mem_pair.mp hmember with rfl | rfl
    · obtain rfl := Except.ok.inj (hrequest.symm.trans hinner)
      exact hrequested id hid
    · obtain rfl := Except.ok.inj (hproposal.symm.trans hinner)
      exact hproposed id hid

theorem fits_proof {agent : Text} {topic operation : String} {id data : Json}
    (htopic : topic ∈ proving)
    (hid : id = (exchange past).proofThread ∨ operation ∈ "send-request" :: starting ∧ id = .null)
    (hdata : OnConnections past data) :
    Fits past (.post agent topic (some operation) id data false) :=
  .inr (.inl ⟨htopic, hid, fun _ => hdata⟩)

/-- What neither asks for a proof nor proposes one goes on the thread. -/
theorem fits_proofThread (h : Knows cfg past ctx) {agent : Text} {topic operation : String}
    {data : Json} (htopic : topic ∈ proving) (hrequest : operation ≠ "send-request")
    (hproposal : operation ≠ "send-proposal") :
    Fits past (.post agent topic (some operation) ctx.presentationThreadId data false) :=
  .inr (.inl ⟨htopic, .inl h.proofThread.symm, fun hop => (hop.elim hrequest hproposal).elim⟩)

/-- A request that is sent by other means names no connection. -/
theorem fits_createRequest {agent : Text} {topic : String} {data : Json}
    (htopic : topic ∈ proving) :
    Fits past (.post agent topic (some "create-request") .null data false) :=
  .inr (.inl ⟨htopic, .inr ⟨by decide, rfl⟩, fun hop =>
    (hop.elim (fun heq => absurd heq (by decide)) fun heq => absurd heq (by decide))⟩)

/-- The state of the proof is asked for by its thread. -/
theorem fits_proofState (h : Knows cfg past ctx) {agent : Text} {topic : String} {s : Str}
    (htopic : topic ∈ proving) (hs : ctx.presentationThreadId = .str s) :
    Fits past (.get agent .command topic none (some s) false) := by
  intro t ht
  obtain rfl := Option.some.inj ht
  exact .inr (.inr (.inr (.inr (.inl ⟨rfl, htopic, hs.symm.trans h.proofThread.symm⟩))))

/-- A proposal or a request that starts a proof. -/
theorem knows_proofStarts (h : Knows cfg past ctx) {url : Option Text} {topic operation : String}
    {id data : Json} {post : List (Event Reply) → Json → Prop} (htopic : topic ∈ proving)
    (hoperation : operation = "send-proposal" ∨ operation = "send-request" ∧
      (topic = "proof" ∨ ctx.presentationThreadId.truthy = false))
    (hcall : ∀ agent, url = some agent →
      Fits past (.post agent topic (some operation) id data false))
    (hpost : ∀ json past', Knows cfg past' { ctx with
      presentationThreadId := (json.item "thread_id").toOption.getD ctx.presentationThreadId } →
        post past' json) :
    Meets Allowed past (commands url topic operation id data) post := by
  refine meets_commands (fun agent hagent => .inr (hcall agent hagent)) ?_
  refine fun agent text json _ hjson => hpost json _ (h.after
    { h.toHolds.mono (List.prefix_append _ _) with } ?_)
  rw [after_proof _ htopic hjson, afterProof_thread _ hoperation]
  rfl

/-- A request on the thread of a proposal leaves the thread. -/
theorem knows_requestAgain (h : Knows cfg past ctx) {url : Option Text} {topic : String}
    {id data : Json} {post : List (Event Reply) → Json → Prop} (htopic : topic ∈ proving)
    (hlater : topic ≠ "proof") (htruthy : ctx.presentationThreadId.truthy = true)
    (hcall : ∀ agent, url = some agent →
      Fits past (.post agent topic (some "send-request") id data false))
    (hpost : ∀ json past', Knows cfg past' ctx → post past' json) :
    Meets Allowed past (commands url topic "send-request" id data) post := by
  refine meets_commands (fun agent hagent => .inr (hcall agent hagent)) ?_
  refine fun agent text json _ hjson => hpost json _ (h.after
    (h.toHolds.mono (List.prefix_append _ _)) ?_)
  have hkept : ¬ ("send-request" = "send-proposal" ∨ "send-request" = "send-request" ∧
      (topic = "proof" ∨ (known ctx).proofThread.truthy = false)) := by
    rintro (heq | ⟨-, heq | hfalse⟩)
    · exact absurd heq (by decide)
    · exact hlater heq
    · exact Bool.false_ne_true (hfalse.symm.trans htruthy)
  rw [after_proof _ htopic hjson, Exchange.afterProof, if_neg (by decide), if_neg hkept,
    if_neg (by decide)]

/-- A request that is sent by other means. -/
theorem knows_createsRequest (h : Knows cfg past ctx) {url : Option Text} {topic : String}
    {data : Json} {post : List (Event Reply) → Json → Prop} (htopic : topic ∈ proving)
    (hpost : ∀ json past', (∀ thread message, created json = some (thread, message) →
      Knows cfg past' { ctx with presentationThreadId := thread, proofRequest := message }) →
        post past' json) :
    Meets Allowed past (commands url topic "create-request" .null data) post := by
  refine meets_commands (fun _ _ => .inr (fits_createRequest htopic)) ?_
  refine fun agent text json _ hjson => hpost json _ fun thread message hcreated => h.after
    { h.toHolds.mono (List.prefix_append _ _) with } ?_
  rw [after_proof _ htopic hjson, Exchange.afterProof, if_pos rfl, hcreated]
  rfl

theorem knows_presents (h : Knows cfg past ctx) {url : Option Text} {topic : String} {data : Json}
    {post : List (Event Reply) → Text → Prop} (htopic : topic ∈ proving)
    (hpost : ∀ text past', Knows cfg past' ctx → post past' text) :
    Meets Allowed past (posts url topic "send-presentation" ctx.presentationThreadId data) post :=
  knows_posts h (fun _ _ => fits_proofThread h htopic (by decide) (by decide))
    (fun _ => quiet_presentation htopic) fun _ text past' _ _ h' => hpost text past' h'

/-- The verdict is told with the answer, and known as it was told. -/
theorem knows_verifies (h : Knows cfg past ctx) {url : Option Text} {topic : String}
    {post : List (Event Reply) → Json → Prop} (htopic : topic ∈ proving)
    (hpost : ∀ json past', (∀ key verified ctx', ctx.presentationThreadId.asKey = .ok key →
      Exchange.verdict topic ctx.presentationThreadId json = some (key, verified) →
      withVerification verified ctx = .ok ctx' → Knows cfg past' ctx') → post past' json) :
    Meets Allowed past
      (commands url topic "verify-presentation" ctx.presentationThreadId .null) post := by
  refine meets_commands
    (fun _ _ => .inr (fits_proofThread h htopic (by decide) (by decide))) ?_
  intro agent text json _ hjson
  refine hpost json _ fun key verified ctx' hkey hverdict hctx => ?_
  obtain ⟨key', hkey', hctx⟩ := bind_eq_ok hctx
  obtain rfl := Except.ok.inj (hkey.symm.trans hkey')
  obtain rfl := Except.ok.inj hctx
  refine h.after { h.toHolds.mono (List.prefix_append _ _) with } ?_
  rw [after_proof _ htopic hjson, Exchange.afterProof, if_neg (by decide), if_neg (by simp),
    if_pos rfl, hverdict]
  rfl

/-! Credentials to be presented. -/

theorem knows_setCredentialData {credentialData : Text} {entry : Text × Json} {ctx' : Context}
    (h : Knows cfg past ctx) (hset : setCredentialData cfg credentialData ctx entry = .ok ctx') :
    Knows cfg past ctx' := by
  obtain ⟨json, -, hset⟩ := bind_eq_ok hset
  obtain ⟨data, -, hset⟩ := bind_eq_ok hset
  obtain ⟨attributes, -, hset⟩ := bind_eq_ok hset
  rw [← Except.ok.inj hset]
  exact { h with }

theorem knows_withSchema {entry : Text × Json} {ctx' : Context} (h : Knows cfg past ctx)
    (hschema : withSchema entry ctx = .ok ctx') : Knows cfg past ctx' := by
  obtain ⟨supportRevocation, -, hschema⟩ := bind_eq_ok hschema
  rw [← Except.ok.inj hschema]
  exact { h with }

theorem knows_withCredentialData {entry : Text × Json} {ctx' : Context} (h : Knows cfg past ctx)
    (hdata : withCredentialData entry ctx = .ok ctx') : Knows cfg past ctx' := by
  obtain ⟨credentialData, -, hdata⟩ := bind_eq_ok hdata
  rw [← Except.ok.inj hdata]
  exact { h with }

theorem knows_withHolderAndIssuer (h : Knows cfg past ctx) (prover issuer : Text) :
    Meets Allowed past (withHolderAndIssuer cfg prover issuer ctx) (Knows cfg) := by
  refine Meets.bind (meets_asserts fun _ => Meets.bind (meets_asserts fun _ => meets_pure ?_))
  have hroles := (h.toHolds.withRole .holder prover).withRole .issuer issuer
  exact { hroles with known := h.known }

theorem knows_haveAnExistingConnection (h : Knows cfg past ctx) (issuer prover : Text) :
    Meets Allowed past (haveAnExistingConnection cfg issuer prover ctx) (Knows cfg) :=
  knows_connects h (OwnConnectionIds.sound_haveAnExistingConnection h.connections issuer prover)

/-- The context knows the exchange, and the prover has a credential in its wallet. -/
def HasCredential (cfg : Config) (prover : Text) (past : List (Event Reply)) (ctx : Context) :
    Prop :=
  Knows cfg past ctx ∧ ∃ agent, cfg.userdata prover = some agent ∧ InWallet past agent

theorem knows_issueTo (h : Knows cfg past ctx) (prover issuer : Text) :
    Meets Allowed past (issueTo cfg prover issuer ctx) (HasCredential cfg prover) := by
  refine knows_then (meets_ite (fun _ => knows_proposesACredential h prover issuer)
    fun _ => meets_pure h) fun _ _ h => ?_
  refine knows_then (knows_offersACredential h issuer) fun _ _ h => ?_
  refine knows_then (knows_requestsTheCredential h prover) fun _ _ h => ?_
  refine knows_then (knows_issuesTheCredential h issuer) fun _ _ h => ?_
  refine knows_then (knows_acknowledgesTheCredentialIssue h prover) fun _ _ h => ?_
  exact knows_hasTheCredentialIssued h prover

theorem knows_hasAnIssuedCredential (h : Knows cfg past ctx) (prover issuer : Text) :
    Meets Allowed past (hasAnIssuedCredential cfg prover issuer ctx)
      (HasCredential cfg prover) := by
  refine knows_then (meets_ite (fun _ => meets_pure h)
    fun _ => knows_haveAnExistingConnection h issuer prover) fun _ _ h => ?_
  refine knows_then (meets_ite
    (fun _ => knows_hasAnExistingSchemaAndCredentialDefinition h issuer)
    fun _ => meets_foldlM (fun (entry : Text × Json) past c (h : Knows cfg past c) =>
      Meets.bind (meets_py fun c hschema =>
        knows_hasAnExistingSchemaAndCredentialDefinition (knows_withSchema h hschema) issuer)) _ h)
    fun _ _ h => ?_
  refine knows_then (knows_withHolderAndIssuer h prover issuer) fun _ ctx h => ?_
  refine meets_ite (fun _ => knows_issueTo h prover issuer) fun hne => ?_
  -- The last schema's credential is the one of the conclusion.
  have hstep : ∀ (entry : Text × Json) past c, Knows cfg past c → Meets Allowed past (do
      let c ← py (withCredentialData entry c)
      issueTo cfg prover issuer c) (HasCredential cfg prover) := fun entry _ _ h =>
    Meets.bind (meets_py fun _ hdata =>
      knows_issueTo (knows_withCredentialData h hdata) prover issuer)
  obtain hnil | ⟨init, last, hlast⟩ := List.eq_nil_or_concat ctx.schemaDict.entries
  · exact absurd hnil hne
  · rw [hlast, List.concat_eq_append]
    exact meets_foldlM_concat (fun entry past c h => (hstep entry past c h).mono fun _ _ _ h => h.1)
      (fun past c h => hstep last past c h) init h

theorem knows_hasAnIssuedCredentialWith (h : Knows cfg past ctx)
    (prover issuer credentialData : Text) :
    Meets Allowed past (hasAnIssuedCredentialWith cfg prover issuer credentialData ctx)
      (HasCredential cfg prover) :=
  Meets.bind (meets_py fun _ hdata => knows_hasAnIssuedCredential
    (keeps_foldlM (fun _ _ _ hc hset => knows_setCredentialData hc hset) _ h hdata) prover issuer)

/-! Protocol 0037. -/

theorem knows_dataOfRequest (h : Knows cfg past ctx) {data : Json} {ctx' : Context}
    (hdata : dataOfRequest ctx = .ok (data, ctx')) : Knows cfg past ctx' := by
  unfold dataOfRequest at hdata
  split at hdata
  · obtain ⟨request, -, hdata⟩ := bind_eq_ok hdata
    obtain ⟨-, rfl⟩ := Prod.mk.inj (Except.ok.inj hdata)
    exact { h with }
  · obtain ⟨request, -, hdata⟩ := bind_eq_ok hdata
    obtain ⟨-, rfl⟩ := Prod.mk.inj (Except.ok.inj hdata)
    exact h

theorem knows_sendsARequestForProof (h : Knows cfg past ctx) (verifier prover : Text) :
    Meets Allowed past (sendsARequestForProof verifier prover ctx) (Knows cfg) := by
  refine Meets.bind (meets_py fun (data, ctx₁) hdata => ?_)
  have h₁ := knows_dataOfRequest h hdata
  refine Meets.bind (meets_py fun connectionId hid => ?_)
  refine Meets.bind (knows_proofStarts h₁ (by decide) (.inr ⟨rfl, .inl rfl⟩) (fun _ _ => ?_) ?_)
  · refine fits_proof (by decide) (.inr ⟨by decide, rfl⟩) ?_
    exact onConnections_of rfl rfl rfl (someOwn_of_connectionId h₁ hid)
      (fun _ hi => .inl (Except.ok.inj hi).symm) fun _ hi => by cases hi
  · intro json past' h'
    refine Meets.bind (meets_py fun thread hthread => ?_)
    rw [hthread] at h'
    refine Meets.bind (knows_states h' (fun _ _ h' s hs => fits_proofState h' (by decide) hs) ?_)
    exact fun _ _ _ h' _ => meets_pure h'

theorem knows_createsAProofRequest (h : Knows cfg past ctx) :
    Meets Allowed past (createsAProofRequest ctx) (Knows cfg) := by
  refine Meets.bind (meets_py fun (data, ctx₁) hdata => ?_)
  refine Meets.bind (knows_createsRequest (knows_dataOfRequest h hdata) (by decide) ?_)
  exact fun json past' h' => Meets.bind (meets_createdMessage fun thread message hcreated =>
    meets_pure (h' thread message hcreated))

theorem knows_sendsAPresentationRequest (h : Knows cfg past ctx)
    (verifier requestForProof prover : Text) :
    Meets Allowed past (sendsAPresentationRequest cfg verifier requestForProof prover ctx)
      (Knows cfg) := by
  refine Meets.bind (meets_py fun request _ => knows_sendsARequestForProof ?_ verifier prover)
  exact { h with }

theorem knows_presentationToSend (h : Knows cfg past ctx) {data : Json} {ctx' : Context}
    (hdata : presentationToSend cfg ctx = .ok (data, ctx')) : Knows cfg past ctx' := by
  unfold presentationToSend at hdata
  split at hdata
  · obtain ⟨presentation, -, hdata⟩ := bind_eq_ok hdata
    obtain ⟨-, rfl⟩ := Prod.mk.inj (Except.ok.inj hdata)
    exact { h with }
  · obtain ⟨name, -, hdata⟩ := bind_eq_ok hdata
    obtain ⟨id, -, hdata⟩ := bind_eq_ok hdata
    obtain ⟨-, rfl⟩ := Prod.mk.inj (Except.ok.inj hdata)
    exact h

theorem knows_makesThePresentation (h : Knows cfg past ctx) :
    Meets Allowed past (makesThePresentation cfg ctx) (Knows cfg) := by
  refine Meets.bind (meets_py fun (presentation, ctx₁) hdata => ?_)
  exact Meets.bind (knows_presents (knows_presentationToSend h hdata) (by decide)
    fun _ _ h' => meets_pure h')

theorem knows_makesThe (h : Knows cfg past ctx) (presentation : Text) :
    Meets Allowed past (makesThe cfg presentation ctx) (Knows cfg) := by
  refine Meets.bind (meets_py fun _ _ => knows_makesThePresentation ?_)
  exact { h with }

theorem knows_acknowledgesTheProof (h : Knows cfg past ctx) :
    Meets Allowed past (acknowledgesTheProof ctx) (Knows cfg) := by
  refine Meets.bind (knows_verifies h (by decide) fun json past' h' => ?_)
  refine Meets.bind (meets_py fun state _ => Meets.bind (meets_asserts fun _ => ?_))
  refine Meets.bind (meets_py fun verified hverified => meets_py fun ctx' hctx => ?_)
  obtain ⟨key, hkey, -⟩ := bind_eq_ok hctx
  refine h' key (isVerified verified) ctx' hkey ?_ hctx
  rw [Exchange.verdict, hkey, hverified]
  rfl

/-- What a prover told of the proof that the exchange is about, and the verdict on it. -/
def Judged (past : List (Event Reply)) (agent : Text) (topic : String) (states : List String)
    (verified : Bool) : Prop :=
  Reported past agent topic (exchange past).proofThread (states ++ ["N/A"]) ∧
    if verified then ∃ key, (exchange past).proofThread.asKey = .ok key ∧
      (exchange past).verdicts.get? key ≠ some false
    else (exchange past).verdicts.entries = [] ∨
      ∃ key, (exchange past).proofThread.asKey = .ok key ∧
        (exchange past).verdicts.get? key = some false

theorem Knows.verdicts (h : Knows cfg past ctx) :
    (exchange past).verdicts = ctx.credentialVerificationDict :=
  congrArg Exchange.verdicts h.known.symm

/-- The state of the proof is waited for, and then its verdict is looked at. -/
theorem knows_judged (h : Knows cfg past ctx) {topic : String} (htopic : topic ∈ proving)
    {states : List String} {waitTime : ℕ} :
    Meets Allowed past (do
      expectedAgentState (ctx.urlOf .prover) topic ctx.presentationThreadId states waitTime
      let key ← py ctx.presentationThreadId.asKey
      asserts (ctx.credentialVerificationDict.get? key ≠ some false)
      pure ctx : Harness Context) fun past' ctx' => Knows cfg past' ctx' ∧
        ∃ agent, ctx'.urlOf .prover = some agent ∧ Judged past' agent topic states true := by
  refine Meets.bind (knows_states h (fun _ _ h' s hs => fits_proofState h' htopic hs) ?_)
  intro agent past' hagent h' hreported
  refine Meets.bind (meets_py fun key hkey => Meets.bind (meets_asserts fun hverdict => ?_))
  refine meets_pure ⟨h', agent, hagent, h'.proofThread.symm ▸ hreported, ?_⟩
  rw [if_pos rfl, h'.proofThread, Knows.verdicts h']
  exact ⟨key, hkey, hverdict⟩

theorem knows_hasTheProofUnverified (h : Knows cfg past ctx) :
    Meets Allowed past (hasTheProofUnverified ctx) fun past' ctx' => Knows cfg past' ctx' ∧
      ∃ agent, ctx'.urlOf .prover = some agent ∧ Judged past' agent "proof" ["done"] false := by
  refine Meets.bind (knows_states h (fun _ _ h' s hs => fits_proofState h' (by decide) hs) ?_)
  intro agent past' hagent h' hreported
  refine meets_ite (fun hnone => meets_pure ⟨h', agent, hagent,
    h'.proofThread.symm ▸ hreported, ?_⟩) fun _ => ?_
  · rw [if_neg Bool.false_ne_true, Knows.verdicts h']
    exact .inl hnone
  · refine Meets.bind (meets_py fun key hkey => Meets.bind (meets_py fun verified hverified => ?_))
    refine Meets.bind (meets_asserts fun hfalse => ?_)
    refine meets_pure ⟨h', agent, hagent, h'.proofThread.symm ▸ hreported, ?_⟩
    rw [if_neg Bool.false_ne_true, h'.proofThread, Knows.verdicts h']
    exact .inr ⟨key, hkey, hfalse ▸ itemAt_eq_ok hverified⟩

theorem knows_makesAPresentationProposal (h : Knows cfg past ctx) (prover : Text) :
    Meets Allowed past (makesAPresentationProposal prover ctx) (Knows cfg) := by
  refine Meets.bind (meets_py fun data _ => Meets.bind (meets_py fun attributes _ => ?_))
  refine Meets.bind (meets_py fun predicates _ => Meets.bind (meets_py fun connectionId hid => ?_))
  refine Meets.bind (knows_proofStarts h (by decide) (.inl rfl) (fun _ _ => ?_) ?_)
  · refine fits_proof (by decide) (.inr ⟨by decide, rfl⟩) ?_
    exact onConnections_of rfl rfl rfl (someOwn_of_connectionId h hid) (fun _ hi => by cases hi)
      fun _ hi => .inl (Except.ok.inj hi).symm
  · intro json past' h'
    exact knows_thread h'

theorem knows_makesAProposal (h : Knows cfg past ctx) (prover proposal : Text) :
    Meets Allowed past (makesAProposal cfg prover proposal ctx) (Knows cfg) := by
  refine Meets.bind (meets_py fun _ _ => Meets.bind (meets_py fun _ _ => ?_))
  refine knows_makesAPresentationProposal ?_ prover
  exact { h with }

theorem knows_makesTheProofIncorrectly (h : Knows cfg past ctx) (presentation : Text) :
    Meets Allowed past (makesTheProofIncorrectly cfg presentation ctx) (Knows cfg) := by
  refine Meets.bind (meets_py fun data _ => Meets.bind (meets_command (fun _ _ => .inr ?_) ?_))
  · exact fits_proofThread h (by decide) (by decide) (by decide)
  · intro agent status text _
    have hquiet : Quiet (.post agent "proof" (some "send-presentation") ctx.presentationThreadId
        data false) := quiet_presentation (by decide)
    have h' := h.grows ⟨[⟨_, .ok (status, text)⟩], rfl, List.forall_mem_singleton.mpr hquiet⟩
    exact Meets.bind (meets_asserts fun _ => meets_pure { h' with })

/-! Protocol 0454. -/

theorem knows_credFormatOf (h : Knows cfg past ctx) : Knows cfg past (credFormatOf cfg ctx) := by
  unfold credFormatOf
  split
  · exact { h with }
  · split
    · exact { h with }
    · split
      · exact { h with }
      · exact h

theorem knows_startsIssuance (h : Knows cfg past ctx) (create : Bool)
    (prover issuer credentialData : Text) :
    Meets Allowed past (startsIssuance cfg create prover issuer credentialData ctx)
      (Knows cfg) := by
  have hproposes : ∀ {past c}, Knows cfg past c → Meets Allowed past
      (if cfg.Tagged "CredProposalStart" then
        proposesInFormat cfg prover (formatText c) issuer credentialData c
      else pure c) (Knows cfg) := fun h =>
    meets_ite (fun _ => knows_proposesInFormat h prover _ issuer credentialData)
      fun _ => meets_pure h
  refine meets_ite (fun _ => ?_) fun _ => hproposes h
  refine knows_then (knows_connects h
    (OwnConnectionIds.sound_createsADidcommV2Invitation h.connections issuer none)) fun _ _ h => ?_
  refine knows_then (knows_connects h
    (OwnConnectionIds.sound_acceptsTheDidcommV2Invitation h.connections prover issuer))
    fun _ _ h => ?_
  refine knows_then (hproposes h) fun _ _ h => ?_
  exact knows_connects h
    (OwnConnectionIds.sound_hasReceivedADidcommV2Message h.connections issuer prover)

theorem knows_issueInFormat (h : Knows cfg past ctx) (create : Bool)
    (prover issuer credentialData : Text) :
    Meets Allowed past (issueInFormat cfg create prover issuer credentialData ctx) (Knows cfg) := by
  refine knows_then (knows_startsIssuance h create prover issuer credentialData) fun _ _ h => ?_
  refine knows_then (knows_offersInFormat h issuer _) fun _ _ h => ?_
  refine knows_then (knows_requestsInFormat h) fun _ _ h => ?_
  refine knows_then (knows_issuesInFormat h issuer) fun _ _ h => ?_
  refine knows_then (knows_acknowledgesInFormat h prover _) fun _ _ h => ?_
  exact knows_hasIssuedInFormat h prover _

theorem knows_hasAnIssuedCredentialWithFormats (h : Knows cfg past ctx)
    (prover issuer credentialData : Text) :
    Meets Allowed past (hasAnIssuedCredentialWithFormats cfg prover issuer credentialData ctx)
      (Knows cfg) := by
  refine Meets.bind (meets_py fun ctx₁ hsetup => ?_)
  have h₁ := knows_credFormatOf (knows_setupSchemas h hsetup)
  refine meets_ite (fun _ => meets_throws _) fun _ => ?_
  refine knows_then (meets_foldlM (fun (entry : Text × Json) past c (h : Knows cfg past c) =>
    Meets.bind (meets_py fun c hschema =>
      knows_isReadyToIssueInFormat (knows_withSchema h hschema) issuer _)) _ h₁) fun _ _ h => ?_
  refine knows_then (knows_withHolderAndIssuer h prover issuer) fun _ _ h => ?_
  refine knows_then (meets_ite (fun _ => knows_haveAnExistingConnection h issuer prover)
    fun _ => meets_pure h) fun _ _ h => ?_
  exact meets_foldlM (fun (entry : Text × Json) past c (h : Knows cfg past c) =>
    Meets.bind (meets_py fun c hdata =>
      knows_issueInFormat (knows_withCredentialData h hdata) _ prover issuer credentialData)) _ h

theorem knows_sendsAPresentationProposal (h : Knows cfg past ctx) (prover verifier : Text) :
    Meets Allowed past (sendsAPresentationProposal cfg prover verifier ctx) (Knows cfg) := by
  refine Meets.bind (meets_py fun connectionId hid => ?_)
  refine Meets.bind (knows_proofStarts h (proofEndpoint_mem cfg) (.inl rfl) (fun _ _ => ?_) ?_)
  · refine fits_proof (proofEndpoint_mem cfg) (.inr ⟨by decide, rfl⟩) ?_
    refine onConnections_of rfl rfl rfl (.inl rfl) (fun _ hi => by cases hi) fun i hi => ?_
    obtain rfl : connectionId = i := Except.ok.inj hi
    exact someOwn_of_connectionId h hid
  · intro json past' h'
    exact knows_thread h'

/-- The message has its three members, and the request of the context is changed. -/
theorem knows_prepareProofRequest (h : Knows cfg past ctx) {requestForProof : Text}
    {message : Json} {ctx' : Context}
    (hprepare : ProofSteps.prepareProofRequest cfg requestForProof ctx = .ok (message, ctx')) :
    Knows cfg past ctx' ∧ ∃ format comment data, message = .obj [("presentation_request",
      .obj [("format", format), ("comment", comment), ("data", data)])] := by
  obtain ⟨loaded, -, hprepare⟩ := bind_eq_ok hprepare
  obtain ⟨data, -, hprepare⟩ := bind_eq_ok hprepare
  obtain ⟨message', hmessage, hprepare⟩ := bind_eq_ok hprepare
  obtain ⟨rfl, rfl⟩ := Prod.mk.inj (Except.ok.inj hprepare)
  refine ⟨{ h with }, ?_⟩
  obtain ⟨context, -, hmessage⟩ := bind_eq_ok hmessage
  obtain ⟨data', -, hmessage⟩ := bind_eq_ok hmessage
  exact ⟨_, _, data', (Except.ok.inj hmessage).symm⟩

/-- The request goes on the thread of a proposal, or on a connection. -/
theorem onConnections_requestWithFormats (h : Knows cfg past ctx) {verifier prover : Text}
    {format comment data id message : Json}
    (hrequest : requestWithFormats cfg verifier prover (.obj [("presentation_request",
      .obj [("format", format), ("comment", comment), ("data", data)])]) ctx = .ok (id, message)) :
    (id = (exchange past).proofThread ∨ "send-request" ∈ "send-request" :: starting ∧ id = .null) ∧
      OnConnections past message := by
  unfold requestWithFormats at hrequest
  split at hrequest
  · obtain ⟨rfl, rfl⟩ := Prod.mk.inj (Except.ok.inj hrequest)
    refine ⟨.inl h.proofThread.symm, onConnections_of rfl rfl rfl (.inl rfl) ?_ ?_⟩
    · exact fun _ hi => .inl (Except.ok.inj hi).symm
    · exact fun _ hi => by cases hi
  · obtain ⟨connectionId, hid, hrequest⟩ := bind_eq_ok hrequest
    obtain ⟨message', hmessage, hrequest⟩ := bind_eq_ok hrequest
    obtain ⟨rfl, rfl⟩ := Prod.mk.inj (Except.ok.inj hrequest)
    refine ⟨.inr ⟨by decide, rfl⟩, ?_⟩
    have hown := someOwn_of_connectionId h hid
    split at hmessage
    · obtain rfl := Except.ok.inj hmessage
      refine onConnections_of rfl rfl rfl hown ?_ ?_
      · exact fun _ hi => .inl (Except.ok.inj hi).symm
      · exact fun _ hi => by cases hi
    · obtain rfl := Except.ok.inj hmessage
      refine onConnections_of rfl rfl rfl (.inl rfl) (fun i hi => ?_) fun _ hi => by cases hi
      obtain rfl : connectionId = i := Except.ok.inj hi
      exact hown

theorem knows_sendsAPresentationWithFormats (h : Knows cfg past ctx)
    (verifier requestForProof prover : Text) :
    Meets Allowed past (sendsAPresentationWithFormats cfg verifier requestForProof prover ctx)
      (Knows cfg) := by
  refine Meets.bind (meets_py fun (message, ctx₁) hprepare => ?_)
  obtain ⟨h₁, format, comment, data, rfl⟩ := knows_prepareProofRequest h hprepare
  refine Meets.bind (meets_py fun (id, message) hrequest => ?_)
  obtain ⟨hid, hconnections⟩ := onConnections_requestWithFormats h₁ hrequest
  have hfits : ∀ agent, (ctx₁.urlOf .verifier) = some agent →
      Fits past (.post agent (proofEndpoint cfg) (some "send-request") id message false) :=
    fun _ _ => fits_proof (proofEndpoint_mem cfg) hid hconnections
  by_cases htruthy : ctx₁.presentationThreadId.truthy = true
  · refine Meets.bind (knows_requestAgain h₁ (proofEndpoint_mem cfg) (proofEndpoint_ne cfg) htruthy
      hfits fun json past' h' => ?_)
    exact meets_ite (fun _ => meets_pure h') fun hfalse => absurd htruthy hfalse
  · have hfalse := Bool.eq_false_of_not_eq_true htruthy
    refine Meets.bind (knows_proofStarts h₁ (proofEndpoint_mem cfg) (.inr ⟨rfl, .inr hfalse⟩) hfits
      fun json past' h' => ?_)
    refine meets_ite (fun htrue => absurd htrue htruthy) fun _ => ?_
    exact knows_thread h'

theorem knows_createsAProofRequestWithFormats (h : Knows cfg past ctx) (requestForProof : Text) :
    Meets Allowed past (createsAProofRequestWithFormats cfg requestForProof ctx) (Knows cfg) := by
  refine Meets.bind (meets_py fun (message, ctx₁) hprepare => ?_)
  obtain ⟨h₁, -⟩ := knows_prepareProofRequest h hprepare
  refine Meets.bind (knows_createsRequest h₁ (by decide) ?_)
  exact fun json past' h' => Meets.bind (meets_createdMessage fun thread request hcreated =>
    meets_pure (h' thread request hcreated))

theorem knows_presentationWithFormats (h : Knows cfg past ctx) {file : Text} {data : Json}
    {ctx' : Context} (hdata : presentationWithFormats cfg file ctx = .ok (data, ctx')) :
    Knows cfg past ctx' := by
  unfold presentationWithFormats at hdata
  split at hdata
  · obtain ⟨filled, -, hdata⟩ := bind_eq_ok hdata
    obtain ⟨presentation, -, hdata⟩ := bind_eq_ok hdata
    obtain ⟨-, rfl⟩ := Prod.mk.inj (Except.ok.inj hdata)
    exact { h with }
  · obtain ⟨-, rfl⟩ := Prod.mk.inj (Except.ok.inj hdata)
    exact h

theorem knows_makesTheProofWithFormats (h : Knows cfg past ctx) (presentation : Text) :
    Meets Allowed past (makesTheProofWithFormats cfg presentation ctx) (Knows cfg) := by
  refine Meets.bind (meets_py fun loaded _ => Meets.bind (meets_py fun (data, ctx₁) hdata => ?_))
  have hloaded : Knows cfg past { ctx with presentation := loaded } := { h with }
  exact Meets.bind (knows_presents (knows_presentationWithFormats hloaded hdata)
    (proofEndpoint_mem cfg) fun _ _ h' => meets_pure h')

theorem knows_acknowledgesTheProofWithFormats (h : Knows cfg past ctx) :
    Meets Allowed past (acknowledgesTheProofWithFormats cfg ctx) (Knows cfg) := by
  refine Meets.bind (knows_verifies h (proofEndpoint_mem cfg) fun json past' h' => ?_)
  refine Meets.bind (meets_py fun state _ => Meets.bind (meets_asserts fun _ => ?_))
  refine Meets.bind (meets_py fun value hvalue => ?_)
  refine Meets.bind (meets_py fun verified hverified => ?_)
  refine meets_py fun ctx' hctx => ?_
  obtain ⟨key, hkey, -⟩ := bind_eq_ok hctx
  refine h' key verified ctx' hkey ?_ hctx
  rw [Exchange.verdict, hkey, hvalue]
  change (do
    let verified ← if proofEndpoint cfg = "proof" then some (isVerified value)
      else (strtobool value).toOption
    some (key, verified)) = _
  rw [if_neg (proofEndpoint_ne cfg), hverified]
  rfl

/-! Revocation. -/

theorem fits_revoke (h : Knows cfg past ctx) {issuer agent : Text} {data : Json}
    (hagent : cfg.userdata issuer = some agent)
    (hdata : credentialRevocation issuer ctx = .ok data) :
    Fits past (.post agent "revocation" (some "revoke") .null data false) := by
  obtain ⟨connectionId, hid, hdata⟩ := bind_eq_ok hdata
  obtain rfl := Except.ok.inj hdata
  refine .inr (.inr (.inl ⟨rfl, rfl, rfl, ?_, ?_, fun i hi => ?_⟩))
  · exact congrArg (fun x : Exchange => Except.ok x.revocation.1) h.known
  · exact congrArg (fun x : Exchange => Except.ok x.revocation.2) h.known
  · obtain rfl : connectionId = i := Except.ok.inj hi
    exact h.toHolds.own hid hagent

theorem knows_delete (h : Knows cfg past ctx) {url : Option Text} {topic : String} {id : Json}
    {post : List (Event Reply) → ℕ × Text → Prop}
    (hcall : ∀ agent s, pathId id = .ok s → Fits past (.delete agent topic s))
    (hpost : ∀ answer past', Knows cfg past' ctx → post past' answer) :
    Meets Allowed past (agentBackchannelDELETE url topic id) post := by
  refine Meets.bind (meets_py fun agent _ => Meets.bind (meets_py fun s hs => ?_))
  refine Meets.bind (meets_ask (.inr (hcall agent s hs)) fun answer => meets_py fun r _ => ?_)
  exact hpost r _ (h.quiet (quiet_delete agent topic s))

theorem knows_deletesFromWallet (h : Knows cfg past ctx) :
    Meets Allowed past (deletesFromWallet ctx) fun past' _ => Knows cfg past' ctx := by
  refine Meets.bind (meets_py fun name _ => Meets.bind (meets_py fun id hid => ?_))
  have hmem := mem_of_latestCredentialId hid
  refine Meets.bind (knows_gets h
    (fun _ _ _ hs => fits_credential (h.credentials name id hmem) hs) ?_)
  intro _ _ _ json past' _ _ _ _ h'
  refine Meets.bind (meets_py fun revoked _ => meets_ite (fun _ => ?_) fun _ => meets_pure h')
  refine Meets.bind (knows_delete h' (fun agent s hs => ⟨rfl, fun t ht => ?_⟩) ?_)
  · obtain rfl : s = some t := ht
    exact eq_of_pathId hs ▸ h'.credentials name id hmem
  · exact fun _ _ h'' => meets_asserts fun _ => h''

theorem knows_revokesTheCredential (h : Knows cfg past ctx) (issuer : Text) :
    Meets Allowed past (revokesTheCredential cfg issuer ctx) (Knows cfg) := by
  refine Meets.bind (meets_py fun data hdata => ?_)
  refine Meets.bind (knows_posts h (fun agent hagent => fits_revoke h hagent hdata)
    (fun _ => quiet_of_topic "revocation" rfl (by decide)) ?_)
  intro agent text past' _ _ h'
  refine Meets.bind (meets_py fun name _ => Meets.bind (meets_py fun id hid => ?_))
  have hmem := mem_of_latestCredentialId hid
  refine Meets.bind (knows_query h'
    (fun _ _ _ hs => fits_credential (h'.credentials name id hmem) hs) fun answer past'' h'' => ?_)
  refine Meets.bind (meets_asserts fun _ => ?_)
  refine meets_ite (fun _ => ?_) fun _ => meets_pure h''
  exact (knows_deletesFromWallet h'').andThen fun _ _ _ h => meets_pure h

theorem knows_makesThePresentationWithTheRevokedCredential (h : Knows cfg past ctx)
    (presentation : Text) :
    Meets Allowed past (makesThePresentationWithTheRevokedCredential cfg presentation ctx)
      (Knows cfg) := by
  refine Meets.bind (meets_py fun name _ => knows_makesThe ?_ presentation)
  have hreversed := h.toHolds.withCredentialIds name fun id hid =>
    h.credentials name id (List.mem_reverse.mp hid)
  exact { hreversed with known := h.known }

theorem knows_sendsWithCredentialValidity (h : Knows cfg past ctx)
    (verifier requestForProof prover timeframe : Text) :
    Meets Allowed past
      (sendsWithCredentialValidity cfg verifier requestForProof prover timeframe ctx)
      (Knows cfg) := by
  refine Meets.bind (meets_py fun interval _ =>
    knows_sendsAPresentationRequest ?_ verifier requestForProof prover)
  exact { h with }

theorem knows_notified (h : Knows cfg past ctx) {url : Option Text} {id : Json}
    {post : List (Event Reply) → Bool → Prop}
    (hcall : ∀ agent s, id = .str s →
      Fits past (.get agent .response "revocation-notification" none (some s) false))
    (hpost : ∀ given past', Knows cfg past' ctx → post past' given) :
    Meets Allowed past (do
      let (_, text) ← agentBackchannelGET url .response "revocation-notification" none id false
      let json ← py (loads text)
      py (json.contains "thread_id") : Harness Bool) post := by
  have hfits : ∀ agent s, pathId id = .ok s →
      Fits past (.get agent .response "revocation-notification" none s false) := by
    intro agent s hs
    cases s with
    | none => exact fun t ht => by cases ht
    | some s => exact hcall agent s (eq_of_pathId hs)
  refine Meets.bind (meets_query (fun agent s _ hs => .inr (hfits agent s hs)) ?_)
  intro agent s status text _ _
  have hquiet : Quiet (.get agent .response "revocation-notification" none s false) :=
    quiet_of_topic "revocation-notification" rfl (by decide)
  have h' := h.grows ⟨[⟨_, .ok (status, text)⟩], rfl, List.forall_mem_singleton.mpr hquiet⟩
  exact Meets.bind (meets_py fun json _ => meets_py fun given _ => hpost given _ h')

/-- The thread and the credential that was revoked are the ones that were told last. -/
theorem knows_receivesTheRevocationNotification (h : Knows cfg past ctx) (holder : Text) :
    Meets Allowed past (receivesTheRevocationNotification cfg holder ctx) (Knows cfg) := by
  refine Meets.bind (knows_notified h (fun agent s hs t ht => ?_) fun given past' h' => ?_)
  · obtain rfl := Option.some.inj ht
    exact .inl ⟨by decide, hs.symm.trans h.credThread.symm⟩
  refine meets_ite (fun _ => meets_pure h') fun _ => ?_
  refine Meets.bind (meets_py fun registry hregistry => ?_)
  refine Meets.bind (meets_py fun revocation hrevocation => ?_)
  refine Meets.bind (knows_notified h' (fun agent s hs t ht => ?_) fun given past'' h'' => ?_)
  · obtain rfl := Option.some.inj ht
    have htold : (exchange past').revocation = (ctx.credRevId, ctx.revRegId) :=
      congrArg Exchange.revocation h'.known.symm
    refine .inr ⟨rfl, registry, revocation, ?_, ?_, (Json.str.inj hs).symm⟩
    · rw [htold]
      exact hregistry
    · rw [htold]
      exact hrevocation
  · exact meets_ite (fun _ => meets_pure h'') fun _ => meets_throws _

/-! Messages in invitations. -/

theorem knows_sendsAConnectionlessInvitation (h : Knows cfg past ctx)
    (sender receiver messageType : Text) :
    Meets Allowed past (sendsAConnectionlessInvitation cfg sender receiver messageType ctx)
      (Knows cfg) := by
  refine Meets.bind (meets_py fun attachment hattachment => ?_)
  have hmessage : attachment = (exchange past).offer ∨ attachment = (exchange past).request := by
    split at hattachment
    · exact .inl ((Except.ok.inj hattachment).symm.trans (congrArg Exchange.offer h.known))
    · split at hattachment
      · exact .inr ((Except.ok.inj hattachment).symm.trans (congrArg Exchange.request h.known))
      · cases hattachment
  refine Meets.bind (knows_commands h
    (fun _ _ => .inr (.inr (.inr ⟨rfl, rfl, rfl, attachment, rfl, hmessage⟩)))
    (fun _ => quiet_of_topic "out-of-band" rfl (by decide)) ?_)
  intro agent text json past' _ hmem hjson h'
  refine Meets.bind (meets_py fun state _ => Meets.bind (meets_asserts fun _ => ?_))
  refine Meets.bind (meets_py fun invitation hinvitation => meets_pure ?_)
  have htold : Invitation past' (Lent past') invitation :=
    ⟨agent, invitation, ⟨text, json, ⟨_, 200, hmem, rfl⟩, hjson, hinvitation⟩, .inl rfl⟩
  have hsound : Sound cfg.toConfig past'
      { ctx.connections with responderInvitation := invitation } :=
    { h'.connections with responderInvitation := .inr htold }
  exact { h' with connections := OwnConnectionIds.sound_withPair hsound sender receiver }

/-! Scenarios. -/

/-- Every step keeps what the context knows. -/
theorem knows_step (h : Knows cfg past ctx) (step : Step) :
    Meets Allowed past (Step.perform cfg ctx step) (Knows cfg) := by
  cases step with
  | connecting step =>
    change Meets Allowed past (connects
      (fun c => ConnectionSteps.Step.perform cfg.toConfig c step) ctx) (Knows cfg)
    exact knows_connects h (OwnConnectionIds.sound_step h.connections step)
  | hasAPublicDid a => exact knows_hasAPublicDid h a
  | isReadyToIssueACredential a => exact knows_isReadyToIssueACredential h a
  | createsANewSchema a => exact knows_createsANewSchema h a
  | createsANewCredentialDefinition a => exact knows_createsANewCredentialDefinition h a
  | hasAnExistingSchema a => exact knows_hasAnExistingSchema h a
  | hasAnExistingCredentialDefinition a => exact knows_hasAnExistingCredentialDefinition h a
  | hasAnExistingSchemaAndCredentialDefinition a =>
    exact knows_hasAnExistingSchemaAndCredentialDefinition h a
  | initiatesAnAutomatedCredentialIssuance a =>
    exact Meets.bind (meets_py fun _ _ => meets_throws _)
  | proposesACredential a b => exact knows_proposesACredential h a b
  | offersACredential a => exact knows_offersACredential h a
  | createsACredentialOffer a => exact knows_createsACredentialOffer h a
  | requestsTheCredential a => exact knows_requestsTheCredential h a
  | issuesTheCredential a => exact knows_issuesTheCredential h a
  | acknowledgesTheCredentialIssue a => exact knows_acknowledgesTheCredentialIssue h a
  | hasTheCredentialIssued a => exact (knows_hasTheCredentialIssued h a).mono fun _ _ _ h => h.1
  | isReadyToIssueInFormat a f => exact knows_isReadyToIssueInFormat h a f
  | proposesInFormat a f b d => exact knows_proposesInFormat h a f b d
  | offersInFormat a f => exact knows_offersInFormat h a f
  | createsAnOfferInFormat a f d => exact knows_createsAnOfferInFormat h a f d
  | requestsInFormat => exact knows_requestsInFormat h
  | issuesInFormat a => exact knows_issuesInFormat h a
  | acknowledgesInFormat a f => exact knows_acknowledgesInFormat h a f
  | hasIssuedInFormat a f => exact knows_hasIssuedInFormat h a f
  | negotiatesTheOfferWithAnotherProposal => exact meets_throws _
  | isReadyUsingWaci a => exact knows_isReadyUsingWaci h a
  | usesWaciToPropose a b => exact knows_usesWaciToPropose h a b
  | validatesTheProposal a => exact knows_validatesTheProposal h a
  | sendsACredentialManifest a => exact knows_sendsACredentialManifest h a
  | sendsACredentialApplication a => exact knows_sendsAttachment h (by decide)
  | validatesTheCredentialApplication a => exact knows_validatesTheCredentialApplication h a
  | sendsACredentialFulfillment a => exact knows_sendsAttachment h (by decide)
  | acceptsTheCredentialFulfillment a => exact knows_acceptsTheCredentialFulfillment h a
  | hasAnIssuedCredential a b =>
    exact (knows_hasAnIssuedCredential h a b).mono fun _ _ _ h => h.1
  | hasAnIssuedCredentialWith a b d =>
    exact (knows_hasAnIssuedCredentialWith h a b d).mono fun _ _ _ h => h.1
  | sendsARequestForProof a b => exact knows_sendsARequestForProof h a b
  | createsAProofRequest => exact knows_createsAProofRequest h
  | sendsAPresentationRequest a f b => exact knows_sendsAPresentationRequest h a f b
  | makesThePresentation => exact knows_makesThePresentation h
  | makesThe f => exact knows_makesThe h f
  | acknowledgesTheProof => exact knows_acknowledgesTheProof h
  | hasTheProofVerified => exact (knows_judged h (by decide)).mono fun _ _ _ h => h.1
  | hasTheProofUnverified => exact (knows_hasTheProofUnverified h).mono fun _ _ _ h => h.1
  | makesAPresentationProposal a => exact knows_makesAPresentationProposal h a
  | makesAProposal a f => exact knows_makesAProposal h a f
  | agreesToContinue => exact Meets.bind (meets_py fun _ _ => meets_throws _)
  | makesTheProofIncorrectly f => exact knows_makesTheProofIncorrectly h f
  | hasAnIssuedCredentialWithFormats a b d => exact knows_hasAnIssuedCredentialWithFormats h a b d
  | sendsAPresentationProposal a b => exact knows_sendsAPresentationProposal h a b
  | sendsAPresentationWithFormats a f b => exact knows_sendsAPresentationWithFormats h a f b
  | createsAProofRequestWithFormats f => exact knows_createsAProofRequestWithFormats h f
  | makesTheProofWithFormats f => exact knows_makesTheProofWithFormats h f
  | acknowledgesTheProofWithFormats => exact knows_acknowledgesTheProofWithFormats h
  | hasTheProofWithFormatsVerified =>
    exact (knows_judged h (proofEndpoint_mem cfg)).mono fun _ _ _ h => h.1
  | revokesTheCredential a => exact knows_revokesTheCredential h a
  | makesThePresentationWithTheRevokedCredential f =>
    exact knows_makesThePresentationWithTheRevokedCredential h f
  | sendsWithCredentialValidity a f b t => exact knows_sendsWithCredentialValidity h a f b t
  | receivesTheRevocationNotification a => exact knows_receivesTheRevocationNotification h a
  | sendsAConnectionlessInvitation a b m => exact knows_sendsAConnectionlessInvitation h a b m

theorem knows_scenario (cfg : Config) (steps : List Step) :
    Meets Allowed [] (scenario cfg steps) (Knows cfg) :=
  Meets.bind (meets_py fun _ hctx =>
    meets_foldlM (fun step _ _ h => knows_step h step) steps (knows_beforeScenario hctx))

/-- The last step of a scenario. -/
theorem meets_lastStep {goal : List (Event Reply) → Context → Prop} {step : Step}
    (hlast : ∀ past ctx, Knows cfg past ctx →
      Meets Allowed past (Step.perform cfg ctx step) goal) (steps : List Step) :
    Meets Allowed [] (scenario cfg (steps ++ [step])) goal :=
  Meets.bind (meets_py fun _ hctx =>
    meets_foldlM_concat (fun step _ _ h => knows_step h step) hlast steps
      (knows_beforeScenario hctx))

end

/-! What holds in every scenario. -/

section

variable {cfg : Config} {events : List (Event Reply)} {r : Except StepError Context}

/-- What the harness knows at the end of a scenario is the exchange that the answers tell, folded
over the history without a look at the steps. -/
theorem known_of_passes (steps : List Step) {ctx : Context}
    (h : Behaves (scenario cfg steps) events (.ok ctx)) : known ctx = exchange events :=
  (((knows_scenario cfg steps).of_behaves h).2 ctx rfl).known

/-- The holder of the credential that a step checks. -/
def holds : Step → Option Text
  | .hasTheCredentialIssued holder => some holder
  | .hasAnIssuedCredential prover _ => some prover
  | .hasAnIssuedCredentialWith prover _ _ => some prover
  | _ => none

/-- A scenario that passes up to a credential has it: the holder's wallet told of the credential
under the id of its storing, and of no other schema and credential definition than were created. -/
theorem inWallet_of_passes (steps : List Step) {step : Step} {holder : Text}
    (hstep : holds step = some holder) {ctx : Context}
    (h : Behaves (scenario cfg (steps ++ [step])) events (.ok ctx)) :
    ∃ agent, cfg.userdata holder = some agent ∧ InWallet events agent := by
  have hlast : ∀ past ctx, Knows cfg past ctx →
      Meets Allowed past (Step.perform cfg ctx step) (HasCredential cfg holder) := by
    intro past ctx hknows
    cases step with
    | hasTheCredentialIssued a =>
      obtain rfl := Option.some.inj hstep
      exact knows_hasTheCredentialIssued hknows a
    | hasAnIssuedCredential a b =>
      obtain rfl := Option.some.inj hstep
      exact knows_hasAnIssuedCredential hknows a b
    | hasAnIssuedCredentialWith a b d =>
      obtain rfl := Option.some.inj hstep
      exact knows_hasAnIssuedCredentialWith hknows a b d
    | _ => cases hstep
  exact (((meets_lastStep hlast steps).of_behaves h).2 ctx rfl).2

/-- The topic and the states of the proof that a step checks, and the verdict. -/
def judges (cfg : Config) : Step → Option (String × List String × Bool)
  | .hasTheProofVerified => some ("proof", ["done", "presentation-sent"], true)
  | .hasTheProofUnverified => some ("proof", ["done"], false)
  | .hasTheProofWithFormatsVerified => some (proofEndpoint cfg, ["done"], true)
  | _ => none

/-- A scenario that passes up to a verdict has it: the prover told the state of the proof whose
thread was told last, and what the verifier told last of this thread is not the opposite. -/
theorem judged_of_passes (steps : List Step) {step : Step} {topic : String}
    {states : List String} {verified : Bool}
    (hstep : judges cfg step = some (topic, states, verified)) {ctx : Context}
    (h : Behaves (scenario cfg (steps ++ [step])) events (.ok ctx)) :
    ∃ agent, ctx.urlOf .prover = some agent ∧ Judged events agent topic states verified := by
  have hlast : ∀ past ctx, Knows cfg past ctx → Meets Allowed past (Step.perform cfg ctx step)
      fun past' ctx' => Knows cfg past' ctx' ∧
        ∃ agent, ctx'.urlOf .prover = some agent ∧ Judged past' agent topic states verified := by
    intro past ctx hknows
    cases step with
    | hasTheProofVerified =>
      cases hstep
      exact knows_judged hknows (by decide)
    | hasTheProofUnverified =>
      cases hstep
      exact knows_hasTheProofUnverified hknows
    | hasTheProofWithFormatsVerified =>
      cases hstep
      exact knows_judged hknows (proofEndpoint_mem cfg)
    | _ => cases hstep
  exact (((meets_lastStep hlast steps).of_behaves h).2 ctx rfl).2

end

/-! An issuer, who verifies, and a holder, who proves. -/

def pair : Config where
  toConfig := OwnConnectionIds.pair
  schemaFile _ := none
  credDataFile _ := none
  dataFile _ := none
  randomTag _ := "tag"
  clock _ := ⟨fun _ => 0, monotone_const⟩
  created _ := "now"
  truncated _ := .error .typeError

/-- Every exchange has one thread. -/
def backchannels (call : Call) : Reply call :=
  .ok (200, match call.topic with
    | "did" => "\x7b\"did\": \"d\"\x7d".toList
    | "schema" => "\x7b\"schema_id\": \"s\"\x7d".toList
    | "credential-definition" =>
      "\x7b\"credential_definition_id\": \"c\", \"id\": \"c\"\x7d".toList
    | "credential" =>
      "\x7b\"referent\": \"k\", \"schema_id\": \"s\", \"cred_def_id\": \"c\"\x7d".toList
    | _ => ("\x7b\"record\": \x7b\"thread_id\": \"t\"\x7d, \"message\": 1, \"state\": \"done\", " ++
      "\"verified\": true, \"credential_id\": \"k\"\x7d").toList)

def agents : Step := .connecting (.agents [⟨"issuer".toList, acme, none⟩,
  ⟨"verifier".toList, acme, none⟩, ⟨"prover".toList, bob, none⟩])

def issuance : List Step :=
  [agents, .hasAnExistingSchemaAndCredentialDefinition acme, .createsACredentialOffer acme,
    .acknowledgesTheCredentialIssue bob]

def issued : List (Event Reply) × Except StepError Context :=
  (scenario pair (issuance ++ [.hasTheCredentialIssued bob])).run backchannels

def proof : List Step := [agents, .createsAProofRequest, .acknowledgesTheProof]

def proved : List (Event Reply) × Except StepError Context :=
  (scenario pair (proof ++ [.hasTheProofVerified])).run backchannels

def stored : Call := .post bob "issue-credential" (some "store") (.str "t")
  (.obj [("credential_id", .str "t")]) false

/-- A run that passes is a behaviour. -/
theorem passes_of_isSome {p : Harness Context} (h : (p.run backchannels).2.toOption.isSome = true) :
    ∃ ctx, Behaves p (p.run backchannels).1 (.ok ctx) := by
  have hrun := behaves_run backchannels p
  cases hresult : (p.run backchannels).2 with
  | ok ctx =>
    rw [hresult] at hrun
    exact ⟨ctx, hrun⟩
  | error e =>
    rw [hresult] at h
    cases h

theorem issued_known : ∃ ctx, known ctx = exchange issued.1 := by
  have hpasses : issued.2.toOption.isSome = true := by decide +kernel
  obtain ⟨ctx, hctx⟩ := passes_of_isSome hpasses
  exact ⟨ctx, known_of_passes _ hctx⟩

theorem issued_inWallet : ∃ agent, pair.userdata bob = some agent ∧ InWallet issued.1 agent := by
  have hpasses : issued.2.toOption.isSome = true := by decide +kernel
  obtain ⟨ctx, hctx⟩ := passes_of_isSome hpasses
  exact inWallet_of_passes issuance rfl hctx

theorem proved_judged : ∃ ctx agent, Context.urlOf ctx .prover = some agent ∧
    Judged proved.1 agent "proof" ["done", "presentation-sent"] true := by
  have hpasses : proved.2.toOption.isSome = true := by decide +kernel
  obtain ⟨ctx, hctx⟩ := passes_of_isSome hpasses
  exact ⟨ctx, judged_of_passes proof rfl hctx⟩

end AgentTestHarness.ToldProofs
