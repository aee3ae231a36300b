import AgentTestHarness.ExchangeHistories
import AgentTestHarness.OwnConnectionIds

/-! The steps that issue credentials keep what the context knows of the exchange, and speak of
nothing else. -/
namespace AgentTestHarness.ToldIssuances
open PyText OrderedDict PyJson JsonReading ServiceCalls ServiceHistories IssuanceSteps
open ConnectionSteps (Call Reply Harness py posts postsWith getsWith pathId agentBackchannelGET
  expectedAgentState)
open ConnectionHistories ExchangeHistories
open LegacyIds (normalisedSchemaId normalisedCredDefId)
open ProofRequests (setItem)
open CommandRequests (Site)

/-! The rules for the client, with the answer as it stands in the history. -/

section

variable {allowed : List (Event Reply) → Call → Prop} {past : List (Event Reply)}
  {url : Option Text} {topic operation : String} {id data : Json}

theorem meets_postsWith {operation : Option String} {anoncreds : Bool}
    {post : List (Event Reply) → Text → Prop}
    (hcall : ∀ agent, url = some agent →
      allowed past (.post agent topic operation id data anoncreds))
    (h : ∀ agent text, url = some agent →
      post (past ++ [⟨.post agent topic operation id data anoncreds, .ok (200, text)⟩]) text) :
    Meets allowed past (postsWith url topic operation id data anoncreds) post := by
  refine Meets.bind (meets_command hcall fun agent status text hagent => ?_)
  refine Meets.bind (meets_asserts fun hstatus => meets_pure ?_)
  subst hstatus
  exact h agent text hagent

theorem meets_commands {post : List (Event Reply) → Json → Prop}
    (hcall : ∀ agent, url = some agent →
      allowed past (.post agent topic (some operation) id data false))
    (h : ∀ agent text json, url = some agent → loads text = .ok json →
      post (past ++ [⟨.post agent topic (some operation) id data false, .ok (200, text)⟩]) json) :
    Meets allowed past (commands url topic operation id data) post :=
  Meets.bind (meets_postsWith hcall fun agent text hagent =>
    meets_py fun json hjson => h agent text json hagent hjson)

theorem meets_getsWith {site : Site} {operation : Option String} {anoncreds : Bool}
    {post : List (Event Reply) → Json → Prop}
    (hcall : ∀ agent s, url = some agent → pathId id = .ok s →
      allowed past (.get agent site topic operation s anoncreds))
    (h : ∀ agent s text json, url = some agent → pathId id = .ok s → loads text = .ok json →
      post (past ++ [⟨.get agent site topic operation s anoncreds, .ok (200, text)⟩]) json) :
    Meets allowed past (getsWith url site topic operation id anoncreds) post := by
  refine Meets.bind (meets_query hcall fun agent s status text hagent hs => ?_)
  refine Meets.bind (meets_asserts fun hstatus => meets_py fun json hjson => ?_)
  subst hstatus
  exact h agent s text json hagent hs hjson

end

/-! What is read without a call. -/

theorem itemAt_eq_ok {κ ν : Type} [DecidableEq κ] {d : Dict κ ν} {key : κ} {v : ν}
    (h : itemAt d key = .ok v) : d.get? key = some v := by
  unfold itemAt at h
  split at h
  · next hget => rw [hget, Except.ok.inj h]
  · cases h

theorem item_setItem {j j' v : Json} {key : Str} (h : setItem j key v = .ok j') :
    j'.item key = .ok v := by
  cases j with
  | obj ms =>
    obtain rfl := Except.ok.inj h
    exact Json.item_of_lookup (lookup_assign_self key v ms)
  | _ => cases h

/-- What a sequence of computations keeps. -/
theorem keeps_foldlM {ε α σ : Type} {step : α → σ → Except ε α} {inv : α → Prop}
    (hstep : ∀ a s a', inv a → step a s = .ok a' → inv a') (steps : List σ) :
    ∀ {a a' : α}, inv a → steps.foldlM step a = .ok a' → inv a' := by
  induction steps with
  | nil =>
    intro a a' h hfold
    rw [← Except.ok.inj hfold]
    exact h
  | cons s steps ih =>
    intro a a' h hfold
    rw [List.foldlM_cons] at hfold
    obtain ⟨b, hb, hrest⟩ := bind_eq_ok hfold
    exact ih (hstep a s b h hb) hrest

theorem item_of_absent {json : Json} {name : Str} (h : json.contains name = .ok false) :
    (json.item name).toOption = none := by
  cases json with
  | obj ms =>
    have hnone : lookup name ms = none := by
      cases hget : lookup name ms with
      | none => rfl
      | some v =>
        rw [Json.contains, hget] at h
        cases h
    rw [Json.item, hnone]
    rfl
  | _ => rfl

/-- A member that is looked for before it is read. -/
theorem getD_of_given {json default value : Json} {name : Str} {given : Bool}
    (hgiven : json.contains name = .ok given)
    (hvalue : (if given then json.item name else .ok default) = .ok value) :
    (json.item name).toOption.getD default = value := by
  cases given with
  | true =>
    rw [if_pos rfl] at hvalue
    rw [hvalue]
    rfl
  | false =>
    rw [item_of_absent hgiven]
    exact Except.ok.inj hvalue

section

variable {cfg : Config} {past : List (Event Reply)} {ctx : Context}

theorem mem_of_latestCredentialId {name : Str} {id : Json}
    (h : ctx.latestCredentialId name = .ok id) : id ∈ ctx.credentialIds name := by
  unfold Context.latestCredentialId PresentationFilling.latestId at h
  obtain ⟨key, hkey, h⟩ := bind_eq_ok h
  obtain rfl := Except.ok.inj hkey
  dsimp only at h
  split at h
  · next id' hlast =>
    obtain rfl := Except.ok.inj h
    exact List.mem_of_getLast? hlast
  · cases h

theorem meets_createdMessage {allowed : List (Event Reply) → Call → Prop} {json : Json}
    {post : List (Event Reply) → Json × Json → Prop}
    (h : ∀ thread message, created json = some (thread, message) → post past (thread, message)) :
    Meets allowed past (createdMessage json) post := by
  refine Meets.bind (meets_py fun given _ => Meets.bind (meets_asserts fun _ => ?_))
  refine Meets.bind (meets_py fun record hrecord => Meets.bind (meets_py fun thread hthread => ?_))
  refine Meets.bind (meets_py fun message hmessage => meets_pure (h thread message ?_))
  rw [created, hrecord, hmessage]
  change (do let thread ← (record.item "thread_id").toOption; some (thread, message)) = _
  rw [hthread]
  rfl

/-- The thread that an answer tells is the one that the context then has. -/
theorem knows_thread {json default : Json} {withThread : Json → Context}
    (h : Knows cfg past (withThread ((json.item "thread_id").toOption.getD default))) :
    Meets Allowed past (do
      let thread ← py (json.item "thread_id")
      pure (withThread thread)) (Knows cfg) := by
  refine Meets.bind (meets_py fun thread hthread => meets_pure ?_)
  rw [hthread] at h
  exact h

/-- A sequence of steps, each of which keeps what the context knows. -/
theorem knows_then {p : Harness Context} {f : Context → Harness Context}
    {goal : List (Event Reply) → Context → Prop} (hp : Meets Allowed past p (Knows cfg))
    (hf : ∀ past' ctx', Knows cfg past' ctx' → Meets Allowed past' (f ctx') goal) :
    Meets Allowed past (p >>= f) goal :=
  hp.andThen fun past' ctx' _ => hf past' ctx'

/-! Calls that tell nothing of the exchange. -/

/-- A command that tells nothing. -/
theorem knows_posts (h : Knows cfg past ctx) {url : Option Text} {topic operation : String}
    {id data : Json} {post : List (Event Reply) → Text → Prop}
    (hcall : ∀ agent, url = some agent →
      Fits past (.post agent topic (some operation) id data false))
    (hquiet : ∀ agent, Quiet (.post agent topic (some operation) id data false))
    (hpost : ∀ agent text past', url = some agent →
      (⟨.post agent topic (some operation) id data false, .ok (200, text)⟩ : Event Reply) ∈ past' →
      Knows cfg past' ctx → post past' text) :
    Meets Allowed past (posts url topic operation id data) post :=
  meets_postsWith (fun agent hagent => .inr (hcall agent hagent)) fun agent text hagent =>
    hpost agent text _ hagent (List.mem_append_right _ List.mem_cons_self) (h.quiet (hquiet agent))

theorem knows_commands (h : Knows cfg past ctx) {url : Option Text} {topic operation : String}
    {id data : Json} {post : List (Event Reply) → Json → Prop}
    (hcall : ∀ agent, url = some agent →
      Fits past (.post agent topic (some operation) id data false))
    (hquiet : ∀ agent, Quiet (.post agent topic (some operation) id data false))
    (hpost : ∀ agent text json past', url = some agent →
      (⟨.post agent topic (some operation) id data false, .ok (200, text)⟩ : Event Reply) ∈ past' →
      loads text = .ok json → Knows cfg past' ctx → post past' json) :
    Meets Allowed past (commands url topic operation id data) post :=
  Meets.bind (knows_posts h hcall hquiet fun agent text past' hagent hmem h' =>
    meets_py fun json hjson => hpost agent text json past' hagent hmem hjson h')

/-- Something is created, which no thread is for. -/
theorem knows_creates (h : Knows cfg past ctx) {url : Option Text} {topic : String} {data : Json}
    {anoncreds : Bool} {post : List (Event Reply) → Text → Prop}
    (hcall : ∀ agent, url = some agent → Fits past (.post agent topic none .null data anoncreds))
    (hpost : ∀ agent text past',
      (⟨.post agent topic none .null data anoncreds, .ok (200, text)⟩ : Event Reply) ∈ past' →
      Knows cfg past' ctx → post past' text) :
    Meets Allowed past (postsWith url topic none .null data anoncreds) post :=
  meets_postsWith (fun agent hagent => .inr (hcall agent hagent)) fun agent text _ =>
    hpost agent text _ (List.mem_append_right _ List.mem_cons_self)
      (h.quiet (quiet_creation agent topic .null data anoncreds))

theorem knows_gets (h : Knows cfg past ctx) {url : Option Text} {topic : String}
    {operation : Option String} {id : Json} {anoncreds : Bool}
    {post : List (Event Reply) → Json → Prop}
    (hcall : ∀ agent s, url = some agent → pathId id = .ok s →
      Fits past (.get agent .command topic operation s anoncreds))
    (hpost : ∀ agent s text json past', url = some agent → pathId id = .ok s →
      (⟨.get agent .command topic operation s anoncreds, .ok (200, text)⟩ : Event Reply) ∈ past' →
      loads text = .ok json → Knows cfg past' ctx → post past' json) :
    Meets Allowed past (getsWith url .command topic operation id anoncreds) post :=
  meets_getsWith (fun agent s hagent hs => .inr (hcall agent s hagent hs))
    fun agent s text json hagent hs hjson =>
      hpost agent s text json _ hagent hs (List.mem_append_right _ List.mem_cons_self) hjson
        (h.quiet (quiet_get agent topic operation s anoncreds))

/-- The rounds that wait for a state on a thread. -/
theorem knows_states (h : Knows cfg past ctx) {url : Option Text} {topic : String} {id : Json}
    {states : List String} {waitTime : ℕ} {post : List (Event Reply) → Unit → Prop}
    (hcall : ∀ past agent, Knows cfg past ctx → ∀ s, id = .str s →
      Fits past (.get agent .command topic none (some s) false))
    (hpost : ∀ agent past', url = some agent → Knows cfg past' ctx →
      Reported past' agent topic id (states ++ ["N/A"]) → post past' ()) :
    Meets Allowed past (expectedAgentState url topic id states waitTime) post := by
  have hstates : Meets Allowed past (expectedAgentState url topic id states waitTime)
      fun past' _ => Knows cfg past' ctx ∧
        ∃ agent, url = some agent ∧ Reported past' agent topic id (states ++ ["N/A"]) := by
    refine meets_expectedAgentState waitTime (fun past' agent s h' _ hs => .inr ?_)
      (fun past' agent s answer h' => h'.quiet (quiet_get agent topic none s false)) h
    cases s with
    | none => exact fun s hs => by cases hs
    | some s => exact hcall past' agent h' s (eq_of_pathId hs)
  refine hstates.mono fun past' _ _ hpast => ?_
  obtain ⟨h', agent, hagent, hreported⟩ := hpast
  exact hpost agent past' hagent h' hreported

/-- A call without an id asks for nothing of the exchange. -/
theorem fits_get_none {agent : Text} {topic : String} {operation : Option String}
    {anoncreds : Bool} : Fits past (.get agent .command topic operation none anoncreds) :=
  fun s hs => by cases hs

theorem fits_get {agent : Text} {topic : String} {operation : Option String} {id : Json}
    {anoncreds : Bool} {s : Option Str} (hs : pathId id = .ok s)
    (h : ∀ s, id = .str s → Fits past (.get agent .command topic operation (some s) anoncreds)) :
    Fits past (.get agent .command topic operation s anoncreds) := by
  cases s with
  | none => exact fits_get_none
  | some s => exact h s (eq_of_pathId hs)

/-- An operation on the thread of the issuance, whose data hold no connection. -/
theorem fits_thread (h : Knows cfg past ctx) {agent : Text} {topic operation : String}
    {data : Json} (htopic : topic ∈ issuing) (hoperation : operation ≠ "send-proposal")
    (hdata : topic ≠ "issue-credential-v3" → ∀ id, data.get "connection_id" = .ok id → id = .null) :
    Fits past (.post agent topic (some operation) ctx.credThreadId data false) :=
  .inl ⟨htopic, .inl h.credThread.symm, fun hversion id hid => .inl (hdata hversion id hid),
    fun hproposal => absurd hproposal hoperation⟩

/-- What starts an issuance. -/
theorem fits_start {agent : Text} {topic operation : String} {data : Json}
    (htopic : topic ∈ issuing) (hoperation : operation ∈ starting)
    (hdata : topic ≠ "issue-credential-v3" → ∀ id, data.get "connection_id" = .ok id →
      OwnOrNull past agent id)
    (hproposal : operation = "send-proposal" → ∀ id, data.get "connectionID" = .ok id →
      OwnOrNull past agent id) :
    Fits past (.post agent topic (some operation) .null data false) :=
  .inl ⟨htopic, .inr (.inl ⟨hoperation, rfl⟩), hdata, hproposal⟩

/-! Steps that connect agents. -/

theorem quiet_of_grounded {call : Call} (h : Grounded past call) : Quiet call := by
  have hother : ∀ topic ∈ connecting,
      topic ∉ issuing ∧ topic ∉ proving ∧ topic ≠ "revocation-registry" := by decide
  exact quiet_of_topic call.topic rfl (hother call.topic h.topic_mem)

/-- What a step does to the connections leaves the exchange. -/
theorem knows_connects (h : Knows cfg past ctx)
    {step : ConnectionSteps.Context → Harness ConnectionSteps.Context}
    (hstep : Meets Grounded past (step ctx.connections) (Sound cfg.toConfig)) :
    Meets Allowed past (ProofSteps.connects step ctx) (Knows cfg) := by
  have honly : (step ctx.connections).Only Quiet :=
    hstep.only fun past call hcall => quiet_of_grounded hcall
  have hgrows := (hstep.grows honly).imp fun past call hcall => (Or.inl hcall : Allowed past call)
  refine hgrows.andThen fun past' connections _ hpast => meets_pure ?_
  obtain ⟨hgrown, hsound⟩ := hpast
  exact { h.grows hgrown with connections := hsound }

/-! What the tags of a scenario load. -/

theorem knows_loadSchema (h : Knows cfg past ctx) {tag : Text} {ctx' : Context}
    (hload : loadSchema cfg tag ctx = .ok ctx') : Knows cfg past ctx' := by
  unfold loadSchema at hload
  split at hload
  · obtain rfl := Except.ok.inj hload
    exact h
  · obtain ⟨schema, -, hload⟩ := bind_eq_ok hload
    obtain ⟨supportRevocation, -, hload⟩ := bind_eq_ok hload
    obtain rfl := Except.ok.inj hload
    split
    · exact { h with }
    · exact { h with }

theorem knows_readTag (h : Knows cfg past ctx) {tag : Text} {ctx' : Context}
    (hread : readTag cfg ctx tag = .ok ctx') : Knows cfg past ctx' := by
  unfold readTag at hread
  by_cases hschema : "Schema_".toList <:+: tag
  · simp only [if_pos hschema] at hread
    refine knows_loadSchema ?_ hread
    split
    · split
      · exact { h with }
      · exact { h with }
    · split
      · exact { h with }
      · exact h
  · simp only [if_neg hschema] at hread
    rw [← Except.ok.inj hread]
    split
    · split
      · exact { h with }
      · exact { h with }
    · split
      · exact { h with }
      · exact h

theorem knows_beforeScenario {ctx : Context} (h : beforeScenario cfg = .ok ctx) :
    Knows cfg [] ctx := by
  have hfresh : Knows cfg [] Context.fresh := ⟨holds_fresh cfg, rfl⟩
  unfold beforeScenario at h
  split at h
  · exact keeps_foldlM (fun _ _ _ hc hread => knows_readTag hc hread) cfg.tags hfresh h
  · obtain rfl := Except.ok.inj h
    exact hfresh

/-! Protocol 0036. -/

theorem knows_withTemplate (h : Knows cfg past ctx) (issuer : Text) :
    Knows cfg past (withTemplate cfg issuer ctx) := by
  unfold withTemplate
  split
  · exact h
  · exact { h with }

theorem knows_hasAPublicDid (h : Knows cfg past ctx) (issuer : Text) :
    Meets Allowed past (hasAPublicDid cfg issuer ctx) (Knows cfg) := by
  refine Meets.bind (knows_gets h (fun agent s _ hs => fits_get hs fun s heq => by cases heq) ?_)
  intro agent s text json past' hagent _ hmem hjson h'
  refine Meets.bind (meets_py fun did hdid => Meets.bind (meets_py fun name _ => meets_pure ?_))
  have htold : DidTold past' did := ⟨agent, text, json, ⟨_, 200, hmem, rfl⟩, hjson, hdid⟩
  have htemplate := knows_withTemplate h' issuer
  exact { htemplate.toHolds.withDid htold name with
    did := .inr htold
    known := htemplate.known }

theorem schemaFits_of_schemaToCreate (h : Knows cfg past ctx) {issuer : Text} {schema : Json}
    {ctx' : Context} (hschema : schemaToCreate cfg issuer ctx = .ok (schema, ctx')) :
    SchemaFits past schema ∧ Knows cfg past ctx' := by
  unfold schemaToCreate at hschema
  split at hschema
  · obtain ⟨written, -, hschema⟩ := bind_eq_ok hschema
    obtain ⟨name, -, hschema⟩ := bind_eq_ok hschema
    obtain ⟨did, hdid, hschema⟩ := bind_eq_ok hschema
    obtain ⟨schema', hset, hschema⟩ := bind_eq_ok hschema
    obtain ⟨rfl, rfl⟩ := Prod.mk.inj (Except.ok.inj hschema)
    exact ⟨⟨did, item_setItem hset, .inr (h.dids name did (itemAt_eq_ok hdid))⟩, { h with }⟩
  · obtain ⟨rfl, rfl⟩ := Prod.mk.inj (Except.ok.inj hschema)
    exact ⟨⟨ctx.issuerDid, Json.item_of_lookup (lookup_assign_self _ _ _), h.did⟩, h⟩

theorem knows_createsANewSchema (h : Knows cfg past ctx) (issuer : Text) :
    Meets Allowed past (createsANewSchema cfg issuer ctx) (Knows cfg) := by
  refine Meets.bind (meets_py fun (schema, ctx') hschema => ?_)
  obtain ⟨hfits, h⟩ := schemaFits_of_schemaToCreate h hschema
  refine Meets.bind (knows_creates h (fun agent _ => ⟨rfl, .inl ⟨rfl, hfits⟩⟩) ?_)
  intro agent text past' hmem h'
  refine Meets.bind (meets_py fun json hjson => Meets.bind (meets_py fun told htold => ?_))
  refine Meets.bind (meets_py fun id hid => Meets.bind (meets_py fun name _ => meets_pure ?_))
  have hcreated : CreatedTold past' "schema" "schema_id" told :=
    ⟨agent, schema, cfg.anoncreds, text, json, hmem, hjson, htold⟩
  have hschemaId : SchemaTold past' id := ⟨told, hcreated, hid⟩
  exact { h'.toHolds.withSchemaId hschemaId name with known := h'.known }

theorem definitionFits_of_credDefToCreate (h : Knows cfg past ctx) {credDef : Json}
    (hcredDef : credDefToCreate cfg ctx = .ok credDef) : DefinitionFits past credDef := by
  unfold credDefToCreate at hcredDef
  obtain ⟨name, -, hcredDef⟩ := bind_eq_ok hcredDef
  obtain ⟨schemaId, hschemaId, hcredDef⟩ := bind_eq_ok hcredDef
  obtain ⟨did, hdid, hcredDef⟩ := bind_eq_ok hcredDef
  refine ⟨schemaId, did, h.schemaIds name schemaId (itemAt_eq_ok hschemaId),
    h.dids name did (itemAt_eq_ok hdid), ?_⟩
  by_cases hanoncreds : cfg.anoncreds = true
  · rw [if_pos hanoncreds] at hcredDef
    obtain rfl := Except.ok.inj hcredDef
    exact .inr ⟨_, rfl, rfl, rfl⟩
  · rw [if_neg hanoncreds] at hcredDef
    obtain rfl := Except.ok.inj hcredDef
    exact .inl ⟨rfl, rfl⟩

theorem knows_createsANewCredentialDefinition (h : Knows cfg past ctx) (issuer : Text) :
    Meets Allowed past (createsANewCredentialDefinition cfg issuer ctx) (Knows cfg) := by
  refine Meets.bind (meets_py fun credDef hcredDef => ?_)
  have hfits := definitionFits_of_credDefToCreate h hcredDef
  have h : Knows cfg past { ctx with uses := ctx.uses + 1 } := { h with }
  refine Meets.bind (knows_creates h (fun agent _ => ⟨rfl, .inr ⟨rfl, hfits⟩⟩) ?_)
  intro agent text past' hmem h'
  refine Meets.bind (meets_py fun json hjson => Meets.bind (meets_py fun told htold => ?_))
  refine Meets.bind (meets_py fun id hid => Meets.bind (meets_py fun name _ => meets_pure ?_))
  have hcreated : CreatedTold past' "credential-definition" "credential_definition_id" told :=
    ⟨agent, credDef, cfg.anoncreds, text, json, hmem, hjson, htold⟩
  have hdefinitionId : DefinitionTold past' id := ⟨told, hcreated, hid⟩
  exact { h'.toHolds.withDefinitionId hdefinitionId name with known := h'.known }

theorem knows_hasAnExistingSchema (h : Knows cfg past ctx) (issuer : Text) :
    Meets Allowed past (hasAnExistingSchema cfg issuer ctx) (Knows cfg) := by
  refine Meets.bind (meets_py fun name _ => Meets.bind (meets_py fun id hid => ?_))
  have htold := h.schemaIds name id (itemAt_eq_ok hid)
  refine Meets.bind (knows_gets h (fun agent s _ hs => fits_get hs fun s heq t ht => ?_) ?_)
  · obtain rfl := Option.some.inj ht
    exact .inl ⟨rfl, heq ▸ htold⟩
  · exact fun _ _ _ _ _ _ _ _ _ h' => meets_pure { h' with }

theorem knows_hasAnExistingCredentialDefinition (h : Knows cfg past ctx) (issuer : Text) :
    Meets Allowed past (hasAnExistingCredentialDefinition cfg issuer ctx) (Knows cfg) := by
  refine Meets.bind (meets_py fun name _ => Meets.bind (meets_py fun id hid => ?_))
  have htold := h.definitionIds name id (itemAt_eq_ok hid)
  refine Meets.bind (knows_gets h (fun agent s _ hs => fits_get hs fun s heq t ht => ?_) ?_)
  · obtain rfl := Option.some.inj ht
    exact .inr (.inl ⟨rfl, heq ▸ htold⟩)
  · exact fun _ _ _ _ _ _ _ _ _ h' => meets_pure { h' with }

theorem knows_isReadyToIssueACredential (h : Knows cfg past ctx) (issuer : Text) :
    Meets Allowed past (isReadyToIssueACredential cfg issuer ctx) (Knows cfg) := by
  refine (knows_createsANewSchema h issuer).andThen fun _ _ _ h => ?_
  refine (knows_createsANewCredentialDefinition h issuer).andThen fun _ _ _ h => ?_
  refine (knows_hasAnExistingSchema h issuer).andThen fun _ _ _ h => ?_
  exact knows_hasAnExistingCredentialDefinition h issuer

theorem knows_hasAnExistingSchemaAndCredentialDefinition (h : Knows cfg past ctx)
    (issuer : Text) :
    Meets Allowed past (hasAnExistingSchemaAndCredentialDefinition cfg issuer ctx) (Knows cfg) :=
  (knows_hasAPublicDid h issuer).andThen fun _ _ _ h => knows_isReadyToIssueACredential h issuer

/-- A query whose status is not looked at. -/
theorem knows_query (h : Knows cfg past ctx) {url : Option Text} {topic : String}
    {operation : Option String} {id : Json} {anoncreds : Bool}
    {post : List (Event Reply) → ℕ × Text → Prop}
    (hcall : ∀ agent s, url = some agent → pathId id = .ok s →
      Fits past (.get agent .command topic operation s anoncreds))
    (hpost : ∀ answer past', Knows cfg past' ctx → post past' answer) :
    Meets Allowed past (agentBackchannelGET url .command topic operation id anoncreds) post :=
  meets_query (fun agent s hagent hs => .inr (hcall agent s hagent hs))
    fun agent s status text _ _ =>
      hpost (status, text) _ (h.quiet (quiet_get agent topic operation s anoncreds))

/-- The state of the issuance is asked for by its thread. -/
theorem fits_state (h : Knows cfg past ctx) {agent : Text} {topic : String} {s : Str}
    (htopic : topic ∈ issuing) (hs : ctx.credThreadId = .str s) :
    Fits past (.get agent .command topic none (some s) false) := by
  intro t ht
  obtain rfl := Option.some.inj ht
  exact .inr (.inr (.inr (.inl ⟨rfl, htopic, hs.symm.trans h.credThread.symm⟩)))

/-- A credential of the wallet is asked for by an id that was stored. -/
theorem fits_credential {agent : Text} {operation : Option String} {id : Json} {s : Option Str}
    (hid : Stored past id) (hs : pathId id = .ok s) :
    Fits past (.get agent .command "credential" operation s false) :=
  fits_get hs fun s heq t ht => by
    obtain rfl := Option.some.inj ht
    exact .inr (.inr (.inl ⟨rfl, heq ▸ hid⟩))

/-! Commands that tell a thread. -/

/-- A proposal or an offer that starts an issuance. -/
theorem knows_starts (h : Knows cfg past ctx) {url : Option Text} {topic operation : String}
    {id data : Json} {post : List (Event Reply) → Json → Prop} (htopic : topic ∈ issuing)
    (hoperation : operation = "send-proposal" ∨ operation = "send-offer" ∧
      (topic = "issue-credential" ∨ topic = "issue-credential-v2" ∧ id = .null))
    (hcall : ∀ agent, url = some agent →
      Fits past (.post agent topic (some operation) id data false))
    (hpost : ∀ json past', Knows cfg past' { ctx with
      credThreadId := (json.item "thread_id").toOption.getD ctx.credThreadId } → post past' json) :
    Meets Allowed past (commands url topic operation id data) post := by
  refine meets_commands (fun agent hagent => .inr (hcall agent hagent)) ?_
  refine fun agent text json _ hjson => hpost json _ (h.after
    { h.toHolds.mono (List.prefix_append _ _) with } ?_)
  rw [after_issuance _ htopic hjson, afterIssuance_thread _ hoperation]
  rfl

/-- An offer that is sent by other means. -/
theorem knows_createsOffer (h : Knows cfg past ctx) {url : Option Text} {topic : String}
    {data : Json} {post : List (Event Reply) → Json → Prop} (htopic : topic ∈ issuing)
    (hcall : ∀ agent, url = some agent →
      Fits past (.post agent topic (some "create-offer") .null data false))
    (hpost : ∀ json past', (∀ thread message, created json = some (thread, message) →
      Knows cfg past' { ctx with credThreadId := thread, credentialOffer := message }) →
        post past' json) :
    Meets Allowed past (commands url topic "create-offer" .null data) post := by
  refine meets_commands (fun agent hagent => .inr (hcall agent hagent)) ?_
  refine fun agent text json _ hjson => hpost json _ fun thread message hcreated => h.after
    { h.toHolds.mono (List.prefix_append _ _) with } ?_
  rw [after_issuance _ htopic hjson, Exchange.afterIssuance, if_pos rfl, hcreated]
  rfl

/-- The data of a proposal hold the connection of the holder. -/
theorem get_credentialProposal {holder issuer : Text} {data : Json}
    (h : credentialProposal cfg holder issuer ctx = .ok data) :
    ∃ id, ctx.connections.connectionId (some holder) (some issuer) = .ok id ∧
      data.get "connection_id" = .ok id ∧ data.get "connectionID" = .ok .null := by
  unfold credentialProposal at h
  obtain ⟨name, -, h⟩ := bind_eq_ok h
  obtain ⟨did, -, h⟩ := bind_eq_ok h
  obtain ⟨schema, -, h⟩ := bind_eq_ok h
  obtain ⟨credDef, -, h⟩ := bind_eq_ok h
  obtain ⟨schemaName, -, h⟩ := bind_eq_ok h
  obtain ⟨credDefId, -, h⟩ := bind_eq_ok h
  obtain ⟨schemaVersion, -, h⟩ := bind_eq_ok h
  obtain ⟨id, hid, h⟩ := bind_eq_ok h
  obtain ⟨schemaId, -, h⟩ := bind_eq_ok h
  obtain rfl := Except.ok.inj h
  exact ⟨id, hid, rfl, rfl⟩

theorem knows_proposesACredential (h : Knows cfg past ctx) (holder issuer : Text) :
    Meets Allowed past (proposesACredential cfg holder issuer ctx) (Knows cfg) := by
  refine Meets.bind (meets_py fun data hdata => ?_)
  obtain ⟨id, hid, hconnection, hother⟩ := get_credentialProposal hdata
  refine Meets.bind (knows_starts h (by decide) (.inl rfl) (fun agent hagent => ?_) ?_)
  · refine fits_start (by decide) (by decide) (fun _ i hi => .inr ?_) fun _ i hi => .inl ?_
    · obtain rfl := Except.ok.inj (hconnection.symm.trans hi)
      exact h.toHolds.own hid hagent
    · exact (Except.ok.inj (hother.symm.trans hi)).symm
  · intro json past' h'
    refine Meets.bind (meets_py fun state _ => Meets.bind (meets_asserts fun _ => ?_))
    exact knows_thread h'

theorem fits_offerToSend (h : Knows cfg past ctx) {issuer agent : Text} {id data : Json}
    (hoffer : offerToSend issuer ctx = .ok (id, data)) (hagent : cfg.userdata issuer = some agent) :
    Fits past (.post agent "issue-credential" (some "send-offer") id data false) := by
  unfold offerToSend at hoffer
  split at hoffer
  · obtain ⟨rfl, rfl⟩ := Prod.mk.inj (Except.ok.inj hoffer)
    exact fits_thread h (by decide) (by decide) fun _ _ hid => by cases hid
  · obtain ⟨name, -, hoffer⟩ := bind_eq_ok hoffer
    obtain ⟨credDef, -, hoffer⟩ := bind_eq_ok hoffer
    obtain ⟨credDefId, -, hoffer⟩ := bind_eq_ok hoffer
    obtain ⟨connectionId, hid, hoffer⟩ := bind_eq_ok hoffer
    obtain ⟨rfl, rfl⟩ := Prod.mk.inj (Except.ok.inj hoffer)
    refine fits_start (by decide) (by decide) (fun _ i hi => .inr ?_)
      fun hop => absurd hop (by decide)
    obtain rfl : connectionId = i := Except.ok.inj hi
    exact h.toHolds.own hid hagent

theorem knows_offersACredential (h : Knows cfg past ctx) (issuer : Text) :
    Meets Allowed past (offersACredential cfg issuer ctx) (Knows cfg) := by
  refine Meets.bind (meets_py fun (id, data) hoffer => ?_)
  refine Meets.bind (knows_starts h (by decide) (.inr ⟨rfl, .inl rfl⟩)
    (fun agent hagent => fits_offerToSend h hoffer hagent) ?_)
  intro json past' h'
  refine Meets.bind (meets_py fun given hgiven => Meets.bind (meets_py fun thread hthread => ?_))
  rw [getD_of_given hgiven hthread] at h'
  refine Meets.bind (knows_states h' (fun _ _ h' s hs => fits_state h' (by decide) hs) ?_)
  exact fun _ _ _ h' _ => meets_pure h'

theorem knows_createsACredentialOffer (h : Knows cfg past ctx) (issuer : Text) :
    Meets Allowed past (createsACredentialOffer cfg issuer ctx) (Knows cfg) := by
  refine Meets.bind (meets_py fun name _ => Meets.bind (meets_py fun credDef _ => ?_))
  refine Meets.bind (meets_py fun credDefId _ => ?_)
  refine Meets.bind (knows_createsOffer h (by decide) (fun agent _ => ?_) fun json past' h' => ?_)
  · exact fits_start (by decide) (by decide) (fun _ i hi => .inl (Except.ok.inj hi).symm)
      fun hop => absurd hop (by decide)
  · exact Meets.bind (meets_createdMessage fun thread message hcreated =>
      meets_pure (h' thread message hcreated))

theorem knows_requestsTheCredential (h : Knows cfg past ctx) (holder : Text) :
    Meets Allowed past (requestsTheCredential holder ctx) (Knows cfg) := by
  refine Meets.bind (meets_py fun id hid => ?_)
  refine Meets.bind (knows_commands h (fun agent _ => ?_)
    (fun _ => quiet_issuance (by decide) (by decide)) fun _ _ _ _ _ _ _ h' => meets_pure h')
  split at hid
  · obtain rfl := Except.ok.inj hid
    exact fits_thread h (by decide) (by decide) fun _ _ hid => by cases hid
  · next hfalse =>
    obtain ⟨other, -, hown⟩ := h.connections.ownOf hid
    refine .inl ⟨by decide, .inr (.inr ⟨rfl, rfl, ?_, other, hown⟩), fun _ _ hi => (by cases hi),
      fun hop => absurd hop (by decide)⟩
    rw [h.credThread]
    exact Bool.eq_false_of_not_eq_true hfalse

theorem knows_issuesTheCredential (h : Knows cfg past ctx) (issuer : Text) :
    Meets Allowed past (issuesTheCredential cfg issuer ctx) (Knows cfg) :=
  Meets.bind (knows_commands h
    (fun _ _ => fits_thread h (by decide) (by decide) fun _ _ hi => (Except.ok.inj hi).symm)
    (fun _ => quiet_issuance (by decide) (by decide)) fun _ _ _ _ _ _ _ h' => meets_pure h')

/-- The answer about a revocation registry tells what the context is to know. -/
theorem meets_revocationRegistry (h : Knows cfg past ctx) (agent : Option Text) :
    Meets Allowed past (revocationRegistry cfg agent ctx) fun past' json =>
      Holds cfg past' ctx ∧ exchange past' = (known ctx).afterRegistry json := by
  refine meets_getsWith (fun agent s _ hs => .inr fun t ht => ?_)
    fun agent s text json _ _ hjson => ?_
  · obtain rfl : s = some t := ht
    exact .inl ⟨by decide, (eq_of_pathId hs).symm.trans h.credThread.symm⟩
  · refine ⟨h.toHolds.mono (List.prefix_append _ _), ?_⟩
    rw [exchange_concat, ← h.known]
    unfold Exchange.after
    rw [answered_ok hjson]
    rfl

theorem knows_withRevocation {json : Json} {ctx' : Context} (h : Holds cfg past ctx)
    (hexchange : exchange past = (known ctx).afterRegistry json)
    (hctx : withRevocation json ctx = .ok ctx') : Knows cfg past ctx' := by
  obtain ⟨revocationId, hfirst, hctx⟩ := bind_eq_ok hctx
  obtain ⟨revocRegId, hsecond, hctx⟩ := bind_eq_ok hctx
  obtain rfl := Except.ok.inj hctx
  refine { h with known := ?_ }
  rw [hexchange, Exchange.afterRegistry, hfirst, hsecond]
  rfl

theorem knows_acknowledgesTheCredentialIssue (h : Knows cfg past ctx) (holder : Text) :
    Meets Allowed past (acknowledgesTheCredentialIssue cfg holder ctx) (Knows cfg) := by
  refine Meets.bind (knows_commands h
    (fun _ _ => fits_thread h (by decide) (by decide) fun _ _ hi => (Except.ok.inj hi).symm)
    (fun _ => quiet_issuance (by decide) (by decide)) ?_)
  intro agent text json past' _ hmem hjson h'
  refine Meets.bind (meets_py fun state hstate => Meets.bind (meets_asserts fun hdone => ?_))
  refine Meets.bind (meets_py fun name _ => Meets.bind (meets_py fun id hid => ?_))
  subst hdone
  have hstored : Stored past' id :=
    ⟨agent, _, _, _, text, json, hmem, hjson, hstate, .inl ⟨rfl, hid⟩⟩
  have hkept : Knows cfg past' (ctx.withCredentialId name id) :=
    { h'.toHolds.withCredentialId hstored name with known := h'.known }
  refine meets_ite (fun _ => ?_) fun _ => meets_pure hkept
  exact (meets_revocationRegistry hkept _).andThen fun _ _ _ hregistry =>
    meets_py fun ctx' hctx => knows_withRevocation hregistry.1 hregistry.2 hctx

/-- An id that the wallet tells is, in its recorded form, that of the context. -/
theorem meets_checksId {allowed : List (Event Reply) → Call → Prop} {member name : Str}
    {normalised : Str → Except PyError Str} {ids : Dict Str Json} {json : Json}
    {post : List (Event Reply) → Unit → Prop}
    (h : (∀ told, json.item member = .ok told → ∃ id expected, recorded normalised told = .ok id ∧
      ids.get? name = some expected ∧ Same id expected) → post past ()) :
    Meets allowed past (checksId member normalised ids name json) post := by
  refine Meets.bind (meets_py fun given hgiven => meets_ite (fun _ => ?_) fun hfalse => ?_)
  · refine Meets.bind (meets_py fun told htold => Meets.bind (meets_py fun id hid => ?_))
    refine Meets.bind (meets_py fun expected hexpected => meets_asserts fun hsame => h ?_)
    intro told' htold'
    obtain rfl := Except.ok.inj (htold.symm.trans htold')
    exact ⟨id, expected, hid, itemAt_eq_ok hexpected, hsame⟩
  · refine meets_pure (h fun told htold => ?_)
    obtain rfl : given = false := Bool.eq_false_of_not_eq_true hfalse
    have hnone := item_of_absent hgiven
    rw [htold] at hnone
    cases hnone

/-- The wallet of an agent told of a credential that was stored before, under its id. -/
def Shown (past : List (Event Reply)) (agent : Text) (id json : Json) : Prop :=
  Stored past id ∧ ∃ s text, pathId id = .ok s ∧
    (⟨.get agent .command "credential" none s false, .ok (200, text)⟩ : Event Reply) ∈ past ∧
    loads text = .ok json

/-- A schema or a credential definition that the wallet tells of is one that was created. -/
def CreatedAs (member : Str) (normalised : Str → Except PyError Str)
    (created : Json → Prop) (json : Json) : Prop :=
  ∀ told, json.item member = .ok told → ∃ id expected, recorded normalised told = .ok id ∧
    created expected ∧ Same id expected

/-- A wallet that cannot tell the state of its credential is believed. -/
def InWallet (past : List (Event Reply)) (agent : Text) : Prop :=
  ∃ id json, Shown past agent id json ∧
    (json.item "state" = .ok (.str "N/A") ∨
      (∃ referent, json.item "referent" = .ok referent ∧ Same referent id) ∧
      CreatedAs "schema_id" normalisedSchemaId (SchemaTold past) json ∧
      CreatedAs "cred_def_id" normalisedCredDefId (DefinitionTold past) json)

theorem knows_hasTheCredentialIssued (h : Knows cfg past ctx) (holder : Text) :
    Meets Allowed past (hasTheCredentialIssued cfg holder ctx) fun past' ctx' =>
      Knows cfg past' ctx' ∧ ∃ agent, cfg.userdata holder = some agent ∧ InWallet past' agent := by
  refine Meets.bind (meets_py fun name _ => Meets.bind (meets_py fun id hid => ?_))
  have hmem := mem_of_latestCredentialId hid
  refine Meets.bind (knows_gets h
    (fun _ _ _ hs => fits_credential (h.credentials name id hmem) hs) ?_)
  intro agent s text json past' hagent hs hevent hjson h'
  have hshown : Shown past' agent id json :=
    ⟨h'.credentials name id hmem, s, text, hs, hevent, hjson⟩
  refine Meets.bind (meets_py fun given hgiven => Meets.bind (meets_py fun state hstate => ?_))
  refine meets_ite (fun hnone => ?_) fun _ => ?_
  · refine meets_pure ⟨h', agent, hagent, id, json, hshown, .inl ?_⟩
    subst hnone
    cases given with
    | true => exact hstate
    | false => cases hstate
  · refine Meets.bind (meets_py fun referent hreferent => ?_)
    refine Meets.bind (meets_asserts fun hsame => ?_)
    refine Meets.bind (meets_checksId fun hschema => ?_)
    refine Meets.bind (meets_checksId fun hdefinition => meets_pure ?_)
    refine ⟨h', agent, hagent, id, json, hshown, .inr ⟨⟨referent, hreferent, hsame⟩, ?_, ?_⟩⟩
    · intro told htold
      obtain ⟨i, expected, hi, hget, hsame⟩ := hschema told htold
      exact ⟨i, expected, hi, h'.schemaIds name expected hget, hsame⟩
    · intro told htold
      obtain ⟨i, expected, hi, hget, hsame⟩ := hdefinition told htold
      exact ⟨i, expected, hi, h'.definitionIds name expected hget, hsame⟩

/-! Protocol 0453. -/

theorem knows_setupSchema {credentialData : Text} {entry : Text × Json} {ctx' : Context}
    (h : Knows cfg past ctx) (hsetup : setupSchema cfg credentialData ctx entry = .ok ctx') :
    Knows cfg past ctx' := by
  unfold setupSchema at hsetup
  obtain ⟨json, -, hsetup⟩ := bind_eq_ok hsetup
  obtain ⟨data, -, hsetup⟩ := bind_eq_ok hsetup
  obtain ⟨attributes, -, hsetup⟩ := bind_eq_ok hsetup
  split at hsetup
  · obtain ⟨filters, -, hsetup⟩ := bind_eq_ok hsetup
    rw [← Except.ok.inj hsetup]
    exact { h with }
  · rw [← Except.ok.inj hsetup]
    exact { h with }

theorem knows_setupSchemas (h : Knows cfg past ctx) {credentialData : Text} {ctx' : Context}
    (hsetup : setupSchemasForIssuance cfg credentialData ctx = .ok ctx') : Knows cfg past ctx' :=
  keeps_foldlM (fun _ _ _ hc hstep => knows_setupSchema hc hstep) ctx.schemaDict.entries h hsetup

theorem knows_preparesJsonLd (h : Knows cfg past ctx) (agent : Text) :
    Meets Allowed past (preparesJsonLd cfg agent ctx) fun past' did =>
      Knows cfg past' ctx ∧ DidTold past' did := by
  refine Meets.bind (knows_commands h (fun _ _ => ?_)
    (fun _ => quiet_issuance (by decide) (by decide)) ?_)
  · exact fits_start (by decide) (by decide) (fun _ i hi => .inl (Except.ok.inj hi).symm)
      fun hop => absurd hop (by decide)
  · intro agent' text json past' _ hmem hjson h'
    exact meets_py fun did hdid => ⟨h', agent', text, json, ⟨_, 200, hmem, rfl⟩, hjson, hdid⟩

theorem knows_isReadyToIssueInFormat (h : Knows cfg past ctx) (issuer credFormat : Text) :
    Meets Allowed past (isReadyToIssueInFormat cfg issuer credFormat ctx) (Knows cfg) := by
  refine meets_ite (fun _ => ?_) fun _ => meets_ite (fun _ => ?_) fun _ => meets_throws _
  · exact (knows_hasAPublicDid h issuer).andThen fun _ _ _ h =>
      knows_isReadyToIssueACredential h issuer
  · refine (knows_preparesJsonLd h issuer).andThen fun past' did _ hdid => ?_
    obtain ⟨h', htold⟩ := hdid
    refine Meets.bind (meets_py fun name _ => meets_pure ?_)
    exact { h'.toHolds.withDid htold name with known := h'.known }

/-- The data for a format hold the connection, if there is one. -/
theorem knows_formatCredProposal (h : Knows cfg past ctx) {credFormat : Text}
    {connectionId didForId data : Json} {ctx' : Context}
    (hformat : formatCredProposal cfg credFormat connectionId didForId ctx = .ok (data, ctx')) :
    Knows cfg past ctx' ∧
      (∀ id, data.get "connection_id" = .ok id → id = .null ∨ id = connectionId) ∧
      data.get "connectionID" = .ok .null := by
  unfold formatCredProposal at hformat
  obtain ⟨filter, -, hformat⟩ := bind_eq_ok hformat
  obtain ⟨amended, -, hformat⟩ := bind_eq_ok hformat
  obtain ⟨inner, -, hformat⟩ := bind_eq_ok hformat
  obtain ⟨filters, -, hformat⟩ := bind_eq_ok hformat
  obtain ⟨rfl, rfl⟩ := Prod.mk.inj (Except.ok.inj hformat)
  by_cases htruthy : connectionId.truthy = true
  · rw [if_pos htruthy]
    exact ⟨{ h with }, fun id hid => .inr (Except.ok.inj hid).symm, rfl⟩
  · rw [if_neg htruthy]
    exact ⟨{ h with }, fun id hid => .inl (Except.ok.inj hid).symm, rfl⟩

/-- An operation with the data for a format goes on a connection of the agent itself. -/
theorem fits_format (h : Knows cfg past ctx) {name agent : Text} {partner : Option Text}
    {connectionId data : Json} {operation : String} (hoperation : operation ∈ starting)
    (hid : ctx.connections.connectionId (some name) partner = .ok connectionId)
    (hagent : cfg.userdata name = some agent)
    (hconnection : ∀ id, data.get "connection_id" = .ok id → id = .null ∨ id = connectionId)
    (hother : data.get "connectionID" = .ok .null) :
    Fits past (.post agent "issue-credential-v2" (some operation) .null data false) := by
  refine fits_start (by decide) hoperation (fun _ i hi => ?_) fun _ i hi => .inl ?_
  · rcases hconnection i hi with rfl | rfl
    · exact .inl rfl
    · exact .inr (h.toHolds.own hid hagent)
  · exact (Except.ok.inj (hother.symm.trans hi)).symm

theorem meets_hasFilter {allowed : List (Event Reply) → Call → Prop} {credFormat : Text}
    {post : List (Event Reply) → Unit → Prop} (h : post past ()) :
    Meets allowed past (hasFilter credFormat ctx) post :=
  Meets.bind (meets_py fun _ _ => meets_asserts fun _ => h)

theorem knows_proposesInFormat (h : Knows cfg past ctx)
    (holder credFormat issuer credentialData : Text) :
    Meets Allowed past (proposesInFormat cfg holder credFormat issuer credentialData ctx)
      (Knows cfg) := by
  refine Meets.bind (meets_py fun ctx₁ hsetup => ?_)
  have h₁ := knows_setupSchemas h hsetup
  refine meets_ite (fun _ => ?_) fun _ => meets_throws _
  refine Meets.bind (meets_hasFilter ?_)
  have hdid : Meets Allowed past (if credFormat = "json-ld".toList then
      preparesJsonLd cfg holder ctx₁ else pure .null) fun past' _ => Knows cfg past' ctx₁ :=
    meets_ite (fun _ => (knows_preparesJsonLd h₁ holder).mono fun _ _ _ h => h.1)
      fun _ => meets_pure h₁
  refine hdid.andThen fun past₁ didForId _ h₁ => ?_
  refine Meets.bind (meets_py fun connectionId hid => ?_)
  refine Meets.bind (meets_py fun (data, ctx₂) hformat => ?_)
  obtain ⟨h₂, hconnection, hother⟩ := knows_formatCredProposal h₁ hformat
  refine Meets.bind (knows_starts h₂ (by decide) (.inl rfl)
    (fun agent hagent => fits_format h₁ (by decide) hid hagent hconnection hother) ?_)
  intro json past' h'
  exact knows_thread h'

theorem knows_offersInFormat (h : Knows cfg past ctx) (issuer credFormat : Text) :
    Meets Allowed past (offersInFormat cfg issuer credFormat ctx) (Knows cfg) := by
  refine meets_ite (fun htruthy => ?_) fun _ => ?_
  · refine Meets.bind (knows_commands h
      (fun _ _ => fits_thread h (by decide) (by decide) fun _ _ hid => by cases hid)
      (fun _ => quiet_offer (.inl ⟨rfl, fun hnull => ?_⟩)) fun _ _ _ _ _ _ _ h' => meets_pure h')
    rw [hnull] at htruthy
    cases htruthy
  · refine Meets.bind (meets_hasFilter ?_)
    refine Meets.bind (meets_py fun connectionId hid => ?_)
    refine Meets.bind (meets_py fun (data, ctx₁) hformat => ?_)
    obtain ⟨h₁, hconnection, hother⟩ := knows_formatCredProposal h hformat
    refine Meets.bind (knows_starts h₁ (by decide) (.inr ⟨rfl, .inr ⟨rfl, rfl⟩⟩)
      (fun agent hagent => fits_format h (by decide) hid hagent hconnection hother) ?_)
    intro json past' h'
    exact knows_thread h'

theorem knows_createsAnOfferInFormat (h : Knows cfg past ctx)
    (issuer credFormat credentialData : Text) :
    Meets Allowed past (createsAnOfferInFormat cfg issuer credFormat credentialData ctx)
      (Knows cfg) := by
  refine Meets.bind (meets_py fun ctx₁ hsetup => Meets.bind (meets_hasFilter ?_))
  have h₁ := knows_setupSchemas h hsetup
  refine Meets.bind (meets_py fun (data, ctx₂) hformat => ?_)
  obtain ⟨h₂, hconnection, -⟩ := knows_formatCredProposal h₁ hformat
  refine Meets.bind (knows_createsOffer h₂ (by decide) (fun agent _ => ?_) fun json past' h' => ?_)
  · exact fits_start (by decide) (by decide) (fun _ i hi => .inl ((hconnection i hi).elim id id))
      fun hop => absurd hop (by decide)
  · exact Meets.bind (meets_createdMessage fun thread message hcreated =>
      meets_pure (h' thread message hcreated))

theorem knows_requestsInFormat (h : Knows cfg past ctx) :
    Meets Allowed past (requestsInFormat ctx) (Knows cfg) :=
  Meets.bind (knows_posts h
    (fun _ _ => fits_thread h (by decide) (by decide) fun _ _ hid => by cases hid)
    (fun _ => quiet_issuance (by decide) (by decide)) fun _ _ _ _ _ h' => meets_pure h')

theorem knows_issuesInFormat (h : Knows cfg past ctx) (issuer : Text) :
    Meets Allowed past (issuesInFormat cfg issuer ctx) (Knows cfg) :=
  Meets.bind (knows_posts h
    (fun _ _ => fits_thread h (by decide) (by decide) fun _ _ hi => (Except.ok.inj hi).symm)
    (fun _ => quiet_issuance (by decide) (by decide)) fun _ _ _ _ _ h' => meets_pure h')

theorem knows_acknowledgesInFormat (h : Knows cfg past ctx) (holder credFormat : Text) :
    Meets Allowed past (acknowledgesInFormat cfg holder credFormat ctx) (Knows cfg) := by
  refine Meets.bind (knows_commands h
    (fun _ _ => fits_thread h (by decide) (by decide) fun _ _ hid => by cases hid)
    (fun _ => quiet_issuance (by decide) (by decide)) ?_)
  intro agent text json past' _ hmem hjson h'
  refine Meets.bind (meets_py fun state hstate => Meets.bind (meets_asserts fun hdone => ?_))
  refine Meets.bind (meets_py fun name _ => ?_)
  subst hdone
  have hstored : Stored past' (CredentialIds.findCredentialId json) :=
    ⟨agent, _, _, _, text, json, hmem, hjson, hstate, .inr ⟨rfl, rfl⟩⟩
  have hkept : Knows cfg past'
      (ctx.withCredentialId name (CredentialIds.findCredentialId json)) :=
    { h'.toHolds.withCredentialId hstored name with known := h'.known }
  refine meets_ite (fun _ => ?_) fun _ => meets_pure hkept
  refine (meets_revocationRegistry hkept _).andThen fun past₁ json₁ _ hfirst => ?_
  refine Meets.bind (meets_py fun given hgiven => ?_)
  -- An issuer that knows nothing of a revocation has told nothing of it.
  have hregistry : Meets Allowed past₁ (if given then pure json₁ else
      revocationRegistry cfg (some holder)
        (ctx.withCredentialId name (CredentialIds.findCredentialId json))) fun past₂ json₂ =>
      Holds cfg past₂ (ctx.withCredentialId name (CredentialIds.findCredentialId json)) ∧
        exchange past₂ = (known (ctx.withCredentialId name
          (CredentialIds.findCredentialId json))).afterRegistry json₂ := by
    refine meets_ite (fun _ => meets_pure hfirst) fun hfalse =>
      meets_revocationRegistry ⟨hfirst.1, ?_⟩ _
    obtain rfl : given = false := Bool.eq_false_of_not_eq_true hfalse
    rw [hfirst.2, Exchange.afterRegistry, item_of_absent hgiven]
  exact hregistry.andThen fun _ _ _ hsecond => Meets.bind (meets_py fun ctx' hctx =>
    meets_pure { knows_withRevocation hsecond.1 hsecond.2 hctx with })

theorem knows_hasIssuedInFormat (h : Knows cfg past ctx) (holder credFormat : Text) :
    Meets Allowed past (hasIssuedInFormat cfg holder credFormat ctx) (Knows cfg) := by
  refine Meets.bind (meets_py fun name _ => Meets.bind (meets_py fun id hid => ?_))
  have hmem := mem_of_latestCredentialId hid
  refine Meets.bind (knows_gets h
    (fun _ _ _ hs => fits_credential (h.credentials name id hmem) hs) ?_)
  intro _ _ _ json past' _ _ _ _ h'
  refine meets_ite (fun _ => ?_) fun _ => meets_ite (fun _ => ?_) fun _ => meets_pure h'
  · exact Meets.bind (meets_py fun _ _ => Meets.bind (meets_asserts fun _ => meets_pure h'))
  · exact Meets.bind (meets_py fun _ _ => Meets.bind (meets_asserts fun _ => meets_pure h'))

/-! WACI. -/

theorem knows_isReadyUsingWaci (h : Knows cfg past ctx) (issuer : Text) :
    Meets Allowed past (isReadyUsingWaci cfg issuer ctx) (Knows cfg) :=
  Meets.bind (knows_posts h
    (fun _ _ => fits_start (by decide) (by decide) (fun hversion => absurd rfl hversion)
      fun hop => absurd hop (by decide))
    (fun _ => quiet_issuance (by decide) (by decide)) fun _ _ _ _ _ h' => meets_pure h')

theorem knows_usesWaciToPropose (h : Knows cfg past ctx) (holder issuer : Text) :
    Meets Allowed past (usesWaciToPropose cfg holder issuer ctx) (Knows cfg) := by
  refine Meets.bind (meets_py fun pthid _ => Meets.bind (meets_py fun connectionId hid => ?_))
  refine Meets.bind (knows_starts h (by decide) (.inl rfl) (fun agent hagent => ?_) ?_)
  · refine fits_start (by decide) (by decide) (fun hversion => absurd rfl hversion)
      fun _ i hi => .inr ?_
    obtain rfl : connectionId = i := Except.ok.inj hi
    exact h.toHolds.own hid hagent
  · intro json past' h'
    exact knows_thread h'

/-- A message that was received is asked for by what it is, not by its thread. -/
theorem fits_retrieve {agent : Text} {id s : Str}
    (hid : id ∈ (["retrieve-credential-proposal", "retrieve-credential-application"] : List Str))
    (hs : Json.str id = .str s) :
    Fits past (.get agent .command "issue-credential-v3" none (some s) false) := by
  intro t ht
  obtain rfl := Option.some.inj ht
  obtain rfl := Json.str.inj hs
  exact .inr (.inr (.inr (.inr (.inr ⟨rfl, hid⟩))))

theorem knows_validatesTheProposal (h : Knows cfg past ctx) (issuer : Text) :
    Meets Allowed past (validatesTheProposal cfg issuer ctx) (Knows cfg) := by
  refine Meets.bind (knows_query h
    (fun _ _ _ hs => fits_get hs fun _ heq => fits_retrieve (by decide) heq) ?_)
  intro (status, text) past' h'
  refine Meets.bind (meets_py fun json _ => Meets.bind (meets_py fun pthid _ => ?_))
  exact Meets.bind (meets_py fun _ _ => Meets.bind (meets_asserts fun _ => meets_pure h'))

theorem knows_sendsACredentialManifest (h : Knows cfg past ctx) (issuer : Text) :
    Meets Allowed past (sendsACredentialManifest cfg issuer ctx) (Knows cfg) := by
  refine Meets.bind (meets_py fun attachments _ => Meets.bind (meets_py fun manifest _ => ?_))
  exact Meets.bind (knows_posts h
    (fun _ _ => fits_thread h (by decide) (by decide) fun hversion => absurd rfl hversion)
    (fun _ => quiet_offer (.inr rfl)) fun _ _ _ _ _ h' => meets_pure { h' with })

/-- The messages with an attachment of a file go on the thread. -/
theorem knows_sendsAttachment (h : Knows cfg past ctx) {url : Option Text} {operation : String}
    {name : String} (hoperation : operation ∉ ["create-offer", "send-proposal", "send-offer"]) :
    Meets Allowed past (do
      let attachment ← py (required cfg name)
      let _ ← posts url "issue-credential-v3" operation ctx.credThreadId attachment
      pure ctx : Harness Context) (Knows cfg) := by
  have hproposal : operation ≠ "send-proposal" := by
    rintro rfl
    exact hoperation (by decide)
  exact Meets.bind (meets_py fun attachment _ => Meets.bind (knows_posts h
    (fun _ _ => fits_thread h (by decide) hproposal fun hversion => absurd rfl hversion)
    (fun _ => quiet_issuance (by decide) hoperation) fun _ _ _ _ _ h' => meets_pure h'))

theorem knows_validatesTheCredentialApplication (h : Knows cfg past ctx) (issuer : Text) :
    Meets Allowed past (validatesTheCredentialApplication cfg issuer ctx) (Knows cfg) := by
  refine Meets.bind (knows_gets h
    (fun _ _ _ hs => fits_get hs fun _ heq => fits_retrieve (by decide) heq) ?_)
  intro _ _ _ json past' _ _ _ _ h'
  refine Meets.bind (meets_py fun _ _ => Meets.bind (meets_py fun _ _ => ?_))
  exact Meets.bind (meets_py fun _ _ => Meets.bind (meets_asserts fun _ => meets_pure h'))

theorem knows_acceptsTheCredentialFulfillment (h : Knows cfg past ctx) (holder : Text) :
    Meets Allowed past (acceptsTheCredentialFulfillment cfg holder ctx) (Knows cfg) :=
  Meets.bind (knows_commands h
    (fun _ _ => fits_thread h (by decide) (by decide) fun hversion => absurd rfl hversion)
    (fun _ => quiet_issuance (by decide) (by decide)) fun _ _ _ _ _ _ _ h' =>
      Meets.bind (meets_py fun _ _ => Meets.bind (meets_asserts fun _ => meets_pure h')))

end

end AgentTestHarness.ToldIssuances
