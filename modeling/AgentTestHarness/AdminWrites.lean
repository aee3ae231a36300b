import AgentTestHarness.AdminQueries

/-! What the commands of the ACA-Py backchannel write: a POST command makes at most one POST, and
everything before it only reads. -/
namespace AgentTestHarness.AdminWrites
open PyText OrderedDict PyJson CommandRequests ServiceCalls AdminPosts AdminRequests AdminQueries
open RevocationCommands (Python)
open Program

/-- The calls that change the agent or the ledger. -/
def writes : AdminCall → Bool
  | .adminPost _ _ _ => true
  | .adminDelete _ => true
  | .register _ => true
  | _ => false

def Reads (call : AdminCall) : Prop := writes call = false

/-! The parts of the commands that only read. -/

theorem reads_adminGet (path : Str) (params : List (Str × Json)) :
    (adminGet path params).Only Reads := by
  refine (only_computes _).bind fun params => ?_
  have hget : Reads (.adminGet path params) := rfl
  exact (only_ask hget).bind fun answer => only_computes _

theorem reads_swapPolls (threadId : Json) (dataType idTxt : Str) (polls : ℕ) :
    (swapPolls threadId dataType idTxt polls).Only Reads := by
  induction polls with
  | zero => exact only_throws _
  | succ polls ih =>
    have hget : Reads (.getResource threadId dataType) := rfl
    refine (only_ask hget).bind fun stored => ?_
    refine (only_computes _).bind fun msg => ?_
    split
    · split
      · exact only_throws _
      · exact only_pure _
    · exact ih
    · exact only_throws _

theorem reads_swap (threadId : Json) (dataType idTxt : Str) :
    (swapThreadIdForExchangeId threadId dataType idTxt).Only Reads := reads_swapPolls _ _ _ _

theorem reads_statePolls (path statusTxt : Str) (rounds : ℕ) :
    (statePolls path statusTxt rounds).Only Reads := by
  induction rounds with
  | zero => exact only_pure _
  | succ rounds ih =>
    refine (reads_adminGet _ _).bind fun answer => ?_
    dsimp only
    split
    · refine (only_computes _).bind fun respJson => (only_computes _).bind fun state => ?_
      split
      · exact only_pure _
      · exact ih
    · exact ih

theorem reads_requireState (path statusTxt : Str) (message : String) :
    (requireState path statusTxt message).Only Reads := by
  refine (reads_statePolls _ _ _).bind fun expected => ?_
  split
  · exact only_pure _
  · exact only_throws _

theorem reads_requireStateIf (needed : Bool) (path statusTxt : Str) (message : String) :
    (requireStateIf needed path statusTxt message).Only Reads := by
  rw [requireStateIf]
  split
  · exact reads_requireState _ _ _
  · exact only_pure _

theorem reads_mediationIdOf (data : Json) : (mediationIdOf data).Only Reads := by
  refine (only_computes _).bind fun named => ?_
  split
  · refine (only_computes _).bind fun connectionId => ?_
    split
    · exact only_pure _
    · refine Only.bind ?_ fun record => only_computes _
      refine (reads_adminGet _ _).bind fun answer => (only_computes _).bind fun respJson => ?_
      refine (only_computes _).bind fun results => (only_computes _).bind fun count => ?_
      split
      · exact only_throws _
      · split
        · exact only_throws _
        · exact only_computes _
  · exact only_pure _

theorem reads_popPolls {pops : Admin Json} (h : pops.Only Reads) (polls : ℕ) :
    (popPolls pops polls).Only Reads := by
  induction polls with
  | zero => exact only_pure _
  | succ polls ih =>
    refine h.bind fun msg => ?_
    split
    · exact ih
    · exact only_pure _

theorem reads_popResource (dataId : Json) (dataType : Str) :
    (popResource dataId dataType).Only Reads :=
  have hpop : Reads (.popResource dataId dataType) := rfl
  (only_ask hpop).bind fun _ => only_computes _

theorem reads_popResourceLatest (dataType : Str) : (popResourceLatest dataType).Only Reads :=
  have hpop : Reads (.popResourceLatest dataType) := rfl
  (only_ask hpop).bind fun _ => only_computes _

section

variable (py : Python) (b : Backchannel) (command : BackchannelCommand)

theorem reads_connectionOperationPlan : (connectionOperationPlan py b command).Only Reads := by
  refine (reads_requireStateIf _ _ _ _).bind fun _ => ?_
  split
  · exact only_pure _
  · exact only_pure _

theorem reads_connectionPlan : (connectionPlan py b command).Only Reads := by
  refine Only.bind ?_ fun mediationId => ?_
  · split
    · exact reads_mediationIdOf _
    · exact only_pure _
  · split_ifs
    · exact only_pure _
    · exact only_pure _
    · exact reads_connectionOperationPlan py b command
    · exact only_pure _

theorem reads_schemaPlan : (schemaPlan b command).Only Reads := by
  rw [schemaPlan]
  split
  · exact only_pure _
  · refine (only_computes _).bind fun schema => (reads_adminGet _ _).bind fun answer => ?_
    refine (only_computes _).bind fun respJson => (only_computes _).bind fun schemaIds => ?_
    refine (only_computes _).bind fun count => ?_
    split
    · exact (only_computes _).bind fun schemaId => only_pure _
    · exact only_pure _

theorem reads_credentialDefinitionPlan : (credentialDefinitionPlan b command).Only Reads := by
  rw [credentialDefinitionPlan]
  split
  · exact only_pure _
  · refine (only_computes _).bind fun definition => (reads_adminGet _ _).bind fun answer => ?_
    refine (only_computes _).bind fun respJson => (only_computes _).bind fun credDefIds => ?_
    refine (only_computes _).bind fun found => ?_
    split
    · exact only_pure _
    · exact only_pure _

theorem reads_credentialRecordPath : (credentialRecordPath py b command).Only Reads :=
  (reads_swap _ _ _).bind fun _ => (reads_requireStateIf _ _ _ _).bind fun _ => only_pure _

theorem reads_issueCredentialPlan : (issueCredentialPlan py b command).Only Reads := by
  rw [issueCredentialPlan]
  split
  · exact only_pure _
  · split_ifs
    · exact (reads_credentialRecordPath py b command).bind fun path => only_pure _
    · exact (only_computes _).bind fun path => only_pure _
    · exact (only_computes _).bind fun path => only_pure _

theorem reads_prepareJsonLdPlan : (prepareJsonLdPlan command).Only Reads := by
  refine (only_computes _).bind fun proofType => (only_computes _).bind fun keyType => ?_
  refine (only_computes _).bind fun didMethod => Only.bind ?_ fun did => ?_
  · refine (reads_adminGet _ _).bind fun answer => ?_
    dsimp only
    split
    · refine (only_computes _).bind fun respJson => (only_computes _).bind fun results => ?_
      refine (only_computes _).bind fun count => ?_
      split
      · exact (only_computes _).bind fun first => only_computes _
      · exact only_pure _
    · exact only_pure _
  · refine (only_computes _).bind fun method => ?_
    split_ifs
    · exact only_pure _
    · exact (only_computes _).bind fun text => only_pure _
    · exact only_pure _

theorem reads_exchangePath (topic dataType idTxt : Str) (text : Json → Except PyError Str) :
    (exchangePath command topic dataType idTxt text).Only Reads := by
  rw [exchangePath]
  split
  · exact only_pure _
  · exact (reads_swap _ _ _).bind fun exId => (only_computes _).bind fun exId => only_pure _

theorem reads_issueCredentialV2Plan : (issueCredentialV2Plan py b command).Only Reads := by
  rw [issueCredentialV2Plan]
  split
  · exact only_pure _
  · split
    · exact reads_prepareJsonLdPlan command
    · refine (reads_exchangePath _ _ _ _ _).bind fun path => ?_
      exact (only_computes _).bind fun operation => (only_computes _).bind fun data => only_pure _

theorem reads_proofPlan : (proofPlan py b command).Only Reads := by
  rw [proofPlan]
  split
  · exact only_pure _
  · refine Only.bind ?_ fun path => (only_computes _).bind fun data => only_pure _
    split
    · refine (reads_swap _ _ _).bind fun presExId => ?_
      exact (reads_requireStateIf _ _ _ _).bind fun _ => only_pure _
    · exact only_pure _

theorem reads_proofV2Plan : (proofV2Plan b command).Only Reads := by
  rw [proofV2Plan]
  split
  · exact only_pure _
  · refine (reads_exchangePath _ _ _ _ _).bind fun path => ?_
    exact (only_computes _).bind fun operation => (only_computes _).bind fun data => only_pure _

theorem reads_revocationPlan : (revocationPlan py b command).Only Reads :=
  (only_computes _).bind fun _ => only_pure _

theorem reads_formatAttachment (attachment : Json) : (formatAttachment attachment).Only Reads := by
  refine (only_computes _).bind fun type => (only_computes _).bind fun threadId => ?_
  split
  · split
    · exact only_pure _
    · refine (reads_adminGet _ _).bind fun answer => (only_computes _).bind fun respJson => ?_
      refine (only_computes _).bind fun results => (only_computes _).bind fun first => ?_
      exact (only_computes _).bind fun recordId => only_pure _
  · exact only_throws _

theorem reads_formatAttachments (attachments : List Json) :
    (formatAttachments attachments).Only Reads := by
  induction attachments with
  | nil => exact only_pure _
  | cons attachment attachments ih =>
    refine (reads_formatAttachment attachment).bind fun formatted => ?_
    split
    · exact only_pure _
    · refine ih.bind fun rest => ?_
      split
      · exact only_pure _
      · exact only_pure _

theorem reads_outOfBandPlan : (outOfBandPlan py command).Only Reads := by
  refine (reads_mediationIdOf _).bind fun mediationId => ?_
  split_ifs
  · refine (only_computes _).bind fun attachments => (only_computes _).bind fun attachments => ?_
    refine (reads_formatAttachments attachments).bind fun formatted => ?_
    split
    · exact (only_computes _).bind fun text => only_pure _
    · exact (only_computes _).bind fun data => only_pure _
  · exact (only_computes _).bind fun useExisting => only_pure _
  · exact only_pure _

theorem reads_makeAgentGetRequestResponse (messageName : Option Str) :
    (makeAgentGetRequestResponse command messageName).Only Reads := by
  rw [makeAgentGetRequestResponse]
  split
  · split
    · exact (reads_popPolls (reads_popResource _ _) _).bind fun msg => only_computes _
    · exact only_pure _
  · split
    · refine Only.bind ?_ fun msg => only_computes _
      refine (reads_popResourceLatest _).bind fun msg => ?_
      split
      · exact reads_popPolls (reads_popResourceLatest _) _
      · exact only_pure _
    · exact only_pure _

theorem reads_didExchangePlan : (didExchangePlan py b command).Only Reads := by
  rw [didExchangePlan]
  split_ifs
  · exact only_pure _
  · exact (reads_makeAgentGetRequestResponse command _).bind fun _ => only_pure _
  · exact (only_computes _).bind fun _ => only_pure _

/-- What leads to the POST only reads. -/
theorem reads_plan : (plan py b command).Only Reads := by
  rw [plan]
  refine only_ite (fun _ => reads_connectionPlan py b command) fun _ => ?_
  refine only_ite (fun _ => reads_schemaPlan b command) fun _ => ?_
  refine only_ite (fun _ => reads_credentialDefinitionPlan b command) fun _ => ?_
  refine only_ite (fun _ => reads_issueCredentialPlan py b command) fun _ => ?_
  refine only_ite (fun _ => reads_issueCredentialV2Plan py b command) fun _ => ?_
  refine only_ite (fun _ => reads_proofV2Plan b command) fun _ => ?_
  refine only_ite (fun _ => reads_revocationPlan py b command) fun _ => ?_
  refine only_ite (fun _ => reads_proofPlan py b command) fun _ => ?_
  refine only_ite (fun _ => reads_outOfBandPlan py command) fun _ => ?_
  exact only_ite (fun _ => reads_didExchangePlan py b command) fun _ => only_pure _

theorem reads_afterPost (p : Posting) (status : ℕ) (text : Text) :
    (AdminRequests.afterPost py b command p status text).Only Reads := by
  unfold AdminRequests.afterPost
  split
  · split
    · refine (only_computes _).bind fun respJson => (only_computes _).bind fun connectionId => ?_
      refine (only_computes _).bind fun state => ?_
      split_ifs
      · refine (reads_adminGet _ _).bind fun answer => ?_
        exact (only_computes _).bind fun text => only_pure _
      · exact (only_computes _).bind fun respJson => only_pure _
      · exact only_pure _
    · exact only_computes _
  · exact only_computes _

end

/-! The queries. -/

theorem reads_getThen (path : Str) (change : Text → Except PyError Text) :
    (getThen path change).Only Reads := by
  refine (reads_adminGet _ _).bind fun answer => ?_
  dsimp only
  split
  · exact (only_computes _).bind fun text => only_pure _
  · exact only_pure _

theorem reads_recordPath (command : BackchannelCommand) (records dataType idTxt : Str) :
    (recordPath command records dataType idTxt).Only Reads :=
  (reads_swap _ _ _).bind fun _ => (only_computes _).bind fun _ => only_pure _

section

variable (py : Python) (b : Backchannel) (command : BackchannelCommand)

theorem reads_activeConnectionQuery : (activeConnectionQuery py command).Only Reads := by
  refine (reads_adminGet _ _).bind fun answer => ?_
  dsimp only
  split
  · exact only_pure _
  · refine (only_computes _).bind fun respJson => (only_computes _).bind fun results => ?_
    refine (only_computes _).bind fun found => ?_
    split
    · exact only_pure _
    · exact (only_computes _).bind fun text => only_pure _

theorem reads_credentialQuery : (credentialQuery py command).Only Reads := by
  rw [credentialQuery]
  split
  · exact reads_adminGet _ _
  · refine (reads_adminGet _ _).bind fun answer => ?_
    dsimp only
    split
    · exact reads_getThen _ _
    · exact only_pure _

/-- Only a query for the DID writes. -/
theorem reads_makeAgentGetRequest (h : command.topic ≠ some "did".toList) :
    (makeAgentGetRequest py b command).Only Reads := by
  rw [makeAgentGetRequest]
  refine only_ite (fun _ => only_pure _) fun _ => only_ite (fun _ => only_pure _) fun _ => ?_
  refine only_ite (fun _ => reads_getThen _ _) fun _ => ?_
  refine only_ite (fun hdid => absurd hdid h) fun _ => ?_
  refine only_ite (fun _ => reads_activeConnectionQuery py command) fun _ => ?_
  refine only_ite (fun _ => reads_getThen _ _) fun _ => ?_
  refine only_ite (fun _ => reads_getThen _ _) fun _ => ?_
  refine only_ite (fun _ => ?_) fun _ => ?_
  · exact (reads_recordPath command _ _ _).bind fun path => reads_getThen _ _
  refine only_ite (fun _ => ?_) fun _ => ?_
  · refine (reads_recordPath command _ _ _).bind fun path => (reads_adminGet _ _).bind fun _ => ?_
    exact (only_computes _).bind fun text => only_pure _
  refine only_ite (fun _ => reads_credentialQuery py command) fun _ => ?_
  refine only_ite (fun _ => ?_) fun _ => ?_
  · exact (reads_swap _ _ _).bind fun presExId => reads_getThen _ _
  refine only_ite (fun _ => ?_) fun _ => ?_
  · exact (reads_recordPath command _ _ _).bind fun path => reads_adminGet _ _
  refine only_ite (fun _ => (only_computes _).bind fun _ => reads_adminGet _ _) fun _ => ?_
  exact only_ite (fun _ => reads_getThen _ _) fun _ => only_pure _

end

/-! The writes. -/

/-- What a POST with parameters comes to; they may have no text. -/
def posting (path : Str) (data : Json) (params : List (Str × Json)) : List AdminCall :=
  match queryParams params with
  | .ok query => [.adminPost path data query]
  | .error _ => []

theorem makes_adminPost (path : Str) (data : Json) (params : List (Str × Json)) :
    (adminPost path data params).Makes writes (posting path data params) := by
  intro events r h
  rcases behaves_adminPost.mp h with ⟨e, hquery, rfl, rfl⟩ | ⟨query, answer, hquery, rfl, rfl⟩
  · rw [posting, hquery]
    exact ⟨List.prefix_rfl, fun _ hr => by cases hr⟩
  · rw [posting, hquery]
    exact ⟨List.prefix_rfl, fun _ _ => rfl⟩

theorem makes_register (data : Json) : (register data).Makes writes [.register data] := by
  have hkind : writes (.register data) = true := rfl
  refine (makes_ask hkind).bind_only fun answer => ?_
  refine (only_computes _).bind fun status => ?_
  exact only_ite (fun _ => only_pure _) fun _ => only_throws _

theorem makes_adminDelete (path : Str) : (adminDelete path).Makes writes [.adminDelete path] := by
  have hkind : writes (.adminDelete path) = true := rfl
  exact (makes_ask hkind).bind_only fun answer => only_computes _

/-- The writes that create a DID. -/
def creation (did verkey : Json) : List AdminCall :=
  posting "/wallet/did/create" (.obj []) [] ++ [.register (registration did verkey)] ++
    posting "/wallet/did/public" (.obj []) [("did", did)]

/-- A DID is created, registered and published, in this order and as far as the command comes,
unless the agent has told that it has one. -/
def CreatesDid (events : List (Event Reply)) : Prop :=
  calls writes events = [] ∨
    ∃ (did verkey : Json) (answer : Answer) (rest : List (Event Reply)) (status : ℕ) (text : Text),
      events = ⟨.adminGet "/wallet/did/public" [], answer⟩ :: rest ∧
      answer.read = .ok (status, text) ∧ publicDid text = .ok .null ∧
      calls writes events <+: creation did verkey

theorem creation_of_newPublicDid {events : List (Event Reply)} {r : Except PyError (ℕ × Text)}
    (h : Behaves newPublicDid events r) : ∃ did verkey, calls writes events <+: creation did verkey := by
  have hcreate := makes_adminPost "/wallet/did/create" (.obj []) []
  rcases behaves_bind.mp h with ⟨e, -, hpost⟩ | ⟨⟨status, text⟩, first, rest, rfl, hpost, hrest⟩
  · refine ⟨.null, .null, (hcreate hpost).1.trans ?_⟩
    exact (List.prefix_append _ _).trans (List.prefix_append _ _)
  · have hfirst := (hcreate hpost).2 _ rfl
    rcases behaves_computes_bind.mp hrest with ⟨e, -, rfl, -⟩ | ⟨⟨did, verkey⟩, -, hrest⟩
    · refine ⟨.null, .null, ?_⟩
      rw [List.append_nil, hfirst]
      exact (List.prefix_append _ _).trans (List.prefix_append _ _)
    · have hget := reads_getThen "/wallet/did/public" fun respText =>
        (publicDid respText).map JsonWriting.dumps
      have hpublish := (makes_adminPost "/wallet/did/public" (.obj []) [("did", did)]).bind
        fun _ => hget.makes
      have hregister := (makes_register (registration did verkey)).bind fun _ => hpublish
      refine ⟨did, verkey, ?_⟩
      rw [calls_append, hfirst, creation, List.append_assoc]
      refine (List.prefix_append_right_inj _).mpr ?_
      simpa using (hregister hrest).1

theorem creates_did {events : List (Event Reply)} {r : Except PyError (ℕ × Text)}
    (h : Behaves didQuery events r) : CreatesDid events := by
  have hget := reads_adminGet "/wallet/did/public" []
  rcases behaves_bind.mp h with ⟨e, -, hfirst⟩ | ⟨⟨status, text⟩, first, rest, rfl, hfirst, hrest⟩
  · exact .inl (hget.calls_eq_nil hfirst)
  · have hnone := hget.calls_eq_nil hfirst
    rcases behaves_computes_bind.mp hrest with ⟨e, -, rfl, -⟩ | ⟨result, hresult, hrest⟩
    · exact .inl (by rw [List.append_nil, hnone])
    · by_cases hnull : result = .null
      · subst hnull
        obtain ⟨did, verkey, hmade⟩ := creation_of_newPublicDid hrest
        rcases behaves_adminGet.mp hfirst with ⟨e, hquery, -⟩ | ⟨query, answer, hquery, rfl, hread⟩
        · cases hquery
        · obtain rfl : ([] : List (Str × Str)) = query := Except.ok.inj hquery
          refine .inr ⟨did, verkey, answer, rest, status, text, rfl, hread.symm, hresult, ?_⟩
          rw [calls_append, hnone]
          exact hmade
      · have hpure : Behaves (pure (status, JsonWriting.dumps result) : Answered) rest r := by
          simpa [hnull] using hrest
        obtain ⟨rfl, -⟩ := behaves_pure.mp hpure
        exact .inl (by rw [List.append_nil, hnone])

/-- What a command may write: a query nothing, but for the one that creates a DID; the others at
most one POST or one DELETE. -/
def WritesOf (py : Python) (command : BackchannelCommand) (events : List (Event Reply)) : Prop :=
  match command.method with
  | .get => if command.topic = some "did".toList then CreatesDid events else
      calls writes events = []
  | .post => ∃ path data, calls writes events <+: [.adminPost path data []]
  | .delete =>
    calls writes events <+: [.adminDelete (("/credential/" : Str) ++ py.str command.recordId)]

section

variable {py : Python} {b : Backchannel} {command : BackchannelCommand}
  {events : List (Event Reply)} {r : Except PyError (ℕ × Text)}

/-- Around the POST that was planned nothing is written. -/
theorem reads_around_post (posted : Posted py b command events r) :
    calls writes posted.before = [] ∧ calls writes posted.after = [] := by
  refine ⟨(reads_plan py b command).calls_eq_nil posted.planned, ?_⟩
  rcases posted.followed with ⟨e, -, hnone, -⟩ | ⟨status, text, -, hb⟩
  · rw [hnone]
    rfl
  · exact (reads_afterPost py b command posted.p status text).calls_eq_nil hb

theorem mem_of_posted (posted : Posted py b command events r) :
    (⟨.adminPost posted.path posted.data [], posted.answer⟩ : Event Reply) ∈ events := by
  obtain ⟨p, path, data, before, answer, after, planned, rfl, followed⟩ := posted
  exact List.mem_append_right _ List.mem_cons_self

theorem eq_of_posted (posted : Posted py b command events r) {e : Event Reply} (he : e ∈ events)
    (hwrites : writes e.1 = true) :
    e = ⟨.adminPost posted.path posted.data [], posted.answer⟩ := by
  obtain ⟨hbefore, hafter⟩ := reads_around_post posted
  rw [posted.events_eq, List.mem_append, List.mem_cons] at he
  rcases he with he | he | he
  · exact absurd hbefore (List.ne_nil_of_mem (mem_calls he hwrites))
  · exact he
  · exact absurd hafter (List.ne_nil_of_mem (mem_calls he hwrites))

theorem writes_of_post (h : Behaves (makeAgentPostRequest py b command) events r) :
    ∃ path data, calls writes events <+: [.adminPost path data []] := by
  have hplan := reads_plan py b command
  rcases post_cases h with ⟨e, -, hb⟩ | ⟨status, text, -, hb⟩ | ⟨⟨posted⟩⟩
  · exact ⟨[], .null, hplan.calls_eq_nil hb ▸ List.nil_prefix⟩
  · exact ⟨[], .null, hplan.calls_eq_nil hb ▸ List.nil_prefix⟩
  · obtain ⟨hbefore, hafter⟩ := reads_around_post posted
    obtain ⟨p, path, data, before, answer, after, planned, rfl, followed⟩ := posted
    have hpost : calls writes (⟨.adminPost path data [], answer⟩ :: after) =
        [.adminPost path data []] := congrArg (AdminCall.adminPost path data [] :: ·) hafter
    refine ⟨path, data, ?_⟩
    rw [calls_append, hbefore, List.nil_append, hpost]

theorem writes_of_delete (h : Behaves (makeAgentDeleteRequest py command) events r) :
    calls writes events <+:
      [.adminDelete (("/credential/" : Str) ++ py.str command.recordId)] := by
  rw [makeAgentDeleteRequest] at h
  split at h
  · refine ((makes_adminDelete _).bind_only (fun answer => ?_) h).1
    exact only_ite (fun _ => (only_computes _).bind fun _ => only_pure _) fun _ => only_pure _
  · obtain ⟨rfl, -⟩ := behaves_pure.mp h
    exact List.nil_prefix

/-- Every behaviour of a command writes what it may. -/
theorem writes_of_command (h : Behaves (makeAgentRequest py b command) events r) :
    WritesOf py command events := by
  rw [WritesOf]
  rw [makeAgentRequest] at h
  cases hmethod : command.method with
  | get =>
    rw [hmethod] at h
    dsimp only at h ⊢
    split
    · next hdid =>
      have hquery : makeAgentGetRequest py b command = didQuery := by
        simp [makeAgentGetRequest, hdid]
      exact creates_did (hquery ▸ h)
    · next hdid => exact (reads_makeAgentGetRequest py b command hdid).calls_eq_nil h
  | post =>
    rw [hmethod] at h
    exact writes_of_post h
  | delete =>
    rw [hmethod] at h
    exact writes_of_delete h

end

/-- An agent that is ready to issue the credential of a thread. -/
def issuer : (call : AdminCall) → Reply call
  | .adminGet _ _ => ⟨200, .ok "\x7b\"state\": \"request_received\"\x7d".toList⟩
  | .adminPost _ _ _ => ⟨200, .ok "\x7b\"state\": \"credential_issued\"\x7d".toList⟩
  | .adminDelete _ => ⟨200, .ok "\x7b\x7d".toList⟩
  | .register _ => .ok 200
  | .getResource _ _ => .ok (.arr [.obj [("credential_exchange_id", .str "exchange")]])
  | .popResource _ _ => .ok .null
  | .popResourceLatest _ => .ok .null

def issueCommand : BackchannelCommand :=
  ⟨some "issue-credential".toList, some "issue".toList, .str "thread", .post,
    .obj [("comment", .str "issued")], .bool false⟩

def backchannel : Backchannel := ⟨FailedPosts.manual, some "0.12.1".toList, true⟩

def issuing : List (Event Reply) × Except PyError (ℕ × Text) :=
  (makeAgentRequest RevocationCommands.plainPython backchannel issueCommand).run issuer

def issued : AdminCall :=
  .adminPost "/issue-credential/records/exchange/issue" (.obj [("comment", .str "issued")]) []

theorem calls_issuing : calls writes issuing.1 = [issued] := by decide +kernel

theorem issuing_writes : WritesOf RevocationCommands.plainPython issueCommand issuing.1 ∧
    calls writes issuing.1 = [issued] := ⟨writes_of_command (behaves_run issuer _), calls_issuing⟩

end AgentTestHarness.AdminWrites
