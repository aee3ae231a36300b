import AgentTestHarness.ConnectionSteps
import AgentTestHarness.ServiceHistories

/-! What the harness may send to the backchannel of an agent after what the backchannels told it,
and what its context holds of that. -/
namespace AgentTestHarness.ConnectionHistories
open PyText OrderedDict PyJson JsonReading ServiceCalls ServiceHistories ConnectionSteps
open CommandRequests (Site)
open ProofRequests (setItem)
open Program

/-! What the backchannels told the harness. -/

/-- The backchannel of an agent answered with a text. -/
def Answered (past : List (Event Reply)) (agent text : Text) : Prop :=
  ∃ call status, (⟨call, .ok (status, text)⟩ : Event Reply) ∈ past ∧ call.agent = agent

/-- It answered with an object that has the member. -/
def Told (past : List (Event Reply)) (agent : Text) (member : Str) (value : Json) : Prop :=
  ∃ text json, Answered past agent text ∧ loads text = .ok json ∧ json.item member = .ok value

/-- The backchannel of an agent told the id of one of its connections. -/
def Own (past : List (Event Reply)) (agent : Text) (id : Json) : Prop :=
  Told past agent "connection_id" id

theorem Answered.mono {past past' : List (Event Reply)} {agent text : Text}
    (h : Answered past agent text) (hpast : past <+: past') : Answered past' agent text := by
  obtain ⟨call, status, hmem, hagent⟩ := h
  exact ⟨call, status, hpast.subset hmem, hagent⟩

theorem Told.mono {past past' : List (Event Reply)} {agent : Text} {member : Str} {value : Json}
    (h : Told past agent member value) (hpast : past <+: past') :
    Told past' agent member value := by
  obtain ⟨text, json, htext, hjson⟩ := h
  exact ⟨text, json, htext.mono hpast, hjson⟩

/-- What the harness adds to an invitation that it passes on. -/
def added : List Str := ["mediator_connection_id", "use_existing_connection"]

/-- The mediator was added to an invitation for an agent that had told it. The harness changes the
invitation in its context, and the next agent gets this mediator too. -/
def Lent (past : List (Event Reply)) (id : Json) : Prop :=
  ∃ agent topic ms answer,
    (⟨.post agent topic (some "receive-invitation") .null (.obj ms) false, answer⟩ :
      Event Reply) ∈ past ∧
    lookup ("mediator_connection_id" : Str) ms = some id ∧ Own past agent id

/-- Nothing else is changed, and only such a mediator is added. -/
def PassedOn (mediators : Json → Prop) (told data : Json) : Prop :=
  data = told ∨ ∃ ms ms', told = .obj ms ∧ data = .obj ms' ∧
    (∀ name ∉ added, lookup name ms' = lookup name ms) ∧
    ∀ id, lookup ("mediator_connection_id" : Str) ms' = some id →
      lookup ("mediator_connection_id" : Str) ms = some id ∨ mediators id

/-- An invitation that an agent made. -/
def Invitation (past : List (Event Reply)) (mediators : Json → Prop) (data : Json) : Prop :=
  ∃ agent told, Told past agent "invitation" told ∧ PassedOn mediators told data

/-- An answer of an agent as a whole. -/
def Document (past : List (Event Reply)) (data : Json) : Prop :=
  ∃ agent text, Answered past agent text ∧ loads text = .ok data

/-- The queries for the state of a connection. -/
def connectionTopics : List String := ["connection", "did-exchange", "mediation"]

/-- The data of a command. These steps attach nothing to an invitation. -/
def DataGrounded (past : List (Event Reply)) (agent : Text) (topic operation : String)
    (data : Json) : Prop :=
  (operation = "send-invitation-message" → data.get "attachments" = .ok .null) ∧
  if operation = "receive-invitation" then
    Invitation past (fun id => Own past agent id ∨ Lent past id) data
  else if operation = "accept-invitation" ∧ topic = "oob-v2" then
    ∃ other told, Told past other "invitation" told ∧ data = .obj [("invitation", told)]
  else if operation = "receive-request-resolvable-did" then data = .null ∨ Document past data
  else ∀ id, data.get "mediator_connection_id" = .ok id → id = .null ∨ Own past agent id

/-- The topics of the steps that connect agents. -/
def connecting : List String :=
  ["agent", "did", "active-connection", "out-of-band", "oob-v2"] ++ connectionTopics

/-- The ids of connections that are sent to an agent, in paths and in data, are its own, and what
is passed on to it came from an agent. -/
def Grounded (past : List (Event Reply)) : Call → Prop
  | .get agent .command topic none (some id) _ =>
    topic ∈ connecting ∧ (topic ∈ connectionTopics → Own past agent (.str id))
  | .get _ _ topic _ _ _ => topic ∈ connecting
  | .post agent topic (some operation) id data _ =>
    topic ∈ connecting ∧ (id = .null ∨ Own past agent id) ∧
      DataGrounded past agent topic operation data
  | _ => False

theorem Grounded.topic_mem {past : List (Event Reply)} {call : Call} (h : Grounded past call) :
    call.topic ∈ connecting := by
  unfold Grounded at h
  split at h
  · exact h.1
  · exact h
  · exact h.1
  · exact h.elim

theorem Lent.mono {past past' : List (Event Reply)} {id : Json} (h : Lent past id)
    (hpast : past <+: past') : Lent past' id := by
  obtain ⟨agent, topic, ms, answer, hmem, hid, hown⟩ := h
  exact ⟨agent, topic, ms, answer, hpast.subset hmem, hid, hown.mono hpast⟩

/-- The history grows, and more mediators may be added. -/
theorem Invitation.mono {past past' : List (Event Reply)} {mediators mediators' : Json → Prop}
    {data : Json} (h : Invitation past mediators data) (hpast : past <+: past')
    (himp : ∀ ms id, data = .obj ms → lookup ("mediator_connection_id" : Str) ms = some id →
      mediators id → mediators' id) : Invitation past' mediators' data := by
  obtain ⟨agent, told, htold, hpassed⟩ := h
  refine ⟨agent, told, htold.mono hpast, ?_⟩
  rcases hpassed with rfl | ⟨ms, ms', rfl, rfl, hsame, hmediator⟩
  · exact .inl rfl
  · exact .inr ⟨ms, ms', rfl, rfl, hsame, fun id hid =>
      (hmediator id hid).imp_right (himp ms' id rfl hid)⟩

theorem Document.mono {past past' : List (Event Reply)} {data : Json}
    (h : Document past data) (hpast : past <+: past') : Document past' data := by
  obtain ⟨agent, text, htext, hdata⟩ := h
  exact ⟨agent, text, htext.mono hpast, hdata⟩

/-- An invitation with a member added to it is still the one that was told. -/
theorem Invitation.withMember {past : List (Event Reply)} {mediators : Json → Prop}
    {data data' : Json} {name : Str} {value : Json} (h : Invitation past mediators data)
    (hset : setItem data name value = .ok data') (hname : name ∈ added)
    (hvalue : name = "mediator_connection_id" → mediators value) :
    Invitation past mediators data' := by
  obtain ⟨agent, told, htold, hpassed⟩ := h
  refine ⟨agent, told, htold, .inr ?_⟩
  have hfrom : ∃ ms ms', told = .obj ms ∧ data = .obj ms' ∧
      (∀ name ∉ added, lookup name ms' = lookup name ms) ∧
      ∀ id, lookup ("mediator_connection_id" : Str) ms' = some id →
        lookup ("mediator_connection_id" : Str) ms = some id ∨ mediators id := by
    rcases hpassed with rfl | h
    · cases data with
      | obj ms => exact ⟨ms, ms, rfl, rfl, fun _ _ => rfl, fun id hid => .inl hid⟩
      | _ => cases hset
    · exact h
  obtain ⟨ms, ms', rfl, rfl, hsame, hmediator⟩ := hfrom
  refine ⟨ms, assign name value ms', rfl, (Except.ok.inj hset).symm, fun n hn => ?_,
    fun id hid => ?_⟩
  · have hne : n ≠ name := fun hn' => hn (hn' ▸ hname)
    rw [lookup_assign_ne hne, hsame n hn]
  · rw [lookup_assign] at hid
    split at hid
    · next h =>
      obtain rfl := Option.some.inj hid
      exact .inr (hvalue h.symm)
    · exact hmediator id hid

/-- When an invitation was passed on to an agent, the next one may get the agent's mediator. -/
theorem Invitation.lent {past : List (Event Reply)} {agent : Text} {topic : String} {data : Json}
    {answer : Reply (.post agent topic (some "receive-invitation") .null data false)}
    (h : Invitation past (fun id => Own past agent id ∨ Lent past id) data) :
    Invitation (past ++ [⟨.post agent topic (some "receive-invitation") .null data false, answer⟩])
      (Lent (past ++ [⟨.post agent topic (some "receive-invitation") .null data false, answer⟩]))
      data := by
  have hpast := List.prefix_append past
    [(⟨.post agent topic (some "receive-invitation") .null data false, answer⟩ : Event Reply)]
  refine h.mono hpast fun ms id hdata hid hmediator => ?_
  rcases hmediator with hown | hlent
  · subst hdata
    exact ⟨agent, topic, ms, answer, List.mem_append_right _ List.mem_cons_self, hid,
      hown.mono hpast⟩
  · exact hlent.mono hpast

/-! The rules for the client, whatever may be called. -/

section

variable {α : Type} {allowed : List (Event Reply) → Call → Prop} {past : List (Event Reply)}

theorem meets_py {x : Except PyError α} {post : List (Event Reply) → α → Prop}
    (h : ∀ a, x = .ok a → post past a) : Meets allowed past (py x) post := by
  refine meets_computes fun a ha => ?_
  cases x with
  | ok b => exact h a (congrArg _ (Except.ok.inj ha))
  | error e => cases ha

theorem meets_asserts {p : Prop} [Decidable p] {post : List (Event Reply) → Unit → Prop}
    (h : p → post past ()) : Meets allowed past (asserts p) post :=
  meets_ite (fun hp => meets_pure (h hp)) fun _ => meets_throws _

theorem urlOf_eq_ok {url : Option Text} {agent : Text} (h : urlOf url = .ok agent) :
    url = some agent := by
  cases url with
  | none => cases h
  | some u => rw [Except.ok.inj h]

/-- A query is made once, and adds its answer to the history. -/
theorem meets_query {url : Option Text} {site : Site} {topic : String} {operation : Option String}
    {id : Json} {anoncreds : Bool} {post : List (Event Reply) → ℕ × Text → Prop}
    (hcall : ∀ agent s, url = some agent → pathId id = .ok s →
      allowed past (.get agent site topic operation s anoncreds))
    (h : ∀ agent s status text, url = some agent → pathId id = .ok s →
      post (past ++ [⟨.get agent site topic operation s anoncreds, .ok (status, text)⟩])
        (status, text)) :
    Meets allowed past (agentBackchannelGET url site topic operation id anoncreds) post := by
  refine Meets.bind (meets_py fun agent hagent => ?_)
  refine Meets.bind (meets_py fun s hs => ?_)
  refine Meets.bind (meets_ask (hcall agent s (urlOf_eq_ok hagent) hs) fun answer => ?_)
  refine meets_py fun (status, text) hanswer => ?_
  obtain rfl : answer = .ok (status, text) := hanswer
  exact h agent s status text (urlOf_eq_ok hagent) hs

theorem meets_command {url : Option Text} {topic : String} {operation : Option String}
    {id data : Json} {anoncreds : Bool} {post : List (Event Reply) → ℕ × Text → Prop}
    (hcall : ∀ agent, url = some agent →
      allowed past (.post agent topic operation id data anoncreds))
    (h : ∀ agent status text, url = some agent →
      post (past ++ [⟨.post agent topic operation id data anoncreds, .ok (status, text)⟩])
        (status, text)) :
    Meets allowed past (agentBackchannelPOST url topic operation id data anoncreds) post := by
  refine Meets.bind (meets_py fun agent hagent => ?_)
  refine Meets.bind (meets_ask (hcall agent (urlOf_eq_ok hagent)) fun answer => ?_)
  refine meets_py fun (status, text) hanswer => ?_
  obtain rfl : answer = .ok (status, text) := hanswer
  exact h agent status text (urlOf_eq_ok hagent)

theorem meets_get {url : Option Text} {site : Site} {topic : String} {operation : Option String}
    {id : Json} {anoncreds : Bool} {post : List (Event Reply) → ℕ × Text → Prop}
    (hcall : ∀ agent s, url = some agent → pathId id = .ok s →
      allowed past (.get agent site topic operation s anoncreds))
    (h : ∀ agent s status text past', url = some agent → pathId id = .ok s →
      past <+: past' →
      (⟨.get agent site topic operation s anoncreds, .ok (status, text)⟩ : Event Reply) ∈ past' →
      post past' (status, text)) :
    Meets allowed past (agentBackchannelGET url site topic operation id anoncreds) post :=
  meets_query hcall fun agent s status text hagent hs =>
    h agent s status text _ hagent hs (List.prefix_append _ _)
      (List.mem_append_right _ List.mem_cons_self)

theorem meets_post {url : Option Text} {topic : String} {operation : Option String}
    {id data : Json} {anoncreds : Bool} {post : List (Event Reply) → ℕ × Text → Prop}
    (hcall : ∀ agent, url = some agent →
      allowed past (.post agent topic operation id data anoncreds))
    (h : ∀ agent status text past', url = some agent → past <+: past' →
      Answered past' agent text → post past' (status, text)) :
    Meets allowed past (agentBackchannelPOST url topic operation id data anoncreds) post :=
  meets_command hcall fun agent status text hagent =>
    h agent status text _ hagent (List.prefix_append _ _)
      ⟨_, status, List.mem_append_right _ List.mem_cons_self, rfl⟩

theorem meets_posts {url : Option Text} {topic operation : String} {id data : Json}
    {post : List (Event Reply) → Text → Prop}
    (hcall : ∀ agent, url = some agent →
      allowed past (.post agent topic (some operation) id data false))
    (h : ∀ agent text past', url = some agent → past <+: past' →
      Answered past' agent text → post past' text) :
    Meets allowed past (posts url topic operation id data) post := by
  refine Meets.bind (meets_post hcall fun agent status text past' hagent hpast htext => ?_)
  exact Meets.bind (meets_asserts fun _ => meets_pure (h agent text past' hagent hpast htext))

end

/-- A command that makes no invitation and passes nothing on. -/
def Plain (topic operation : String) : Prop :=
  operation ∉ ["send-invitation-message", "receive-invitation", "receive-request-resolvable-did"] ∧
    ¬ (operation = "accept-invitation" ∧ topic = "oob-v2")

instance (topic operation : String) : Decidable (Plain topic operation) :=
  inferInstanceAs (Decidable (_ ∧ _))

/-- The data of such a command hold a mediator of the agent, if any. -/
theorem dataGrounded_of_own {past : List (Event Reply)} {agent : Text} {topic operation : String}
    {data : Json} (hplain : Plain topic operation)
    (h : ∀ id, data.get "mediator_connection_id" = .ok id → id = .null ∨ Own past agent id) :
    DataGrounded past agent topic operation data := by
  obtain ⟨hoperation, haccept⟩ := hplain
  have hne : ∀ op ∈ ["send-invitation-message", "receive-invitation",
      "receive-request-resolvable-did"], operation ≠ op := fun op hop heq => hoperation (heq ▸ hop)
  rw [DataGrounded, if_neg (hne _ (by decide)), if_neg haccept, if_neg (hne _ (by decide))]
  exact ⟨fun heq => absurd heq (hne _ (by decide)), h⟩

/-- An invitation that is made without a message. -/
theorem dataGrounded_message {past : List (Event Reply)} {agent : Text} {data : Json}
    (hattached : data.get "attachments" = .ok .null)
    (h : ∀ id, data.get "mediator_connection_id" = .ok id → id = .null ∨ Own past agent id) :
    DataGrounded past agent "out-of-band" "send-invitation-message" data := by
  rw [DataGrounded, if_neg (by decide), if_neg (by decide), if_neg (by decide)]
  exact ⟨fun _ => hattached, h⟩

theorem dataGrounded_invitation {past : List (Event Reply)} {agent : Text} {topic : String}
    {data : Json} (h : Invitation past (fun id => Own past agent id ∨ Lent past id) data) :
    DataGrounded past agent topic "receive-invitation" data := by
  rw [DataGrounded, if_pos rfl]
  exact ⟨fun hmessage => absurd hmessage (by decide), h⟩

/-! What the context holds. -/

/-- A connection of the agent with the name. -/
def OwnOf (cfg : Config) (past : List (Event Reply)) (name : Text) (id : Json) : Prop :=
  ∃ agent, cfg.userdata name = some agent ∧ Own past agent id

theorem OwnOf.mono {cfg : Config} {past past' : List (Event Reply)} {name : Text} {id : Json}
    (h : OwnOf cfg past name id) (hpast : past <+: past') : OwnOf cfg past' name id := by
  obtain ⟨agent, hagent, hown⟩ := h
  exact ⟨agent, hagent, hown.mono hpast⟩

theorem OwnOf.own {cfg : Config} {past : List (Event Reply)} {name agent : Text} {id : Json}
    (h : OwnOf cfg past name id) (hagent : cfg.userdata name = some agent) : Own past agent id := by
  obtain ⟨agent', hagent', hown⟩ := h
  obtain rfl := Option.some.inj (hagent.symm.trans hagent')
  exact hown

structure Sound (cfg : Config) (past : List (Event Reply)) (ctx : Context) : Prop where
  ids : ∀ a partner id, ctx.connectionIds.get? (some a, partner) = some id → OwnOf cfg past a id
  temp : ∀ a id, ctx.tempConnectionIds.get? a = some id → OwnOf cfg past a id
  roles : ∀ role name, ctx.nameOf role = some name → (ctx.roles role).url = cfg.userdata name
  inviterInvitation : ∀ invitation, ctx.inviterInvitation = some invitation →
    Invitation past (Lent past) invitation
  responderInvitation : ctx.responderInvitation = .null ∨
    Invitation past (Lent past) ctx.responderInvitation
  invitationV2 : ∀ invitations a invitation, ctx.invitationV2 = some invitations →
    invitations.get? a = some invitation → ∃ agent, Told past agent "invitation" invitation
  publicDidDoc : ctx.requesterPublicDidDoc = .null ∨ Document past ctx.requesterPublicDidDoc

theorem sound_fresh (cfg : Config) : Sound cfg [] Context.fresh where
  ids _ _ _ h := by cases h
  temp _ _ h := by cases h
  roles _ _ h := by cases h
  inviterInvitation _ h := by cases h
  responderInvitation := .inl rfl
  invitationV2 _ _ _ h := by cases h
  publicDidDoc := .inl rfl

namespace Sound

variable {cfg : Config} {past past' : List (Event Reply)} {ctx : Context}

theorem mono (h : Sound cfg past ctx) (hpast : past <+: past') : Sound cfg past' ctx where
  ids a partner id hid := (h.ids a partner id hid).mono hpast
  temp a id hid := (h.temp a id hid).mono hpast
  roles := h.roles
  inviterInvitation i hi := (h.inviterInvitation i hi).mono hpast fun _ _ _ _ hid => hid.mono hpast
  responderInvitation := h.responderInvitation.imp_right
    (·.mono hpast fun _ _ _ _ hid => hid.mono hpast)
  invitationV2 is a i his hi := by
    obtain ⟨agent, htold⟩ := h.invitationV2 is a i his hi
    exact ⟨agent, htold.mono hpast⟩
  publicDidDoc := h.publicDidDoc.imp_right (·.mono hpast)

theorem ownOf (h : Sound cfg past ctx) {a : Text} {partner : Option Text} {id : Json}
    (hid : ctx.connectionId (some a) partner = .ok id) : OwnOf cfg past a id := by
  rw [Context.connectionId] at hid
  split at hid
  · next id' hget =>
    obtain rfl := Except.ok.inj hid
    exact h.ids a partner id' hget
  · cases hid

theorem own (h : Sound cfg past ctx) {a : Text} {partner : Option Text} {id : Json}
    (hid : ctx.connectionId (some a) partner = .ok id) {agent : Text}
    (hagent : cfg.userdata a = some agent) : Own past agent id := (h.ownOf hid).own hagent

theorem withConnectionId (h : Sound cfg past ctx) {name partner : Option Text} {id : Json}
    (hid : ∀ a, name = some a → OwnOf cfg past a id) :
    Sound cfg past (ctx.withConnectionId name partner id) where
  ids a p i hi := by
    change (ctx.connectionIds.set (name, partner) id).get? (some a, p) = some i at hi
    rw [Dict.get?_set] at hi
    split at hi
    · next hkey =>
      obtain rfl := Option.some.inj hi
      obtain ⟨rfl, -⟩ := Prod.mk.inj hkey
      exact hid a rfl
    · exact h.ids a p i hi
  temp := h.temp
  roles := h.roles
  inviterInvitation := h.inviterInvitation
  responderInvitation := h.responderInvitation
  invitationV2 := h.invitationV2
  publicDidDoc := h.publicDidDoc

/-- The agent itself told the id. -/
theorem withOwnId (h : Sound cfg past ctx) {a agent : Text} (partner : Option Text) {id : Json}
    (hagent : cfg.userdata a = some agent) (hid : Own past agent id) :
    Sound cfg past (ctx.withConnectionId (some a) partner id) :=
  h.withConnectionId fun a' ha => by
    obtain rfl := Option.some.inj ha
    exact ⟨agent, hagent, hid⟩

theorem withRole (h : Sound cfg past ctx) (role : Role) (name : Text) :
    Sound cfg past (ctx.withRole role name (cfg.userdata name)) where
  ids := h.ids
  temp := h.temp
  roles r n hn := by
    change (Function.update ctx.roles role ⟨some name, cfg.userdata name⟩ r).name = some n at hn
    change (Function.update ctx.roles role ⟨some name, cfg.userdata name⟩ r).url = _
    by_cases hr : r = role
    · subst hr
      rw [Function.update_self] at hn ⊢
      rw [Option.some.inj hn]
    · rw [Function.update_of_ne hr] at hn ⊢
      exact h.roles r n hn
  inviterInvitation := h.inviterInvitation
  responderInvitation := h.responderInvitation
  invitationV2 := h.invitationV2
  publicDidDoc := h.publicDidDoc

theorem latest (h : Sound cfg past ctx) (role : Role) (name : Text) :
    Sound cfg past (if ctx.nameOf role = some name then ctx
      else ctx.withRole role name (cfg.userdata name)) := by
  split
  · exact h
  · exact h.withRole role name

/-- The mediator that the harness adds for an agent is the agent's own. -/
theorem mediated (h : Sound cfg past ctx) {a : Text} {data data' : Json}
    (hdata : ctx.mediated a data = .ok data') :
    data' = data ∨ ∃ id, setItem data "mediator_connection_id" id = .ok data' ∧
      OwnOf cfg past a id := by
  rw [Context.mediated] at hdata
  split at hdata
  · exact .inl (Except.ok.inj hdata).symm
  · obtain ⟨id, hid, hset⟩ := bind_eq_ok hdata
    exact .inr ⟨id, hset, h.ownOf hid⟩

/-- Data that had no mediator hold one of the agent then, if any. -/
theorem mediator_own (h : Sound cfg past ctx) {a agent : Text} {ms : List (Str × Json)}
    {data : Json} (hdata : ctx.mediated a (.obj ms) = .ok data)
    (hnone : lookup ("mediator_connection_id" : Str) ms = none)
    (hagent : cfg.userdata a = some agent) :
    ∀ id, data.get "mediator_connection_id" = .ok id → id = .null ∨ Own past agent id := by
  intro id hid
  rcases h.mediated hdata with rfl | ⟨m, hset, hm⟩
  · rw [Json.get, hnone] at hid
    exact .inl (Except.ok.inj hid).symm
  · obtain rfl := Except.ok.inj hset
    rw [Json.get, lookup_assign_self] at hid
    obtain rfl : m = id := Except.ok.inj hid
    exact .inr (hm.own hagent)

/-- A mediator is no attachment. -/
theorem attachments_mediated (h : Sound cfg past ctx) {a : Text} {ms : List (Str × Json)}
    {data : Json} (hdata : ctx.mediated a (.obj ms) = .ok data)
    (hnone : lookup ("attachments" : Str) ms = none) : data.get "attachments" = .ok .null := by
  rcases h.mediated hdata with rfl | ⟨m, hset, -⟩
  · rw [Json.get, hnone]
    rfl
  · obtain rfl := Except.ok.inj hset
    rw [Json.get, lookup_assign_ne (by decide), hnone]
    rfl

/-- The invitation stays one that an agent made, with a mediator of the agent that gets it or of
one that got it before. -/
theorem invitation_mediated (h : Sound cfg past ctx) {a : Text} {data data' : Json}
    (hinvitation : Invitation past (Lent past) data) (hdata : ctx.mediated a data = .ok data') :
    Invitation past (fun id => OwnOf cfg past a id ∨ Lent past id) data' := by
  have hkept : Invitation past (fun id => OwnOf cfg past a id ∨ Lent past id) data :=
    hinvitation.mono (List.prefix_refl past) fun _ _ _ _ hid => .inr hid
  rcases h.mediated hdata with rfl | ⟨id, hset, hown⟩
  · exact hkept
  · exact hkept.withMember hset (by decide) fun _ => .inl hown

end Sound

/-- What is read of an answer stays told. -/
theorem own_of_answer {agent text : Text} {json id : Json} (htext : Answered past agent text)
    (hjson : loads text = .ok json) (hid : json.item "connection_id" = .ok id) :
    Own past agent id := ⟨text, json, htext, hjson, hid⟩

theorem meets_passesOn {cfg : Config} {past : List (Event Reply)} {name : Text} {topic : String}
    {data : Json} {post : List (Event Reply) → ℕ × Text → Prop} (htopic : topic ∈ connecting)
    (hinvitation : Invitation past (fun id => OwnOf cfg past name id ∨ Lent past id) data)
    (h : ∀ agent status text past', cfg.userdata name = some agent → past <+: past' →
      Answered past' agent text → Invitation past' (Lent past') data →
      post past' (status, text)) :
    Meets Grounded past (agentBackchannelPOST (cfg.userdata name) topic (some "receive-invitation")
      .null data false) post := by
  have hown : ∀ agent, cfg.userdata name = some agent →
      Invitation past (fun id => Own past agent id ∨ Lent past id) data := fun agent hagent =>
    hinvitation.mono (List.prefix_refl past) fun _ _ _ _ hid => hid.imp_left (·.own hagent)
  refine meets_command
    (fun agent hagent => ⟨htopic, .inl rfl, dataGrounded_invitation (hown agent hagent)⟩)
    fun agent status text hagent => ?_
  exact h agent status text _ hagent (List.prefix_append _ _)
    ⟨_, status, List.mem_append_right _ List.mem_cons_self, rfl⟩ (hown agent hagent).lent

/-- A response has no obligation: its id is not that of a connection. -/
theorem meets_gets {allowed : List (Event Reply) → Call → Prop} {past : List (Event Reply)}
    {url : Option Text} {site : Site} {topic : String} {operation : Option String} {id : Json}
    {post : List (Event Reply) → Json → Prop}
    (hcall : ∀ agent s, url = some agent → pathId id = .ok s →
      allowed past (.get agent site topic operation s false))
    (h : ∀ agent text json past', url = some agent → past <+: past' →
      Answered past' agent text → loads text = .ok json → post past' json) :
    Meets allowed past (gets url site topic operation id) post := by
  refine Meets.bind (meets_get hcall fun agent s status text past' hagent _ hpast hmem => ?_)
  refine Meets.bind (meets_asserts fun _ => meets_py fun json hjson => ?_)
  exact h agent text json past' hagent hpast ⟨_, status, hmem, rfl⟩ hjson

theorem meets_getsResponse {past : List (Event Reply)} {url : Option Text} {id : Json}
    {post : List (Event Reply) → Text × Json → Prop}
    (h : ∀ agent text json past', url = some agent → past <+: past' → Answered past' agent text →
      loads text = .ok json → post past' (text, json)) :
    Meets Grounded past (getsResponse url id) post := by
  have htopic : "did-exchange" ∈ connecting := by decide
  refine Meets.bind (meets_get (fun _ _ _ _ => htopic) ?_)
  intro agent s status text past' hagent _ hpast hmem
  refine Meets.bind (meets_asserts fun _ => Meets.bind (meets_py fun json hjson => meets_pure ?_))
  exact h agent text json past' hagent hpast ⟨_, status, hmem, rfl⟩ hjson

section

variable {cfg : Config} {past : List (Event Reply)} {ctx : Context}

/-! Commands and states of a connection. -/

theorem eq_of_pathId {id : Json} {s : Str} (h : pathId id = .ok (some s)) : id = .str s := by
  unfold pathId at h
  by_cases htrue : id.truthy = true
  · rw [if_pos htrue] at h
    cases id with
    | str t => rw [Option.some.inj (Except.ok.inj h)]
    | _ => cases h
  · rw [if_neg htrue] at h
    cases h

theorem grounded_get {agent : Text} {topic : String} {id : Json} {s : Option Str}
    (htopic : topic ∈ connecting) (hid : Own past agent id) (hs : pathId id = .ok s) :
    Grounded past (.get agent .command topic none s false) := by
  cases s with
  | none => exact htopic
  | some s => exact ⟨htopic, fun _ => eq_of_pathId hs ▸ hid⟩

/-- The agent told that the connection is in one of the states. -/
def Reported (past : List (Event Reply)) (agent : Text) (topic : String) (id : Json)
    (states : List String) : Prop :=
  ∃ s text json state, pathId id = .ok s ∧
    (⟨.get agent .command topic none s false, .ok (200, text)⟩ : Event Reply) ∈ past ∧
    loads text = .ok json ∧ state ∈ states ∧ json.item "state" = .ok (.str state)

theorem Reported.mono {past past' : List (Event Reply)} {agent : Text} {topic : String} {id : Json}
    {states : List String} (h : Reported past agent topic id states) (hpast : past <+: past') :
    Reported past' agent topic id states := by
  obtain ⟨s, text, json, state, hs, hmem, hstate⟩ := h
  exact ⟨s, text, json, state, hs, hpast.subset hmem, hstate⟩

/-- Each round keeps what allows the next. -/
theorem meets_statePolls {allowed : List (Event Reply) → Call → Prop} {url : Option Text}
    {topic : String} {id : Json} {states : List String} {inv : List (Event Reply) → Prop}
    (hcall : ∀ past agent s, inv past → url = some agent → pathId id = .ok s →
      allowed past (.get agent .command topic none s false))
    (hkeeps : ∀ past agent s answer, inv past →
      inv (past ++ [⟨.get agent .command topic none s false, answer⟩])) (rounds : ℕ) :
    ∀ {past : List (Event Reply)}, inv past →
      Meets allowed past (statePolls url topic id states rounds) fun past' expected =>
        inv past' ∧
          (expected = true → ∃ agent, url = some agent ∧ Reported past' agent topic id states) := by
  induction rounds with
  | zero => exact fun h => meets_pure ⟨h, fun hfalse => absurd hfalse Bool.false_ne_true⟩
  | succ rounds ih =>
    intro past h
    refine Meets.bind (meets_query (fun agent s => hcall past agent s h) ?_)
    intro agent s status text hagent hs
    have h' := hkeeps past agent s (.ok (status, text)) h
    refine meets_ite (fun hstatus => ?_) fun _ => ih h'
    refine Meets.bind (meets_py fun json hjson => ?_)
    refine Meets.bind (meets_py fun state hstate => ?_)
    refine meets_ite (fun hgood => meets_pure ⟨h', fun _ => ?_⟩) fun _ => ih h'
    obtain ⟨expected, hmem, rfl⟩ := hgood
    subst hstatus
    exact ⟨agent, hagent, s, text, json, expected, hs, List.mem_append_right _ List.mem_cons_self,
      hjson, hmem, hstate⟩

theorem meets_expectedAgentState {allowed : List (Event Reply) → Call → Prop}
    {past : List (Event Reply)} {url : Option Text} {topic : String} {id : Json}
    {states : List String} {inv : List (Event Reply) → Prop} (waitTime : ℕ)
    (hcall : ∀ past agent s, inv past → url = some agent → pathId id = .ok s →
      allowed past (.get agent .command topic none s false))
    (hkeeps : ∀ past agent s answer, inv past →
      inv (past ++ [⟨.get agent .command topic none s false, answer⟩])) (h : inv past) :
    Meets allowed past (expectedAgentState url topic id states waitTime) fun past' _ =>
      inv past' ∧ ∃ agent, url = some agent ∧
        Reported past' agent topic id (states ++ ["N/A"]) := by
  refine Meets.bind ((meets_statePolls hcall hkeeps _ h).mono fun past' expected _ hpolls => ?_)
  exact meets_asserts fun hexpected => ⟨hpolls.1, hpolls.2 hexpected⟩

/-- A step that waits for a state leaves the context, and the agent told the state. -/
theorem sound_reachesState (h : Sound cfg past ctx) (name : Text) (partner : Option Text)
    {topic : String} (htopic : topic ∈ connecting) (states : List String) (waitTime : ℕ) :
    Meets Grounded past (reachesState cfg name partner topic states waitTime ctx)
      fun past' ctx' => Sound cfg past' ctx' ∧ ctx' = ctx ∧
        ∃ agent id, cfg.userdata name = some agent ∧
          ctx.connectionId (some name) partner = .ok id ∧
          Reported past' agent topic id (states ++ ["N/A"]) := by
  refine Meets.bind (meets_py fun id hid => ?_)
  have hstates : Meets Grounded past (expectedAgentState (cfg.userdata name) topic id states
      waitTime) fun past' _ => Sound cfg past' ctx ∧ ∃ agent, cfg.userdata name = some agent ∧
        Reported past' agent topic id (states ++ ["N/A"]) :=
    meets_expectedAgentState waitTime
      (fun past' agent s h' hagent hs => grounded_get htopic (h'.own hid hagent) hs)
      (fun past' agent s answer h' => h'.mono (List.prefix_append _ _)) h
  refine hstates.andThen fun past' _ _ hreported => meets_pure ⟨hreported.1, rfl, ?_⟩
  obtain ⟨agent, hagent, hstate⟩ := hreported.2
  exact ⟨agent, id, hagent, hid, hstate⟩

/-- A command on a connection, whose data hold no other id. -/
theorem sound_commandsConnection (h : Sound cfg past ctx) (name : Text) (partner : Option Text)
    {topic operation : String} {data : Json} (htopic : topic ∈ connecting)
    (hdata : ∀ past agent, DataGrounded past agent topic operation data) :
    Meets Grounded past (commandsConnection cfg name partner topic operation data ctx)
      (Sound cfg) := by
  refine Meets.bind (meets_py fun id hid => ?_)
  refine Meets.bind (meets_posts (fun agent hagent => ?_) ?_)
  · exact ⟨htopic, .inr (h.own hid hagent), hdata _ _⟩
  · exact fun agent text past' _ hpast _ => meets_pure (h.mono hpast)

theorem dataGrounded_null {topic operation : String} (hplain : Plain topic operation)
    (past : List (Event Reply)) (agent : Text) : DataGrounded past agent topic operation .null :=
  dataGrounded_of_own hplain fun _ hid => by cases hid

theorem dataGrounded_comment {operation : String} (hplain : Plain "connection" operation)
    (text : String) (name : Text) (past : List (Event Reply)) (agent : Text) :
    DataGrounded past agent "connection" operation (comment text name) :=
  dataGrounded_of_own hplain fun _ hid => .inl (Except.ok.inj hid).symm

theorem sound_reaches (h : Sound cfg past ctx) (name : Text) (partner : Option Text)
    {topic : String} (htopic : topic ∈ connecting) (states : List String) (waitTime : ℕ) :
    Meets Grounded past (reachesState cfg name partner topic states waitTime ctx) (Sound cfg) :=
  (sound_reachesState h name partner htopic states waitTime).mono fun _ _ _ hr => hr.1

end

end AgentTestHarness.ConnectionHistories
