import AgentTestHarness.ConnectionHistories

/-! In every scenario an agent gets the ids of its own connections, and what other agents made. -/
namespace AgentTestHarness.OwnConnectionIds
open PyText OrderedDict PyJson JsonReading ServiceCalls ServiceHistories ConnectionSteps
open ConnectionHistories
open ProofRequests (setItem)
open Program

/-! The steps keep what the context holds. -/

section

variable {cfg : Config} {past : List (Event Reply)} {ctx : Context}

theorem sound_generatesAConnectionInvitation (h : Sound cfg past ctx) (inviter : Text) :
    Meets Grounded past (generatesAConnectionInvitation cfg inviter ctx) (Sound cfg) := by
  refine Meets.bind (meets_py fun data hdata => ?_)
  refine Meets.bind (meets_posts (fun agent hagent => ⟨by decide, .inl rfl, ?_⟩) ?_)
  · exact dataGrounded_of_own (by decide)
      (h.mediator_own hdata rfl hagent)
  intro agent text past' hagent hpast htext
  refine Meets.bind (meets_py fun json hjson => ?_)
  refine Meets.bind (meets_py fun invitation hinvitation => ?_)
  have h' := h.mono hpast
  have hnew : Sound cfg past' { ctx with inviterInvitation := some invitation } :=
    { h' with
      inviterInvitation := fun i hi => by
        obtain rfl := Option.some.inj hi
        exact ⟨agent, invitation, ⟨text, json, htext, hjson, hinvitation⟩, .inl rfl⟩ }
  refine Meets.bind (meets_py fun given hgiven => ?_)
  have hgoal : Meets Grounded past' (if given then do
      let id ← py (json.item "connection_id")
      pure { ctx with
        inviterInvitation := some invitation
        tempConnectionIds := ctx.tempConnectionIds.set inviter id }
    else pure { ctx with inviterInvitation := some invitation }) (Sound cfg) := by
    refine meets_ite (fun _ => Meets.bind (meets_py fun id hid => meets_pure ?_))
      fun _ => meets_pure hnew
    have htold : OwnOf cfg past' inviter id := ⟨agent, hagent, text, json, htext, hjson, hid⟩
    exact { hnew with temp := Dict.forall_get?_set hnew.temp htold }
  exact hgoal.andThen fun past'' ctx' _ hctx => meets_pure (hctx.latest .inviter inviter)

theorem sound_inviterConnectionId (h : Sound cfg past ctx) (invitation : Json) :
    Meets Grounded past (inviterConnectionId invitation ctx) fun past' r =>
      Sound cfg past' r.2 ∧
        ∀ name, ctx.nameOf .inviter = some name → OwnOf cfg past' name r.1 := by
  refine meets_ite (fun _ => ?_) fun _ => ?_
  · split
    · next id hid =>
      obtain ⟨name, hname, hget⟩ := Option.bind_eq_some_iff.mp hid
      refine meets_pure ⟨{ h with temp := fun a i hi => by cases hi }, fun n hn => ?_⟩
      obtain rfl := Option.some.inj (hname.symm.trans hn)
      exact h.temp name id hget
    · exact meets_throws _
  · refine Meets.bind (meets_py fun invitationId _ => ?_)
    have htopic : "connection" ∈ connecting := by decide
    refine Meets.bind (meets_gets (fun _ _ _ _ => htopic) ?_)
    intro agent text json past' hagent hpast htext hjson
    refine Meets.bind (meets_py fun id hid => meets_pure ⟨h.mono hpast, fun name hn => ?_⟩)
    rw [h.roles .inviter name hn] at hagent
    exact ⟨agent, hagent, own_of_answer htext hjson hid⟩

theorem sound_receivesTheConnectionInvitation (h : Sound cfg past ctx) (invitee : Text) :
    Meets Grounded past (receivesTheConnectionInvitation cfg invitee ctx) (Sound cfg) := by
  refine Meets.bind (meets_py fun invitation hinvitation => ?_)
  refine Meets.bind (meets_py fun data hdata => ?_)
  have hfrom : Invitation past (Lent past) invitation := by
    cases hctx : ctx.inviterInvitation with
    | none => rw [hctx] at hinvitation; cases hinvitation
    | some i =>
      rw [hctx] at hinvitation
      obtain rfl := Except.ok.inj hinvitation
      exact h.inviterInvitation i hctx
  refine Meets.bind (Meets.bind (meets_passesOn (by decide) (h.invitation_mediated hfrom hdata) ?_))
  intro agent status text past' hagent hpast htext hmade
  refine Meets.bind (meets_asserts fun _ => meets_pure ?_)
  refine Meets.bind (meets_py fun json hjson => ?_)
  refine Meets.bind (meets_py fun id hid => ?_)
  have h' := h.mono hpast
  have hnew : Sound cfg past' { ctx with inviterInvitation := some data } :=
    { h' with
      inviterInvitation := fun i hi => by
        obtain rfl := Option.some.inj hi
        exact hmade }
  have hset : Sound cfg past' (Context.withConnectionId { ctx with inviterInvitation := some data }
      (some invitee) (ctx.nameOf .inviter) id) :=
    hnew.withOwnId _ hagent (own_of_answer htext hjson hid)
  refine (sound_inviterConnectionId hset data).andThen fun past'' r _ hr => meets_pure ?_
  obtain ⟨hctx, hown⟩ := hr
  have hboth : Sound cfg past'' (r.2.withConnectionId (ctx.nameOf .inviter) (some invitee) r.1) :=
    hctx.withConnectionId hown
  split
  · exact hboth.withRole .invitee invitee
  · exact hboth

theorem sound_commandsBoth (h : Sound cfg past ctx) (name partner : Text) {operation : String}
    (hop : operation = "accept-request" ∨ operation = "accept-invitation") :
    Meets Grounded past (commandsBoth cfg name partner operation ctx) (Sound cfg) := by
  refine Meets.bind (meets_py fun _ _ => sound_commandsConnection h name _ (by decide) ?_)
  rcases hop with rfl | rfl
  · exact dataGrounded_null (by decide)
  · exact dataGrounded_null (by decide)

/-! Protocol 0160. -/

theorem sound_pings (h : Sound cfg past ctx) (name : Text) (partner : Option Text) :
    Meets Grounded past (commandsConnection cfg name partner "connection" "send-ping"
      (comment "Hello from " name) ctx) (Sound cfg) :=
  sound_commandsConnection h name partner (by decide) (dataGrounded_comment (by decide) _ _)

theorem sound_sendsTrustping (h : Sound cfg past ctx) (sender receiver : Text) :
    Meets Grounded past (sendsTrustping cfg sender receiver ctx) (Sound cfg) :=
  sound_commandsConnection h sender (some receiver) (by decide)
    (dataGrounded_comment (by decide) _ _)

/-- Both agents told that their connections are complete. -/
def Connected (cfg : Config) (past : List (Event Reply)) (ctx : Context) (a b : Text) : Prop :=
  ∃ agent id, cfg.userdata a = some agent ∧ ctx.connectionId (some a) (some b) = .ok id ∧
    Own past agent id ∧ Reported past agent (connectedStates ctx).1 id
      ((connectedStates ctx).2 ++ ["N/A"])

theorem connectedStates_topic (ctx : Context) : (connectedStates ctx).1 ∈ connecting := by
  unfold connectedStates
  split <;> decide

theorem sound_haveAConnection (h : Sound cfg past ctx) (a b : Text) :
    Meets Grounded past (haveAConnection cfg a b ctx) fun past' ctx' =>
      Sound cfg past' ctx' ∧ Connected cfg past' ctx' a b ∧ Connected cfg past' ctx' b a := by
  refine Meets.bind (meets_py fun _ _ => Meets.bind (meets_py fun _ _ => ?_))
  have htopic := connectedStates_topic ctx
  refine (sound_reachesState h a (some b) htopic _ 60).andThen fun past' ctx' _ hfirst => ?_
  obtain ⟨h', rfl, agent, id, hagent, hid, hstate⟩ := hfirst
  refine (sound_reachesState h' b (some a) htopic _ 60).mono fun past'' ctx'' hpast hsecond => ?_
  obtain ⟨h'', rfl, agent', id', hagent', hid', hstate'⟩ := hsecond
  exact ⟨h'', ⟨agent, id, hagent, hid, h''.own hid hagent, hstate.mono hpast⟩,
    ⟨agent', id', hagent', hid', h''.own hid' hagent', hstate'⟩⟩

theorem sound_completeTheConnectionProcess (h : Sound cfg past ctx) (sender receiver : Text) :
    Meets Grounded past (completeTheConnectionProcess cfg sender receiver ctx) (Sound cfg) := by
  refine (sound_receivesTheConnectionInvitation h receiver).andThen fun _ _ _ h => ?_
  refine (sound_commandsBoth h receiver sender (.inr rfl)).andThen fun _ _ _ h => ?_
  refine Meets.bind (meets_pure ?_)
  refine (sound_commandsBoth h sender receiver (.inl rfl)).andThen fun _ _ _ h => ?_
  refine Meets.bind (Meets.bind (meets_py fun _ _ => meets_pure ?_))
  exact sound_sendsTrustping h receiver sender

theorem sound_createANewV1Connection (h : Sound cfg past ctx) (sender receiver : Text) :
    Meets Grounded past (createANewV1Connection cfg sender receiver ctx) fun past' ctx' =>
      Sound cfg past' ctx' ∧ Connected cfg past' ctx' sender receiver ∧
        Connected cfg past' ctx' receiver sender := by
  refine (sound_generatesAConnectionInvitation h sender).andThen fun _ _ _ h => ?_
  refine (sound_completeTheConnectionProcess h sender receiver).andThen fun _ _ _ h => ?_
  exact sound_haveAConnection h sender receiver

/-! Protocol 0023. -/

theorem sound_mentionedId (h : Sound cfg past ctx) {name agent text : Text}
    (partner : Option Text) {json : Json} (hagent : cfg.userdata name = some agent)
    (htold : ∀ id, json.item "connection_id" = .ok id → Own past agent id) :
    Meets Grounded past (mentionedId name partner text json ctx) (Sound cfg) := by
  refine meets_ite (fun _ => Meets.bind (meets_py fun id hid => meets_pure ?_))
    fun _ => meets_pure h
  exact h.withOwnId partner hagent (htold id hid)

theorem sound_withPair (h : Sound cfg past ctx) (responder requester : Text) :
    Sound cfg past (withPair cfg responder requester ctx) :=
  (h.latest .responder responder).latest .requester requester

theorem sound_sendsInvitationMessage (h : Sound cfg past ctx) (responder requester : Text)
    {data : Json} (hdata : ∀ agent, cfg.userdata responder = some agent →
      DataGrounded past agent "out-of-band" "send-invitation-message" data) :
    Meets Grounded past (sendsInvitationMessage cfg responder requester data ctx) (Sound cfg) := by
  refine Meets.bind (meets_posts
    (fun agent hagent => ⟨by decide, .inl rfl, hdata agent hagent⟩) ?_)
  intro agent text past' hagent hpast htext
  refine Meets.bind (meets_py fun json hjson => Meets.bind (meets_py fun state _ => ?_))
  refine Meets.bind (meets_asserts fun _ => Meets.bind (meets_py fun invitation hinv => ?_))
  have hnew : Sound cfg past' { ctx with responderInvitation := invitation } :=
    { h.mono hpast with
      responderInvitation :=
        .inr ⟨agent, invitation, ⟨text, json, htext, hjson, hinv⟩, .inl rfl⟩ }
  refine Meets.bind (meets_py fun invitationId _ => Meets.bind (meets_getsResponse ?_))
  intro agent' text' json' past'' hagent' hpast' htext' hjson'
  refine (sound_mentionedId (hnew.mono hpast') (some requester) hagent' fun id hid =>
    own_of_answer htext' hjson' hid).andThen fun _ _ _ h => meets_pure ?_
  exact sound_withPair h responder requester

/-- What the harness may add to an invitation is not in the data of a step. -/
def addable : List Str := ["mediator_connection_id", "attachments"]

theorem lookup_withDidMethod (method : Option Text) {name : Str} (hname : name ∈ addable)
    {ms : List (Str × Json)} (h : lookup name ms = none) :
    lookup name (withDidMethod method ms) = none := by
  have hne : ∀ n ∈ addable, n ≠ "use_did_method" := by decide
  rw [withDidMethod]
  split
  · rw [lookup_assign_ne (hne name hname), h]
  · exact h

theorem lookup_tableData {table : Option (List InvitationRow)} {name : Str}
    (hname : name ∈ addable) {ms : List (Str × Json)} (h : tableData table = .ok ms) :
    lookup name ms = none := by
  have hnot : ∀ n ∈ addable, n ∉ (["use_public_did", "handshake_protocols"] : List Str) := by decide
  refine lookup_eq_none_iff.mpr fun hmem => hnot name hname ?_
  have hkeys : ∀ row : InvitationRow, ∀ n ∈ row.data.map Prod.fst,
      n ∈ (["use_public_did", "handshake_protocols"] : List Str) := by
    intro row n hn
    unfold InvitationRow.data at hn
    split at hn
    · exact List.mem_cons.mpr (.inl (List.mem_singleton.mp hn))
    · exact hn
  unfold tableData at h
  split at h
  · rw [← Except.ok.inj h] at hmem
    exact List.mem_cons.mpr (.inl (List.mem_singleton.mp hmem))
  · split at h
    · rw [← Except.ok.inj h] at hmem
      exact hkeys _ name hmem
    · cases h

theorem sound_sendsAnExplicitInvitation (h : Sound cfg past ctx) (responder requester : Text)
    (method : Option Text) (table : Option (List InvitationRow)) :
    Meets Grounded past (sendsAnExplicitInvitation cfg responder requester method table ctx)
      (Sound cfg) := by
  refine Meets.bind (meets_py fun ms hms => ?_)
  have hnew : Sound cfg past { ctx with
      peerDidMethod := (qualified method).or ctx.peerDidMethod } := { h with }
  refine Meets.bind (meets_py fun data hdata => ?_)
  have hnone : ∀ name ∈ addable, lookup name (withDidMethod method ms) = none := fun name hname =>
    lookup_withDidMethod method hname (lookup_tableData hname hms)
  exact sound_sendsInvitationMessage hnew responder requester fun agent hagent =>
    dataGrounded_message (hnew.attachments_mediated hdata (hnone _ (by decide)))
      (hnew.mediator_own hdata (hnone _ (by decide)) hagent)

theorem sound_sendsAnExplicitInvitationWithAPublicDid (h : Sound cfg past ctx)
    (responder requester : Text) :
    Meets Grounded past (sendsAnExplicitInvitationWithAPublicDid cfg responder requester ctx)
      (Sound cfg) := by
  refine Meets.bind (meets_get (fun _ s _ hs => ?_) ?_)
  · obtain rfl := Except.ok.inj hs
    exact (by decide : "did" ∈ connecting)
  · intro _ _ _ _ past' _ _ hpast _
    refine Meets.bind (meets_asserts fun _ => ?_)
    exact sound_sendsInvitationMessage (h.mono hpast) responder requester fun _ _ =>
      dataGrounded_message rfl fun _ hid => .inl (Except.ok.inj hid).symm

theorem sound_sendsTheRequestWithThePublicDid (h : Sound cfg past ctx)
    (requester responder : Text) :
    Meets Grounded past (sendsTheRequestWithThePublicDid cfg requester responder ctx)
      (Sound cfg) := by
  refine Meets.bind (meets_posts (fun agent hagent => ⟨by decide, .inl rfl, ?_⟩) ?_)
  · exact dataGrounded_of_own (by decide) fun _ hid =>
      .inl (Except.ok.inj hid).symm
  intro agent text past' hagent hpast htext
  refine Meets.bind (meets_py fun doc hdoc => ?_)
  have hnew : Sound cfg past' { ctx with requesterPublicDidDoc := doc } :=
    { h.mono hpast with publicDidDoc := .inr ⟨agent, text, htext, hdoc⟩ }
  refine Meets.bind (meets_py fun given _ => ?_)
  have hanswer : Meets Grounded past' (if given = true then pure (text, doc) else do
      let requestId ← py (doc.item "@id")
      getsResponse (cfg.userdata requester) requestId) fun past'' answer =>
        Answered past'' agent answer.1 ∧ loads answer.1 = .ok answer.2 := by
    refine meets_ite (fun _ => meets_pure ⟨htext, hdoc⟩) fun _ => ?_
    refine Meets.bind (meets_py fun requestId _ => meets_getsResponse ?_)
    intro agent' text' json' past'' hagent' _ htext' hjson'
    obtain rfl := Option.some.inj (hagent.symm.trans hagent')
    exact ⟨htext', hjson'⟩
  refine hanswer.andThen fun past'' answer hpast' htold => ?_
  exact sound_mentionedId (hnew.mono hpast') (some responder) hagent fun id hid =>
    own_of_answer htold.1 htold.2 hid

theorem sound_receivesTheRequestWithTheirPublicDid (h : Sound cfg past ctx) (responder : Text) :
    Meets Grounded past (receivesTheRequestWithTheirPublicDid cfg responder ctx) (Sound cfg) := by
  refine Meets.bind (meets_posts (fun agent hagent => ⟨by decide, .inl rfl, ?_⟩) ?_)
  · rw [DataGrounded, if_neg (by decide), if_neg (by decide), if_pos rfl]
    exact ⟨fun hmessage => absurd hmessage (by decide), h.publicDidDoc⟩
  intro agent text past' hagent hpast htext
  refine Meets.bind (meets_py fun json hjson => ?_)
  exact sound_mentionedId (h.mono hpast) _ hagent fun id hid => own_of_answer htext hjson hid

theorem sound_setupAlreadyConnected (h : Sound cfg past ctx) {requester agent text : Text}
    {info : Json} (hagent : cfg.userdata requester = some agent)
    (htext : Answered past agent text) (hinfo : loads text = .ok info) :
    Meets Grounded past (setupAlreadyConnected cfg info requester ctx) (Sound cfg) := by
  refine Meets.bind (meets_py fun requesterId hid => ?_)
  refine Meets.bind (meets_py fun did _ => ?_)
  have hcall : ∀ other s, cfg.urlOf (ctx.nameOf .responder) = some other → pathId did = .ok s →
      Grounded past (.get other .command "active-connection" none s false) := by
    intro other s _ _
    cases s with
    | none => exact (by decide : "active-connection" ∈ connecting)
    | some s => exact ⟨by decide, fun htopic => absurd htopic (by decide)⟩
  refine Meets.bind (meets_get hcall ?_)
  intro other s status text' past' hother _ hpast hmem
  refine meets_ite (fun _ => ?_) fun _ => meets_throws _
  refine Meets.bind (meets_py fun json hjson => Meets.bind (meets_py fun responderId hid' => ?_))
  refine meets_pure (Sound.withConnectionId ((h.mono hpast).withOwnId _ hagent ?_) ?_)
  · exact (own_of_answer htext hinfo hid).mono hpast
  · intro a ha
    have hurl : cfg.userdata a = some other := by
      rw [ha] at hother
      exact hother
    exact ⟨other, hurl, own_of_answer ⟨_, status, hmem, rfl⟩ hjson hid'⟩

/-- The harness tells whether a connection is to be reused, and passes the invitation on. -/
theorem invitation_reuse (h : Sound cfg past ctx) {reuse : Bool} {data : Json}
    (hset : setItem ctx.responderInvitation "use_existing_connection" (.bool reuse) = .ok data) :
    Invitation past (Lent past) data := by
  rcases h.responderInvitation with hnull | hinvitation
  · rw [hnull] at hset
    cases hset
  · exact hinvitation.withMember hset (by decide) fun hname => absurd hname (by decide)

theorem sound_receivesTheInvitation (h : Sound cfg past ctx) (requester : Text) :
    Meets Grounded past (receivesTheInvitation cfg requester ctx) (Sound cfg) := by
  refine Meets.bind (meets_py fun reusing hreusing => Meets.bind (meets_py fun data hdata => ?_))
  have hsame : Sound cfg past { ctx with useExistingConnection := reuses cfg ctx } := { h with }
  refine Meets.bind (Meets.bind (meets_passesOn (by decide)
    (hsame.invitation_mediated (invitation_reuse h hreusing) hdata) ?_))
  intro agent status text past' hagent hpast htext hmade
  refine Meets.bind (meets_asserts fun _ => meets_pure ?_)
  refine Meets.bind (meets_py fun json hjson => Meets.bind (meets_py fun state _ => ?_))
  have hnew : Sound cfg past' { ctx with
      useExistingConnection := reuses cfg ctx
      responderInvitation := data } :=
    { hsame.mono hpast with responderInvitation := .inr hmade }
  refine meets_ite (fun _ => ?_) fun _ => ?_
  · have hsuccessful : Sound cfg past' { ctx with
        useExistingConnection := reuses cfg ctx
        responderInvitation := data
        useExistingConnectionSuccessful := true } := { hnew with }
    exact sound_setupAlreadyConnected hsuccessful hagent htext hjson
  · refine Meets.bind (meets_py fun state _ => Meets.bind (meets_asserts fun _ => ?_))
    refine Meets.bind (meets_py fun given _ => ?_)
    refine meets_ite (fun _ => Meets.bind (meets_py fun id hid => meets_pure ?_))
      fun _ => meets_pure hnew
    exact hnew.withOwnId _ hagent (own_of_answer htext hjson hid)

theorem sound_cantAcceptTheInvitation (h : Sound cfg past ctx) (requester : Text) :
    Meets Grounded past (cantAcceptTheInvitation cfg requester ctx) (Sound cfg) := by
  refine Meets.bind (meets_py fun data hdata => ?_)
  have hkept := (invitation_reuse h hdata).mono (List.prefix_refl past) fun _ id _ _ hlent =>
    (.inr hlent : OwnOf cfg past requester id ∨ Lent past id)
  refine Meets.bind (meets_passesOn (by decide) hkept ?_)
  intro agent status text past' _ hpast _ hmade
  refine Meets.bind (meets_asserts fun _ => meets_pure ?_)
  exact { h.mono hpast with responderInvitation := .inr hmade }

theorem meets_checksMethod (method : Option Text) (text : Text)
    {post : List (Event Reply) → Unit → Prop} (h : post past ()) :
    Meets Grounded past (checksMethod method text) post := by
  cases method with
  | none => exact meets_pure h
  | some m =>
    refine Meets.bind (meets_py fun _ _ => Meets.bind (meets_py fun _ _ => ?_))
    exact meets_asserts fun _ => h

theorem lookup_requestData (method : Option Text) (ctx : Context) (id : Json)
    (hid : (requestData method ctx).get "mediator_connection_id" = .ok id) : id = .null := by
  have hnone : lookup ("mediator_connection_id" : Str)
      (withDidMethod (methodFor method ctx) ([] : List (Str × Json))) = none :=
    lookup_withDidMethod _ (by decide) rfl
  have habsent : ∀ ms : List (Str × Json), lookup ("mediator_connection_id" : Str) ms = none →
      (Json.obj ms).get "mediator_connection_id" = .ok id → id = .null := by
    intro ms hms hget
    rw [Json.get, hms] at hget
    exact (Except.ok.inj hget).symm
  refine habsent _ ?_ hid
  rw [lookup_eq_none_iff, List.map_append, List.mem_append, not_or]
  refine ⟨lookup_eq_none_iff.mp hnone, ?_⟩
  split
  · intro hmem
    have hname : ("mediator_connection_id" : Str) = "use_did" := List.mem_singleton.mp hmem
    exact absurd hname (by decide)
  · exact List.not_mem_nil

theorem sound_sendsTheRequest (h : Sound cfg past ctx) (requester responder : Text)
    (method : Option Text) :
    Meets Grounded past (sendsTheRequest cfg requester responder method ctx) (Sound cfg) := by
  refine Meets.bind (meets_py fun id hid => ?_)
  refine Meets.bind (meets_posts (fun agent hagent => ⟨by decide, .inr (h.own hid hagent), ?_⟩) ?_)
  · exact dataGrounded_of_own (by decide) fun m hm =>
      .inl (lookup_requestData method ctx m hm)
  intro agent text past' _ hpast _
  exact Meets.bind (meets_checksMethod _ _ (meets_pure (h.mono hpast)))

theorem sound_responderConnectionId (h : Sound cfg past ctx) (responder : Text) :
    Meets Grounded past (responderConnectionId cfg responder ctx) fun past' found =>
      Sound cfg past' ctx ∧ ∀ ctx' ∈ found, Sound cfg past' ctx' := by
  refine meets_ite (fun _ => meets_pure ⟨h, ?_⟩) fun _ => ?_
  · rintro ctx' ⟨⟩
    exact h
  · refine Meets.bind (meets_py fun invitationId _ => Meets.bind (meets_getsResponse ?_))
    intro agent text json past' hagent hpast htext hjson
    refine meets_ite (fun _ => Meets.bind (meets_py fun id hid => meets_pure ⟨h.mono hpast, ?_⟩))
      fun _ => meets_pure ⟨h.mono hpast, fun _ hnone => by cases hnone⟩
    rintro ctx' ⟨⟩
    exact (h.mono hpast).withOwnId _ hagent (own_of_answer htext hjson hid)

theorem sound_doesNotReceiveTheRequest (h : Sound cfg past ctx) (responder : Text) :
    Meets Grounded past (doesNotReceiveTheRequest cfg responder ctx) (Sound cfg) := by
  refine (sound_responderConnectionId h responder).andThen fun past' found _ hfound => ?_
  cases found with
  | none => exact meets_pure hfound.1
  | some ctx' => exact sound_reaches (hfound.2 ctx' rfl) responder _ (by decide) _ _

theorem sound_receivesTheRequest (h : Sound cfg past ctx) (responder : Text) :
    Meets Grounded past (receivesTheRequest cfg responder ctx) (Sound cfg) := by
  refine (sound_responderConnectionId h responder).andThen fun past' found _ hfound => ?_
  cases found with
  | none => exact meets_throws _
  | some ctx' => exact meets_pure (hfound.2 ctx' rfl)

theorem meets_checksDids (ctx : Context) (text : Text) {post : List (Event Reply) → Unit → Prop}
    (h : post past ()) : Meets Grounded past (checksDids ctx text) post := by
  rw [checksDids]
  split
  · exact meets_pure h
  · refine Meets.bind (meets_py fun _ _ => Meets.bind (meets_py fun _ _ => ?_))
    refine Meets.bind (meets_asserts fun _ => Meets.bind (meets_py fun _ _ => ?_))
    exact meets_asserts fun _ => h

theorem sound_sendsAResponse (h : Sound cfg past ctx) (responder requester : Text) :
    Meets Grounded past (sendsAResponse cfg responder requester ctx) (Sound cfg) := by
  refine Meets.bind (meets_py fun id hid => Meets.bind (meets_py fun data hdata => ?_))
  refine Meets.bind (meets_posts (fun agent hagent => ⟨by decide, .inr (h.own hid hagent), ?_⟩) ?_)
  · exact dataGrounded_of_own (by decide)
      (h.mediator_own hdata rfl hagent)
  intro agent text past' _ hpast _
  exact Meets.bind (meets_checksDids _ _ (meets_pure (h.mono hpast)))

/-- A command that must fail leaves the context. -/
theorem sound_refused (h : Sound cfg past ctx) (name : Text) (partner : Option Text)
    {topic operation : String} (htopic : topic ∈ connecting) (status : ℕ)
    (hdata : ∀ past agent, DataGrounded past agent topic operation .null) :
    Meets Grounded past (do
      let id ← py (ctx.connectionId (some name) partner)
      let (answered, _) ← agentBackchannelPOST (cfg.userdata name) topic (some operation) id .null
        false
      asserts (answered = status)
      pure ctx) (Sound cfg) := by
  refine Meets.bind (meets_py fun id hid => ?_)
  refine Meets.bind (meets_post (fun agent hagent => ?_) ?_)
  · exact ⟨htopic, .inr (h.own hid hagent), hdata _ _⟩
  · exact fun _ _ _ _ _ hpast _ => Meets.bind (meets_asserts fun _ => meets_pure (h.mono hpast))

theorem sound_exchangeDids (h : Sound cfg past ctx) (sender receiver : Text) :
    Meets Grounded past (exchangeDids cfg sender receiver ctx) fun past' ctx' =>
      Sound cfg past' ctx' ∧ Connected cfg past' ctx' sender receiver ∧
        Connected cfg past' ctx' receiver sender := by
  refine (sound_sendsTheRequest h receiver sender none).andThen fun _ _ _ h => ?_
  refine (sound_receivesTheRequest h sender).andThen fun _ _ _ h => ?_
  refine (sound_sendsAResponse h sender receiver).andThen fun _ _ _ h => ?_
  refine (sound_reaches h receiver _ (by decide) _ _).andThen fun _ _ _ h => ?_
  exact Meets.bind (meets_pure (sound_haveAConnection h sender receiver))

theorem sound_createANewDidexchangeConnection (h : Sound cfg past ctx) (sender receiver : Text) :
    Meets Grounded past (createANewDidexchangeConnection cfg sender receiver ctx) fun past' ctx' =>
      Sound cfg past' ctx' ∧ Connected cfg past' ctx' sender receiver ∧
        Connected cfg past' ctx' receiver sender := by
  have hnew : Sound cfg past { ctx with
      useExistingConnection := false
      useExistingConnectionSuccessful := false } := { h with }
  refine (sound_sendsAnExplicitInvitation hnew sender receiver none none).andThen
    fun _ _ _ h => ?_
  refine (sound_receivesTheInvitation h receiver).andThen fun _ _ _ h => ?_
  exact sound_exchangeDids h sender receiver

theorem sound_createANewConnection (h : Sound cfg past ctx) (sender receiver : Text) :
    Meets Grounded past (createANewConnection cfg sender receiver ctx) fun past' ctx' =>
      Sound cfg past' ctx' ∧ Connected cfg past' ctx' sender receiver ∧
        Connected cfg past' ctx' receiver sender :=
  meets_ite (fun _ => sound_createANewDidexchangeConnection h sender receiver)
    fun _ => sound_createANewV1Connection h sender receiver

theorem sound_haveAnExistingConnection (h : Sound cfg past ctx) (sender receiver : Text) :
    Meets Grounded past (haveAnExistingConnection cfg sender receiver ctx) (Sound cfg) := by
  refine meets_ite (fun _ => ?_) fun _ =>
    (sound_createANewV1Connection h sender receiver).mono fun _ _ _ h => h.1
  have hnew : Sound cfg past { ctx with
      useExistingConnection := true
      useExistingConnectionSuccessful := false } := { h with }
  refine (sound_sendsAnExplicitInvitationWithAPublicDid hnew sender receiver).andThen
    fun _ _ _ h => ?_
  refine (sound_receivesTheInvitation h receiver).andThen fun _ _ _ h => ?_
  exact meets_ite (fun _ => meets_pure h) fun _ =>
    (sound_exchangeDids h sender receiver).mono fun _ _ _ h => h.1

/-! Mediation. -/

theorem sound_mediation (h : Sound cfg past ctx) (name partner : Text) {operation : String}
    (hop : operation ∈ ["send-request", "send-grant", "send-deny"]) :
    Meets Grounded past
      (commandsConnection cfg name (some partner) "mediation" operation .null ctx) (Sound cfg) := by
  have hplain : ∀ op ∈ ["send-request", "send-grant", "send-deny"], Plain "mediation" op := by
    decide
  exact sound_commandsConnection h name _ (by decide) (dataGrounded_null (hplain operation hop))

theorem sound_mediationStates (h : Sound cfg past ctx) (recipient mediator : Text)
    (received sent : String) :
    Meets Grounded past (mediationStates cfg recipient mediator received sent ctx) (Sound cfg) := by
  refine Meets.bind (meets_py fun _ _ => ?_)
  refine (sound_reaches h recipient _ (by decide) _ _).andThen fun _ _ _ h => ?_
  exact sound_reaches h mediator _ (by decide) _ _

/-! DIDComm version 2. -/

theorem told_invitationOf (h : Sound cfg past ctx) {inviter : Text} {invitation : Json}
    (hinvitation : invitationOf inviter ctx = .ok invitation) :
    ∃ agent, Told past agent "invitation" invitation := by
  rw [invitationOf] at hinvitation
  split at hinvitation
  · cases hinvitation
  · next invitations hall =>
    split at hinvitation
    · next i hget =>
      obtain rfl := Except.ok.inj hinvitation
      exact h.invitationV2 invitations inviter i hall hget
    · cases hinvitation

theorem sound_createsADidcommV2Invitation (h : Sound cfg past ctx) (inviter : Text)
    (goalCode : Option Text) :
    Meets Grounded past (createsADidcommV2Invitation cfg inviter goalCode ctx) (Sound cfg) := by
  refine Meets.bind (meets_posts (fun agent hagent => ⟨by decide, .inl rfl, ?_⟩) ?_)
  · refine dataGrounded_of_own (by decide) fun id hid => .inl ?_
    split at hid
    · exact (Except.ok.inj hid).symm
    · exact (Except.ok.inj hid).symm
  intro agent text past' _ hpast htext
  refine Meets.bind (meets_py fun json hjson => Meets.bind (meets_py fun invitation hinv => ?_))
  have h' := h.mono hpast
  refine meets_pure { h' with invitationV2 := fun is a i his hi => ?_ }
  obtain rfl := Option.some.inj his
  rw [Dict.get?_set] at hi
  split at hi
  · obtain rfl := Option.some.inj hi
    exact ⟨agent, text, json, htext, hjson, hinv⟩
  · cases hall : ctx.invitationV2 with
    | none =>
      rw [hall] at hi
      cases hi
    | some invitations =>
      rw [hall] at hi
      exact h'.invitationV2 invitations a i hall hi

theorem sound_acceptsTheDidcommV2Invitation (h : Sound cfg past ctx) (invitee inviter : Text) :
    Meets Grounded past (acceptsTheDidcommV2Invitation cfg invitee inviter ctx) (Sound cfg) := by
  refine Meets.bind (meets_py fun invitation hinvitation => ?_)
  obtain ⟨other, htold⟩ := told_invitationOf h hinvitation
  refine Meets.bind (meets_posts (fun agent hagent => ⟨by decide, .inl rfl, ?_⟩) ?_)
  · rw [DataGrounded, if_neg (by decide), if_pos ⟨rfl, rfl⟩]
    exact ⟨fun hmessage => absurd hmessage (by decide), other, invitation, htold, rfl⟩
  intro agent text past' hagent hpast htext
  refine Meets.bind (meets_py fun json hjson => Meets.bind (meets_py fun id hid => meets_pure ?_))
  exact (h.mono hpast).withOwnId _ hagent (own_of_answer htext hjson hid)

theorem sound_hasReceivedADidcommV2Message (h : Sound cfg past ctx) (inviter invitee : Text) :
    Meets Grounded past (hasReceivedADidcommV2Message cfg inviter invitee ctx) (Sound cfg) := by
  refine Meets.bind (meets_py fun invitation _ => Meets.bind (meets_py fun invitationId _ => ?_))
  have htopic : "oob-v2" ∈ connecting := by decide
  refine Meets.bind (meets_gets (fun _ _ _ _ => htopic) ?_)
  intro agent text json past' hagent hpast htext hjson
  refine Meets.bind (meets_py fun id hid => meets_pure ?_)
  exact (h.mono hpast).withOwnId _ hagent (own_of_answer htext hjson hid)

theorem meets_getsConnection {name : Text} {id : Json}
    {post : List (Event Reply) → Unit → Prop}
    (hid : ∀ agent, cfg.userdata name = some agent → Own past agent id)
    (h : ∀ past', past <+: past' → post past' ()) :
    Meets Grounded past (getsConnection cfg name id) post := by
  refine Meets.bind (meets_get
    (fun agent s hagent hs => grounded_get (by decide) (hid agent hagent) hs) ?_)
  exact fun _ _ _ _ past' _ _ hpast _ => meets_asserts fun _ => h past' hpast

theorem sound_haveADidcommV2Connection (h : Sound cfg past ctx) (inviter invitee : Text) :
    Meets Grounded past (haveADidcommV2Connection cfg inviter invitee ctx) (Sound cfg) := by
  refine Meets.bind (meets_asserts fun _ => Meets.bind (meets_asserts fun _ => ?_))
  refine Meets.bind (meets_py fun inviterId hfirst => ?_)
  refine Meets.bind (meets_py fun inviteeId hsecond => ?_)
  refine Meets.bind (meets_getsConnection (fun agent hagent => h.own hfirst hagent) ?_)
  intro past' hpast
  have h' := h.mono hpast
  refine Meets.bind (meets_getsConnection (fun agent hagent => h'.own hsecond hagent) ?_)
  exact fun past'' hpast' => meets_pure (h'.mono hpast')

/-! The agents table. -/

theorem sound_assignRole (h : Sound cfg past ctx) (row : Row) :
    Meets Grounded past (assignRole cfg ctx row) (Sound cfg) := by
  refine Meets.bind (meets_asserts fun _ => meets_pure ?_)
  generalize row.roles cfg = roles
  induction roles generalizing ctx with
  | nil => exact h
  | cons role roles ih => exact ih (h.withRole role row.name)

theorem sound_isRunningWithParameters (h : Sound cfg past ctx) (agent parameters : Text) :
    Meets Grounded past (isRunningWithParameters cfg agent parameters ctx) (Sound cfg) := by
  refine Meets.bind (meets_py fun params _ => ?_)
  refine Meets.bind (meets_posts (fun _ _ => ⟨by decide, .inl rfl, ?_⟩) ?_)
  · exact dataGrounded_of_own (by decide) fun _ hid =>
      .inl (Except.ok.inj hid).symm
  · exact fun _ _ _ _ hpast _ => meets_pure (h.mono hpast)

theorem sound_startRow (h : Sound cfg past ctx) (row : Row) :
    Meets Grounded past (startRow cfg ctx row) (Sound cfg) := by
  rw [startRow]
  split
  · exact meets_pure h
  · exact meets_ite (fun _ => meets_pure h) fun _ => sound_isRunningWithParameters h row.name _

theorem sound_agents (h : Sound cfg past ctx) (table : List Row) :
    Meets Grounded past (agents cfg table ctx) (Sound cfg) := by
  have hroles : Meets Grounded past (table.foldlM (assignRole cfg) ctx) (Sound cfg) :=
    meets_foldlM (fun row _ _ h => sound_assignRole h row) table h
  exact hroles.andThen fun _ _ _ h =>
    meets_foldlM (fun row _ _ h => sound_startRow h row) table h

/-! Scenarios. -/

/-- Every step keeps what the context holds. -/
theorem sound_step (h : Sound cfg past ctx) (step : Step) :
    Meets Grounded past (Step.perform cfg ctx step) (Sound cfg) := by
  cases step with
  | agents table => exact sound_agents h table
  | isRunningWithParameters a p => exact sound_isRunningWithParameters h a p
  | generatesAConnectionInvitation a => exact sound_generatesAConnectionInvitation h a
  | receivesTheConnectionInvitation a => exact sound_receivesTheConnectionInvitation h a
  | sendsAConnectionResponse a b => exact sound_commandsBoth h a b (.inl rfl)
  | acceptsTheConnectionResponse a b => exact sound_commandsBoth h a b (.inl rfl)
  | sendsAConnectionRequest a b => exact sound_commandsBoth h a b (.inr rfl)
  | receivesTheConnectionRequest => exact meets_pure h
  | receivesTheConnectionResponse a => exact Meets.bind (meets_py fun _ _ => meets_pure h)
  | sendsAResponsePing a =>
    exact (sound_pings h a _).andThen fun _ _ _ h => sound_reaches h a _ (by decide) _ _
  | receivesTheResponsePing a =>
    exact (sound_pings h a _).andThen fun _ _ _ h => sound_reaches h a _ (by decide) _ _
  | haveAConnection a b => exact (sound_haveAConnection h a b).mono fun _ _ _ h => h.1
  | haveTheConnection a b =>
    refine (sound_sendsTrustping h b a).andThen fun _ _ _ h => ?_
    exact (sound_haveAConnection h a b).mono fun _ _ _ h => h.1
  | isConnectedTo a b =>
    refine Meets.bind (meets_py fun _ _ => Meets.bind (meets_py fun _ _ => ?_))
    exact (sound_reaches h b _ (by decide) _ _).andThen fun _ _ _ h =>
      sound_reaches h a _ (by decide) _ _
  | sendsATrustPing a =>
    refine (sound_reaches h a _ (by decide) _ _).andThen fun _ _ _ h => ?_
    exact (sound_pings h a _).andThen fun _ _ _ h => sound_reaches h a _ (by decide) _ _
  | inviteeIsComplete a => exact sound_reaches h a _ (by decide) _ _
  | inviterIsResponded a => exact sound_reaches h a _ (by decide) _ _
  | inviterIsComplete a => exact sound_reaches h a _ (by decide) _ _
  | sendsAcks a =>
    exact sound_commandsConnection h a _ (by decide) (dataGrounded_comment (by decide) _ _)
  | sendsTrustping a b => exact sound_sendsTrustping h a b
  | sendsAnInterceptedRequest a b =>
    refine (sound_receivesTheConnectionInvitation h a).andThen fun _ _ _ h => ?_
    refine (sound_reaches h a _ (by decide) _ _).andThen fun _ _ _ h => ?_
    refine Meets.andThen (sound_commandsConnection h a _ (by decide) ?_) fun _ _ _ h =>
      sound_reaches h a _ (by decide) _ _
    exact dataGrounded_null (by decide)
  | sendsARequestNotAcceptedError a =>
    exact sound_refused h a _ (by decide) 406 (dataGrounded_null (by decide))
  | completeTheConnectionProcess a b => exact sound_completeTheConnectionProcess h a b
  | createANewConnection a b => exact (sound_createANewConnection h a b).mono fun _ _ _ h => h.1
  | haveAnExistingConnection a b => exact sound_haveAnExistingConnection h a b
  | sendsAnExplicitInvitation a b m t => exact sound_sendsAnExplicitInvitation h a b m t
  | sendsAnExplicitInvitationWithAPublicDid a b =>
    exact sound_sendsAnExplicitInvitationWithAPublicDid h a b
  | hasAResolvableDid a =>
    refine Meets.bind (meets_gets (fun _ s _ hs => ?_) ?_)
    · obtain rfl := Except.ok.inj hs
      exact (by decide : "did" ∈ connecting)
    · exact fun _ _ _ _ _ hpast _ _ => meets_pure { h.mono hpast with }
  | acquiresTheResolvableDid => exact Meets.bind (meets_py fun _ _ => meets_pure { h with })
  | sendsTheRequestWithThePublicDid a b => exact sound_sendsTheRequestWithThePublicDid h a b
  | receivesTheRequestWithTheirPublicDid a => exact sound_receivesTheRequestWithTheirPublicDid h a
  | receivesTheInvitation a => exact sound_receivesTheInvitation h a
  | cantAcceptTheInvitation a => exact sound_cantAcceptTheInvitation h a
  | sendsTheRequest a b m => exact sound_sendsTheRequest h a b m
  | doesNotReceiveTheRequest a => exact sound_doesNotReceiveTheRequest h a
  | receivesTheRequest a => exact sound_receivesTheRequest h a
  | sendsAResponse a b => exact sound_sendsAResponse h a b
  | sendsAResponseWithAProblem a b =>
    exact sound_refused h a _ (by decide) 400 (dataGrounded_null (by decide))
  | receivesTheResponse a => exact sound_reaches h a _ (by decide) _ _
  | sendsComplete => exact meets_pure h
  | createANewDidexchangeConnection a b =>
    exact (sound_createANewDidexchangeConnection h a b).mono fun _ _ _ h => h.1
  | requestsMediation a b => exact sound_mediation h a b (by decide)
  | grantsTheMediationRequest a b => exact sound_mediation h a b (by decide)
  | deniesTheMediationRequest a b => exact sound_mediation h a b (by decide)
  | hasSetUpAsAMediator a b => exact sound_mediationStates h a b _ _
  | hasDeniedTheMediationRequest a b => exact sound_mediationStates h b a _ _
  | usesAsAMediator a b => exact meets_pure { h with }
  | createsADidcommV2Invitation a g => exact sound_createsADidcommV2Invitation h a g
  | acceptsTheDidcommV2Invitation a b => exact sound_acceptsTheDidcommV2Invitation h a b
  | hasReceivedADidcommV2Message a b => exact sound_hasReceivedADidcommV2Message h a b
  | haveADidcommV2Connection a b => exact sound_haveADidcommV2Connection h a b

/-- The two agents that are connected when the step passes: one that they have a connection, or
that they create a new one. -/
def connects : Step → Option (Text × Text)
  | .haveAConnection a b => some (a, b)
  | .haveTheConnection a b => some (a, b)
  | .createANewConnection a b => some (a, b)
  | .createANewDidexchangeConnection a b => some (a, b)
  | _ => none

theorem connected_step (h : Sound cfg past ctx) {step : Step} {a b : Text}
    (hstep : connects step = some (a, b)) :
    Meets Grounded past (Step.perform cfg ctx step) fun past' ctx' =>
      Connected cfg past' ctx' a b ∧ Connected cfg past' ctx' b a := by
  cases step with
  | haveAConnection c d =>
    obtain ⟨rfl, rfl⟩ := Prod.mk.inj (Option.some.inj hstep)
    exact (sound_haveAConnection h c d).mono fun _ _ _ h => h.2
  | haveTheConnection c d =>
    obtain ⟨rfl, rfl⟩ := Prod.mk.inj (Option.some.inj hstep)
    refine (sound_sendsTrustping h d c).andThen fun _ _ _ h => ?_
    exact (sound_haveAConnection h c d).mono fun _ _ _ h => h.2
  | createANewConnection c d =>
    obtain ⟨rfl, rfl⟩ := Prod.mk.inj (Option.some.inj hstep)
    exact (sound_createANewConnection h c d).mono fun _ _ _ h => h.2
  | createANewDidexchangeConnection c d =>
    obtain ⟨rfl, rfl⟩ := Prod.mk.inj (Option.some.inj hstep)
    exact (sound_createANewDidexchangeConnection h c d).mono fun _ _ _ h => h.2
  | _ => cases hstep

end

section

variable {cfg : Config} {events : List (Event Reply)} {r : Except StepError Context}

theorem sound_scenario (cfg : Config) (steps : List Step) :
    Meets Grounded [] (scenario cfg steps) (Sound cfg) :=
  meets_foldlM (fun step _ _ h => sound_step h step) steps (sound_fresh cfg)

/-- In every scenario, whatever the backchannels answer, an agent gets the ids of its own
connections, and what other agents made. -/
theorem calls_grounded (steps : List Step) (h : Behaves (scenario cfg steps) events r)
    {before after : List (Event Reply)} {call : Call} {answer : Reply call}
    (hcall : events = before ++ ⟨call, answer⟩ :: after) : Grounded before call :=
  ((sound_scenario cfg steps).of_behaves h).1 before call answer after hcall

/-- A scenario that passes up to a connection has it: each agent told the id that the harness keeps
for the other one, and that this connection is complete. -/
theorem connected_of_passes (steps : List Step) {step : Step} {a b : Text}
    (hstep : connects step = some (a, b)) {ctx : Context}
    (h : Behaves (scenario cfg (steps ++ [step])) events (.ok ctx)) :
    Connected cfg events ctx a b ∧ Connected cfg events ctx b a := by
  have hkeeps : ∀ s past ctx, Sound cfg past ctx →
      Meets Grounded past (Step.perform cfg ctx s) (Sound cfg) := fun s _ _ h => sound_step h s
  have hlast : ∀ past ctx, Sound cfg past ctx → Meets Grounded past (Step.perform cfg ctx step)
      fun past ctx => Connected cfg past ctx a b ∧ Connected cfg past ctx b a :=
    fun _ _ h => connected_step h hstep
  exact ((meets_foldlM_concat hkeeps hlast steps (sound_fresh cfg)).of_behaves h).2 ctx rfl

end

/-! An inviter and an invitee. -/

def acme : Text := "Acme".toList
def bob : Text := "Bob".toList

def pair : Config where
  userdata name := if name = acme ∨ name = bob then some name else none
  tags := []
  featureName := "RFC 0160".toList

/-- Each agent has one connection. -/
def backchannels (call : Call) : Reply call :=
  .ok (200, if call.agent = acme then
      "\x7b\"connection_id\": \"a\", \"invitation\": \x7b\"@id\": \"i\"\x7d, \"state\": \"complete\"\x7d".toList
    else "\x7b\"connection_id\": \"b\", \"state\": \"complete\"\x7d".toList)

def connecting : List (Event Reply) × Except StepError Context :=
  (scenario pair [.createANewConnection acme bob]).run backchannels

/-- The invitee then has the inviter mediate, and gets another invitation. -/
def mediated : List (Event Reply) × Except StepError Context :=
  (scenario pair [.createANewConnection acme bob, .usesAsAMediator bob acme,
    .generatesAConnectionInvitation acme, .receivesTheConnectionInvitation bob]).run backchannels

def passedOn : Call := .post bob "connection" (some "receive-invitation") .null
  (.obj [("@id", .str "i"), ("mediator_connection_id", .str "b")]) false

theorem passedOn_grounded : ∃ before answer after,
    mediated.1 = before ++ (⟨passedOn, answer⟩ : Event Reply) :: after ∧
      Grounded before passedOn := by
  have hmem : passedOn ∈ calls (fun _ => true) mediated.1 := by decide +kernel
  obtain ⟨before, answer, after, hsplit⟩ := event_of_mem_calls hmem
  exact ⟨before, answer, after, hsplit, calls_grounded _ (behaves_run backchannels _) hsplit⟩

theorem pair_connected : ∃ ctx, Connected pair connecting.1 ctx acme bob ∧
    Connected pair connecting.1 ctx bob acme := by
  have hpasses : ∃ ctx, connecting.2 = .ok ctx := by
    have hok : connecting.2.toOption.isSome = true := by decide +kernel
    cases hresult : connecting.2 with
    | ok ctx => exact ⟨ctx, rfl⟩
    | error e => rw [hresult] at hok; cases hok
  obtain ⟨ctx, hctx⟩ := hpasses
  have hrun : Behaves (scenario pair ([] ++ [.createANewConnection acme bob])) connecting.1
      (.ok ctx) := hctx ▸ behaves_run backchannels _
  exact ⟨ctx, connected_of_passes [] rfl hrun⟩

end AgentTestHarness.OwnConnectionIds
