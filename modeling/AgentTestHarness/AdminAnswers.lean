import AgentTestHarness.AdminWrites

/-! The programs of the POST commands refine the account of them in terms of one POST and its
answer: every behaviour has the response of the account for an agent that gives the same answers. -/
namespace AgentTestHarness.AdminAnswers
open PyText OrderedDict PyJson JsonReading CommandRequests ServiceCalls AdminPosts AdminRequests
open AdminWrites
open RevocationCommands (Python commandBackchannel)
open FailedPosts (Succeeds)
open Program

/-- How the preparation of a command ends, by what its program has planned. -/
def ending : Except PyError Plan → Except PyError (Option (ℕ × Text))
  | .error e => .error e
  | .ok (.answers status text) => .ok (some (status, text))
  | .ok (.posts _ _ _) => .ok none

/-- The polls for the message of a did exchange, with the first answers of a behaviour, end with the
agent's message. -/
def TellsMessage (command : BackchannelCommand) (events : List (Event Reply)) (agent : Agent) :
    Prop :=
  ∀ ⦃first message⦄, first <+: events →
    Behaves (makeAgentGetRequestResponse command (some "didexchange-msg")) first message →
    agent.didExchangeMessage = message

/-- The agent gives the answers of a behaviour: with the first of them the preparation ends as the
program's does, and those to the POST and to the GET behind it are the agent's. -/
structure Gives (py : Python) (b : Backchannel) (command : BackchannelCommand) (agent : Agent)
    (events : List (Event Reply)) : Prop where
  preparation : ∀ first planned, first <+: events → Behaves (plan py b command) first planned →
    agent.preparation = ending planned
  message : TellsMessage command events agent
  post : ∀ path data query answer, (⟨.adminPost path data query, answer⟩ : Event Reply) ∈ events →
    agent.post = answer
  connection : ∀ before path data query posted getPath params answer after,
    events = before ++ ⟨.adminPost path data query, posted⟩ ::
      ⟨.adminGet getPath params, answer⟩ :: after → agent.connection = answer

/-- The course that a command takes by the account accords with what its program has planned, for an
agent that ends the preparation so and tells the message of a did exchange that was found. -/
def Accounted (tells : Agent → Prop) (course : Agent → Except PyError Course) :
    Except PyError Plan → Prop
  | .error e => ∀ agent : Agent, agent.preparation = .error e → tells agent →
      ∃ e', course agent = .error e'
  | .ok (.answers status text) => ∀ agent : Agent, agent.preparation = .ok (some (status, text)) →
      tells agent → course agent = .ok (.answers status text)
  | .ok (.posts p _ _) => ∀ agent : Agent, agent.preparation = .ok none →
      course agent = .ok (.posts p)

section

variable {tells : Agent → Prop}

/-- The answer of a command has been found, or it is prepared to post. -/
theorem accounted_prepared {p : Posting} {planned : Except PyError Plan}
    (hposts : ∀ q path data, planned = .ok (.posts q path data) → q = p) :
    Accounted tells (fun agent => prepared agent p) planned := by
  cases planned with
  | error e =>
    intro agent hprep _
    refine ⟨e, ?_⟩
    dsimp only
    rw [prepared, hprep]
    rfl
  | ok plan =>
    cases plan with
    | answers status text =>
      intro agent hprep _
      dsimp only
      rw [prepared, hprep]
      rfl
    | posts q path data =>
      intro agent hprep
      dsimp only
      rw [prepared, hprep, hposts q path data rfl]
      rfl

theorem accounted_ite {c : Prop} [Decidable c] {f g : Agent → Except PyError Course}
    {p q : Admin Plan} {events : List (Event Reply)} {planned : Except PyError Plan}
    (h : Behaves (if c then p else q) events planned)
    (hp : c → Behaves p events planned → Accounted tells f planned)
    (hq : ¬ c → Behaves q events planned → Accounted tells g planned) :
    Accounted tells (fun agent => if c then f agent else g agent) planned := by
  by_cases hc : c
  · rw [if_pos hc] at h
    simpa only [if_pos hc] using hp hc h
  · rw [if_neg hc] at h
    simpa only [if_neg hc] using hq hc h

end

/-- The program plans only posts of a kind. -/
def PostsOnly (p : Posting) (program : Admin Plan) : Prop :=
  ∀ events q path data, Behaves program events (.ok (.posts q path data)) → q = p

section

variable {py : Python} {b : Backchannel} {command : BackchannelCommand}
  {events : List (Event Reply)} {planned : Except PyError Plan} {tells : Agent → Prop}

/-! The plans that prepare one kind of POST. -/

theorem postsOnly_pure_posts (p : Posting) (path : Str) (data : Json) :
    PostsOnly p (pure (.posts p path data)) := by
  intro events q path' data' h
  obtain ⟨-, hr⟩ := behaves_pure.mp h
  exact (Plan.posts.inj (Except.ok.inj hr)).1

theorem postsOnly_pure_answers (p : Posting) (status : ℕ) (text : Text) :
    PostsOnly p (pure (.answers status text)) := by
  intro events q path data h
  obtain ⟨-, hr⟩ := behaves_pure.mp h
  cases hr

theorem postsOnly_bind {α : Type} {p : Posting} {first : Admin α} {next : α → Admin Plan}
    (h : ∀ a, PostsOnly p (next a)) : PostsOnly p (first >>= next) := by
  intro events q path data hb
  obtain ⟨a, before, rest, -, -, hrest⟩ := behaves_bind_ok.mp hb
  exact h a rest q path data hrest

theorem postsOnly_ite {c : Prop} [Decidable c] {p : Posting} {first second : Admin Plan}
    (hfirst : PostsOnly p first) (hsecond : PostsOnly p second) :
    PostsOnly p (if c then first else second) := by
  split
  · exact hfirst
  · exact hsecond

theorem accounted_of_postsOnly {p : Posting} {program : Admin Plan} (hp : PostsOnly p program)
    (h : Behaves program events planned) : Accounted tells (fun agent => prepared agent p) planned :=
  accounted_prepared fun q path data heq => hp events q path data (heq ▸ h)

theorem accounted_answers {course : Agent → Except PyError Course} {status : ℕ} {text : Text}
    (hcourse : ∀ agent, Succeeds agent.preparation → course agent = .ok (.answers status text))
    (h : Behaves (pure (.answers status text)) events planned) : Accounted tells course planned := by
  obtain ⟨-, rfl⟩ := behaves_pure.mp h
  exact fun agent hprep _ => hcourse agent ⟨_, hprep⟩

/-- An automatic response is the same by the program and by the account. -/
theorem accounted_response {response : Option Text} {program : Admin Plan}
    {course : Agent → Except PyError Course}
    (hnone : Behaves program events planned → Accounted tells course planned) :
    Behaves (match response with
      | some text => pure (.answers 200 text)
      | none => program) events planned →
    Accounted tells (fun agent => match response with
      | some text => .ok (.answers 200 text)
      | none => course agent) planned := by
  intro h
  cases response with
  | none => exact hnone h
  | some text => exact accounted_answers (fun _ _ => rfl) h

theorem prepared_of_error {agent : Agent} {e : PyError} (h : agent.preparation = .error e)
    (p : Posting) : prepared agent p = .error e := by
  rw [prepared, h]
  rfl

theorem accounted_schema (h : Behaves (schemaPlan b command) events planned) :
    Accounted tells (fun agent => ledgerCourse b.settings agent command .schema) planned := by
  rw [schemaPlan] at h
  refine accounted_ite h (fun _ => accounted_answers fun _ _ => rfl) fun _ => ?_
  refine accounted_of_postsOnly (postsOnly_bind fun schema => postsOnly_bind fun answer => ?_)
  refine postsOnly_bind fun respJson => postsOnly_bind fun schemaIds => postsOnly_bind fun _ => ?_
  refine postsOnly_ite (postsOnly_bind fun schemaId => ?_) ?_
  · exact postsOnly_pure_answers _ _ _
  · exact postsOnly_pure_posts _ _ _

theorem accounted_credentialDefinition
    (h : Behaves (credentialDefinitionPlan b command) events planned) :
    Accounted tells (fun agent => ledgerCourse b.settings agent command .credentialDefinition)
      planned := by
  rw [credentialDefinitionPlan] at h
  refine accounted_ite h (fun _ => accounted_answers fun _ _ => rfl) fun _ => ?_
  refine accounted_of_postsOnly (postsOnly_bind fun definition => postsOnly_bind fun answer => ?_)
  refine postsOnly_bind fun respJson => postsOnly_bind fun credDefIds => ?_
  refine postsOnly_bind fun found => ?_
  split
  · exact postsOnly_pure_answers _ _ _
  · exact postsOnly_pure_posts _ _ _

theorem accounted_issueCredential (h : Behaves (issueCredentialPlan py b command) events planned) :
    Accounted tells (fun agent => issueCredentialCourse b.settings agent command) planned := by
  refine accounted_response (accounted_of_postsOnly ?_) h
  refine postsOnly_ite (postsOnly_bind fun path => postsOnly_pure_posts _ _ _) ?_
  refine postsOnly_ite (postsOnly_bind fun path => postsOnly_pure_posts _ _ _) ?_
  exact postsOnly_bind fun path => postsOnly_pure_posts _ _ _

/-- A course that begins with a computation which the program has made too. -/
theorem accounted_after {α : Type} {x : Except PyError α}
    {course : α → Agent → Except PyError Course}
    (herror : ∀ a agent e, agent.preparation = .error e → ∃ e', course a agent = .error e')
    (hok : ∀ plan, planned = .ok plan → ∃ a, x = .ok a ∧ Accounted tells (course a) planned) :
    Accounted tells (fun agent => x >>= fun a => course a agent) planned := by
  cases planned with
  | error e =>
    intro agent hprep _
    cases x with
    | error e' => exact ⟨e', rfl⟩
    | ok a => exact herror a agent e hprep
  | ok plan =>
    obtain ⟨a, rfl, h⟩ := hok plan rfl
    exact h

theorem accounted_prepareJsonLd (h : Behaves (prepareJsonLdPlan command) events planned) :
    Accounted tells (fun agent => command.data.item "did_method" >>= fun didMethod =>
      queryText didMethod >>= fun method => prepared agent (.createDid method)) planned := by
  have hprepared : ∀ method (agent : Agent) e, agent.preparation = .error e →
      ∃ e', prepared agent (.createDid method) = .error e' :=
    fun method agent e hprep => ⟨e, prepared_of_error hprep _⟩
  refine accounted_after (fun didMethod agent e hprep => ?_) fun plan hplan => ?_
  · cases queryText didMethod with
    | error e' => exact ⟨e', rfl⟩
    | ok method => exact hprepared method agent e hprep
  · subst hplan
    obtain ⟨proofType, first, rest, rfl, -, h⟩ := behaves_bind_ok.mp h
    obtain ⟨keyType, first, rest, rfl, -, h⟩ := behaves_bind_ok.mp h
    obtain ⟨didMethod, hmethod, h⟩ := behaves_computes_bind_ok.mp h
    obtain ⟨did, first, rest, rfl, -, h⟩ := behaves_bind_ok.mp h
    obtain ⟨method, htext, h⟩ := behaves_computes_bind_ok.mp h
    refine ⟨didMethod, hmethod, accounted_after (fun method => hprepared method) fun _ _ => ?_⟩
    refine ⟨method, htext, accounted_of_postsOnly ?_ h⟩
    refine postsOnly_ite (postsOnly_pure_posts _ _ _) ?_
    refine postsOnly_ite (postsOnly_bind fun text => ?_) ?_
    · exact postsOnly_pure_answers _ _ _
    · exact postsOnly_pure_answers _ _ _

/-- A program for an operation that is looked up in a table. -/
theorem accounted_translated {table : List Text} {posting : Text → Posting} {path : Admin Str}
    {next : Str → Text → Admin Plan} (hnext : ∀ path operation, PostsOnly (posting operation)
      (next path operation))
    (h : Behaves (path >>= fun path => computes (translatedOperation table command.operation) >>=
      fun operation => next path operation) events planned) :
    Accounted tells (fun agent => translatedOperation table command.operation >>= fun operation =>
      prepared agent (posting operation)) planned := by
  refine accounted_after (fun operation agent e hprep => ⟨e, prepared_of_error hprep _⟩) ?_
  intro plan hplan
  subst hplan
  obtain ⟨path', first, rest, rfl, -, h⟩ := behaves_bind_ok.mp h
  obtain ⟨operation, hoperation, h⟩ := behaves_computes_bind_ok.mp h
  exact ⟨operation, hoperation, accounted_of_postsOnly (hnext path' operation) h⟩

theorem accounted_issueCredentialV2
    (h : Behaves (issueCredentialV2Plan py b command) events planned) :
    Accounted tells (fun agent => issueCredentialV2Course b.settings agent command) planned := by
  refine accounted_response (fun h => ?_) h
  refine accounted_ite h (fun _ h => accounted_prepareJsonLd h) fun _ h => ?_
  refine accounted_translated (fun path operation => ?_) h
  exact postsOnly_bind fun data => postsOnly_pure_posts _ _ _

theorem accounted_proof (h : Behaves (proofPlan py b command) events planned) :
    Accounted tells (fun agent => proofCourse b.settings agent command) planned := by
  refine accounted_response (accounted_of_postsOnly (postsOnly_bind fun path => ?_)) h
  exact postsOnly_bind fun data => postsOnly_pure_posts _ _ _

theorem accounted_proofV2 (h : Behaves (proofV2Plan b command) events planned) :
    Accounted tells (fun agent => proofV2Course b.settings agent command) planned := by
  refine accounted_response (accounted_translated fun path operation => ?_) h
  exact postsOnly_bind fun data => postsOnly_pure_posts _ _ _

theorem accounted_outOfBand (h : Behaves (outOfBandPlan py command) events planned) :
    Accounted tells (fun agent => prepared agent (.outOfBand command.operation)) planned := by
  refine accounted_of_postsOnly (postsOnly_bind fun mediationId => ?_) h
  refine postsOnly_ite (postsOnly_bind fun attachments => ?_) ?_
  · refine postsOnly_bind fun attachments => postsOnly_bind fun formatted => ?_
    split
    · exact postsOnly_bind fun text => postsOnly_pure_answers _ _ _
    · exact postsOnly_bind fun data => postsOnly_pure_posts _ _ _
  · refine postsOnly_ite (postsOnly_bind fun useExisting => ?_) ?_
    · exact postsOnly_pure_posts _ _ _
    · exact postsOnly_pure_posts _ _ _

theorem accounted_didExchange (h : Behaves (didExchangePlan py b command) events planned) :
    Accounted (TellsMessage command events)
      (fun agent => didExchangeCourse b.settings agent command) planned := by
  refine accounted_ite h (fun _ => accounted_answers fun _ _ => rfl) fun _ h => ?_
  refine accounted_ite h (fun _ h => ?_) fun _ h => ?_
  · rcases behaves_bind.mp h with ⟨e, rfl, hpolls⟩ | ⟨answer, first, rest, rfl, hpolls, h⟩
    · intro agent _ htells
      refine ⟨e, ?_⟩
      dsimp only
      rw [htells List.prefix_rfl hpolls]
      rfl
    · obtain ⟨-, rfl⟩ := behaves_pure.mp h
      intro agent _ htells
      dsimp only
      rw [htells (List.prefix_append _ _) hpolls]
      rfl
  · exact accounted_of_postsOnly (postsOnly_bind fun _ => postsOnly_pure_posts _ _ _) h

theorem connectionCourse_error {agent : Agent} {e : PyError}
    (hprep : agent.preparation = .error e) :
    connectionCourse b.settings agent command = .error e := by
  rw [connectionCourse, hprep]
  split_ifs <;> first | exact prepared_of_error hprep _ | rfl

theorem accounted_connection (h : Behaves (connectionPlan py b command) events planned) :
    Accounted tells (fun agent => connectionCourse b.settings agent command) planned := by
  have herror : ∀ {e : PyError}, Accounted tells
      (fun agent => connectionCourse b.settings agent command) (.error e) :=
    fun agent hprep _ => ⟨_, connectionCourse_error hprep⟩
  rcases behaves_bind.mp h with ⟨e, rfl, -⟩ | ⟨mediationId, first, rest, rfl, -, h⟩
  · exact herror
  · refine accounted_ite h (fun _ => accounted_of_postsOnly (postsOnly_pure_posts _ _ _)) ?_
    intro hcreate h
    refine accounted_ite h (fun _ => accounted_of_postsOnly (postsOnly_pure_posts _ _ _)) ?_
    intro hreceive h
    by_cases hauto : Is command "accept-request" ∧ b.settings.autoAcceptRequests = true
    · rw [if_pos (.inr (.inl hauto.1))] at h
      rcases behaves_bind.mp h with ⟨e, rfl, -⟩ | ⟨⟨⟩, first, rest, rfl, -, h⟩
      · intro agent hprep _
        exact ⟨_, by simp only [if_pos hauto, hprep]; rfl⟩
      · rw [if_pos hauto.symm] at h
        refine accounted_answers (fun agent hprep => ?_) h
        obtain ⟨answer, hprep⟩ := hprep
        simp only [if_pos hauto, hprep]
        rfl
    · simp only [if_neg hauto]
      refine accounted_ite h (fun _ => accounted_of_postsOnly ?_) fun _ => ?_
      · refine postsOnly_bind fun _ => postsOnly_ite ?_ ?_
        · exact postsOnly_pure_answers _ _ _
        · exact postsOnly_pure_posts _ _ _
      · refine accounted_answers fun agent hprep => ?_
        obtain ⟨answer, hprep⟩ := hprep
        rw [hprep]
        rfl

/-- The program of a command plans what the account of it says. -/
theorem accounted_plan (h : Behaves (plan py b command) events planned) :
    Accounted (TellsMessage command events) (fun agent => course b.settings agent command) planned := by
  refine accounted_ite h (fun _ => accounted_connection) fun _ h => ?_
  refine accounted_ite h (fun _ => accounted_schema) fun _ h => ?_
  refine accounted_ite h (fun _ => accounted_credentialDefinition) fun _ h => ?_
  refine accounted_ite h (fun _ => accounted_issueCredential) fun _ h => ?_
  refine accounted_ite h (fun _ => accounted_issueCredentialV2) fun _ h => ?_
  refine accounted_ite h (fun _ => accounted_proofV2) fun _ h => ?_
  refine accounted_ite h (fun _ => accounted_of_postsOnly (postsOnly_bind fun _ => ?_)) fun _ h => ?_
  · exact postsOnly_pure_posts _ _ _
  refine accounted_ite h (fun _ => accounted_proof) fun _ h => ?_
  refine accounted_ite h (fun _ => accounted_outOfBand) fun _ h => ?_
  refine accounted_ite h (fun _ => accounted_didExchange) fun _ h => ?_
  exact accounted_answers (fun _ _ => rfl) h

/-! What follows the POST. -/

/-- The first call behind the POST is for the connection, if there is one. -/
def TellsConnection (after : List (Event Reply)) (connection : Answer) : Prop :=
  ∀ path params answer rest, after = ⟨.adminGet path params, answer⟩ :: rest → connection = answer

theorem exists_tellsConnection (after : List (Event Reply)) : ∃ c, TellsConnection after c := by
  rcases after with _ | ⟨⟨call, reply⟩, rest⟩
  · exact ⟨silent.connection, fun _ _ _ _ h => by cases h⟩
  · cases call with
    | adminGet path params =>
      refine ⟨reply, fun path' params' answer rest' h => ?_⟩
      obtain ⟨-, heq⟩ := Sigma.mk.inj (List.cons.inj h).1
      obtain ⟨rfl, rfl⟩ := AdminCall.adminGet.inj (Sigma.mk.inj (List.cons.inj h).1).1
      exact eq_of_heq heq
    | _ =>
      refine ⟨silent.connection, fun _ _ _ _ h => ?_⟩
      cases (Sigma.mk.inj (List.cons.inj h).1).1

def Answers (program : Admin (ℕ × Text)) (account : Answer → Except PyError (ℕ × Text)) : Prop :=
  ∀ ⦃events r connection⦄, Behaves program events r → TellsConnection events connection →
    r = account connection

theorem answers_computes (x : Except PyError (ℕ × Text)) : Answers (computes x) fun _ => x :=
  fun _ _ _ h _ => (behaves_computes.mp h).2

theorem answers_computes_bind {α : Type} {x : Except PyError α} {f : α → Admin (ℕ × Text)}
    {g : α → Answer → Except PyError (ℕ × Text)} (h : ∀ a, Answers (f a) (g a)) :
    Answers (computes x >>= f) fun connection => x >>= fun a => g a connection := by
  intro events r connection hb htells
  rcases behaves_computes_bind.mp hb with ⟨e, rfl, rfl, rfl⟩ | ⟨a, rfl, hb⟩
  · rfl
  · exact h a hb htells

theorem answers_ite {c : Prop} [Decidable c] {p q : Admin (ℕ × Text)}
    {f g : Answer → Except PyError (ℕ × Text)} (hp : Answers p f) (hq : Answers q g) :
    Answers (if c then p else q) fun connection => if c then f connection else g connection := by
  by_cases hc : c
  · simpa only [if_pos hc] using hp
  · simpa only [if_neg hc] using hq

theorem answers_adminGet {path : Str} {f : ℕ × Text → Admin (ℕ × Text)}
    {g : ℕ × Text → Except PyError (ℕ × Text)}
    (h : ∀ answered, ∀ {events r}, Behaves (f answered) events r → events = [] ∧ r = g answered) :
    Answers (adminGet path [] >>= f) fun connection => connection.read >>= g := by
  have got : ∀ {events : List (Event Reply)} {x}, Behaves (adminGet path []) events x →
      ∃ answer : Answer, events = [⟨.adminGet path [], answer⟩] ∧ x = answer.read := by
    intro events x hget
    rcases behaves_adminGet.mp hget with ⟨e, hquery, -⟩ | ⟨query, answer, hquery, rfl, rfl⟩
    · cases hquery
    · obtain rfl : ([] : List (Str × Str)) = query := Except.ok.inj hquery
      exact ⟨answer, rfl, rfl⟩
  intro events r connection hb htells
  rcases behaves_bind.mp hb with ⟨e, rfl, hget⟩ | ⟨answered, first, rest, rfl, hget, hrest⟩
  · obtain ⟨answer, rfl, hread⟩ := got hget
    obtain rfl := htells path [] answer [] rfl
    dsimp only
    rw [← hread]
    rfl
  · obtain ⟨answer, rfl, hread⟩ := got hget
    obtain ⟨rfl, rfl⟩ := h answered hrest
    obtain rfl := htells path [] answer [] rfl
    dsimp only
    rw [← hread]
    rfl

theorem afterReceivedInvitation_answers (topic text : Text) (agent : Agent) :
    Answers (afterReceivedInvitation py topic text) fun connection =>
      afterOutOfBand { agent with connection } topic (some "receive-invitation".toList) 200
        text := by
  refine answers_computes_bind fun respJson => answers_computes_bind fun connectionId => ?_
  refine answers_computes_bind fun state => answers_ite (answers_adminGet ?_) (answers_ite ?_ ?_)
  · intro answered events r hb
    rcases behaves_computes_bind.mp hb with ⟨e, he, rfl, rfl⟩ | ⟨translated, ht, hb⟩
    · dsimp only
      rw [he]
      exact ⟨rfl, rfl⟩
    · obtain ⟨rfl, rfl⟩ := behaves_pure.mp hb
      dsimp only
      rw [ht]
      exact ⟨rfl, rfl⟩
  · exact answers_computes_bind fun respJson => answers_computes (.ok (200, _))
  · exact answers_computes (.ok (200, text))

theorem afterPost_answers (p : Posting) (status : ℕ) (text : Text) (agent : Agent) :
    Answers (AdminRequests.afterPost py b command p status text) fun connection =>
      AdminPosts.afterPost b.settings { agent with connection } (command.topic.getD []) p status
        text := by
  cases p with
  | outOfBand operation =>
    by_cases hreceived : status = 200 ∧ operation = some "receive-invitation".toList
    · obtain ⟨rfl, rfl⟩ := hreceived
      exact afterReceivedInvitation_answers _ text agent
    · have hother : ∀ anyAgent : Agent, AdminPosts.afterPost b.settings anyAgent
          (command.topic.getD []) (.outOfBand operation) status text =
          afterOutOfBand silent (command.topic.getD []) operation status text := by
        intro anyAgent
        rw [AdminPosts.afterPost, afterOutOfBand, afterOutOfBand, if_neg hreceived,
          if_neg hreceived]
      simp only [hother, AdminRequests.afterPost, if_neg hreceived]
      exact answers_computes _
  | _ => exact answers_computes _

section

variable {settings : Settings} {agent : Agent}

theorem makeAgentPostRequest_error {e : PyError} (h : course settings agent command = .error e) :
    AdminPosts.makeAgentPostRequest settings agent command = .error e := by
  rw [AdminPosts.makeAgentPostRequest, h]
  rfl

theorem makeAgentPostRequest_answers {status : ℕ} {text : Text}
    (h : course settings agent command = .ok (.answers status text)) :
    AdminPosts.makeAgentPostRequest settings agent command = .ok (status, text) := by
  rw [AdminPosts.makeAgentPostRequest, h]
  rfl

theorem makeAgentPostRequest_posts {p : Posting}
    (h : course settings agent command = .ok (.posts p)) :
    AdminPosts.makeAgentPostRequest settings agent command = agent.post.read >>= fun answered =>
      AdminPosts.afterPost settings agent (command.topic.getD []) p answered.1 answered.2 := by
  rw [AdminPosts.makeAgentPostRequest, h]
  rfl

end

section

variable {r : Except PyError (ℕ × Text)} {agent : Agent}

/-- The agent is asked for nothing behind the only POST but the connection. -/
theorem Gives.of_posted (posted : Posted py b command events r)
    (hprep : agent.preparation = .ok none) (hpost : agent.post = posted.answer)
    (hconnection : TellsConnection posted.after agent.connection)
    (hmessage : TellsMessage command events agent) : Gives py b command agent events where
  preparation first planned hprefix hplan := by
    have hbefore : posted.before <+: events := ⟨_, posted.events_eq.symm⟩
    obtain ⟨-, rfl⟩ := hplan.unique posted.planned hprefix hbefore
    exact hprep
  message := hmessage
  post path data query answer hmem := by
    obtain ⟨hcall, hanswer⟩ := Sigma.mk.inj (eq_of_posted posted hmem rfl)
    obtain ⟨rfl, rfl, rfl⟩ := AdminCall.adminPost.inj hcall
    rw [hpost]
    exact (eq_of_heq hanswer).symm
  connection before path data query other getPath params answer after hevents := by
    obtain ⟨hbefore, hafter⟩ := reads_around_post posted
    obtain ⟨-, -, hrest⟩ := split_unique (posted.events_eq.symm.trans hevents) hbefore hafter rfl
    exact hconnection getPath params answer after hrest

/-- The one POST of a behaviour and what stands behind it tell which agents give its answers. -/
theorem Gives.of_post (h : Behaves (makeAgentPostRequest py b command) events r)
    {before after : List (Event Reply)} {path : Str} {data : Json} {query : List (Str × Str)}
    {answer : Answer} (hevents : events = before ++ ⟨.adminPost path data query, answer⟩ :: after)
    (hprep : agent.preparation = .ok none) (hpost : agent.post = answer)
    (hconnection : TellsConnection after agent.connection)
    (hmessage : TellsMessage command events agent) : Gives py b command agent events := by
  have hmem : (⟨.adminPost path data query, answer⟩ : Event Reply) ∈ events :=
    hevents ▸ List.mem_append_right _ List.mem_cons_self
  have unplanned : ∀ {x : Except PyError Plan}, ¬ Behaves (plan py b command) events x := by
    intro x hb
    have hreads := (reads_plan py b command).calls_eq_nil hb
    exact absurd hreads (List.ne_nil_of_mem (mem_calls hmem rfl))
  rcases post_cases h with ⟨e, -, hplan⟩ | ⟨status, text, -, hplan⟩ | ⟨⟨posted⟩⟩
  · exact absurd hplan unplanned
  · exact absurd hplan unplanned
  · obtain ⟨hbefore, hafter⟩ := reads_around_post posted
    obtain ⟨-, heq, rfl⟩ := split_unique (posted.events_eq.symm.trans hevents) hbefore hafter rfl
    have hanswer := eq_of_heq (Sigma.mk.inj heq).2
    exact Gives.of_posted posted hprep (hpost.trans hanswer.symm) hconnection hmessage

/-- Without a POST only the preparation and the message are told. -/
theorem Gives.of_plan {planned : Except PyError Plan}
    (hplan : Behaves (plan py b command) events planned)
    (hprep : agent.preparation = ending planned) (hmessage : TellsMessage command events agent) :
    Gives py b command agent events where
  preparation first planned' hprefix hplan' := by
    obtain ⟨-, rfl⟩ := hplan'.unique hplan hprefix List.prefix_rfl
    exact hprep
  message := hmessage
  post path data query answer hmem := by
    have hreads := (reads_plan py b command).calls_eq_nil hplan
    exact absurd hreads (List.ne_nil_of_mem (mem_calls hmem rfl))
  connection before path data query posted getPath params answer after hevents := by
    have hreads := (reads_plan py b command).calls_eq_nil hplan
    have hmem : (⟨.adminPost path data query, posted⟩ : Event Reply) ∈ events :=
      hevents ▸ List.mem_append_right _ List.mem_cons_self
    exact absurd hreads (List.ne_nil_of_mem (mem_calls hmem rfl))

theorem exists_tellsMessage (command : BackchannelCommand) (events : List (Event Reply)) :
    ∃ message, ∀ preparation post connection,
      TellsMessage command events ⟨preparation, post, connection, message⟩ := by
  by_cases h : ∃ first message, first <+: events ∧
      Behaves (makeAgentGetRequestResponse command (some "didexchange-msg")) first message
  · obtain ⟨first, message, hprefix, hpolls⟩ := h
    refine ⟨message, fun _ _ _ first' message' hprefix' hpolls' => ?_⟩
    exact (hpolls.unique hpolls' hprefix hprefix').2
  · refine ⟨silent.didExchangeMessage, fun _ _ _ first message hprefix hpolls => ?_⟩
    exact absurd ⟨first, message, hprefix, hpolls⟩ h

theorem exists_gives (h : Behaves (makeAgentPostRequest py b command) events r) :
    ∃ agent, Gives py b command agent events := by
  obtain ⟨message, hmessage⟩ := exists_tellsMessage command events
  rcases post_cases h with ⟨e, -, hplan⟩ | ⟨status, text, -, hplan⟩ | ⟨⟨posted⟩⟩
  · exact ⟨_, Gives.of_plan hplan rfl (hmessage _ silent.post silent.connection)⟩
  · exact ⟨_, Gives.of_plan hplan rfl (hmessage _ silent.post silent.connection)⟩
  · obtain ⟨connection, hconnection⟩ := exists_tellsConnection posted.after
    exact ⟨⟨.ok none, posted.answer, connection, message⟩,
      Gives.of_posted posted rfl rfl hconnection (hmessage _ _ _)⟩

theorem answer_of_posted (posted : Posted py b command events r)
    (hgives : Gives py b command agent events) :
    r = AdminPosts.makeAgentPostRequest b.settings agent command := by
  have hpost := hgives.post _ _ _ _ (mem_of_posted posted)
  have hprep := hgives.preparation _ _ ⟨_, posted.events_eq.symm⟩ posted.planned
  have hconnection : TellsConnection posted.after agent.connection := by
    intro path params answer rest hafter
    exact hgives.connection _ _ _ _ _ _ _ _ _ (hafter ▸ posted.events_eq)
  rw [makeAgentPostRequest_posts (accounted_plan posted.planned agent hprep), hpost]
  rcases posted.followed with ⟨e, hread, -, rfl⟩ | ⟨status, text, hread, hafter⟩
  · rw [hread]
    rfl
  · rw [hread]
    exact afterPost_answers posted.p status text agent hafter hconnection

/-- There is an agent that gives the answers of a behaviour, and the response is that of the account
for every such agent. -/
theorem response_of_behaves (h : Behaves (makeAgentPostRequest py b command) events r) :
    (∃ agent, Gives py b command agent events) ∧ ∀ agent, Gives py b command agent events →
      commandBackchannel command r = postCommandBackchannel b.settings agent command := by
  refine ⟨exists_gives h, fun agent hgives => ?_⟩
  rcases post_cases h with ⟨e, rfl, hplan⟩ | ⟨status, text, rfl, hplan⟩ | ⟨⟨posted⟩⟩
  · have hprep := hgives.preparation _ _ List.prefix_rfl hplan
    obtain ⟨e', hcourse⟩ := accounted_plan hplan agent hprep hgives.message
    rw [postCommandBackchannel, makeAgentPostRequest_error hcourse]
    rfl
  · have hprep := hgives.preparation _ _ List.prefix_rfl hplan
    have hcourse := accounted_plan hplan agent hprep hgives.message
    rw [postCommandBackchannel, makeAgentPostRequest_answers hcourse]
    rfl
  · rw [answer_of_posted posted hgives]
    rfl

end

end

/-- An agent that receives an invitation and has a connection then. -/
def receiver : (call : AdminCall) → Reply call
  | .adminGet _ _ =>
    ⟨200, .ok "\x7b\"connection_id\": \"c\", \"state\": \"request\"\x7d".toList⟩
  | .adminPost _ _ _ => ⟨200, .ok "\x7b\"connection_id\": \"c\"\x7d".toList⟩
  | .adminDelete _ => ⟨200, .ok "\x7b\x7d".toList⟩
  | .register _ => .ok 200
  | .getResource _ _ => .ok .null
  | .popResource _ _ => .ok .null
  | .popResourceLatest _ => .ok .null

def receiveCommand : BackchannelCommand :=
  ⟨some "out-of-band".toList, some "receive-invitation".toList, .null, .post,
    .obj [("label", .str "faber")], .bool false⟩

def receiving : List (Event Reply) × Except PyError (ℕ × Text) :=
  (makeAgentPostRequest RevocationCommands.plainPython backchannel receiveCommand).run receiver

def received : AdminCall :=
  .adminPost "/out-of-band/receive-invitation?use_existing_connection=false"
    (.obj [("label", .str "faber")]) []

def connectionAsked : AdminCall := .adminGet "/connections/c" []

/-- The agent that gives these answers. -/
def receivingAgent : Agent :=
  ⟨.ok none, receiver received, receiver connectionAsked,
    .ok (501, "501: Not Implemented\n\n".toList)⟩

theorem events_receiving : receiving.1 =
    [] ++ ⟨received, receiver received⟩ :: [⟨connectionAsked, receiver connectionAsked⟩] := by
  have hcalls : calls (fun _ => true) receiving.1 = [received, connectionAsked] := by
    decide +kernel
  refine (events_run receiver _).trans ?_
  exact congrArg (List.map fun call => (⟨call, receiver call⟩ : Event Reply)) hcalls

theorem gives_receiving : Gives RevocationCommands.plainPython backchannel receiveCommand
    receivingAgent receiving.1 := by
  refine Gives.of_post (behaves_run receiver _) events_receiving rfl rfl ?_ ?_
  · intro path params answer rest h
    obtain ⟨-, hanswer⟩ := Sigma.mk.inj (List.cons.inj h).1
    exact eq_of_heq hanswer
  · intro first message _ hpolls
    exact (behaves_pure.mp hpolls).2.symm

theorem receiving_response :
    commandBackchannel receiveCommand receiving.2 =
        postCommandBackchannel backchannel.settings receivingAgent receiveCommand ∧
      (postCommandBackchannel backchannel.settings receivingAgent receiveCommand).status = 200 ∧
      (postCommandBackchannel backchannel.settings receivingAgent receiveCommand).text =
        some "\x7b\"connection_id\": \"c\", \"state\": \"request-received\"\x7d".toList :=
  ⟨(response_of_behaves (behaves_run receiver _)).2 receivingAgent gives_receiving,
    by decide +kernel, by decide +kernel⟩

end AgentTestHarness.AdminAnswers
