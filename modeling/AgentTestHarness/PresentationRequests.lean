import AgentTestHarness.AdminWrites
import AgentTestHarness.JsonMember
import AgentTestHarness.ProofSteps

/-! The requests for proofs, from the steps of the harness to the admin API of ACA-Py: what a step
asks for is what the agent is asked to ask for. -/
namespace AgentTestHarness.PresentationRequests
open PyText OrderedDict PyJson CommandRequests ServiceCalls AdminRequests AdminWrites
open PresentationMapping
open RevocationCommands (Python)
open ProofRequests (Context loadRequest requestData sendsPresentation)
open ProofSteps (dataOfRequest)
open Program

/-- The steps of protocols 0037 and 0454 that send a request for a proof. -/
inductive RequestStep
  | v1 (context : IssuanceSteps.Context)
  | v2 (amend : Json → Except PyError Json) (context : Context) (file : Option Json)

namespace RequestStep

def request (connectionId : Text) : RequestStep → Except PyError Request
  | .v1 context => do
    let (data, _) ← dataOfRequest context
    .ok (ProofRequests.sendsRequest data connectionId Site.command.url)
  | .v2 amend context file => sendsPresentation amend context file connectionId Site.command.url

/-- What the step asks for. -/
def asked : RequestStep → Except PyError Json
  | .v1 context => do
    let (data, _) ← dataOfRequest context
    .ok data
  | .v2 amend context file => loadRequest context file >>= requestData amend

/-- The second version names the format of the credentials. -/
def ForIndy : RequestStep → Prop
  | .v1 _ => True
  | .v2 _ context _ => context.currentCredFormat = some "indy".toList ∨
      context.currentCredFormat = some "anoncreds".toList

end RequestStep

/-- The interval of non-revocation, if one is given. -/
def interval : Option Json → List (Str × Json)
  | none => []
  | some .null => []
  | some nonRevoked => [("non_revoked", nonRevoked)]

/-- The request of the admin API for what is asked: attributes, predicates and interval are
unchanged, and only a name, a version and empty sections are filled in. -/
def asking (asked : List (Str × Json)) : Json :=
  let filled : List (Str × Json) :=
    [("name", (lookup ("name" : Str) asked).getD (.str "test proof")),
    ("version", (lookup ("version" : Str) asked).getD (.str "1.0")),
    ("requested_attributes", (lookup ("requested_attributes" : Str) asked).getD empty),
    ("requested_predicates", (lookup ("requested_predicates" : Str) asked).getD empty)]
  .obj (filled ++ interval (lookup ("non_revoked" : Str) asked))

theorem proofRequest_obj (asked : List (Str × Json)) :
    proofRequest (.obj asked) = .ok (asking asked) := by
  rw [asking]
  unfold proofRequest
  cases hrevoked : lookup ("non_revoked" : Str) asked with
  | none =>
    have hget : (Json.obj asked).get "non_revoked" = .ok .null := by rw [Json.get, hrevoked]; rfl
    rw [hget]
    rfl
  | some nonRevoked =>
    have hget : (Json.obj asked).get "non_revoked" = .ok nonRevoked := by
      rw [Json.get, hrevoked]
      rfl
    rw [hget]
    cases nonRevoked <;> rfl

/-- Nothing else can be asked. -/
theorem proofRequest_error {asked : Json} (h : ∀ ms, asked ≠ .obj ms) :
    proofRequest asked = .error .attributeError := by
  cases asked with
  | obj ms => exact absurd rfl (h ms)
  | _ => rfl

def comment : Json := .str "This is a comment for the request for presentation."

/-- The connection, where its id is not empty. -/
def connection (connectionId : Text) : List (Str × Json) :=
  if connectionId = [] then [] else [("connection_id", .str (ofText connectionId))]

def adminMembers (name : Str) (request : Json) : List (Str × Json) :=
  [("comment", comment), ("trace", .bool false), (name, request)]

/-- The data that the step's request has at the admin API. -/
def RequestStep.adminData (connectionId : Text) (asked : List (Str × Json)) : RequestStep → Json
  | .v1 _ => .obj (adminMembers "proof_request" (asking asked) ++ connection connectionId)
  | .v2 _ context _ => .obj (adminMembers "presentation_request"
      (.obj [(ofText (context.currentCredFormat.getD []), asking asked)]) ++
      connection connectionId)

theorem withConnection_eq (connectionId : Text) {name : Str} (request : Json)
    (hname : name ≠ "connection_id") :
    withConnection (.str (ofText connectionId)) (adminMembers name request) =
      adminMembers name request ++ connection connectionId := by
  have h : ("connection_id" : Str) ∉ (adminMembers name request).map Prod.fst := by
    change ("connection_id" : Str) ∉ [("comment" : Str), "trace", name]
    refine fun hmem => ?_
    rcases List.mem_cons.mp hmem with h | hmem
    · exact absurd h (by decide)
    · rcases List.mem_cons.mp hmem with h | hmem
      · exact absurd h (by decide)
      · exact hname (List.mem_singleton.mp hmem).symm
  rw [withConnection, connection]
  cases connectionId with
  | nil => simp [ofText, Json.truthy]
  | cons c cs =>
    have htrue : (Json.str (ofText (c :: cs))).truthy = true := rfl
    rw [if_neg (List.cons_ne_nil c cs), if_pos htrue, JsonMember.assign_of_not_mem _ h]

/-! The commands that the backchannel makes of the requests. -/

def sendRequest : Name := ⟨"send-request".toList, by decide, by decide⟩

namespace RequestStep

def topic : RequestStep → Name
  | .v1 _ => ⟨"proof".toList, by decide, by decide⟩
  | .v2 _ _ _ => ⟨"proof-v2".toList, by decide, by decide⟩

/-- The data of the step for what it asks. -/
def data (connectionId : Text) (asked : Json) : RequestStep → List (Str × Json)
  | .v1 _ => [("presentation_request", .obj [("comment", comment),
      ("proof_request", .obj [("data", asked)])]),
      ("connection_id", .str (ofText connectionId))]
  | .v2 _ context _ => [("presentation_request", .obj [
      ("format", strOrNone context.currentCredFormat), ("comment", comment), ("data", asked),
      ("connection_id", .str (ofText connectionId))])]

def call (connectionId : Text) (asked : Json) (step : RequestStep) : CommandRequests.Call :=
  .post step.topic (some sendRequest) none (some (step.data connectionId asked)) false

end RequestStep

/-- The format is not taken from the file. -/
theorem loadRequest_format {context context' : Context} {file : Option Json}
    (h : loadRequest context file = .ok context') :
    context'.currentCredFormat = context.currentCredFormat := by
  cases file with
  | none => rw [Except.ok.inj h]
  | some json =>
    obtain ⟨request, -, h⟩ := bind_eq_ok h
    rw [← Except.ok.inj h]

theorem request_eq {step : RequestStep} {connectionId : Text} {request : Request}
    (h : step.request connectionId = .ok request) :
    ∃ asked, step.asked = .ok asked ∧ request = (step.call connectionId asked).request := by
  cases step with
  | v1 context =>
    obtain ⟨⟨data, context'⟩, hdata, h⟩ := bind_eq_ok h
    refine ⟨data, ?_, (Except.ok.inj h).symm⟩
    rw [RequestStep.asked, hdata]
    rfl
  | v2 amend context file =>
    obtain ⟨message, hmessage, h⟩ := bind_eq_ok h
    obtain ⟨context', hcontext, hmessage⟩ := bind_eq_ok hmessage
    obtain ⟨asked, hasked, hmessage⟩ := bind_eq_ok hmessage
    obtain rfl := Except.ok.inj hmessage
    refine ⟨asked, ?_, ?_⟩
    · rw [RequestStep.asked, hcontext]
      exact hasked
    · rw [loadRequest_format hcontext] at h
      exact (Except.ok.inj h).symm

theorem received (y : Yarl) (step : RequestStep) (connectionId : Text) (asked : Json) :
    receive y (step.call connectionId asked).request =
      some (.ok (step.call connectionId asked).command) := by
  have htopic : ¬ IsDot step.topic.text := by
    cases step with
    | v1 _ => exact show ¬ IsDot "proof".toList by decide
    | v2 _ _ _ => exact show ¬ IsDot "proof-v2".toList by decide
  have hnames : ∀ name ∈ (step.call connectionId asked).names, ¬ IsDot name.text :=
    List.forall_mem_cons.mpr ⟨htopic, List.forall_mem_singleton.mpr (by decide)⟩
  refine (decoded_post y _ _ _ _ _ hnames).mpr ?_
  cases step <;> simp [CommandRequests.PartsEncodable, RequestStep.data]

/-! The plan of a request for a proof. -/

section

variable {py : Python} {b : Backchannel} {command : BackchannelCommand}

theorem plan_proof (h : command.topic = some "proof".toList) :
    plan py b command = proofPlan py b command := by
  simp [plan, h]

theorem plan_proofV2 (h : command.topic = some "proof-v2".toList) :
    plan py b command = proofV2Plan b command := by
  simp [plan, h]

/-- Without a record, no option of the agent answers in its place. -/
theorem not_responded (hrecord : command.recordId = .null)
    (hoperation : command.operation = some sendRequest.text) :
    AdminPosts.presentationResponse b.settings command = none := by
  have hsends : ¬ AdminPosts.Is command "send-presentation" := by
    rw [AdminPosts.Is, hoperation]
    decide
  have hnone : ¬ command.recordId.truthy := by rw [hrecord]; exact Bool.false_ne_true
  rw [AdminPosts.presentationResponse, if_neg (fun h => hnone h.2.2), if_neg (fun h => hsends h.2)]

end

/-! The mapping for the admin API. -/

theorem mapRequest_v1 (context : IssuanceSteps.Context) (connectionId : Text) (asked : Json) :
    Proof.mapRequest (.obj ((RequestStep.v1 context).data connectionId asked)) =
      proofRequest asked >>= fun request =>
        .ok (.obj (withConnection (.str (ofText connectionId))
          (adminMembers "proof_request" request))) := rfl

/-- For the format of the step, whichever it is. -/
theorem mapRequest_v2 (connectionId : Text) (format asked : Json) :
    ProofV2.mapRequest (.obj [("presentation_request", .obj [("format", format),
        ("comment", comment), ("data", asked), ("connection_id", .str (ofText connectionId))])]) =
      ProofV2.mapFormats format asked >>= fun request =>
        .ok (.obj (withConnection (.str (ofText connectionId))
          (adminMembers "presentation_request" request))) := rfl

theorem mapFormats_indy {format : Text}
    (h : format = "indy".toList ∨ format = "anoncreds".toList) (asked : Json) :
    ProofV2.mapFormats (.str (ofText format)) asked =
      (proofRequest asked).map fun request => .obj [(ofText format, request)] := by
  have hindy : ProofV2.isIndy (.str (ofText format)) := by
    rcases h with rfl | rfl
    · exact .inl rfl
    · exact .inr rfl
  rw [ProofV2.mapFormats, if_neg (by simp), if_pos hindy]
  rfl

namespace RequestStep

/-- The data of the command, mapped by its topic. -/
def mapTestJson : RequestStep → Option Text → Json → Except PyError Json
  | .v1 _ => Proof.mapTestJson
  | .v2 _ _ _ => ProofV2.mapTestJson

/-- Where the admin API takes the request. -/
def path : RequestStep → Str
  | .v1 _ => "/present-proof/send-request"
  | .v2 _ _ _ => "/present-proof-2.0/send-request"

def posting : RequestStep → AdminPosts.Posting
  | .v1 _ => .proof (some sendRequest.text)
  | .v2 _ _ _ => .proofV2 sendRequest.text

variable {step : RequestStep} {connectionId : Text}

theorem ForIndy.format {amend : Json → Except PyError Json} {context : Context}
    {file : Option Json} (h : (v2 amend context file).ForIndy) :
    ∃ format, context.currentCredFormat = some format ∧
      (format = "indy".toList ∨ format = "anoncreds".toList) := by
  rcases h with h | h
  · exact ⟨_, h, .inl rfl⟩
  · exact ⟨_, h, .inr rfl⟩

theorem mapped_obj (hindy : step.ForIndy) (ms : List (Str × Json)) :
    mapped (step.call connectionId (.obj ms)).command step.mapTestJson =
      .ok (step.adminData connectionId ms) := by
  cases step with
  | v1 context =>
    change Proof.mapRequest (.obj ((v1 context).data connectionId (.obj ms))) = _
    rw [mapRequest_v1, proofRequest_obj]
    exact congrArg (fun members => Except.ok (Json.obj members))
      (withConnection_eq connectionId _ (by decide))
  | v2 amend context file =>
    obtain ⟨format, hcontext, hformat⟩ := hindy.format
    change ProofV2.mapRequest (.obj [("presentation_request", .obj
      [("format", strOrNone context.currentCredFormat), ("comment", comment), ("data", .obj ms),
        ("connection_id", .str (ofText connectionId))])]) = _
    rw [mapRequest_v2, adminData, hcontext, strOrNone, mapFormats_indy hformat, proofRequest_obj]
    exact congrArg (fun members => Except.ok (Json.obj members))
      (withConnection_eq connectionId _ (by decide))

theorem mapped_error (hindy : step.ForIndy) {asked : Json} (h : ∀ ms, asked ≠ .obj ms) :
    mapped (step.call connectionId asked).command step.mapTestJson = .error .attributeError := by
  cases step with
  | v1 context =>
    change Proof.mapRequest (.obj ((v1 context).data connectionId asked)) = _
    rw [mapRequest_v1, proofRequest_error h]
    rfl
  | v2 amend context file =>
    obtain ⟨format, hcontext, hformat⟩ := hindy.format
    change ProofV2.mapRequest (.obj [("presentation_request", .obj
      [("format", strOrNone context.currentCredFormat), ("comment", comment), ("data", asked),
        ("connection_id", .str (ofText connectionId))])]) = _
    rw [mapRequest_v2, hcontext, strOrNone, mapFormats_indy hformat, proofRequest_error h]
    rfl

theorem plan_eq (py : Python) (b : Backchannel) (asked : Json) :
    plan py b (step.call connectionId asked).command =
      computes (mapped (step.call connectionId asked).command step.mapTestJson) >>= fun data =>
        pure (.posts step.posting step.path data) := by
  cases step with
  | v1 context =>
    rw [plan_proof rfl, proofPlan, not_responded rfl rfl]
    rfl
  | v2 amend context file =>
    rw [plan_proofV2 rfl, proofV2Plan, not_responded rfl rfl]
    rfl

end RequestStep

/-! The POST. -/

/-- What the agent is asked to write for what a step asks: one request with the same content, and
none where no content can be asked for. -/
def Requested (step : RequestStep) (connectionId : Text) (asked : Json)
    (events : List (Event Reply)) (r : Except PyError (ℕ × Text)) : Prop :=
  match asked with
  | .obj ms => calls writes events = [.adminPost step.path (step.adminData connectionId ms) []]
  | _ => events = [] ∧ r = .error .attributeError

section

variable {py : Python} {b : Backchannel} {command : BackchannelCommand}
  {events : List (Event Reply)} {r : Except PyError (ℕ × Text)}

theorem calls_of_posts {p : AdminPosts.Posting} {path : Str} {data : Json}
    (hplan : plan py b command = pure (.posts p path data))
    (h : Behaves (makeAgentPostRequest py b command) events r) :
    calls writes events = [.adminPost path data []] := by
  rcases post_cases h with ⟨e, -, hb⟩ | ⟨status, text, -, hb⟩ | ⟨⟨posted⟩⟩
  · rw [hplan] at hb
    cases (behaves_pure.mp hb).2
  · rw [hplan] at hb
    cases (behaves_pure.mp hb).2
  · obtain ⟨hbefore, hafter⟩ := reads_around_post posted
    obtain ⟨q, path', data', before, answer, after, planned, rfl, followed⟩ := posted
    rw [hplan] at planned
    obtain ⟨-, hr⟩ := behaves_pure.mp planned
    obtain ⟨rfl, rfl, rfl⟩ := Plan.posts.inj (Except.ok.inj hr)
    rw [calls_append, hbefore]
    exact congrArg (AdminCall.adminPost path' data' [] :: ·) hafter

theorem behaves_of_throws {e : PyError} (hplan : plan py b command = throws e)
    (h : Behaves (makeAgentPostRequest py b command) events r) : events = [] ∧ r = .error e := by
  have hnone : makeAgentPostRequest py b command = throws e := by
    rw [makeAgentPostRequest, hplan]
    rfl
  rw [hnone] at h
  exact behaves_throws.mp h

theorem requested_of_behaves {step : RequestStep} {connectionId : Text} {asked : Json}
    (hindy : step.ForIndy)
    (h : Behaves (makeAgentPostRequest py b (step.call connectionId asked).command) events r) :
    Requested step connectionId asked events r := by
  have hother : (∀ ms, asked ≠ .obj ms) → events = [] ∧ r = .error .attributeError := by
    intro hasked
    refine behaves_of_throws ?_ h
    rw [RequestStep.plan_eq, RequestStep.mapped_error hindy hasked]
    rfl
  cases asked with
  | obj ms =>
    refine calls_of_posts (p := step.posting) ?_ h
    rw [RequestStep.plan_eq, RequestStep.mapped_obj hindy]
    rfl
  | _ => exact hother fun ms => Json.noConfusion

end

/-- The request of a step arrives as a command, and whatever the agent answers, the command asks it
for what the step asks for and nothing else. -/
theorem request_reaches_agent (y : Yarl) (py : Python) (b : Backchannel) {step : RequestStep}
    {connectionId : Text} {request : Request} (h : step.request connectionId = .ok request)
    (hindy : step.ForIndy) :
    ∃ command asked, receive y request = some (.ok command) ∧ step.asked = .ok asked ∧
      ∀ events r, Behaves (AdminQueries.makeAgentRequest py b command) events r →
        Requested step connectionId asked events r := by
  obtain ⟨asked, hasked, rfl⟩ := request_eq h
  refine ⟨_, asked, received y step connectionId asked, hasked, fun events r hb => ?_⟩
  exact requested_of_behaves hindy hb

/-- A request for a name that has not been revoked. -/
def requestForName : List (Str × Json) :=
  [("name", .str "proof of name"),
    ("requested_attributes", .obj [("first", .obj [("name", .str "first")])])]

def timeframe : Json := .obj [("from", .int 0), ("to", .int 10)]

def nameStep : RequestStep :=
  .v2 .ok ⟨.obj requestForName, some "indy".toList, .obj [("non_revoked", timeframe)]⟩ none

theorem name_requested :
    ∃ request command asked, nameStep.request "connection".toList = .ok request ∧
      receive plainYarl request = some (.ok command) ∧
      asked = .obj (assign "non_revoked" timeframe requestForName) ∧
      ∀ events r, Behaves (AdminQueries.makeAgentRequest RevocationCommands.plainPython backchannel
        command) events r → Requested nameStep "connection".toList asked events r := by
  have hsent : nameStep.request "connection".toList =
      .ok (nameStep.call "connection".toList
        (.obj (assign "non_revoked" timeframe requestForName))).request := rfl
  obtain ⟨command, asked, hreceived, hasked, hall⟩ :=
    request_reaches_agent plainYarl RevocationCommands.plainPython backchannel hsent (.inl rfl)
  exact ⟨_, command, asked, hsent, hreceived, (Except.ok.inj hasked).symm, hall⟩

end AgentTestHarness.PresentationRequests
