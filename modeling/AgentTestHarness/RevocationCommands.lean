import AgentTestHarness.FailedPosts
import AgentTestHarness.PyFloats
import Mathlib.Algebra.Group.Nat.Defs

/-! The revocation commands of the ACA-Py backchannel. The GET and the POST handler share the
function that chooses the admin operation, by the version of the agent. -/
namespace AgentTestHarness.RevocationCommands
open PyText OrderedDict PyJson JsonReading StateTranslation CommandRequests AdminPosts FailedPosts
open PyFloats (Number float)

/-- Texts of Python values, as far as they do not depend on the kind of value. -/
structure Python where
  str : Json → Str
  lower : Str → Str
  str_str : ∀ s, str (.str s) = s
  str_bool : ∀ b, str (.bool b) = if b then ("True" : Str) else ("False" : Str)
  lower_bool : ∀ b : Bool, lower (if b then ("True" : Str) else ("False" : Str)) =
    if b then ("true" : Str) else ("false" : Str)

/-- The value that is appended to a text with `+`. -/
def asStr : Json → Except PyError Str
  | .str s => .ok s
  | _ => .error .typeError

/-! The version of the agent. -/

/-- The part before the first occurrence of a pattern. -/
def before (pattern : Text) : Text → Text
  | [] => []
  | c :: cs => if pattern <+: c :: cs then [] else c :: before pattern cs

def dropZero : Text → Text
  | '0' :: rest => rest
  | t => t

/-- A release candidate counts as a little more than the release. -/
def getAcapyVersionAsFloat : Option Text → Except PyError Number
  | none => .ok (.finite false ⟨0, 0⟩)
  | some [] => .ok (.finite false ⟨0, 0⟩)
  | some acapyVersion =>
    let comparibleVersion := (dropZero acapyVersion).filter (· != '.')
    if isIn "rc".toList comparibleVersion then
      float (before "rc".toList comparibleVersion ++ ".1".toList)
    else if isIn "-".toList comparibleVersion then
      float (before "-".toList comparibleVersion ++ ".1".toList)
    else float comparibleVersion

/-! The admin operation. -/

section Operation

variable (py : Python)

/-- The ids and the publish flag, unless the exchange tells them. -/
def revocationData (data : Json) : Except PyError (List (Str × Json)) := do
  if ← data.contains "cred_ex_id" then
    pure [("cred_ex_id", ← data.item "cred_ex_id")]
  else
    pure [("cred_rev_id", ← data.item "cred_rev_id"),
      ("rev_reg_id", ← data.item "rev_registry_id"),
      ("publish", .str (py.lower (py.str (← data.item "publish_immediately"))))]

def revoke (data : Json) : Except PyError (Str × Json) := do
  let anoncreds ← data.item "anoncreds"
  let agentOperation : Str :=
    if anoncreds.truthy then "/anoncreds/revocation/revoke" else "/revocation/revoke"
  let adminData ← revocationData py data
  let notifyConnectionId ← data.get "notify_connection_id"
  pure (agentOperation, .obj (if notifyConnectionId.truthy then
    assign "connection_id" notifyConnectionId (assign "notify" (.bool true) adminData)
    else adminData))

/-- Up to version 0.5.4 the parameters stand in the query. -/
def oldRevoke (data : Json) : Except PyError (Str × Json) :=
  if data = .null then .ok ("/issue-credential/revoke", .null) else do
    let credRevId ← data.item "cred_rev_id"
    let revRegId ← data.item "rev_registry_id"
    let publish ← data.item "publish_immediately"
    let credRevId ← asStr credRevId
    let revRegId ← asStr revRegId
    pure (("/issue-credential/revoke?cred_rev_id=" : Str) ++ credRevId ++ ("&rev_reg_id=" : Str) ++
      revRegId ++ ("&publish=" : Str) ++ revRegId ++ py.lower (py.str publish), .null)

def credentialRecord (anoncreds : Bool) (data : Json) : Except PyError (Str × Json) := do
  let agentOperation : Str := if anoncreds then "/anoncreds/revocation/credential-record"
    else "/revocation/credential-record"
  if ← data.contains "cred_ex_id" then
    let credExId ← data.item "cred_ex_id"
    pure (agentOperation ++ ("?cred_ex_id=" : Str) ++ py.str credExId, data)
  else
    let credRevId ← data.item "cred_rev_id"
    let revRegId ← data.item "rev_registry_id"
    let credRevId ← asStr credRevId
    let revRegId ← asStr revRegId
    pure (agentOperation ++ ("?cred_rev_id=" : Str) ++ credRevId ++ ("&rev_reg_id=" : Str) ++
      revRegId, .null)

/-- The operation and the data for it. Another operation leaves the variable unassigned. -/
def getAgentOperationAcapyVersionBased (acapyVersion : Option Text)
    (command : BackchannelCommand) : Except PyError (Str × Json) := do
  let comparibleVersion ← getAcapyVersionAsFloat acapyVersion
  if command.topic = some "revocation".toList then
    if Is command "revoke" then
      if comparibleVersion.exceeds 54 then revoke py command.data else oldRevoke py command.data
    else if Is command "credential-record" then
      credentialRecord py command.anoncreds.truthy command.data
    else throw .unboundLocalError
  else throw .unboundLocalError

/-! The handlers of the two methods; the agent's answer to the operation is its `post`. -/

def makeAgentGetRequest (agent : Agent) (acapyVersion : Option Text)
    (command : BackchannelCommand) : Except PyError (ℕ × Text) :=
  getAgentOperationAcapyVersionBased py acapyVersion command >>= fun _ => agent.post.read

def makeAgentRequest (settings : Settings) (agent : Agent) (acapyVersion : Option Text)
    (command : BackchannelCommand) : Except PyError (ℕ × Text) :=
  if command.method = .get then makeAgentGetRequest py agent acapyVersion command
  else makeAgentPostRequest settings { agent with
    preparation := (getAgentOperationAcapyVersionBased py acapyVersion command).map fun _ => none }
    command

end Operation

/-- The answer to a command of either method, from the parsed command on. -/
def commandBackchannel (command : BackchannelCommand) : Except PyError (ℕ × Text) → Response
  | .error _ => ⟨500, none⟩
  | .ok (status, text) =>
    if status = 200 then ⟨status, some text⟩
    else if status = 404 then
      ⟨404, some ("404 not found: ".toList ++ JsonWriting.dumps (commandDict command))⟩
    else if status = 501 then
      ⟨501, some ("501 not implemented: ".toList ++ JsonWriting.dumps (commandDict command))⟩
    else ⟨status, some text⟩

/-- An admin operation is called and its answer, an object, passed on; or the command is not
implemented. -/
def Served (py : Python) (acapyVersion : Option Text) (command : BackchannelCommand) : Prop :=
  (∃ operation, getAgentOperationAcapyVersionBased py acapyVersion command = .ok operation ∧
    ∀ settings agent status text ms, agent.post = ⟨status, .ok text⟩ → loads text = .ok (.obj ms) →
      makeAgentRequest py settings agent acapyVersion command = .ok (status, text)) ∨
  ∀ settings agent, (commandBackchannel command
    (makeAgentRequest py settings agent acapyVersion command)).status = 501

def harnessKeys : List Str :=
  ["cred_rev_id", "rev_registry_id", "publish_immediately", "anoncreds", "notify_connection_id"]

/-- The data have the keys that the harness sends. -/
def Carries (data : Json) : Prop :=
  ∃ ms, data = .obj ms ∧ ∀ key ∈ harnessKeys, (lookup key ms).isSome = true

/-- The ids can be appended to a text. -/
def TextIds (data : Json) : Prop :=
  ∃ credRevId revRegId, data.item "cred_rev_id" = .ok (.str credRevId) ∧
    data.item "rev_registry_id" = .ok (.str revRegId)

/-- A GET without data is served for the old revocation alone, a POST for the two operations. -/
def Handled (acapyVersion : Option Text) (command : BackchannelCommand) : Prop :=
  ∃ version, getAcapyVersionAsFloat acapyVersion = .ok version ∧
    (command.method = .get ∧ Is command "revoke" ∧ ¬ version.exceeds 54 ∨
    command.method = .post ∧ Is command "revoke" ∧
      (version.exceeds 54 ∨ TextIds command.data) ∨
    command.method = .post ∧ Is command "credential-record" ∧
      (command.data.contains "cred_ex_id" = .ok true ∨ TextIds command.data))

/-- Only a POST has data. -/
theorem parseRequest_fields {topic operation recordId : Option Text} {method : Method}
    {query : List (Text × Text)} {body : Option Json} {command : BackchannelCommand}
    (h : parseRequest topic operation recordId method query body = .ok command) :
    command.topic = topic ∧ command.method = method ∧ (method ≠ .post → command.data = .null) := by
  unfold parseRequest at h
  split at h
  · cases h
  · cases body with
    | none => exact Except.ok.inj h ▸ ⟨rfl, rfl, fun _ => rfl⟩
    | some payload =>
      dsimp only at h
      split at h
      · exact Except.ok.inj h ▸ ⟨rfl, rfl, fun _ => rfl⟩
      · next hpost =>
        have hfields : ∀ data id, (⟨topic, operation, id, method, data, anoncredsValue query⟩ :
            BackchannelCommand) = command → command.topic = topic ∧ command.method = method ∧
              (method ≠ .post → command.data = .null) := by
          rintro data id rfl
          exact ⟨rfl, rfl, fun hother => absurd hother hpost⟩
        obtain ⟨_, _, h⟩ := bind_eq_ok h
        -- whether the payload has data, and which id it has
        split at h
        all_goals
          obtain ⟨data, _, h⟩ := bind_eq_ok h
          obtain ⟨_, _, h⟩ := bind_eq_ok h
          obtain ⟨_, _, h⟩ := bind_eq_ok h
          split at h
          · obtain ⟨id, _, h⟩ := bind_eq_ok h
            exact hfields data id (Except.ok.inj h)
          · split at h
            · obtain ⟨id, _, h⟩ := bind_eq_ok h
              exact hfields data id (Except.ok.inj h)
            · obtain ⟨id, _, h⟩ := bind_eq_ok h
              exact hfields data id (Except.ok.inj h)

/-! The answer to a command. -/

theorem course_revocation {command : BackchannelCommand}
    (topic : command.topic = some "revocation".toList) (settings : Settings) (agent : Agent) :
    course settings agent command = prepared agent .revocation := by
  unfold course
  simp only [topic]
  rfl

theorem agentStateTranslation_revocation {text : Text} {ms : List (Str × Json)}
    (h : loads text = .ok (.obj ms)) :
    Acapy.agentStateTranslation "revocation".toList text = .ok text := by
  have hmethod : Acapy.method "revocation".toList text = none := rfl
  unfold Acapy.agentStateTranslation
  rw [h]
  simp only [bind, Except.bind, Json.contains]
  cases hstate : lookup ("state" : Str) ms with
  | none => rfl
  | some state =>
    simp only [Option.isSome_some, if_true, Json.item_of_lookup hstate, hmethod]
    rfl

section Answer

variable {py : Python} {acapyVersion : Option Text} {command : BackchannelCommand}
  (topic : command.topic = some "revocation".toList)
include topic

theorem makeAgentRequest_failed {e : PyError}
    (h : getAgentOperationAcapyVersionBased py acapyVersion command = .error e)
    (settings : Settings) (agent : Agent) :
    makeAgentRequest py settings agent acapyVersion command = .error e := by
  unfold makeAgentRequest makeAgentGetRequest makeAgentPostRequest
  rw [course_revocation topic, h]
  split
  · rfl
  · rfl

theorem makeAgentRequest_called {operation : Str × Json}
    (h : getAgentOperationAcapyVersionBased py acapyVersion command = .ok operation)
    (settings : Settings) {agent : Agent} {status : ℕ} {text : Text} {ms : List (Str × Json)}
    (answer : agent.post = ⟨status, .ok text⟩) (object : loads text = .ok (.obj ms)) :
    makeAgentRequest py settings agent acapyVersion command = .ok (status, text) := by
  unfold makeAgentRequest makeAgentGetRequest makeAgentPostRequest
  rw [course_revocation topic, h, answer]
  split
  · rfl
  · have htranslated : translatedIf (status = 200) "revocation".toList text = .ok text := by
      unfold translatedIf
      split
      · exact agentStateTranslation_revocation object
      · rfl
    simp only [prepared, Except.map, bind, Except.bind, Answer.read, afterPost, topic,
      Option.getD_some, htranslated]

theorem served_iff_succeeds : Served py acapyVersion command ↔
    Succeeds (getAgentOperationAcapyVersionBased py acapyVersion command) := by
  constructor
  · rintro (⟨operation, h, -⟩ | h)
    · exact ⟨operation, h⟩
    · cases hoperation : getAgentOperationAcapyVersionBased py acapyVersion command with
      | ok operation => exact succeeds_ok operation
      | error e =>
        have h501 := h manual (answering 200 "")
        rw [makeAgentRequest_failed topic hoperation] at h501
        exact absurd h501 (show ¬ 500 = 501 by decide)
  · rintro ⟨operation, h⟩
    exact .inl ⟨operation, h, fun settings agent status text ms answer object =>
      makeAgentRequest_called topic h settings answer object⟩

end Answer

/-! Which operations are found. -/

theorem Carries.item {data : Json} (h : Carries data) (key : Str) (hkey : key ∈ harnessKeys) :
    ∃ v, data.item key = .ok v := by
  obtain ⟨ms, rfl, hkeys⟩ := h
  obtain ⟨v, hv⟩ := Option.isSome_iff_exists.mp (hkeys key hkey)
  exact ⟨v, Json.item_of_lookup hv⟩

theorem Carries.contains {data : Json} (h : Carries data) (key : Str) :
    ∃ found, data.contains key = .ok found ∧ (found = true → ∃ v, data.item key = .ok v) := by
  obtain ⟨ms, rfl, -⟩ := h
  refine ⟨(lookup key ms).isSome, rfl, fun hfound => ?_⟩
  obtain ⟨v, hv⟩ := Option.isSome_iff_exists.mp hfound
  exact ⟨v, Json.item_of_lookup hv⟩

theorem Carries.get {data : Json} (h : Carries data) (key : Str) : ∃ v, data.get key = .ok v := by
  obtain ⟨ms, rfl, -⟩ := h
  exact ⟨_, rfl⟩

theorem asStr_eq_ok {v : Json} {s : Str} : asStr v = .ok s ↔ v = .str s := by
  cases v <;> simp [asStr]

section Found

variable (py : Python) {data : Json} (carries : Carries data)
include carries

theorem succeeds_revoke : Succeeds (revoke py data) := by
  obtain ⟨anoncreds, hanoncreds⟩ := carries.item "anoncreds" (by decide)
  obtain ⟨notify, hnotify⟩ := carries.get "notify_connection_id"
  have hdata : Succeeds (revocationData py data) := by
    obtain ⟨found, hfound, hitem⟩ := carries.contains "cred_ex_id"
    obtain ⟨credRevId, hcredRevId⟩ := carries.item "cred_rev_id" (by decide)
    obtain ⟨revRegId, hrevRegId⟩ := carries.item "rev_registry_id" (by decide)
    obtain ⟨publish, hpublish⟩ := carries.item "publish_immediately" (by decide)
    cases found with
    | true =>
      obtain ⟨credExId, hcredExId⟩ := hitem rfl
      exact succeeds_bind.mpr ⟨true, hfound, succeeds_bind.mpr ⟨_, hcredExId, succeeds_pure _⟩⟩
    | false =>
      exact succeeds_bind.mpr ⟨false, hfound, succeeds_bind.mpr ⟨_, hcredRevId,
        succeeds_bind.mpr ⟨_, hrevRegId, succeeds_bind.mpr ⟨_, hpublish, succeeds_pure _⟩⟩⟩⟩
  obtain ⟨adminData, hadmin⟩ := hdata
  exact succeeds_bind.mpr ⟨_, hanoncreds, succeeds_bind.mpr ⟨_, hadmin,
    succeeds_bind.mpr ⟨_, hnotify, succeeds_pure _⟩⟩⟩

/-- Appending the ids needs texts. -/
theorem succeeds_oldRevoke : Succeeds (oldRevoke py data) ↔ TextIds data := by
  have hnull : data ≠ .null := by
    obtain ⟨ms, rfl, -⟩ := carries
    simp
  obtain ⟨publish, hpublish⟩ := carries.item "publish_immediately" (by decide)
  unfold oldRevoke
  rw [if_neg hnull]
  constructor
  · intro h
    obtain ⟨credRevId, hcredRevId, h⟩ := succeeds_bind.mp h
    obtain ⟨revRegId, hrevRegId, h⟩ := succeeds_bind.mp h
    obtain ⟨_, _, h⟩ := succeeds_bind.mp h
    obtain ⟨s, hs, h⟩ := succeeds_bind.mp h
    obtain ⟨t, ht, -⟩ := succeeds_bind.mp h
    obtain rfl := asStr_eq_ok.mp hs
    obtain rfl := asStr_eq_ok.mp ht
    exact ⟨s, t, hcredRevId, hrevRegId⟩
  · rintro ⟨s, t, hs, ht⟩
    exact succeeds_bind.mpr ⟨_, hs, succeeds_bind.mpr ⟨_, ht, succeeds_bind.mpr ⟨_, hpublish,
      succeeds_bind.mpr ⟨s, rfl, succeeds_bind.mpr ⟨t, rfl, succeeds_pure _⟩⟩⟩⟩⟩

theorem succeeds_credentialRecord (anoncreds : Bool) :
    Succeeds (credentialRecord py anoncreds data) ↔
      data.contains "cred_ex_id" = .ok true ∨ TextIds data := by
  obtain ⟨found, hfound, hitem⟩ := carries.contains "cred_ex_id"
  unfold credentialRecord
  cases found with
  | true =>
    obtain ⟨credExId, hcredExId⟩ := hitem rfl
    exact iff_of_true (succeeds_bind.mpr ⟨true, hfound, succeeds_bind.mpr ⟨_, hcredExId,
      succeeds_pure _⟩⟩) (.inl hfound)
  | false =>
    constructor
    · intro h
      obtain ⟨found, hfound', h⟩ := succeeds_bind.mp h
      obtain rfl := Except.ok.inj (hfound.symm.trans hfound')
      obtain ⟨credRevId, hcredRevId, h⟩ := succeeds_bind.mp h
      obtain ⟨revRegId, hrevRegId, h⟩ := succeeds_bind.mp h
      obtain ⟨s, hs, h⟩ := succeeds_bind.mp h
      obtain ⟨t, ht, -⟩ := succeeds_bind.mp h
      obtain rfl := asStr_eq_ok.mp hs
      obtain rfl := asStr_eq_ok.mp ht
      exact .inr ⟨s, t, hcredRevId, hrevRegId⟩
    · rintro (htrue | ⟨s, t, hs, ht⟩)
      · cases hfound.symm.trans htrue
      · exact succeeds_bind.mpr ⟨false, hfound, succeeds_bind.mpr ⟨_, hs, succeeds_bind.mpr ⟨_, ht,
          succeeds_bind.mpr ⟨s, rfl, succeeds_bind.mpr ⟨t, rfl, succeeds_pure _⟩⟩⟩⟩⟩

end Found

/-- A revocation command that the backchannel has parsed is served exactly if an operation is found
for it: otherwise a variable is unassigned or missing data are read. -/
theorem revocation_served_iff (py : Python) (acapyVersion : Option Text)
    {operation recordId : Option Text} {method : Method} {query : List (Text × Text)}
    {body : Option Json} {command : BackchannelCommand}
    (parsed : parseRequest (some "revocation".toList) operation recordId method query body =
      .ok command)
    (known : method = .get ∨ method = .post)
    (harness : method = .post → Is command "revoke" ∨ Is command "credential-record" →
      Carries command.data) :
    Served py acapyVersion command ↔ Handled acapyVersion command := by
  obtain ⟨topic, rfl, nodata⟩ := parseRequest_fields parsed
  have hother : Is command "revoke" → ¬ Is command "credential-record" := fun hrevoke hrecord =>
    absurd (hrevoke.symm.trans hrecord) (by decide)
  rw [served_iff_succeeds topic, getAgentOperationAcapyVersionBased, succeeds_bind, Handled]
  refine exists_congr fun version => and_congr_right fun _ => ?_
  rw [if_pos topic]
  rcases known with hget | hpost
  · have hnotpost : command.method ≠ .post := by simp [hget]
    have hnone := nodata hnotpost
    have hrevoke : ¬ Succeeds (revoke py .null) := not_succeeds_error _
    have hrecord : ¬ Succeeds (credentialRecord py command.anoncreds.truthy .null) :=
      not_succeeds_error _
    have hold : Succeeds (oldRevoke py .null) := succeeds_ok _
    simp only [hget, hnone, true_and, reduceCtorEq, false_and, or_false]
    by_cases hr : Is command "revoke"
    · by_cases hv : version.exceeds 54
      · simp [hr, hv, hrevoke]
      · simp [hr, hv, hold]
    · by_cases hc : Is command "credential-record"
      · simp [hr, hc, hrecord]
      · simp only [hr, hc, if_false, false_and, iff_false]
        exact not_succeeds_error _
  · have hnotget : command.method ≠ .get := by simp [hpost]
    simp only [hpost, true_and, reduceCtorEq, false_and, false_or]
    by_cases hr : Is command "revoke"
    · have hc := hother hr
      have hcarries := harness hpost (.inl hr)
      by_cases hv : version.exceeds 54
      · simp [hr, hc, hv, succeeds_revoke py hcarries]
      · simp [hr, hc, hv, succeeds_oldRevoke py hcarries]
    · by_cases hc : Is command "credential-record"
      · simp [hr, hc, succeeds_credentialRecord py (harness hpost (.inr hc))]
      · simp only [hr, hc, if_false, false_and, or_false, iff_false]
        exact not_succeeds_error _

/-- Lists and dictionaries are written as JSON, since none is converted below. -/
def plainPython : Python where
  str
    | .str s => s
    | .bool b => if b then "True" else "False"
    | .null => "None"
    | j => ofText (JsonWriting.dumps j)
  lower := List.map fun
    | .ch c => .ch c.toLower
    | p => p
  str_str _ := rfl
  str_bool _ := rfl
  lower_bool := by decide

def revokePayload : Json :=
  .obj [("data", .obj [("cred_rev_id", .str "1"), ("rev_registry_id", .str "r"),
    ("publish_immediately", .bool true), ("anoncreds", .bool false),
    ("notify_connection_id", .str "c")])]

def revokeCommand : BackchannelCommand :=
  ⟨some "revocation".toList, some "revoke".toList, .null, .post,
    .obj [("cred_rev_id", .str "1"), ("rev_registry_id", .str "r"),
      ("publish_immediately", .bool true), ("anoncreds", .bool false),
      ("notify_connection_id", .str "c")], .bool false⟩

theorem revoke_served : Served plainPython (some "0.12.1".toList) revokeCommand :=
  (@revocation_served_iff plainPython (some "0.12.1".toList) (some "revoke".toList) none .post []
    (some revokePayload) revokeCommand (by decide +kernel) (.inr rfl)
    (fun _ _ => ⟨_, rfl, by decide +kernel⟩)).mpr
      ⟨.finite false ⟨121, 0⟩, by decide +kernel, .inr (.inl ⟨rfl, rfl, .inl
        ((Number.exceeds_natCast (by decide)).mpr (by decide))⟩)⟩

def credentialStatus : BackchannelCommand :=
  ⟨some "revocation".toList, none, .str "c", .get, .null, .bool false⟩

/-- A GET with an id names no operation. -/
theorem get_without_operation_fails :
    ¬ ∀ py acapyVersion operation recordId method query body command,
      parseRequest (some "revocation".toList) operation recordId method query body = .ok command →
      (method = .get ∨ method = .post) →
      (method = .post → Is command "revoke" ∨ Is command "credential-record" →
        Carries command.data) →
      Served py acapyVersion command := by
  intro h
  have hserved := h plainPython (some "0.12.1".toList) none (some "c".toList) .get [] none
    credentialStatus (by decide +kernel) (.inl rfl) (fun hpost => by cases hpost)
  have hunassigned : getAgentOperationAcapyVersionBased plainPython (some "0.12.1".toList)
      credentialStatus = .error .unboundLocalError := by decide +kernel
  rw [served_iff_succeeds rfl, hunassigned] at hserved
  exact not_succeeds_error _ hserved

end AgentTestHarness.RevocationCommands
