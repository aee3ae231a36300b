import AgentTestHarness.JsonReading
import AgentTestHarness.JsonWriting
import AgentTestHarness.Storage

/-! The webhook handlers of the ACA-Py backchannel: which messages a webhook pushes into the
store, under which ids and types. -/
namespace AgentTestHarness.Webhooks
open PyText OrderedDict PyJson JsonReading JsonWriting Storage

/-- A call of `push_resource`. -/
structure Push where
  dataId : Json
  dataType : Str
  data : Json
  exchIdName : Option Str
  deriving DecidableEq

def isDeleted (message : Json) : Except PyError Bool := do
  if ← message.contains "state" then
    pure (decide ((← message.item "state") = .str "deleted"))
  else pure false

/-- `message[name] = value`. -/
def setItem (message : Json) (name : Str) (value : Json) : Except PyError Json :=
  match message with
  | .obj ms => .ok (.obj (assign name value ms))
  | _ => .error .typeError

/-! Each handler gives the pushes it makes, in order. After the first push nothing can raise
but a push. -/

def handleConnections (message : Json) : Except PyError (List Push) := do
  let messageProtocol ← message.get "connection_protocol"
  if ← message.contains "request_id" then
    let requestId ← message.item "request_id"
    pure [⟨requestId, "didexchange-msg", message, none⟩]
  else if messageProtocol = .str "didexchange/1.0" ∨ messageProtocol = .str "didexchange/1.1" then
    let invitationId ← message.item "invitation_msg_id"
    pure [⟨invitationId, "didexchange-msg", message, none⟩]
  else if messageProtocol = .str "connections/1.0" then
    let connectionId ← message.item "connection_id"
    pure [⟨connectionId, "connection-msg", message, none⟩]
  else throw (.exception ("Unknown message type in Connections Webhook: " ++
    String.ofList (dumps message)))

/-- The handlers that push a message under one of its members. -/
def pushUnder (idName dataType : Str) (message : Json) : Except PyError (List Push) := do
  let id ← message.item idName
  pure [⟨id, dataType, message, none⟩]

def handleRevocationNotification : Json → Except PyError (List Push) :=
  pushUnder "thread_id" "revocation-notification-msg"

def handleRevocationRegistry : Json → Except PyError (List Push) :=
  pushUnder "cred_def_id" "revocation-registry-msg"

def handleOobInvitation : Json → Except PyError (List Push) :=
  pushUnder "invitation_id" "oob-inviation-msg"

def handleOutOfBand : Json → Except PyError (List Push) :=
  pushUnder "invi_msg_id" "out-of-band-msg"

/-- The handlers of the two issue-credential protocols; a message with revocation info is also
pushed as a revocation message. -/
def pushCredential (exchIdName : Str) (message : Json) : Except PyError (List Push) := do
  let threadId ← message.item "thread_id"
  if ← isDeleted message then pure []
  else
    let credential : Push := ⟨threadId, "credential-msg", message, some exchIdName⟩
    if ← message.contains "revocation_id" then
      pure [credential, ⟨threadId, "revocation-registry-msg", message, some exchIdName⟩]
    else pure [credential]

def handleIssueCredential : Json → Except PyError (List Push) :=
  pushCredential "credential_exchange_id"

def handleIssueCredentialV20 : Json → Except PyError (List Push) :=
  pushCredential "cred_ex_id"

/-- The handlers of the two present-proof protocols. -/
def pushPresentation (exchIdName : Str) (message : Json) : Except PyError (List Push) := do
  let threadId ← message.item "thread_id"
  if ← isDeleted message then pure []
  else pure [⟨threadId, "presentation-msg", message, some exchIdName⟩]

def handlePresentProofV20 : Json → Except PyError (List Push) :=
  pushPresentation "presentation_exchange_id"

def handlePresentProof : Json → Except PyError (List Push) := pushPresentation "pres_ex_id"

def handleProblemReport (message : Json) : Except PyError (List Push) := do
  let threadId ← message.get "thread_id"
  if threadId.truthy then pure [⟨threadId, "problem-report-msg", message, none⟩] else pure []

/-- The anoncreds handler while it waits for `/credential/{record_id}`. -/
structure CredentialFetch where
  threadId : Json
  recordId : Json
  message : Json

def handleIssueCredentialV20Anoncreds (s : Store) (message : Json) :
    Except PyError (Option CredentialFetch) := do
  let threadId ← getDataIdFromExchId "credential-msg" "cred_ex_id" (← message.item "cred_ex_id") s
  if ← message.contains "cred_id_stored" then
    let recordId ← message.item "cred_id_stored"
    pure (some ⟨threadId, recordId, message⟩)
  else pure none

def copyItem (source : Json) (field name : Str) (message : Json) : Except PyError Json := do
  if ← source.contains field then setItem message name (← source.item field) else pure message

/-- The message with the revocation info of the fetched credential. -/
def withRevocationInfo (f : CredentialFetch) (respStatus : ℕ) (respText : Text) :
    Except PyError Json :=
  if respStatus = 200 then do
    let respJson ← loads respText
    let message ← copyItem respJson "cred_rev_id" "revocation_id" f.message
    copyItem respJson "rev_reg_id" "revoc_reg_id" message
  else pure f.message

/-- What the anoncreds handler pushes when the credential has been fetched. -/
def afterFetch (f : CredentialFetch) (respStatus : ℕ) (respText : Text) :
    Except PyError (List Push) := do
  let message ← withRevocationInfo f respStatus respText
  if ← message.contains "revocation_id" then
    pure [⟨f.threadId, "revocation-registry-msg", message, none⟩]
  else pure []

/-- The handler of a topic, apart from the one of anoncreds. -/
def handler (handlerTopic : Text) : Option (Json → Except PyError (List Push)) :=
  if handlerTopic = "connections".toList then some handleConnections
  else if handlerTopic = "revocation_notification".toList then some handleRevocationNotification
  else if handlerTopic = "issue_credential".toList then some handleIssueCredential
  else if handlerTopic = "issue_credential_v2_0".toList then some handleIssueCredentialV20
  else if handlerTopic = "present_proof_v2_0".toList then some handlePresentProofV20
  else if handlerTopic = "present_proof".toList then some handlePresentProof
  else if handlerTopic = "revocation_registry".toList then some handleRevocationRegistry
  else if handlerTopic = "oob_invitation".toList then some handleOobInvitation
  else if handlerTopic = "out_of_band".toList then some handleOutOfBand
  else if handlerTopic = "problem_report".toList then some handleProblemReport
  else none

/-- A webhook is handled at once, or waits for a credential. -/
inductive Handled
  | pushes (ps : List Push)
  | fetches (f : CredentialFetch)

/-- Some topics use dashes instead of underscores; a topic without handler is only logged. -/
def handleWebhook (s : Store) (topic : Text) (payload : Json) : Except PyError Handled :=
  if topic = "webhook".toList then .ok (.pushes [])
  else
    let handlerTopic := topic.map fun c => if c = '-' then '_' else c
    if handlerTopic = "issue_credential_v2_0_anoncreds".toList then
      (handleIssueCredentialV20Anoncreds s payload).map fun f => f.elim (.pushes []) .fetches
    else match handler handlerTopic with
      | some handle => (handle payload).map .pushes
      | none => .ok (.pushes [])

/-- The pushes of a handler are made until one raises: the store after them, and the calls
that were made. -/
def performPushes : List Push → Store → Store × List Push
  | [], s => (s, [])
  | p :: ps, s => match pushResource p.dataId p.dataType p.data p.exchIdName s with
    | (.error _, t) => (t, [p])
    | (.ok _, t) => ((performPushes ps t).1, p :: (performPushes ps t).2)

/-- What every push keeps, next to the list of calls so far, a handler keeps. -/
theorem performPushes_rule {I : Store → List Push → Prop} (ps : List Push)
    (push : ∀ p ∈ ps, ∀ s log, I s log →
      I (pushResource p.dataId p.dataType p.data p.exchIdName s).2 (log ++ [p]))
    {s : Store} {log : List Push} (h : I s log) :
    I (performPushes ps s).1 (log ++ (performPushes ps s).2) := by
  induction ps generalizing s log with
  | nil => simpa [performPushes] using h
  | cons p ps ih =>
    have hp := push p List.mem_cons_self s log h
    unfold performPushes
    cases hr : pushResource p.dataId p.dataType p.data p.exchIdName s with
    | mk r t =>
      rw [hr] at hp
      cases r with
      | error e => exact hp
      | ok _ =>
        have hrest := ih (fun q hq => push q (List.mem_cons_of_mem _ hq)) hp
        rwa [List.append_assoc, List.singleton_append] at hrest

/-! A pushed message is an object that has the member it is pushed under. -/

def NonemptyObject (m : Json) : Prop := ∃ ms, m = .obj ms ∧ ms ≠ []

theorem nonemptyObject_of_item {m : Json} {k : Str} {v : Json} (h : m.item k = .ok v) :
    NonemptyObject m := by
  obtain ⟨ms, rfl, hv⟩ := Json.item_eq_ok.mp h
  refine ⟨ms, rfl, ?_⟩
  rintro rfl
  simp at hv

/-- The webhook's own message, under the value of one of its members. -/
def Push.Own (message : Json) (p : Push) : Prop :=
  p.data = message ∧ ∃ k, message.item k = .ok p.dataId

theorem own_pushUnder {idName dataType : Str} {message : Json} {ps : List Push}
    (h : pushUnder idName dataType message = .ok ps) : ∀ p ∈ ps, p.Own message := by
  obtain ⟨id, hid, hps⟩ := bind_eq_ok h
  obtain rfl := Except.ok.inj hps
  simp only [List.forall_mem_singleton]
  exact ⟨rfl, idName, hid⟩

theorem own_handleConnections {message : Json} {ps : List Push}
    (h : handleConnections message = .ok ps) : ∀ p ∈ ps, p.Own message := by
  obtain ⟨protocol, -, h⟩ := bind_eq_ok h
  obtain ⟨withRequest, -, h⟩ := bind_eq_ok h
  have hpush : ∀ name dataType, (message.item name >>= fun id =>
      pure [(⟨id, dataType, message, none⟩ : Push)]) = Except.ok ps → ∀ p ∈ ps, p.Own message :=
    fun name dataType => own_pushUnder
  split at h
  · exact hpush _ _ h
  · split at h
    · exact hpush _ _ h
    · split at h
      · exact hpush _ _ h
      · cases h

/-- A credential is pushed under its thread, and once more if it tells of its revocation. -/
theorem pushCredential_cases {exchIdName : Str} {message : Json} {ps : List Push}
    (h : pushCredential exchIdName message = .ok ps) :
    ∃ threadId, message.item "thread_id" = .ok threadId ∧ (isDeleted message = .ok true ∧ ps = [] ∨
      isDeleted message = .ok false ∧
      (ps = [⟨threadId, "credential-msg", message, some exchIdName⟩] ∨
        ps = [⟨threadId, "credential-msg", message, some exchIdName⟩,
          ⟨threadId, "revocation-registry-msg", message, some exchIdName⟩])) := by
  obtain ⟨threadId, hid, h⟩ := bind_eq_ok h
  obtain ⟨deleted, hdeleted, h⟩ := bind_eq_ok h
  refine ⟨threadId, hid, ?_⟩
  cases deleted with
  | true => exact .inl ⟨hdeleted, (Except.ok.inj h).symm⟩
  | false =>
    obtain ⟨revocation, -, h⟩ := bind_eq_ok h
    cases revocation with
    | true => exact .inr ⟨hdeleted, .inr (Except.ok.inj h).symm⟩
    | false => exact .inr ⟨hdeleted, .inl (Except.ok.inj h).symm⟩

theorem pushPresentation_cases {exchIdName : Str} {message : Json} {ps : List Push}
    (h : pushPresentation exchIdName message = .ok ps) :
    ∃ threadId, message.item "thread_id" = .ok threadId ∧ (isDeleted message = .ok true ∧ ps = [] ∨
      isDeleted message = .ok false ∧
        ps = [⟨threadId, "presentation-msg", message, some exchIdName⟩]) := by
  obtain ⟨threadId, hid, h⟩ := bind_eq_ok h
  obtain ⟨deleted, hdeleted, h⟩ := bind_eq_ok h
  refine ⟨threadId, hid, ?_⟩
  cases deleted with
  | true => exact .inl ⟨hdeleted, (Except.ok.inj h).symm⟩
  | false => exact .inr ⟨hdeleted, (Except.ok.inj h).symm⟩

theorem own_handleProblemReport {message : Json} {ps : List Push}
    (h : handleProblemReport message = .ok ps) : ∀ p ∈ ps, p.Own message := by
  obtain ⟨threadId, hid, h⟩ := bind_eq_ok h
  split at h
  · next htruthy =>
    obtain rfl := Except.ok.inj h
    simp only [List.forall_mem_singleton]
    exact ⟨rfl, "thread_id", Json.item_of_get_truthy hid htruthy⟩
  · obtain rfl := Except.ok.inj h
    simp

theorem ite_eq_some {α : Type*} {c : Prop} [Decidable c] {a b : α} {r : Option α}
    (h : (if c then some a else r) = some b) : (c ∧ b = a) ∨ r = some b := by
  split at h
  · next hc => exact .inl ⟨hc, (Option.some.inj h).symm⟩
  · exact .inr h

def plainTypes : List Str :=
  ["revocation-notification-msg", "revocation-registry-msg", "oob-inviation-msg",
    "out-of-band-msg"]

/-- The handlers of all topics: one for the connections, and four kinds of others. -/
theorem handler_cases {topic : Text} {handle : Json → Except PyError (List Push)}
    (h : handler topic = some handle) :
    (topic = "connections".toList ∧ handle = handleConnections) ∨
    (∃ idName, ∃ dataType ∈ plainTypes, handle = pushUnder idName dataType) ∨
    (∃ exchIdName, handle = pushCredential exchIdName) ∨
    (∃ exchIdName, handle = pushPresentation exchIdName) ∨ handle = handleProblemReport := by
  rcases ite_eq_some h with ⟨htopic, rfl⟩ | h
  · exact .inl ⟨htopic, rfl⟩
  rcases ite_eq_some h with ⟨-, rfl⟩ | h
  · exact .inr (.inl ⟨"thread_id", "revocation-notification-msg", by decide, rfl⟩)
  rcases ite_eq_some h with ⟨-, rfl⟩ | h
  · exact .inr (.inr (.inl ⟨"credential_exchange_id", rfl⟩))
  rcases ite_eq_some h with ⟨-, rfl⟩ | h
  · exact .inr (.inr (.inl ⟨"cred_ex_id", rfl⟩))
  rcases ite_eq_some h with ⟨-, rfl⟩ | h
  · exact .inr (.inr (.inr (.inl ⟨"presentation_exchange_id", rfl⟩)))
  rcases ite_eq_some h with ⟨-, rfl⟩ | h
  · exact .inr (.inr (.inr (.inl ⟨"pres_ex_id", rfl⟩)))
  rcases ite_eq_some h with ⟨-, rfl⟩ | h
  · exact .inr (.inl ⟨"cred_def_id", "revocation-registry-msg", by decide, rfl⟩)
  rcases ite_eq_some h with ⟨-, rfl⟩ | h
  · exact .inr (.inl ⟨"invitation_id", "oob-inviation-msg", by decide, rfl⟩)
  rcases ite_eq_some h with ⟨-, rfl⟩ | h
  · exact .inr (.inl ⟨"invi_msg_id", "out-of-band-msg", by decide, rfl⟩)
  rcases ite_eq_some h with ⟨-, rfl⟩ | h
  · exact .inr (.inr (.inr (.inr rfl)))
  · cases h

theorem own_handler {topic : Text} {handle : Json → Except PyError (List Push)}
    (hh : handler topic = some handle) {message : Json} {ps : List Push}
    (h : handle message = .ok ps) : ∀ p ∈ ps, p.Own message := by
  obtain ⟨-, rfl⟩ | ⟨idName, dataType, -, rfl⟩ | ⟨exchIdName, rfl⟩ | ⟨exchIdName, rfl⟩ | rfl :=
    handler_cases hh
  · exact own_handleConnections h
  · exact own_pushUnder h
  · obtain ⟨threadId, hid, ⟨-, rfl⟩ | ⟨-, rfl | rfl⟩⟩ := pushCredential_cases h
    · exact List.forall_mem_nil _
    · exact List.forall_mem_singleton.mpr ⟨rfl, _, hid⟩
    · exact List.forall_mem_cons.mpr ⟨⟨rfl, _, hid⟩, List.forall_mem_singleton.mpr ⟨rfl, _, hid⟩⟩
  · obtain ⟨threadId, hid, ⟨-, rfl⟩ | ⟨-, rfl⟩⟩ := pushPresentation_cases h
    · exact List.forall_mem_nil _
    · exact List.forall_mem_singleton.mpr ⟨rfl, _, hid⟩
  · exact own_handleProblemReport h

/-- A webhook pushes what the handler of its topic says, or asks for a credential first. -/
theorem handleWebhook_cases {s : Store} {topic : Text} {payload : Json} {handled : Handled}
    (h : handleWebhook s topic payload = .ok handled) :
    handled = .pushes [] ∨
      (∃ handle ps, handler (topic.map fun c => if c = '-' then '_' else c) = some handle ∧
        handle payload = .ok ps ∧ handled = .pushes ps) ∨
      ∃ f, handleIssueCredentialV20Anoncreds s payload = .ok (some f) ∧ handled = .fetches f := by
  unfold handleWebhook at h
  split at h
  · exact .inl (Except.ok.inj h).symm
  · dsimp only at h
    split at h
    · cases hf : handleIssueCredentialV20Anoncreds s payload with
      | error e => simp [hf, Except.map] at h
      | ok f =>
        rw [hf] at h
        cases f with
        | none => exact .inl (Except.ok.inj h).symm
        | some f => exact .inr (.inr ⟨f, rfl, (Except.ok.inj h).symm⟩)
    · split at h
      · next handle hh =>
        cases hp : handle payload with
        | error e => simp [hp, Except.map] at h
        | ok ps =>
          rw [hp] at h
          exact .inr (.inl ⟨handle, ps, hh, hp, (Except.ok.inj h).symm⟩)
      · exact .inl (Except.ok.inj h).symm

theorem own_handleWebhook {s : Store} {topic : Text} {payload : Json} {ps : List Push}
    (h : handleWebhook s topic payload = .ok (.pushes ps)) : ∀ p ∈ ps, p.Own payload := by
  rcases handleWebhook_cases h with heq | ⟨handle, qs, hh, hp, heq⟩ | ⟨f, -, heq⟩
  · obtain rfl := Handled.pushes.inj heq
    exact List.forall_mem_nil _
  · obtain rfl := Handled.pushes.inj heq
    exact own_handler hh hp
  · cases heq

end AgentTestHarness.Webhooks
