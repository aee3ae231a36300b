import AgentTestHarness.PollAccounting
import AgentTestHarness.PollErrors

/-! Where the connection webhooks end up: the handler tests optional members of the message in
an order, and the polls of the two protocols know one id each. -/
namespace AgentTestHarness.ConnectionRouting
open PyText PyJson JsonWriting JsonRoundTrip Storage Webhooks ResponsePolls PollAccounting Runs
open PollErrors (Translatable respond_ok_iff)

/-- A message of the connections protocol. -/
def IsConnection (w : Json) : Prop :=
  w.item "connection_protocol" = .ok (.str "connections/1.0")

/-- A message of the connections protocol for a connection. -/
def ForConnection (id : Str) (w : Json) : Prop :=
  IsConnection w ∧ w.item "connection_id" = .ok (.str id)

def IsDidExchange (w : Json) : Prop :=
  w.item "connection_protocol" = .ok (.str "didexchange/1.0") ∨
    w.item "connection_protocol" = .ok (.str "didexchange/1.1")

/-- A message of the did exchange that answers an invitation. -/
def AnswersInvitation (id : Str) (w : Json) : Prop :=
  IsDidExchange w ∧ w.item "invitation_msg_id" = .ok (.str id)

instance (w : Json) : Decidable (IsConnection w) := inferInstanceAs (Decidable (_ = _))

instance (id : Str) (w : Json) : Decidable (ForConnection id w) :=
  inferInstanceAs (Decidable (_ ∧ _))

instance (w : Json) : Decidable (IsDidExchange w) := inferInstanceAs (Decidable (_ ∨ _))

instance (id : Str) (w : Json) : Decidable (AnswersInvitation id w) :=
  inferInstanceAs (Decidable (_ ∧ _))

def isConnectionsTopic (topic : Text) : Bool :=
  decide ((topic.map fun c => if c = '-' then '_' else c) = "connections".toList)

/-- The payload of a connection webhook. -/
def payloadOf : Event → Option Json
  | .webhook topic payload => if isConnectionsTopic topic then some payload else none
  | _ => none

def connectionWebhooks (es : List Event) : List Json := es.filterMap payloadOf

/-- The messages that the polls of a topic and an id got. -/
def delivered (s : System) (topic : Text) (id : Str) : List Json :=
  (s.pops.filter fun q => decide (q.recordId = id) &&
    (s.polls[q.poll]?).any fun p => decide (p.topic = topic)).map Pop.message

/-- The poll that got the message answered it. -/
def Answered (s : System) (q : Pop) : Prop :=
  ∃ p answer, s.polls[q.poll]? = some p ∧ respond p.topic q.message = .ok answer ∧
    p.state = .answered (.ok answer)

/-- What the webhooks brought is delivered, or waits, under the id that the polls use, and a poll
that got no message found none there. -/
structure RoutedRight (s : System) (ws : List Json) : Prop where
  connections : ∀ id ≠ [], delivered s "connection".toList id ++
    s.store.queue (.str id) "connection-msg" = ws.filter fun w => decide (ForConnection id w)
  didExchanges : ∀ id ≠ [], (delivered s "did-exchange".toList id ++
    s.store.queue (.str id) "didexchange-msg").filter (fun w => decide (AnswersInvitation id w)) =
      ws.filter fun w => decide (AnswersInvitation id w)
  apart : ∀ id ≠ [],
    (∀ m ∈ delivered s "connection".toList id ++ s.store.queue (.str id) "connection-msg",
      ¬ IsDidExchange m) ∧
    ∀ m ∈ delivered s "did-exchange".toList id ++ s.store.queue (.str id) "didexchange-msg",
      ¬ IsConnection m
  answered : ∀ q ∈ s.pops, q.dataType = "connection-msg" ∨
    q.dataType = "didexchange-msg" ∧ AnswersInvitation q.recordId q.message → Answered s q
  waited : ∀ n p, s.polls[n]? = some p → s.poppedBy n = [] → ∀ a ∈ p.attempts, a.stored = []

/-- The message has no request id, or for an answer to an invitation the id of that, and the
did exchange can tell its state. -/
structure Routable (w : Json) : Prop where
  connection : IsConnection w → w.contains "request_id" = .ok false
  didExchange : ∀ id ≠ [], AnswersInvitation id w →
    (w.contains "request_id" = .ok false ∨ w.item "request_id" = .ok (.str id)) ∧
      Translatable "did-exchange".toList w

/-! What the handler pushes. -/

def routed (w : Json) : List Push :=
  match handleConnections w with
  | .ok ps => ps
  | .error _ => []

def isConnectionType (d : Str) : Bool := decide (d = "connection-msg" ∨ d = "didexchange-msg")

/-- One push of the message itself, under the first of the ids that the handler tests for. -/
theorem handleConnections_cases {w : Json} {ps : List Push} (h : handleConnections w = .ok ps) :
    ∃ id, (w.item "request_id" = .ok id ∧ ps = [⟨id, "didexchange-msg", w, none⟩]) ∨
      (w.contains "request_id" = .ok false ∧ IsDidExchange w ∧
        w.item "invitation_msg_id" = .ok id ∧ ps = [⟨id, "didexchange-msg", w, none⟩]) ∨
      (w.contains "request_id" = .ok false ∧ IsConnection w ∧ w.item "connection_id" = .ok id ∧
        ps = [⟨id, "connection-msg", w, none⟩]) := by
  obtain ⟨protocol, hget, h⟩ := bind_eq_ok h
  obtain ⟨withRequest, hcontains, h⟩ := bind_eq_ok h
  have hprotocol : protocol.truthy = true → w.item "connection_protocol" = .ok protocol :=
    fun htruthy => Json.item_of_get_truthy hget htruthy
  cases withRequest with
  | true =>
    obtain ⟨id, hid, h⟩ := bind_eq_ok h
    exact ⟨id, .inl ⟨hid, (Except.ok.inj h).symm⟩⟩
  | false =>
    simp only [Bool.false_eq_true, if_false] at h
    split at h
    · next hdid =>
      obtain ⟨id, hid, h⟩ := bind_eq_ok h
      refine ⟨id, .inr (.inl ⟨hcontains, ?_, hid, (Except.ok.inj h).symm⟩)⟩
      rcases hdid with rfl | rfl
      · exact .inl (hprotocol rfl)
      · exact .inr (hprotocol rfl)
    · split at h
      · next hconn =>
        obtain ⟨id, hid, h⟩ := bind_eq_ok h
        refine ⟨id, .inr (.inr ⟨hcontains, ?_, hid, (Except.ok.inj h).symm⟩)⟩
        subst hconn
        exact hprotocol rfl
      · cases h

theorem get_of_item {w v : Json} {key : Str} (h : w.item key = .ok v) : w.get key = .ok v := by
  obtain ⟨ms, rfl, hv⟩ := Json.item_eq_ok.mp h
  simp [Json.get, hv]

theorem handleConnections_of_request {w id : Json} (h : w.item "request_id" = .ok id) :
    handleConnections w = .ok [⟨id, "didexchange-msg", w, none⟩] := by
  obtain ⟨ms, rfl, -⟩ := Json.item_eq_ok.mp h
  unfold handleConnections
  rw [Json.contains_of_item h, h]
  rfl

theorem handleConnections_of_didExchange {w id : Json} (hreq : w.contains "request_id" = .ok false)
    (hdid : IsDidExchange w) (h : w.item "invitation_msg_id" = .ok id) :
    handleConnections w = .ok [⟨id, "didexchange-msg", w, none⟩] := by
  unfold handleConnections
  rw [hreq, h]
  rcases hdid with hdid | hdid
  · rw [get_of_item hdid]
    rfl
  · rw [get_of_item hdid]
    rfl

theorem handleConnections_of_connection {w id : Json} (hreq : w.contains "request_id" = .ok false)
    (hconn : IsConnection w) (h : w.item "connection_id" = .ok id) :
    handleConnections w = .ok [⟨id, "connection-msg", w, none⟩] := by
  unfold handleConnections
  rw [hreq, h, get_of_item hconn]
  rfl

theorem protocols_apart {w : Json} (hdid : IsDidExchange w) : ¬ IsConnection w := by
  intro hconn
  rcases hdid with hdid | hdid
  · exact absurd (Except.ok.inj (hdid.symm.trans hconn)) (by decide)
  · exact absurd (Except.ok.inj (hdid.symm.trans hconn)) (by decide)

theorem item_of_contains {w : Json} {key : Str} (h : w.contains key = .ok false) (v : Json) :
    w.item key ≠ .ok v := by
  intro hitem
  rw [Json.contains_of_item hitem] at h
  cases h

theorem asKey_eq_str {id : Json} {key : Str} : id.asKey = .ok (.str key) ↔ id = .str key := by
  constructor
  · intro h
    cases id with
    | str s => exact Except.ok.inj h
    | arr _ | obj _ => cases h
    | null | bool _ | int _ | float _ => exact absurd (Except.ok.inj h) (by simp)
  · rintro rfl
    rfl

theorem types_apart : ("didexchange-msg" : Str) ≠ ("connection-msg" : Str) := by decide

/-- Under the id of a connection come just its messages without a request id. -/
theorem under_connection (id : Str) (w : Json) :
    under (.str id) "connection-msg" (routed w) =
      if ForConnection id w ∧ w.contains "request_id" = .ok false then [w] else [] := by
  by_cases hfor : ForConnection id w ∧ w.contains "request_id" = .ok false
  · obtain ⟨⟨hconn, hid⟩, hreq⟩ := hfor
    rw [if_pos ⟨⟨hconn, hid⟩, hreq⟩, routed, handleConnections_of_connection hreq hconn hid]
    dsimp only
    rw [under_singleton, if_pos ⟨rfl, rfl⟩]
  · rw [if_neg hfor, routed]
    cases hps : handleConnections w with
    | error e => rfl
    | ok ps =>
      obtain ⟨key, ⟨-, rfl⟩ | ⟨-, -, -, rfl⟩ | ⟨hreq, hconn, hid, rfl⟩⟩ :=
        handleConnections_cases hps
      · exact (under_singleton _ _ _).trans (if_neg fun h => types_apart h.2)
      · exact (under_singleton _ _ _).trans (if_neg fun h => types_apart h.2)
      · refine (under_singleton _ _ _).trans (if_neg fun h => hfor ⟨⟨hconn, ?_⟩, hreq⟩)
        have hkey : key = .str id := asKey_eq_str.mp h.1
        rw [hid, hkey]

/-- Under any id of the did exchange come the messages with that request id, and of those
without one the answers to that invitation. -/
theorem under_didExchange (id : Str) (w : Json) :
    under (.str id) "didexchange-msg" (routed w) =
      if w.item "request_id" = .ok (.str id) ∨
        (w.contains "request_id" = .ok false ∧ AnswersInvitation id w) then [w] else [] := by
  by_cases hfor : w.item "request_id" = .ok (.str id) ∨
      (w.contains "request_id" = .ok false ∧ AnswersInvitation id w)
  · rw [if_pos hfor, routed]
    rcases hfor with hid | ⟨hreq, hdid, hid⟩
    · rw [handleConnections_of_request hid]
      exact (under_singleton _ _ _).trans (if_pos ⟨rfl, rfl⟩)
    · rw [handleConnections_of_didExchange hreq hdid hid]
      exact (under_singleton _ _ _).trans (if_pos ⟨rfl, rfl⟩)
  · rw [if_neg hfor, routed]
    cases hps : handleConnections w with
    | error e => rfl
    | ok ps =>
      obtain ⟨key, ⟨hid, rfl⟩ | ⟨hreq, hdid, hid, rfl⟩ | ⟨-, -, -, rfl⟩⟩ :=
        handleConnections_cases hps
      · refine (under_singleton _ _ _).trans (if_neg fun h => hfor (.inl ?_))
        have hkey : key = .str id := asKey_eq_str.mp h.1
        rw [hid, hkey]
      · refine (under_singleton _ _ _).trans (if_neg fun h => hfor (.inr ⟨hreq, hdid, ?_⟩))
        have hkey : key = .str id := asKey_eq_str.mp h.1
        rw [hid, hkey]
      · exact (under_singleton _ _ _).trans (if_neg fun h => types_apart h.2.symm)

/-! The pushes of a run. -/

/-- The handlers of the other topics push other types of messages. -/
theorem dataType_of_handler {topic : Text} (hne : topic ≠ "connections".toList)
    {handle : Json → Except PyError (List Push)} (hh : handler topic = some handle)
    {message : Json} {ps : List Push} (h : handle message = .ok ps) :
    ∀ p ∈ ps, isConnectionType p.dataType = false := by
  have hplain : ∀ d ∈ plainTypes, isConnectionType d = false := by decide
  have hcredential : isConnectionType "credential-msg" = false := by decide
  have hrevocation : isConnectionType "revocation-registry-msg" = false := by decide
  have hpresentation : isConnectionType "presentation-msg" = false := by decide
  have hproblem : isConnectionType "problem-report-msg" = false := by decide
  obtain ⟨htopic, -⟩ | ⟨idName, dataType, htype, rfl⟩ | ⟨exchIdName, rfl⟩ | ⟨exchIdName, rfl⟩ |
    rfl := handler_cases hh
  · exact absurd htopic hne
  · obtain ⟨id, -, h⟩ := bind_eq_ok h
    obtain rfl := Except.ok.inj h
    exact List.forall_mem_singleton.mpr (hplain dataType htype)
  · obtain ⟨threadId, -, ⟨-, rfl⟩ | ⟨-, rfl | rfl⟩⟩ := pushCredential_cases h
    · exact List.forall_mem_nil _
    · exact List.forall_mem_singleton.mpr hcredential
    · exact List.forall_mem_cons.mpr ⟨hcredential, List.forall_mem_singleton.mpr hrevocation⟩
  · obtain ⟨threadId, -, ⟨-, rfl⟩ | ⟨-, rfl⟩⟩ := pushPresentation_cases h
    · exact List.forall_mem_nil _
    · exact List.forall_mem_singleton.mpr hpresentation
  · obtain ⟨threadId, -, h⟩ := bind_eq_ok h
    split at h
    · obtain rfl := Except.ok.inj h
      exact List.forall_mem_singleton.mpr hproblem
    · obtain rfl := Except.ok.inj h
      exact List.forall_mem_nil _

theorem mem_performPushes {ps : List Push} {s : Store} :
    ∀ p ∈ (performPushes ps s).2, p ∈ ps := by
  induction ps generalizing s with
  | nil => exact fun p hp => hp
  | cons q ps ih =>
    unfold performPushes
    cases pushResource q.dataId q.dataType q.data q.exchIdName s with
    | mk r t =>
      cases r with
      | error e => exact fun p hp => List.mem_singleton.mp hp ▸ List.mem_cons_self
      | ok _ =>
        intro p hp
        rcases List.mem_cons.mp hp with rfl | hp
        · exact List.mem_cons_self
        · exact List.mem_cons_of_mem _ (ih p hp)

theorem performPushes_singleton (p : Push) (s : Store) : (performPushes [p] s).2 = [p] := by
  unfold performPushes
  cases pushResource p.dataId p.dataType p.data p.exchIdName s with
  | mk r t => cases r <;> rfl

theorem filter_other_pushes {ps : List Push} (h : ∀ p ∈ ps, isConnectionType p.dataType = false)
    (s : Store) :
    ((performPushes ps s).2.filter fun p => isConnectionType p.dataType) = [] :=
  List.filter_eq_nil_iff.mpr fun p hp => by simp [h p (mem_performPushes p hp)]

/-- A webhook of another topic pushes nothing of the two protocols. -/
theorem dataType_of_webhook {s : Store} {topic : Text} {payload : Json} {ps : List Push}
    (hne : isConnectionsTopic topic = false) (h : handleWebhook s topic payload = .ok (.pushes ps)) :
    ∀ p ∈ ps, isConnectionType p.dataType = false := by
  rcases handleWebhook_cases h with heq | ⟨handle, qs, hh, hp, heq⟩ | ⟨f, -, heq⟩
  · obtain rfl := Handled.pushes.inj heq
    exact List.forall_mem_nil _
  · obtain rfl := Handled.pushes.inj heq
    exact dataType_of_handler (of_decide_eq_false hne) hh hp
  · cases heq

theorem handleWebhook_connections {topic : Text} (h : isConnectionsTopic topic = true) (s : Store)
    (payload : Json) :
    handleWebhook s topic payload = (handleConnections payload).map .pushes := by
  have htopic := of_decide_eq_true h
  unfold handleWebhook
  rw [if_neg]
  · dsimp only
    rw [htopic, if_neg (by decide)]
    rfl
  · rintro rfl
    exact absurd htopic (by decide)

/-- A poll pops the data type of its topic, under an id. -/
structure Typed (p : Poll) : Prop where
  dataType : responseDataType p.topic = some p.dataType
  recordId : p.recordId ≠ []

theorem typed_of_pops {topic : Text} {recordId : Option Str} {id dataType : Str}
    (h : makeAgentGetRequestResponse topic recordId = .pops id dataType) :
    Typed ⟨topic, id, dataType, [], .sleeping 0⟩ := by
  unfold makeAgentGetRequestResponse at h
  split at h
  · split at h <;> cases h
  · cases h
  · cases h
  · next hnil htype =>
    obtain ⟨rfl, rfl⟩ := Request.pops.inj h
    exact ⟨htype, hnil⟩

theorem dataType_of_fetch {f : CredentialFetch} {respStatus : ℕ} {respText : Text}
    {ps : List Push} (h : afterFetch f respStatus respText = .ok ps) :
    ∀ p ∈ ps, isConnectionType p.dataType = false := by
  obtain ⟨message, -, h⟩ := bind_eq_ok h
  obtain ⟨revocation, -, h⟩ := bind_eq_ok h
  cases revocation with
  | false =>
    obtain rfl := Except.ok.inj h
    exact List.forall_mem_nil _
  | true =>
    obtain rfl := Except.ok.inj h
    have hrevocation : isConnectionType "revocation-registry-msg" = false := by decide
    exact List.forall_mem_singleton.mpr hrevocation

/-- A webhook brings the two protocols what a connection webhook routes. -/
theorem routed_of_webhook (s : Store) (topic : Text) (payload : Json) :
    (payloadOf (.webhook topic payload)).toList.flatMap routed =
      match handleWebhook s topic payload with
      | .ok (.pushes ps) => (performPushes ps s).2.filter fun p => isConnectionType p.dataType
      | _ => [] := by
  cases htopic : isConnectionsTopic topic with
  | true =>
    rw [handleWebhook_connections htopic]
    simp only [payloadOf, htopic, if_true, Option.toList_some, List.flatMap_singleton, routed]
    cases hps : handleConnections payload with
    | error e => rfl
    | ok ps =>
      obtain ⟨id, ⟨-, rfl⟩ | ⟨-, -, -, rfl⟩ | ⟨-, -, -, rfl⟩⟩ := handleConnections_cases hps
      all_goals
        simp only [Except.map]
        rw [performPushes_singleton]
        rfl
  | false =>
    simp only [payloadOf, htopic, Bool.false_eq_true, if_false, Option.toList_none,
      List.flatMap_nil]
    split
    · next ps handled => exact (filter_other_pushes (dataType_of_webhook htopic handled) s).symm
    · rfl

/-- A step pushes what its webhook brings, or is one of a poll or of a swap. -/
theorem step_inv {s t : System} {e : Event} (next : step s e = some t) :
    (∃ fetches ps, t = ({ s with fetches := fetches } : System).perform ps ∧
      ((performPushes ps s.store).2.filter fun p => isConnectionType p.dataType) =
        (payloadOf e).toList.flatMap routed) ∨
    payloadOf e = none ∧
      ((∃ p : Poll, Typed p ∧
        t = ({ s with polls := s.polls ++ [p] } : System).attempt s.polls.length p 0) ∨
      (∃ n p i, s.polls[n]? = some p ∧ t = s.attempt n p (i + 1)) ∨
      ∃ swaps, t = { s with swaps := swaps }) := by
  have idle : ∀ (fetches : List (Option CredentialFetch)) (l : List Push), l = [] →
      ∃ fetches' ps, ({ s with fetches := fetches } : System) =
        ({ s with fetches := fetches' } : System).perform ps ∧
        ((performPushes ps s.store).2.filter fun p => isConnectionType p.dataType) = l := by
    rintro fetches l rfl
    exact ⟨fetches, [], by simp [System.perform, performPushes], rfl⟩
  cases steps_of_step next with
  | rejected handled =>
    exact .inl (idle s.fetches _ (by rw [routed_of_webhook s.store, handled]))
  | @pushed _ _ ps handled =>
    exact .inl ⟨s.fetches, ps, rfl, by rw [routed_of_webhook s.store, handled]⟩
  | fetches handled => exact .inl (idle _ _ (by rw [routed_of_webhook s.store, handled]))
  | failed _ _ => exact .inl (idle _ _ rfl)
  | fetched _ fetched =>
    exact .inl ⟨_, _, rfl, filter_other_pushes (dataType_of_fetch fetched) s.store⟩
  | answers _ => exact .inl (idle s.fetches _ rfl)
  | poll begins => exact .inr ⟨rfl, .inl ⟨_, typed_of_pops begins, rfl⟩⟩
  | wake polls _ => exact .inr ⟨rfl, .inr (.inl ⟨_, _, _, polls, rfl⟩)⟩
  | swap threadId dataType idTxt => exact .inr ⟨rfl, .inr (.inr ⟨_, rfl⟩)⟩
  | resume _ _ => exact .inr ⟨rfl, .inr (.inr ⟨_, rfl⟩)⟩

/-- What one step adds to the pushes of the two protocols. -/
theorem pushes_step {s t : System} {e : Event} (next : step s e = some t) :
    (t.pushes.filter fun p => isConnectionType p.dataType) =
      (s.pushes.filter fun p => isConnectionType p.dataType) ++
        (payloadOf e).toList.flatMap routed := by
  rcases step_inv next with ⟨fetches, ps, rfl, hfilter⟩ |
    ⟨hnone, ⟨p, -, rfl⟩ | ⟨n, p, i, -, rfl⟩ | ⟨swaps, rfl⟩⟩
  · rw [← hfilter, ← List.filter_append]
    rfl
  · rw [hnone]
    exact (List.append_nil _).symm
  · rw [hnone]
    exact (List.append_nil _).symm
  · rw [hnone]
    exact (List.append_nil _).symm

/-- The pushes of the two protocols are those of the connection webhooks, in order. -/
theorem pushes_of_run {es : List Event} {s : System} (run : Run step start es s) :
    (s.pushes.filter fun p => isConnectionType p.dataType) =
      (connectionWebhooks es).flatMap routed := by
  refine run.history (I := fun es s => (s.pushes.filter fun p => isConnectionType p.dataType) =
    (connectionWebhooks es).flatMap routed) rfl fun {es s e t} h next => ?_
  rw [pushes_step next, h, connectionWebhooks, connectionWebhooks, List.filterMap_append,
    List.flatMap_append]
  congr 2

theorem under_filter {key : Json} {d : Str} (hd : isConnectionType d = true) (ps : List Push) :
    under key d (ps.filter fun p => isConnectionType p.dataType) = under key d ps := by
  rw [under, under, List.filter_filter]
  congr 1
  refine List.filter_congr fun p _ => ?_
  rw [Bool.eq_iff_iff, Bool.and_eq_true, decide_eq_true_iff, and_iff_left_iff_imp]
  rintro ⟨-, rfl⟩
  exact hd

/-- Where every message goes under the key or not, the messages under the key are a filter. -/
theorem under_flatMap {key : Json} {d : Str} {P : Json → Prop} [DecidablePred P]
    (h : ∀ w, under key d (routed w) = if P w then [w] else []) (ws : List Json) :
    under key d (ws.flatMap routed) = ws.filter fun w => decide (P w) := by
  induction ws with
  | nil => rfl
  | cons w ws ih =>
    rw [List.flatMap_cons, under_append, h, ih, List.filter_cons]
    by_cases hw : P w
    · simp [hw]
    · simp [hw]

/-! The polls. -/

theorem typed_attempt {s : System} (h : ∀ p ∈ s.polls, Typed p) (n : ℕ) {p : Poll}
    (hp : Typed p) (i : ℕ) : ∀ q ∈ (s.attempt n p i).polls, Typed q := by
  intro q hq
  rcases List.mem_or_eq_of_mem_set hq with hq | rfl
  · exact h q hq
  · exact ⟨hp.dataType, hp.recordId⟩

theorem typed_step {s t : System} {e : Event} (h : ∀ p ∈ s.polls, Typed p)
    (next : step s e = some t) : ∀ p ∈ t.polls, Typed p := by
  rcases step_inv next with ⟨fetches, ps, rfl, -⟩ |
    ⟨-, ⟨p, hp, rfl⟩ | ⟨n, p, i, hp, rfl⟩ | ⟨swaps, rfl⟩⟩
  · exact h
  · have hnew : ∀ q ∈ ({ s with polls := s.polls ++ [p] } : System).polls, Typed q :=
      List.forall_mem_append.mpr ⟨h, List.forall_mem_singleton.mpr hp⟩
    exact typed_attempt hnew _ hp 0
  · exact typed_attempt h n (h p (List.mem_of_getElem? hp)) (i + 1)
  · exact h

structure Served (s : System) : Prop extends Accounts s where
  typed : ∀ p ∈ s.polls, Typed p

theorem served_of_run {es : List Event} {s : System} (run : Run step start es s) : Served s :=
  run.invariant (I := Served) ⟨start_accounts, fun _ hp => absurd hp List.not_mem_nil⟩
    fun h next => ⟨h.toAccounts.step next, typed_step h.typed next⟩

/-- A popped message answers the poll that popped it, which looked under its own id and type. -/
theorem Served.pop {s : System} (h : Served s) {q : Pop} (hq : q ∈ s.pops) :
    ∃ p, s.polls[q.poll]? = some p ∧ q.recordId = p.recordId ∧ q.dataType = p.dataType ∧
      p.state = .answered (respond p.topic q.message) := by
  obtain ⟨p, hp⟩ : ∃ p, s.polls[q.poll]? = some p :=
    ⟨_, List.getElem?_eq_getElem (h.numbered q hq)⟩
  have hmem : q ∈ s.poppedBy q.poll := List.mem_filter.mpr ⟨hq, by simp⟩
  have haccounted := h.polls q.poll p hp
  unfold Accounted at haccounted
  refine ⟨p, hp, ?_⟩
  split at haccounted
  · exact absurd (haccounted.2.2.2 ▸ hmem) List.not_mem_nil
  · next answer hstate =>
    rcases haccounted with ⟨-, -, -, hnil⟩ | ⟨-, m, hpops, hanswer⟩
    · exact absurd (hnil ▸ hmem) List.not_mem_nil
    · rw [hpops, List.mem_singleton] at hmem
      obtain ⟨hid, htype, hmessage⟩ : q.recordId = p.recordId ∧ q.dataType = p.dataType ∧
          q.message = m := by
        rw [hmem]
        exact ⟨rfl, rfl, rfl⟩
      exact ⟨hid, htype, by rw [hstate, hanswer, hmessage]⟩

theorem Served.waited {s : System} (h : Served s) {n : ℕ} {p : Poll} (hp : s.polls[n]? = some p)
    (hnil : s.poppedBy n = []) : ∀ a ∈ p.attempts, a.stored = [] := by
  have haccounted := h.polls n p hp
  unfold Accounted at haccounted
  split at haccounted
  · exact haccounted.2.2.1
  · rcases haccounted with ⟨-, -, hstored, -⟩ | ⟨-, m, hpops, -⟩
    · exact hstored
    · exact absurd (hpops.symm.trans hnil) (List.cons_ne_nil _ _)

/-- The polls of a topic get what is popped under its data type, if no other topic has that. -/
theorem Served.delivered_eq {s : System} (h : Served s) {topic : Text} {dataType : Str}
    (htopic : ∀ t, responseDataType t = some dataType ↔ t = topic) (id : Str) :
    delivered s topic id = s.poppedUnder (.str id) dataType := by
  rw [delivered, System.poppedUnder]
  congr 1
  refine List.filter_congr fun q hq => ?_
  obtain ⟨p, hp, hid, htype, -⟩ := h.pop hq
  have hown := (h.typed p (List.mem_of_getElem? hp)).dataType
  have hiff : p.topic = topic ↔ q.dataType = dataType := by
    rw [← htopic, hown, Option.some.injEq, htype]
  rw [hp, Option.any_some, Bool.eq_iff_iff, Bool.and_eq_true, decide_eq_true_iff,
    decide_eq_true_iff, decide_eq_true_iff, hiff, Json.str.injEq]

/-- The two protocols have a topic each, and the others pop other types. -/
theorem responseDataType_cases {topic : Text} {dataType : Str}
    (h : responseDataType topic = some dataType) :
    topic = "connection".toList ∧ dataType = "connection-msg" ∨
      topic = "did-exchange".toList ∧ dataType = "didexchange-msg" ∨
      isConnectionType dataType = false := by
  rcases ite_eq_some h with hconnection | h
  · exact .inl hconnection
  rcases ite_eq_some h with hdid | h
  · exact .inr (.inl hdid)
  right; right
  rcases ite_eq_some h with ⟨-, rfl⟩ | h
  · decide
  rcases ite_eq_some h with ⟨-, rfl⟩ | h
  · decide
  rcases ite_eq_some h with ⟨-, rfl⟩ | h
  · decide
  rcases ite_eq_some h with ⟨-, rfl⟩ | h
  · decide
  rcases ite_eq_some h with ⟨-, rfl⟩ | h
  · decide
  · cases h

theorem responseDataType_connection (topic : Text) :
    responseDataType topic = some "connection-msg" ↔ topic = "connection".toList := by
  constructor
  · intro h
    rcases responseDataType_cases h with ⟨htopic, -⟩ | ⟨-, htype⟩ | hother
    · exact htopic
    · exact absurd htype.symm types_apart
    · exact absurd hother (by decide)
  · rintro rfl
    rfl

theorem responseDataType_didExchange (topic : Text) :
    responseDataType topic = some "didexchange-msg" ↔ topic = "did-exchange".toList := by
  constructor
  · intro h
    rcases responseDataType_cases h with ⟨-, htype⟩ | ⟨htopic, -⟩ | hother
    · exact absurd htype types_apart
    · exact htopic
    · exact absurd hother (by decide)
  · rintro rfl
    rfl

/-! What every run delivers. -/

/-- Under an id of a connection its messages without a request id are delivered, or wait. -/
theorem under_connection_of_run {es : List Event} {s : System} (run : Run step start es s)
    (id : Str) :
    delivered s "connection".toList id ++ s.store.queue (.str id) "connection-msg" =
      (connectionWebhooks es).filter fun w =>
        decide (ForConnection id w ∧ w.contains "request_id" = .ok false) := by
  have hserved := served_of_run run
  rw [hserved.delivered_eq responseDataType_connection, ← hserved.account, System.pushedUnder,
    ← under_filter (by decide) s.pushes, pushes_of_run run]
  exact under_flatMap (under_connection id) _

/-- Under an id of the did exchange the messages with that request id are delivered, or wait, and
of those without one the answers to that invitation. -/
theorem under_didExchange_of_run {es : List Event} {s : System} (run : Run step start es s)
    (id : Str) :
    delivered s "did-exchange".toList id ++ s.store.queue (.str id) "didexchange-msg" =
      (connectionWebhooks es).filter fun w => decide (w.item "request_id" = .ok (.str id) ∨
        (w.contains "request_id" = .ok false ∧ AnswersInvitation id w)) := by
  have hserved := served_of_run run
  rw [hserved.delivered_eq responseDataType_didExchange, ← hserved.account, System.pushedUnder,
    ← under_filter (by decide) s.pushes, pushes_of_run run]
  exact under_flatMap (under_didExchange id) _

theorem Served.pushed {s : System} (h : Served s) {q : Pop} (hq : q ∈ s.pops) :
    q.message ∈ s.pushedUnder (.str q.recordId) q.dataType := by
  rw [h.account]
  refine List.mem_append_left _ (List.mem_map.mpr ⟨q, List.mem_filter.mpr ⟨hq, ?_⟩, rfl⟩)
  simp

theorem Served.object {s : System} (h : Served s) {q : Pop} (hq : q ∈ s.pops) :
    NonemptyObject q.message := by
  obtain ⟨p, hp, hdata⟩ := List.mem_map.mp (h.pushed hq)
  exact hdata ▸ h.objects p (List.mem_of_mem_filter hp)

/-- A message popped of the two types came with a connection webhook. -/
theorem popped_of_run {es : List Event} {s : System} (run : Run step start es s) {q : Pop}
    (hq : q ∈ s.pops) (htype : isConnectionType q.dataType = true) :
    q.message ∈ connectionWebhooks es := by
  have hpushed := (served_of_run run).pushed hq
  rw [System.pushedUnder, ← under_filter htype, pushes_of_run run] at hpushed
  obtain ⟨p, hp, hdata⟩ := List.mem_map.mp hpushed
  obtain ⟨w, hw, hrouted⟩ := List.mem_flatMap.mp (List.mem_of_mem_filter hp)
  have hdata' : p.data = w := by
    rw [routed] at hrouted
    cases hps : handleConnections w with
    | error e =>
      rw [hps] at hrouted
      cases hrouted
    | ok ps =>
      rw [hps] at hrouted
      obtain ⟨id, ⟨-, rfl⟩ | ⟨-, -, -, rfl⟩ | ⟨-, -, -, rfl⟩⟩ := handleConnections_cases hps
      all_goals exact congrArg Push.data (List.mem_singleton.mp hrouted)
  exact hdata ▸ hdata' ▸ hw

/-- A popped message is answered just if the topic of its poll can tell its state. -/
theorem Served.answered_iff {s : System} (h : Served s) {q : Pop} (hq : q ∈ s.pops)
    (loadable : Loadable q.message) {topic : Text}
    (htopic : ∀ t, responseDataType t = some q.dataType ↔ t = topic) :
    Answered s q ↔ Translatable topic q.message := by
  obtain ⟨p, hp, -, htype, hstate⟩ := h.pop hq
  obtain rfl : p.topic = topic :=
    (htopic _).mp (htype ▸ (h.typed p (List.mem_of_getElem? hp)).dataType)
  rw [← respond_ok_iff (h.object hq) loadable]
  constructor
  · rintro ⟨p', answer, hp', hanswer, -⟩
    obtain rfl := Option.some.inj (hp.symm.trans hp')
    exact ⟨answer, hanswer⟩
  · rintro ⟨answer, hanswer⟩
    exact ⟨p, answer, hp, hanswer, hanswer ▸ hstate⟩

/-! When it is routed right. -/

/-- Of two conditions, one under the other, the stronger may be left out of a filter just if it
holds of the whole of the list that the weaker keeps. -/
theorem filter_eq_filter_iff {P Q : Json → Prop} [DecidablePred P] [DecidablePred Q]
    (hPQ : ∀ w, P w → Q w) (ws : List Json) :
    (ws.filter fun w => decide (P w)) = (ws.filter fun w => decide (Q w)) ↔
      ∀ w ∈ ws, Q w → P w := by
  constructor
  · intro heq w hw hQ
    have hmem : w ∈ ws.filter fun w => decide (Q w) :=
      List.mem_filter.mpr ⟨hw, decide_eq_true hQ⟩
    rw [← heq] at hmem
    exact of_decide_eq_true (List.mem_filter.mp hmem).2
  · intro h
    refine List.filter_congr fun w hw => ?_
    rw [Bool.eq_iff_iff, decide_eq_true_iff, decide_eq_true_iff]
    exact ⟨hPQ w, h w hw⟩

theorem routedRight_of_routable {es : List Event} {s : System} (run : Run step start es s)
    (loadable : ∀ w ∈ connectionWebhooks es, Loadable w)
    (routable : ∀ w ∈ connectionWebhooks es, Routable w) :
    RoutedRight s (connectionWebhooks es) := by
  have hserved := served_of_run run
  refine ⟨fun id _ => ?_, fun id hid => ?_, fun id _ => ⟨?_, ?_⟩, fun q hq htype => ?_,
    fun n p => hserved.waited⟩
  · rw [under_connection_of_run run, filter_eq_filter_iff fun w hw => hw.1]
    exact fun w hw hfor => ⟨hfor, (routable w hw).connection hfor.1⟩
  · rw [under_didExchange_of_run run, List.filter_filter]
    simp only [← Bool.decide_and]
    rw [filter_eq_filter_iff fun w hw => hw.1]
    refine fun w hw hanswers => ⟨hanswers, ?_⟩
    rcases ((routable w hw).didExchange id hid hanswers).1 with hreq | hreq
    · exact .inr ⟨hreq, hanswers⟩
    · exact .inl hreq
  · intro m hm hdid
    rw [under_connection_of_run run] at hm
    exact protocols_apart hdid (of_decide_eq_true (List.mem_filter.mp hm).2).1.1
  · intro m hm hconn
    rw [under_didExchange_of_run run] at hm
    obtain ⟨hmem, hm⟩ := List.mem_filter.mp hm
    rcases of_decide_eq_true hm with hreq | ⟨-, hdid, -⟩
    · exact item_of_contains ((routable m hmem).connection hconn) _ hreq
    · exact protocols_apart hdid hconn
  · rcases htype with htype | ⟨htype, hanswers⟩
    · have hmem := popped_of_run run hq (htype ▸ rfl)
      have hpolls : ∀ t, responseDataType t = some q.dataType ↔ t = "connection".toList :=
        htype ▸ responseDataType_connection
      refine (hserved.answered_iff hq (loadable _ hmem) hpolls).mpr ?_
      exact fun htopic => absurd htopic (by decide)
    · have hmem := popped_of_run run hq (htype ▸ rfl)
      have hpolls : ∀ t, responseDataType t = some q.dataType ↔ t = "did-exchange".toList :=
        htype ▸ responseDataType_didExchange
      refine (hserved.answered_iff hq (loadable _ hmem) hpolls).mpr ?_
      obtain ⟨p, hp, hid, -⟩ := hserved.pop hq
      have hne : q.recordId ≠ [] := hid ▸ (hserved.typed p (List.mem_of_getElem? hp)).recordId
      exact ((routable _ hmem).didExchange _ hne hanswers).2

/-! Runs that bring the messages, and drain a queue. -/

theorem run_webhooks (ws : List Json) :
    ∃ s, Run step start (ws.map (.webhook "connections".toList)) s ∧ s.pops = [] := by
  induction ws using List.reverseRecOn with
  | nil => exact ⟨start, .nil, rfl⟩
  | append_singleton ws w ih =>
    obtain ⟨s, run, hpops⟩ := ih
    have next : ∃ t, step s (.webhook "connections".toList w) = some t ∧ t.pops = [] := by
      rw [step, handleWebhook_connections rfl]
      cases handleConnections w with
      | error e => exact ⟨s, rfl, hpops⟩
      | ok ps => exact ⟨s.perform ps, rfl, hpops⟩
    obtain ⟨t, next, hpops⟩ := next
    rw [List.map_append]
    exact ⟨t, run.snoc next, hpops⟩

theorem connectionWebhooks_webhooks (ws : List Json) :
    connectionWebhooks (ws.map (.webhook "connections".toList)) = ws := by
  rw [connectionWebhooks, List.filterMap_map]
  exact List.filterMap_some

theorem connectionWebhooks_append (es fs : List Event) :
    connectionWebhooks (es ++ fs) = connectionWebhooks es ++ connectionWebhooks fs :=
  List.filterMap_append

/-- Polls of the id get every message that waits, the oldest first. -/
theorem popped_of_queued {id : Str} (hid : id ≠ []) {m : Json} {ms : List Json} (hm : m ∈ ms)
    {s : System} (h : Accounts s)
    (hqueue : s.store.queue (.str id) "didexchange-msg" = ms) :
    ∃ es t, Run step s es t ∧ connectionWebhooks es = [] ∧
      ∃ n, ⟨n, id, "didexchange-msg", m⟩ ∈ t.pops := by
  induction ms generalizing s with
  | nil => cases hm
  | cons first ms ih =>
    let e : Event := .poll "did-exchange".toList (some id)
    let p : Poll := ⟨"did-exchange".toList, id, "didexchange-msg", [], .sleeping 0⟩
    let added : System := { s with polls := s.polls ++ [p] }
    have next : step s e = some (added.attempt s.polls.length p 0) := by
      obtain ⟨c, cs, rfl⟩ := List.exists_cons_of_ne_nil hid
      rfl
    have hadded : Balanced added := ⟨h.queued, h.account, h.seen, h.objects, h.waiting⟩
    rcases PollAccounting.attempt_cases hadded s.polls.length p 0 with
      ⟨hnil, -⟩ | ⟨m', ms', hcons, -, hattempt⟩
    · exact absurd (hnil.symm.trans hqueue) (List.cons_ne_nil _ _).symm
    · obtain ⟨rfl, rfl⟩ := List.cons.inj (hcons.symm.trans hqueue)
      rcases List.mem_cons.mp hm with rfl | hm
      · refine ⟨[e], _, .cons next .nil, rfl, s.polls.length, ?_⟩
        rw [hattempt]
        exact List.mem_append_right _ List.mem_cons_self
      · have hnext := h.step next
        obtain ⟨es, t, run, hes, hpopped⟩ := ih hm hnext (by
          rw [hattempt]
          simp only [queue_setSlot]
          exact if_pos ⟨rfl, rfl⟩)
        exact ⟨e :: es, t, .cons next run, hes, hpopped⟩

/-- Where every run routes the messages right, each can be. -/
theorem routable_of_routedRight {ws : List Json} (loadable : ∀ w ∈ ws, Loadable w)
    (ids : ∀ w ∈ ws, ∃ id, id ≠ [] ∧ w.item "connection_id" = .ok (.str id))
    (h : ∀ es s, Run step start es s → connectionWebhooks es = ws → RoutedRight s ws) :
    ∀ w ∈ ws, Routable w := by
  obtain ⟨s, run, hpops⟩ := run_webhooks ws
  have hws := connectionWebhooks_webhooks ws
  have hright := h _ s run hws
  intro w hw
  refine ⟨fun hconn => ?_, fun id hid hanswers => ?_⟩
  · obtain ⟨id, hid, hitem⟩ := ids w hw
    have heq := hright.connections id hid
    rw [under_connection_of_run run, hws, filter_eq_filter_iff fun w hw => hw.1] at heq
    exact (heq w hw ⟨hconn, hitem⟩).2
  · have heq := hright.didExchanges id hid
    rw [under_didExchange_of_run run, hws, List.filter_filter] at heq
    simp only [← Bool.decide_and] at heq
    rw [filter_eq_filter_iff fun w hw => hw.1] at heq
    have hreq := (heq w hw hanswers).2
    refine ⟨hreq.symm.imp_left And.left, ?_⟩
    have hqueued : w ∈ s.store.queue (.str id) "didexchange-msg" := by
      have hall := under_didExchange_of_run run id
      rw [delivered, hpops, List.filter_nil, List.map_nil, List.nil_append, hws] at hall
      rw [hall]
      exact List.mem_filter.mpr ⟨hw, decide_eq_true hreq⟩
    obtain ⟨es, t, rest, hes, n, hpopped⟩ :=
      popped_of_queued hid hqueued (served_of_run run).toAccounts rfl
    have hrun := run.append rest
    have hright := h _ t hrun (by rw [connectionWebhooks_append, hws, hes, List.append_nil])
    exact ((served_of_run hrun).answered_iff hpopped (loadable w hw)
      responseDataType_didExchange).mp (hright.answered _ hpopped (.inr ⟨rfl, hanswers⟩))

/-- The connection webhooks end up where the polls look, in every run that brings them, just if
each can be routed. -/
theorem routing_iff {ws : List Json} (loadable : ∀ w ∈ ws, Loadable w)
    (ids : ∀ w ∈ ws, ∃ id, id ≠ [] ∧ w.item "connection_id" = .ok (.str id)) :
    (∀ es s, Run step start es s → connectionWebhooks es = ws → RoutedRight s ws) ↔
      ∀ w ∈ ws, Routable w := by
  constructor
  · exact routable_of_routedRight loadable ids
  · rintro routable es s run rfl
    exact routedRight_of_routable run loadable routable

/-- The webhook of a requester that received an invitation. -/
def invitationReceived : Json :=
  .obj [("connection_id", .str "c"), ("connection_protocol", .str "didexchange/1.0"),
    ("invitation_msg_id", .str "i"), ("state", .str "invitation-received")]

/-- Its next webhook, after it sent the request. -/
def requestSent : Json :=
  .obj [("connection_id", .str "c"), ("connection_protocol", .str "didexchange/1.0"),
    ("invitation_msg_id", .str "i"), ("request_id", .str "r"), ("state", .str "request-sent")]

theorem loadable_invitationReceived : Loadable invitationReceived :=
  loadable_of_loads (s := dumps invitationReceived) (by decide +kernel)

theorem loadable_requestSent : Loadable requestSent :=
  loadable_of_loads (s := dumps requestSent) (by decide +kernel)

/-- The webhook of an invitee, with the state under the agent's name for it. -/
def invited : Json :=
  .obj [("connection_id", .str "c"), ("connection_protocol", .str "didexchange/1.0"),
    ("invitation_msg_id", .str "i"), ("their_role", .str "inviter"), ("state", .str "invitation")]

def responded : Json :=
  .obj [("connection_id", .str "d"), ("connection_protocol", .str "connections/1.0"),
    ("invitation_msg_id", .str "j"), ("state", .str "response")]

theorem routable_invited : Routable invited where
  connection h := absurd h (by decide)
  didExchange id _ h := by
    refine ⟨.inl (by decide), fun _ state hstate => ?_⟩
    obtain rfl : .str "invitation" = state := Except.ok.inj hstate
    exact ⟨.stateValue, StateTranslation.Acapy.didExchangeRequesterStateTranslationDict,
      by decide +kernel, ("invitation".toList, "invitation-received".toList), by decide, rfl⟩

theorem routable_responded : Routable responded where
  connection _ := by decide
  didExchange _ _ h := absurd h.1 (by decide)

/-- Each message is asked for under its id, and a poll for a third id waits. -/
def polled : List Event :=
  [.webhook "connections".toList invited, .poll "did-exchange".toList (some "i"),
    .poll "connection".toList (some "d"), .webhook "connections".toList responded,
    .poll "connection".toList (some "x"), .wake 1]

theorem invitations_routed :
    ∃ s, Run step start polled s ∧ delivered s "did-exchange".toList "i" = [invited] ∧
      delivered s "connection".toList "d" = [responded] ∧ RoutedRight s [invited, responded] := by
  have hdelivered : (exec step start polled).map (fun s =>
      (delivered s "did-exchange".toList "i", delivered s "connection".toList "d")) =
        some ([invited], [responded]) := by decide +kernel
  obtain ⟨s, hs, hpair⟩ := Option.map_eq_some_iff.mp hdelivered
  obtain ⟨hfirst, hsecond⟩ := Prod.mk.inj hpair
  have hloadable : ∀ w ∈ [invited, responded], Loadable w := by
    refine List.forall_mem_cons.mpr ⟨?_, List.forall_mem_singleton.mpr ?_⟩
    · exact loadable_of_loads (s := dumps invited) (by decide +kernel)
    · exact loadable_of_loads (s := dumps responded) (by decide +kernel)
  have hids : ∀ w ∈ [invited, responded], ∃ id, id ≠ [] ∧
      w.item "connection_id" = .ok (.str id) :=
    List.forall_mem_cons.mpr ⟨⟨"c", by decide, rfl⟩,
      List.forall_mem_singleton.mpr ⟨"d", by decide, rfl⟩⟩
  have hroutable : ∀ w ∈ [invited, responded], Routable w :=
    List.forall_mem_cons.mpr ⟨routable_invited, List.forall_mem_singleton.mpr routable_responded⟩
  exact ⟨s, run_of_exec hs, hfirst, hsecond,
    (routing_iff hloadable hids).mpr hroutable polled s (run_of_exec hs) rfl⟩

theorem request_not_routed :
    ¬ ∀ ws : List Json, (∀ w ∈ ws, Loadable w) →
      (∀ w ∈ ws, ∃ id, id ≠ [] ∧ w.item "connection_id" = .ok (.str id)) →
      ∀ es s, Run step start es s → connectionWebhooks es = ws → RoutedRight s ws := by
  intro h
  obtain ⟨s, run, -⟩ := run_webhooks [invitationReceived, requestSent]
  have hws := connectionWebhooks_webhooks [invitationReceived, requestSent]
  have hright := h _ (by
    intro w hw
    rcases List.mem_pair.mp hw with rfl | rfl
    · exact loadable_invitationReceived
    · exact loadable_requestSent) (by
    intro w hw
    rcases List.mem_pair.mp hw with rfl | rfl
    · exact ⟨"c", by decide, by decide⟩
    · exact ⟨"c", by decide, by decide⟩) _ s run hws
  have heq := hright.didExchanges "i" (by decide)
  rw [under_didExchange_of_run run, hws] at heq
  exact absurd heq (by decide +kernel)

end AgentTestHarness.ConnectionRouting
