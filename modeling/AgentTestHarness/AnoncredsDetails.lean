import AgentTestHarness.PollAccounting

/-! The detail webhooks of anoncreds credentials. They carry no thread id, so their handler looks
it up in the mapping that the credential webhooks fill, which may be too early. -/
namespace AgentTestHarness.AnoncredsDetails
open PyText OrderedDict PyJson Storage Webhooks ResponsePolls PollAccounting Runs

def isTopic (handlerTopic : String) (topic : Text) : Bool :=
  decide ((topic.map fun c => if c = '-' then '_' else c) = handlerTopic.toList)

def isCredentialTopic : Text → Bool := isTopic "issue_credential_v2_0"

def isDetailTopic : Text → Bool := isTopic "issue_credential_v2_0_anoncreds"

/-- The payload of a credential webhook. -/
def credentialMessage : Event → Option Json
  | .webhook topic payload => if isCredentialTopic topic then some payload else none
  | _ => none

def credentialMessages (es : List Event) : List Json := es.filterMap credentialMessage

deriving instance DecidableEq for CredentialFetch
deriving instance DecidableEq for System

/-! What a message says, and what the handler keeps of it. -/

def threadOf (m : Json) : Option Json := (m.item "thread_id").toOption

/-- The exchange id of a message, as a dictionary key. -/
def exchangeOf (m : Json) : Option Json := (m.item "cred_ex_id" >>= Json.asKey).toOption

/-- A message that the handler pushes: not of a deleted exchange, its thread usable as a key. -/
def isKept (m : Json) : Bool :=
  decide (isDeleted m = .ok false) && (m.item "thread_id" >>= Json.asKey).toOption.isSome

/-- The thread named by the last message of an exchange. -/
def lastThread (exchange : Json) (ms : List Json) : Option Json :=
  ((ms.filter fun m => decide (exchangeOf m = some exchange)).filterMap threadOf).getLast?

/-- The thread that the last credential webhook of an exchange named. -/
def namedThread (exchange : Json) (es : List Event) : Option Json :=
  lastThread exchange (credentialMessages es)

/-- The same, without the webhooks that the handler ignores. -/
def keptThread (exchange : Json) (es : List Event) : Option Json :=
  lastThread exchange ((credentialMessages es).filter isKept)

/-- The handler has kept a message that carries an exchange id, whichever. -/
def SomeExchange (es : List Event) : Prop :=
  ∃ m ∈ credentialMessages es, isKept m = true ∧ m.contains "cred_ex_id" = .ok true

/-! The property. -/

/-- A detail webhook of a run that made a request for its credential, and the answer to it. -/
structure Processed (es : List Event) where
  before : List Event
  topic : Text
  message : Json
  between : List Event
  respStatus : ℕ
  respText : Text
  received : System
  asked : System
  answered : System
  done : System
  detail : isDetailTopic topic = true
  performed : before ++ .webhook topic message :: (between ++
    [.fetched received.fetches.length respStatus respText]) <+: es
  receives : Run step start before received
  asks : step received (.webhook topic message) = some asked
  requests : received.fetches.length < asked.fetches.length
  waits : Run step asked between answered
  finishes : step answered (.fetched received.fetches.length respStatus respText) = some done

/-- The message with its revocation info, if it has any. -/
def revocationMessage (message : Json) (respStatus : ℕ) (respText : Text) : Option Json :=
  match withRevocationInfo ⟨.null, .null, message⟩ respStatus respText with
  | .ok m => if m.contains "revocation_id" = .ok true then some m else none
  | .error _ => none

namespace Processed

variable {es : List Event}

/-- The thread that the credential webhooks have named for it when it comes. -/
def named (p : Processed es) : Option Json :=
  (exchangeOf p.message).bind fun exchange => namedThread exchange p.before

def revocation (p : Processed es) : Option Json :=
  revocationMessage p.message p.respStatus p.respText

end Processed

/-- The message is at the end of the queue of the thread, and nothing else has changed. -/
def Appended (s : Store) (threadId message : Json) (t : Store) : Prop :=
  threadId ≠ .null ∧ ∃ key, threadId.asKey = .ok key ∧
    t = s.setSlot key "revocation-registry-msg"
      (.arr (s.queue key "revocation-registry-msg" ++ [message]))

/-- Every detail webhook delivers its revocation message to the thread of its exchange. -/
structure DetailsDelivered (es : List Event) : Prop where
  waits : ∀ before topic message s t, before ++ [.webhook topic message] <+: es →
    isDetailTopic topic = true → Run step start before s →
    step s (.webhook topic message) = some t → t.store = s.store
  requests : ∀ before topic message s t exchange recordId,
    before ++ [.webhook topic message] <+: es →
    isDetailTopic topic = true → Run step start before s →
    step s (.webhook topic message) = some t → exchangeOf message = some exchange →
    namedThread exchange before ≠ none → message.item "cred_id_stored" = .ok recordId →
    s.fetches.length < t.fetches.length
  delivered : ∀ (p : Processed es) threadId message, p.named = some threadId →
    p.revocation = some message → Appended p.answered.store threadId message p.done.store
  unchanged : ∀ p : Processed es, p.named = none ∨ p.revocation = none →
    p.done.store = p.answered.store

/-- When the detail webhook comes, the thread named last for its exchange is the one that the
handler of the credential webhooks has kept, or none was named but there is a mapping already. -/
def Informed (before : List Event) (message : Json) : Prop :=
  (∃ exchange threadId, exchangeOf message = some exchange ∧ threadId ≠ .null ∧
    namedThread exchange before = some threadId ∧ keptThread exchange before = some threadId) ∨
  (∀ exchange, exchangeOf message = some exchange → namedThread exchange before = none) ∧
    SomeExchange before

/-- A detail webhook of a credential that has been stored, for an exchange. -/
def IsStored (message : Json) : Prop :=
  ∃ e recordId, message.item "cred_ex_id" = .ok e ∧ message.item "cred_id_stored" = .ok recordId

/-- Every detail webhook of a stored credential comes when its thread is known. -/
def AllInformed (es : List Event) : Prop :=
  ∀ before topic message, before ++ [.webhook topic message] <+: es → isDetailTopic topic = true →
    IsStored message → Informed before message

/-! What the mapping holds. -/

def exchangeMapping : Str := dataExchMappingName "credential-msg" "cred_ex_id"

/-- The handler of the credential webhooks alone records exchange ids under this name. -/
structure Tracked (es : List Event) (s : Store) : Prop where
  threads : ∀ exchange, recorded s.exchToDataId exchangeMapping exchange = keptThread exchange es
  mapping : (s.exchToDataId.get? exchangeMapping).isSome = true ↔ SomeExchange es

theorem credentialMessages_snoc (es : List Event) (e : Event) :
    credentialMessages (es ++ [e]) = credentialMessages es ++ (credentialMessage e).toList := by
  rw [credentialMessages, List.filterMap_append]
  cases h : credentialMessage e <;> simp [h, credentialMessages]

theorem lastThread_append (exchange : Json) (ms : List Json) (m : Json) :
    lastThread exchange (ms ++ [m]) =
      if exchangeOf m = some exchange then (threadOf m).or (lastThread exchange ms)
      else lastThread exchange ms := by
  unfold lastThread
  rw [List.filter_append, List.filterMap_append]
  by_cases h : exchangeOf m = some exchange
  · cases ht : threadOf m <;> simp [h, ht]
  · simp [h]

/-- Events that bring no kept credential leave the mapping as it is. -/
theorem Tracked.of_idle {es : List Event} {s t : Store} {e : Event} (h : Tracked es s)
    (idle : ∀ m, credentialMessage e = some m → isKept m = false)
    (same : t.exchToDataId.get? exchangeMapping = s.exchToDataId.get? exchangeMapping) :
    Tracked (es ++ [e]) t := by
  have hkept : (credentialMessages (es ++ [e])).filter isKept =
      (credentialMessages es).filter isKept := by
    rw [credentialMessages_snoc, List.filter_append]
    cases hm : credentialMessage e with
    | none => simp
    | some m => simp [idle m hm]
  have hsome : SomeExchange (es ++ [e]) ↔ SomeExchange es := by
    have hmem : ∀ ms : List Json, (∃ m ∈ ms, isKept m = true ∧ m.contains "cred_ex_id" = .ok true) ↔
        ∃ m ∈ ms.filter isKept, m.contains "cred_ex_id" = .ok true := by
      intro ms
      simp only [List.mem_filter, and_assoc]
    rw [SomeExchange, SomeExchange, hmem, hmem, hkept]
  constructor
  · intro exchange
    rw [keptThread, hkept, recorded, same]
    exact h.threads exchange
  · rw [same, hsome]
    exact h.mapping

/-- The push records nothing in the mapping of the credential exchange ids. -/
def Elsewhere (p : Push) : Prop :=
  ∀ name, p.exchIdName = some name → dataExchMappingName p.dataType name ≠ exchangeMapping

/-- A push under another name leaves the mapping as it is. -/
theorem pushResource_elsewhere {p : Push} (s : Store) (h : Elsewhere p) :
    (pushResource p.dataId p.dataType p.data p.exchIdName s).2.exchToDataId.get? exchangeMapping =
      s.exchToDataId.get? exchangeMapping := by
  have hadd : ∀ t : Store, (addDataExchMapping p.dataId p.dataType p.data p.exchIdName
      t).2.exchToDataId.get? exchangeMapping = t.exchToDataId.get? exchangeMapping := by
    intro t
    unfold addDataExchMapping
    cases hname : p.exchIdName with
    | none => rfl
    | some name =>
      have hne := (h name hname).symm
      by_cases hn : name = []
      · simp [hn]
      · simp only [if_neg hn]
        split <;> try rfl
        split <;> simp [setMapping, Dict.get?_set, hne]
  unfold pushResource
  cases p.dataId.asKey with
  | error e => rfl
  | ok key =>
    dsimp only
    split
    · next messages _ =>
      have := hadd (s.setSlot key p.dataType (.arr (messages ++ [p.data])))
      split
      · next hr => rwa [hr] at this
      · next hr => rwa [hr] at this
    · rfl

theorem performPushes_elsewhere {ps : List Push} (s : Store) (h : ∀ p ∈ ps, Elsewhere p) :
    (performPushes ps s).1.exchToDataId.get? exchangeMapping =
      s.exchToDataId.get? exchangeMapping := by
  exact @performPushes_rule (fun t _ => t.exchToDataId.get? exchangeMapping =
    s.exchToDataId.get? exchangeMapping) ps
    (fun p hp t _ ht => (pushResource_elsewhere t (h p hp)).trans ht) s [] rfl

theorem toOption_eq_some {α : Type} {x : Except PyError α} {a : α} :
    x.toOption = some a ↔ x = .ok a := by
  cases x <;> simp [Except.toOption]

theorem isKept_iff {m : Json} : isKept m = true ↔ isDeleted m = .ok false ∧
    ∃ threadId key, m.item "thread_id" = .ok threadId ∧ threadId.asKey = .ok key := by
  rw [isKept, Bool.and_eq_true, decide_eq_true_eq, Option.isSome_iff_exists]
  refine and_congr_right fun _ => ?_
  simp only [toOption_eq_some]
  constructor
  · rintro ⟨key, h⟩
    obtain ⟨threadId, hid, hkey⟩ := bind_eq_ok h
    exact ⟨threadId, key, hid, hkey⟩
  · rintro ⟨threadId, key, hid, hkey⟩
    exact ⟨key, hid ▸ hkey⟩

/-- A kept message is pushed as a credential first, and then at most as a revocation message. -/
theorem pushes_of_kept {m threadId : Json} (hlive : isDeleted m = .ok false)
    (hid : m.item "thread_id" = .ok threadId) :
    ∃ ps, handleIssueCredentialV20 m =
      .ok (⟨threadId, "credential-msg", m, some "cred_ex_id"⟩ :: ps) ∧
      ∀ p ∈ ps, p.dataType = "revocation-registry-msg" := by
  obtain ⟨ms, rfl, -⟩ := Json.item_eq_ok.mp hid
  unfold handleIssueCredentialV20 pushCredential
  simp only [hid, hlive, bind, Except.bind, Json.contains]
  cases (lookup ("revocation_id" : Str) ms).isSome with
  | false => exact ⟨[], rfl, by simp⟩
  | true =>
    exact ⟨[⟨threadId, "revocation-registry-msg", .obj ms, some "cred_ex_id"⟩], rfl, by simp⟩

/-- What a push does to the mapping of its name. An exchange id that is no key creates it. -/
theorem pushResource_exch {s : Store} {d name : Str} (queued : s.Queued d) (hname : name ≠ [])
    {threadId key : Json} (hkey : threadId.asKey = .ok key) (ms : List (Str × Json)) :
    (pushResource threadId d (.obj ms) (some name) s).2.exchToDataId.get?
        (dataExchMappingName d name) =
      match lookup name ms with
      | none => s.exchToDataId.get? (dataExchMappingName d name)
      | some e =>
        let mapping := (s.exchToDataId.get? (dataExchMappingName d name)).getD Dict.empty
        some (e.asKey.toOption.elim mapping fun exchange => mapping.set exchange threadId) := by
  simp only [pushResource, hkey, queued.slot_getD, addDataExchMapping, if_neg hname]
  cases he : lookup name ms with
  | none => simp [Json.contains, Json.item, he, Store.setSlot]
  | some e =>
    simp only [Json.contains, Json.item, he, Option.isSome_some]
    cases e.asKey with
    | error err => simp [Except.toOption, Store.setSlot]
    | ok k => simp [Except.toOption, Store.setSlot, setMapping]

theorem exchangeOf_obj (ms : List (Str × Json)) :
    exchangeOf (.obj ms) = (lookup ("cred_ex_id" : Str) ms).bind fun e => e.asKey.toOption := by
  unfold exchangeOf Json.item
  dsimp only
  cases lookup ("cred_ex_id" : Str) ms <;> rfl

theorem get?_elim_set (mapping : Option (Dict Json Json)) (k : Option Json)
    (exchange threadId : Json) :
    (k.elim (mapping.getD Dict.empty) fun k => (mapping.getD Dict.empty).set k threadId).get?
        exchange =
      if k = some exchange then some threadId else mapping.bind fun m => m.get? exchange := by
  cases k with
  | none => cases mapping <;> simp
  | some k =>
    simp only [Option.elim_some, Dict.get?_set, Option.some.injEq, @eq_comm _ k]
    cases mapping <;> simp

/-- What a kept message does to the mapping. The pushes behind the first are of revocation
messages. -/
theorem performPushes_kept {s : Store} (queued : s.Queued "credential-msg")
    {ms : List (Str × Json)} {threadId key : Json} {ps : List Push}
    (hm : isKept (.obj ms) = true) (hid : (Json.obj ms).item "thread_id" = .ok threadId)
    (hkey : threadId.asKey = .ok key) (hps : handleIssueCredentialV20 (.obj ms) = .ok ps) :
    (performPushes ps s).1.exchToDataId.get? exchangeMapping =
      match lookup ("cred_ex_id" : Str) ms with
      | none => s.exchToDataId.get? exchangeMapping
      | some id =>
        let mapping := (s.exchToDataId.get? exchangeMapping).getD Dict.empty
        some (id.asKey.toOption.elim mapping fun exchange => mapping.set exchange threadId) := by
  obtain ⟨rest, hrest, htypes⟩ := pushes_of_kept (isKept_iff.mp hm).1 hid
  obtain rfl := Except.ok.inj (hps.symm.trans hrest)
  have hne : ∀ name, dataExchMappingName "revocation-registry-msg" name ≠ exchangeMapping := by
    intro name hname
    have hfront : some (CodePoint.ch 'r') = some (CodePoint.ch 'c') := congrArg List.head? hname
    exact absurd hfront (by decide)
  have hall : (performPushes (⟨threadId, "credential-msg", .obj ms, some "cred_ex_id"⟩ :: rest)
      s).1.exchToDataId.get? exchangeMapping = (pushResource threadId "credential-msg" (.obj ms)
        (some "cred_ex_id") s).2.exchToDataId.get? exchangeMapping := by
    rw [performPushes]
    cases pushResource threadId "credential-msg" (.obj ms) (some "cred_ex_id") s with
    | mk r t =>
      cases r with
      | error err => rfl
      | ok _ => exact performPushes_elsewhere t fun p hp name _ => htypes p hp ▸ hne name
  exact hall.trans (pushResource_exch queued (by decide) hkey ms)

theorem someExchange_snoc {es : List Event} {e : Event} {ms : List (Str × Json)}
    (he : credentialMessage e = some (.obj ms)) (hm : isKept (.obj ms) = true) :
    SomeExchange (es ++ [e]) ↔
      SomeExchange es ∨ (lookup ("cred_ex_id" : Str) ms).isSome = true := by
  have hcontains : (Json.obj ms).contains "cred_ex_id" = .ok true ↔
      (lookup ("cred_ex_id" : Str) ms).isSome = true := by
    rw [Json.contains, Except.ok.injEq]
  unfold SomeExchange
  rw [credentialMessages_snoc, he, ← hcontains]
  constructor
  · rintro ⟨w, hw, hwk, hwc⟩
    rcases List.mem_append.mp hw with hw | hw
    · exact .inl ⟨w, hw, hwk, hwc⟩
    · obtain rfl := List.mem_singleton.mp hw
      exact .inr hwc
  · rintro (⟨w, hw, hwk, hwc⟩ | hc)
    · exact ⟨w, List.mem_append_left _ hw, hwk, hwc⟩
    · exact ⟨_, List.mem_append_right _ List.mem_cons_self, hm, hc⟩

/-- A kept credential webhook records its thread under its exchange id. -/
theorem Tracked.of_kept {es : List Event} {s : Store} {e : Event} {m : Json} {ps : List Push}
    (h : Tracked es s) (queued : s.Queued "credential-msg") (he : credentialMessage e = some m)
    (hm : isKept m = true) (hps : handleIssueCredentialV20 m = .ok ps) :
    Tracked (es ++ [e]) (performPushes ps s).1 := by
  obtain ⟨-, threadId, key, hid, hkey⟩ := isKept_iff.mp hm
  obtain ⟨ms, rfl, -⟩ := Json.item_eq_ok.mp hid
  have hafter := performPushes_kept queued hm hid hkey hps
  have hkept : (credentialMessages (es ++ [e])).filter isKept =
      (credentialMessages es).filter isKept ++ [.obj ms] := by
    rw [credentialMessages_snoc, he, List.filter_append]
    simp [hm]
  have hnamed : threadOf (.obj ms) = some threadId := toOption_eq_some.mpr hid
  have hthreads := h.threads
  have hmapping := h.mapping
  simp only [recorded, keptThread] at hthreads
  constructor
  · intro exchange
    rw [keptThread, hkept, lastThread_append, hnamed, recorded, hafter, exchangeOf_obj,
      ← hthreads]
    cases lookup ("cred_ex_id" : Str) ms with
    | none => rfl
    | some id =>
      simp only [Option.bind_some, get?_elim_set, Option.some_or]
  · rw [someExchange_snoc he hm, ← hmapping, hafter]
    cases lookup ("cred_ex_id" : Str) ms <;> simp

/-- The handler raises for messages only that are not kept. -/
theorem not_kept_of_error {m : Json} {err : PyError} (h : handleIssueCredentialV20 m = .error err) :
    isKept m = false := by
  cases hkept : isKept m with
  | false => rfl
  | true =>
    obtain ⟨hlive, threadId, -, hid, -⟩ := isKept_iff.mp hkept
    obtain ⟨ps, hps, -⟩ := pushes_of_kept hlive hid
    cases h.symm.trans hps

/-! The other handlers. -/

theorem elsewhere_of_none {p : Push} (h : p.exchIdName = none) : Elsewhere p := by
  intro name hname
  cases h.symm.trans hname

theorem elsewhere_pushUnder {idName dataType : Str} {m : Json} {ps : List Push}
    (h : pushUnder idName dataType m = .ok ps) : ∀ p ∈ ps, Elsewhere p := by
  obtain ⟨id, -, hps⟩ := bind_eq_ok h
  obtain rfl := Except.ok.inj hps
  exact List.forall_mem_singleton.mpr (elsewhere_of_none rfl)

theorem elsewhere_handleConnections {m : Json} {ps : List Push}
    (h : handleConnections m = .ok ps) : ∀ p ∈ ps, Elsewhere p := by
  obtain ⟨protocol, -, h⟩ := bind_eq_ok h
  obtain ⟨withRequest, -, h⟩ := bind_eq_ok h
  have hpush : ∀ name dataType, (m.item name >>= fun id =>
      pure [(⟨id, dataType, m, none⟩ : Push)]) = Except.ok ps → ∀ p ∈ ps, Elsewhere p :=
    fun name dataType => elsewhere_pushUnder
  split at h
  · exact hpush _ _ h
  · split at h
    · exact hpush _ _ h
    · split at h
      · exact hpush _ _ h
      · cases h

theorem elsewhere_handleProblemReport {m : Json} {ps : List Push}
    (h : handleProblemReport m = .ok ps) : ∀ p ∈ ps, Elsewhere p := by
  obtain ⟨threadId, -, h⟩ := bind_eq_ok h
  split at h
  · obtain rfl := Except.ok.inj h
    exact List.forall_mem_singleton.mpr (elsewhere_of_none rfl)
  · obtain rfl := Except.ok.inj h
    exact List.forall_mem_nil _

theorem elsewhere_handleIssueCredential {m : Json} {ps : List Push}
    (h : handleIssueCredential m = .ok ps) : ∀ p ∈ ps, Elsewhere p := by
  have hpush : ∀ threadId dataType, dataType = "credential-msg" ∨
      dataType = "revocation-registry-msg" →
      Elsewhere ⟨threadId, dataType, m, some "credential_exchange_id"⟩ := by
    rintro threadId dataType hd name hname
    obtain rfl := Option.some.inj hname
    have hcredential : dataExchMappingName "credential-msg" "credential_exchange_id" ≠
        exchangeMapping := by decide +kernel
    have hrevocation : dataExchMappingName "revocation-registry-msg" "credential_exchange_id" ≠
        exchangeMapping := by decide +kernel
    rcases hd with rfl | rfl
    · exact hcredential
    · exact hrevocation
  obtain ⟨threadId, -, ⟨-, rfl⟩ | ⟨-, rfl | rfl⟩⟩ := pushCredential_cases h
  · exact List.forall_mem_nil _
  · exact List.forall_mem_singleton.mpr (hpush threadId _ (.inl rfl))
  · exact List.forall_mem_cons.mpr ⟨hpush threadId _ (.inl rfl),
      List.forall_mem_singleton.mpr (hpush threadId _ (.inr rfl))⟩

theorem elsewhere_pushPresentation {exchIdName : Str} {m : Json} {ps : List Push}
    (h : pushPresentation exchIdName m = .ok ps) : ∀ p ∈ ps, Elsewhere p := by
  obtain ⟨threadId, -, ⟨-, rfl⟩ | ⟨-, rfl⟩⟩ := pushPresentation_cases h
  · exact List.forall_mem_nil _
  · refine List.forall_mem_singleton.mpr fun name hname hmapping => ?_
    have hfront : some (CodePoint.ch 'p') = some (CodePoint.ch 'c') :=
      congrArg List.head? hmapping
    exact absurd hfront (by decide)

theorem elsewhere_handler {topic : Text} {handle : Json → Except PyError (List Push)}
    (hh : handler topic = some handle) (ht : topic ≠ "issue_credential_v2_0".toList) {m : Json}
    {ps : List Push} (h : handle m = .ok ps) : ∀ p ∈ ps, Elsewhere p := by
  rcases ite_eq_some hh with ⟨-, rfl⟩ | hh
  · exact elsewhere_handleConnections h
  rcases ite_eq_some hh with ⟨-, rfl⟩ | hh
  · exact elsewhere_pushUnder h
  rcases ite_eq_some hh with ⟨-, rfl⟩ | hh
  · exact elsewhere_handleIssueCredential h
  rcases ite_eq_some hh with ⟨htopic, -⟩ | hh
  · exact absurd htopic ht
  rcases ite_eq_some hh with ⟨-, rfl⟩ | hh
  · exact elsewhere_pushPresentation h
  rcases ite_eq_some hh with ⟨-, rfl⟩ | hh
  · exact elsewhere_pushPresentation h
  rcases ite_eq_some hh with ⟨-, rfl⟩ | hh
  · exact elsewhere_pushUnder h
  rcases ite_eq_some hh with ⟨-, rfl⟩ | hh
  · exact elsewhere_pushUnder h
  rcases ite_eq_some hh with ⟨-, rfl⟩ | hh
  · exact elsewhere_pushUnder h
  rcases ite_eq_some hh with ⟨-, rfl⟩ | hh
  · exact elsewhere_handleProblemReport h
  · cases hh

/-- After its fetch the anoncreds handler pushes at most the revocation message. -/
theorem afterFetch_cases {f : CredentialFetch} {respStatus : ℕ} {respText : Text} {ps : List Push}
    (h : afterFetch f respStatus respText = .ok ps) :
    (revocationMessage f.message respStatus respText = none ∧ ps = []) ∨
    ∃ m, revocationMessage f.message respStatus respText = some m ∧
      ps = [⟨f.threadId, "revocation-registry-msg", m, none⟩] := by
  obtain ⟨m, hm, h⟩ := bind_eq_ok h
  obtain ⟨revocation, hcontains, h⟩ := bind_eq_ok h
  have hm' : withRevocationInfo ⟨.null, .null, f.message⟩ respStatus respText = .ok m := hm
  cases revocation with
  | true =>
    refine .inr ⟨m, ?_, (Except.ok.inj h).symm⟩
    rw [revocationMessage, hm']
    exact if_pos hcontains
  | false =>
    refine .inl ⟨?_, (Except.ok.inj h).symm⟩
    rw [revocationMessage, hm']
    refine if_neg fun htrue => ?_
    cases hcontains.symm.trans htrue

/-! The steps. -/

theorem handleWebhook_credential {topic : Text} (ht : isCredentialTopic topic = true) (s : Store)
    (m : Json) : handleWebhook s topic m = (handleIssueCredentialV20 m).map .pushes := by
  have htopic := of_decide_eq_true ht
  have hwebhook : topic ≠ "webhook".toList := by
    rintro rfl
    exact absurd htopic (by decide +kernel)
  have hother : "issue_credential_v2_0".toList ≠ "issue_credential_v2_0_anoncreds".toList := by
    decide +kernel
  unfold handleWebhook
  rw [if_neg hwebhook]
  dsimp only
  rw [htopic, if_neg hother]
  rfl

theorem handleWebhook_detail {topic : Text} (ht : isDetailTopic topic = true) (s : Store)
    (m : Json) : handleWebhook s topic m =
      (handleIssueCredentialV20Anoncreds s m).map fun f => f.elim (.pushes []) .fetches := by
  have htopic := of_decide_eq_true ht
  have hwebhook : topic ≠ "webhook".toList := by
    rintro rfl
    exact absurd htopic (by decide +kernel)
  unfold handleWebhook
  rw [if_neg hwebhook]
  dsimp only
  rw [if_pos htopic]

theorem credentialMessage_webhook {topic : Text} {payload m : Json}
    (h : credentialMessage (.webhook topic payload) = some m) :
    isCredentialTopic topic = true ∧ payload = m := by
  by_cases ht : isCredentialTopic topic = true
  · exact ⟨ht, Option.some.inj ((if_pos ht).symm.trans h)⟩
  · cases (if_neg ht).symm.trans h

/-- A message that is not kept is not stored. -/
theorem performPushes_ignored {m : Json} {ps : List Push}
    (hps : handleIssueCredentialV20 m = .ok ps) (hm : isKept m = false) (s : Store) :
    (performPushes ps s).1 = s := by
  have hkeyless : isDeleted m = .ok false → ∀ threadId, m.item "thread_id" = .ok threadId →
      ∃ e, threadId.asKey = .error e := by
    intro hlive threadId hid
    cases hkey : threadId.asKey with
    | error e => exact ⟨e, rfl⟩
    | ok key => cases hm.symm.trans (isKept_iff.mpr ⟨hlive, threadId, key, hid, hkey⟩)
  obtain ⟨threadId, hid, ⟨-, rfl⟩ | ⟨hlive, rfl | rfl⟩⟩ := pushCredential_cases hps
  · rfl
  · obtain ⟨e, he⟩ := hkeyless hlive threadId hid
    simp only [performPushes, pushResource_of_unhashable he]
  · obtain ⟨e, he⟩ := hkeyless hlive threadId hid
    simp only [performPushes, pushResource_of_unhashable he]

theorem popResource_exchToDataId (id : Json) (d : Str) (s : Store) :
    (popResource id d s).2.exchToDataId = s.exchToDataId := by
  unfold popResource
  split
  · rfl
  · split <;> rfl

theorem Tracked.silent {es : List Event} {s t : Store} {e : Event} (h : Tracked es s)
    (silent : credentialMessage e = none)
    (same : t.exchToDataId.get? exchangeMapping = s.exchToDataId.get? exchangeMapping) :
    Tracked (es ++ [e]) t := by
  refine h.of_idle (fun m hm => ?_) same
  cases silent.symm.trans hm

/-- The pushes of a webhook. -/
theorem Tracked.perform {es : List Event} {s : System} {topic : Text} {payload : Json}
    {ps : List Push} (h : Tracked es s.store) (balanced : Balanced s)
    (handled : handleWebhook s.store topic payload = .ok (.pushes ps)) :
    Tracked (es ++ [.webhook topic payload]) (performPushes ps s.store).1 := by
  by_cases ht : isCredentialTopic topic = true
  · have hm : credentialMessage (.webhook topic payload) = some payload := if_pos ht
    rw [handleWebhook_credential ht] at handled
    cases hps : handleIssueCredentialV20 payload with
    | error err =>
      rw [hps] at handled
      cases handled
    | ok qs =>
      rw [hps] at handled
      obtain rfl := Handled.pushes.inj (Except.ok.inj handled)
      cases hkept : isKept payload with
      | true => exact h.of_kept (balanced.queued _) hm hkept hps
      | false =>
        refine h.of_idle (fun m hm' => ?_) ?_
        · exact Option.some.inj (hm.symm.trans hm') ▸ hkept
        · rw [performPushes_ignored hps hkept]
  · refine h.silent (if_neg ht) (performPushes_elsewhere s.store ?_)
    rcases handleWebhook_cases handled with heq | ⟨handle, qs, hh, hqs, heq⟩ | ⟨f, -, heq⟩
    · obtain rfl := Handled.pushes.inj heq
      exact List.forall_mem_nil _
    · obtain rfl := Handled.pushes.inj heq
      exact elsewhere_handler hh (fun htopic => ht (decide_eq_true htopic)) hqs
    · cases heq

theorem Tracked.step {es : List Event} {s t : System} {e : Event} (h : Tracked es s.store)
    (balanced : Balanced s) (next : ResponsePolls.step s e = some t) :
    Tracked (es ++ [e]) t.store := by
  cases steps_of_step next with
  | @rejected topic payload err handled =>
    refine h.of_idle (fun m hm => ?_) rfl
    obtain ⟨ht, rfl⟩ := credentialMessage_webhook hm
    rw [handleWebhook_credential ht] at handled
    cases hps : handleIssueCredentialV20 payload with
    | error err => exact not_kept_of_error hps
    | ok qs =>
      rw [hps] at handled
      cases handled
  | pushed handled => exact h.perform balanced handled
  | @fetches topic payload f handled =>
    refine h.of_idle (fun m hm => ?_) rfl
    obtain ⟨ht, rfl⟩ := credentialMessage_webhook hm
    rw [handleWebhook_credential ht] at handled
    cases hps : handleIssueCredentialV20 payload with
    | error err =>
      rw [hps] at handled
      cases handled
    | ok qs =>
      rw [hps] at handled
      cases handled
  | failed _ _ => exact h.silent rfl rfl
  | fetched _ fetched =>
    refine h.silent rfl (performPushes_elsewhere s.store ?_)
    rcases afterFetch_cases fetched with ⟨-, rfl⟩ | ⟨m, -, rfl⟩
    · exact List.forall_mem_nil _
    · exact List.forall_mem_singleton.mpr (elsewhere_of_none rfl)
  | answers _ => exact h.silent rfl rfl
  | poll _ =>
    exact h.silent rfl (congrArg (fun d => d.get? exchangeMapping)
      (popResource_exchToDataId _ _ _))
  | wake _ _ =>
    exact h.silent rfl (congrArg (fun d => d.get? exchangeMapping)
      (popResource_exchToDataId _ _ _))
  | swap _ _ _ => exact h.silent rfl rfl
  | resume _ _ => exact h.silent rfl rfl

theorem tracked_start : Tracked [] start.store where
  threads _ := rfl
  mapping := by simp [SomeExchange, credentialMessages, start, Storage.empty]

theorem tracked_of_run {es : List Event} {s : System} (run : Run step start es s) :
    Tracked es s.store ∧ Accounts s :=
  run.history (I := fun es s => Tracked es s.store ∧ Accounts s) ⟨tracked_start, start_accounts⟩
    fun h next => ⟨h.1.step h.2.toBalanced next, h.2.step next⟩

/-! The requests that wait. -/

theorem step_fetches {s t : System} {e : Event} (next : step s e = some t) :
    t.fetches = s.fetches ∨ (∃ f, t.fetches = s.fetches ++ [f]) ∨
      ∃ n, t.fetches = s.fetches.set n none := by
  cases steps_of_step next with
  | fetches _ => exact .inr (.inl ⟨_, rfl⟩)
  | failed _ _ => exact .inr (.inr ⟨_, rfl⟩)
  | fetched _ _ => exact .inr (.inr ⟨_, rfl⟩)
  | _ => exact .inl rfl

/-- A request that still waits is the one that was made under its number. -/
theorem fetch_of_run {s t : System} {es : List Event} (run : Run step s es t) {n : ℕ}
    {f : CredentialFetch} (hn : n < s.fetches.length) (h : t.fetches[n]? = some (some f)) :
    s.fetches[n]? = some (some f) := by
  have kept : s.fetches.length ≤ t.fetches.length ∧
      (t.fetches[n]? = some (some f) → s.fetches[n]? = some (some f)) := by
    refine run.invariant (I := fun t => s.fetches.length ≤ t.fetches.length ∧
      (t.fetches[n]? = some (some f) → s.fetches[n]? = some (some f))) ⟨le_rfl, id⟩ ?_
    rintro u e v ⟨hlen, hu⟩ next
    rcases step_fetches next with hv | ⟨g, hv⟩ | ⟨k, hv⟩
    · rw [hv]
      exact ⟨hlen, hu⟩
    · rw [hv, List.length_append, List.getElem?_append_left (by omega)]
      exact ⟨by omega, hu⟩
    · rw [hv, List.length_set, List.getElem?_set]
      refine ⟨hlen, fun h => hu ?_⟩
      split at h
      · split at h <;> cases h
      · exact h
  exact kept.2 h

theorem mem_of_lastThread {exchange threadId : Json} {ms : List Json}
    (h : lastThread exchange ms = some threadId) :
    ∃ m ∈ ms, exchangeOf m = some exchange ∧ threadOf m = some threadId := by
  obtain ⟨m, hm, hthread⟩ := List.mem_filterMap.mp (List.mem_of_getLast? h)
  obtain ⟨hm, hexchange⟩ := List.mem_filter.mp hm
  exact ⟨m, hm, of_decide_eq_true hexchange, hthread⟩

/-- A thread that the handler has kept can be a key. -/
theorem asKey_of_keptThread {exchange threadId : Json} {es : List Event}
    (h : keptThread exchange es = some threadId) : ∃ key, threadId.asKey = .ok key := by
  obtain ⟨m, hm, -, hthread⟩ := mem_of_lastThread h
  obtain ⟨-, threadId', key, hid, hkey⟩ := isKept_iff.mp (List.mem_filter.mp hm).2
  obtain rfl := Except.ok.inj (hid.symm.trans (toOption_eq_some.mp hthread))
  exact ⟨key, hkey⟩

theorem keptThread_of_unnamed {exchange : Json} {es : List Event}
    (h : namedThread exchange es = none) : keptThread exchange es = none := by
  by_contra hkept
  obtain ⟨threadId, hkept⟩ := Option.ne_none_iff_exists'.mp hkept
  obtain ⟨m, hm, hexchange, hthread⟩ := mem_of_lastThread hkept
  rw [namedThread, lastThread, List.getLast?_eq_none_iff, List.filterMap_eq_nil_iff] at h
  have := h m (List.mem_filter.mpr ⟨(List.mem_filter.mp hm).1, decide_eq_true hexchange⟩)
  cases hthread.symm.trans this

/-! The lookup. -/

theorem anoncreds_fetches {s : Store} {m : Json} {f : CredentialFetch}
    (h : handleIssueCredentialV20Anoncreds s m = .ok (some f)) :
    ∃ e, m.item "cred_ex_id" = .ok e ∧
      getDataIdFromExchId "credential-msg" "cred_ex_id" e s = .ok f.threadId ∧
      m.item "cred_id_stored" = .ok f.recordId ∧ f.message = m := by
  obtain ⟨e, he, h⟩ := bind_eq_ok h
  obtain ⟨threadId, hthread, h⟩ := bind_eq_ok h
  obtain ⟨stored, -, h⟩ := bind_eq_ok h
  cases stored with
  | false => cases h
  | true =>
    obtain ⟨recordId, hrecord, h⟩ := bind_eq_ok h
    obtain rfl := Option.some.inj (Except.ok.inj h)
    exact ⟨e, he, hthread, hrecord, rfl⟩

theorem detail_step {s t : System} {topic : Text} {m : Json} (ht : isDetailTopic topic = true)
    (next : step s (.webhook topic m) = some t) :
    t = s ∧ (∀ f, handleIssueCredentialV20Anoncreds s.store m ≠ .ok (some f)) ∨
    ∃ f, handleIssueCredentialV20Anoncreds s.store m = .ok (some f) ∧
      t = { s with fetches := s.fetches ++ [some f] } := by
  cases steps_of_step next with
  | rejected handled =>
    rw [handleWebhook_detail ht] at handled
    refine .inl ⟨rfl, fun f hf => ?_⟩
    rw [hf] at handled
    cases handled
  | pushed handled =>
    rw [handleWebhook_detail ht] at handled
    cases hf : handleIssueCredentialV20Anoncreds s.store m with
    | error err =>
      rw [hf] at handled
      cases handled
    | ok f =>
      rw [hf] at handled
      cases f with
      | none =>
        obtain rfl := Handled.pushes.inj (Except.ok.inj handled)
        exact .inl ⟨by simp [System.perform, performPushes], by simp⟩
      | some f => cases handled
  | fetches handled =>
    rw [handleWebhook_detail ht] at handled
    cases hf : handleIssueCredentialV20Anoncreds s.store m with
    | error err =>
      rw [hf] at handled
      cases handled
    | ok f =>
      rw [hf] at handled
      cases f with
      | none => cases handled
      | some f =>
        obtain rfl := Handled.fetches.inj (Except.ok.inj handled)
        exact .inr ⟨f, rfl, rfl⟩

theorem getDataId_of_kept {es : List Event} {s : Store} (h : Tracked es s)
    {e exchange threadId : Json} (he : e.asKey = .ok exchange)
    (hkept : keptThread exchange es = some threadId) :
    getDataIdFromExchId "credential-msg" "cred_ex_id" e s = .ok threadId :=
  readMapping_of_recorded he ((h.threads exchange).trans hkept)

/-- Once there is a mapping, an exchange that it does not hold is an error. -/
theorem getDataId_of_missing {es : List Event} {s : Store} (h : Tracked es s)
    (hsome : SomeExchange es) {e : Json}
    (hmissing : ∀ exchange, e.asKey = .ok exchange → keptThread exchange es = none)
    (threadId : Json) :
    getDataIdFromExchId "credential-msg" "cred_ex_id" e s ≠ .ok threadId := by
  obtain ⟨mapping, hmapping⟩ := Option.isSome_iff_exists.mp (h.mapping.mpr hsome)
  unfold getDataIdFromExchId readMapping
  simp only [show s.exchToDataId.get? (dataExchMappingName "credential-msg" "cred_ex_id") =
    some mapping from hmapping]
  cases hkey : e.asKey with
  | error err => simp
  | ok key =>
    have hrecorded : recorded s.exchToDataId exchangeMapping key = none :=
      (h.threads key).trans (hmissing key hkey)
    have hnone : mapping.get? key = none := by simpa [recorded, hmapping] using hrecorded
    simp [hnone]

theorem exchangeOf_item {m e : Json} (h : m.item "cred_ex_id" = .ok e) :
    exchangeOf m = e.asKey.toOption := by
  unfold exchangeOf
  rw [h]
  rfl

/-- The thread that an informed handler finds is the one named last. -/
theorem found_of_informed {before : List Event} {s : Store} {m e threadId : Json}
    (h : Tracked before s) (informed : Informed before m) (he : m.item "cred_ex_id" = .ok e)
    (hfound : getDataIdFromExchId "credential-msg" "cred_ex_id" e s = .ok threadId) :
    threadId ≠ .null ∧ (∃ key, threadId.asKey = .ok key) ∧
      ∃ exchange, exchangeOf m = some exchange ∧ namedThread exchange before = some threadId := by
  have hexchange := exchangeOf_item he
  rcases informed with ⟨exchange, threadId', hex, hnull, hnamed, hkept⟩ | ⟨hunnamed, hsome⟩
  · have hkey := toOption_eq_some.mp (hexchange.symm.trans hex)
    obtain rfl := Except.ok.inj ((getDataId_of_kept h hkey hkept).symm.trans hfound)
    exact ⟨hnull, asKey_of_keptThread hkept, exchange, hex, hnamed⟩
  · refine absurd hfound (getDataId_of_missing h hsome (fun exchange hkey => ?_) threadId)
    exact keptThread_of_unnamed (hunnamed exchange (hexchange.trans (toOption_eq_some.mpr hkey)))

theorem push_revocation {s : Store} {d : Str} (queued : s.Queued d) {threadId key : Json}
    (hkey : threadId.asKey = .ok key) (m : Json) :
    (performPushes [⟨threadId, d, m, none⟩] s).1 =
      s.setSlot key d (.arr (s.queue key d ++ [m])) := by
  simp [performPushes, pushResource, hkey, queued.slot_getD, addDataExchMapping]

theorem revocationMessage_of_failed {f : CredentialFetch} {respStatus : ℕ} {respText : Text}
    {e : PyError} (h : afterFetch f respStatus respText = .error e) :
    revocationMessage f.message respStatus respText = none := by
  unfold revocationMessage
  have hsame : withRevocationInfo ⟨.null, .null, f.message⟩ respStatus respText =
      withRevocationInfo f respStatus respText := rfl
  rw [hsame]
  unfold afterFetch at h
  cases hm : withRevocationInfo f respStatus respText with
  | error e' => rfl
  | ok m =>
    refine if_neg fun htrue => ?_
    rw [hm] at h
    simp only [bind, Except.bind, htrue] at h
    cases h

/-- The answer to a request stores its revocation message, if it has one, and nothing else. -/
theorem fetched_store {s t : System} {n respStatus : ℕ} {respText : Text} {f : CredentialFetch}
    {key : Json} (balanced : Balanced s) (waits : ∀ g, s.fetches[n]? = some (some g) → g = f)
    (hkey : f.threadId.asKey = .ok key) (next : step s (.fetched n respStatus respText) = some t) :
    t.store = match revocationMessage f.message respStatus respText with
      | none => s.store
      | some m => s.store.setSlot key "revocation-registry-msg"
          (.arr (s.store.queue key "revocation-registry-msg" ++ [m])) := by
  cases steps_of_step next with
  | @failed n respStatus respText g err waiting fetched =>
    obtain rfl := waits g waiting
    rw [revocationMessage_of_failed fetched]
  | @fetched n respStatus respText g ps waiting fetched =>
    obtain rfl := waits g waiting
    rcases afterFetch_cases fetched with ⟨hnone, rfl⟩ | ⟨m, hm, rfl⟩
    · rw [hnone]
      rfl
    · rw [hm]
      exact push_revocation (balanced.queued _) hkey m

/-- What an informed request leads to. -/
theorem Processed.outcome {es : List Event} (informed : AllInformed es) (p : Processed es) :
    ∃ threadId key, p.named = some threadId ∧ threadId ≠ .null ∧ threadId.asKey = .ok key ∧
      p.done.store = match p.revocation with
        | none => p.answered.store
        | some m => p.answered.store.setSlot key "revocation-registry-msg"
            (.arr (p.answered.store.queue key "revocation-registry-msg" ++ [m])) := by
  obtain ⟨tracked, -⟩ := tracked_of_run p.receives
  rcases detail_step p.detail p.asks with ⟨hsame, -⟩ | ⟨f, hf, hasked⟩
  · have := p.requests
    rw [hsame] at this
    omega
  obtain ⟨e, he, hfound, hrecord, hmessage⟩ := anoncreds_fetches hf
  have hbefore : p.before ++ [.webhook p.topic p.message] <+: es := by
    refine List.IsPrefix.trans ⟨p.between ++ [.fetched p.received.fetches.length p.respStatus
      p.respText], ?_⟩ p.performed
    exact List.append_assoc _ _ _
  obtain ⟨hnull, ⟨key, hkey⟩, exchange, hexchange, hnamed⟩ := found_of_informed tracked
    (informed _ _ _ hbefore p.detail ⟨e, f.recordId, he, hrecord⟩) he hfound
  have hwaits : ∀ g, p.answered.fetches[p.received.fetches.length]? = some (some g) → g = f := by
    intro g hg
    have := fetch_of_run p.waits p.requests hg
    rw [hasked] at this
    simpa [eq_comm] using this
  have hanswered := (tracked_of_run ((p.receives.snoc p.asks).append p.waits)).2
  refine ⟨f.threadId, key, ?_, hnull, hkey, ?_⟩
  · rw [Processed.named, hexchange]
    exact hnamed
  · rw [fetched_store hanswered.toBalanced hwaits hkey p.finishes, hmessage]
    rfl

/-- If the thread of every detail webhook is known when it comes, each delivers its revocation
message there. -/
theorem details_delivered_of_informed {es : List Event} (informed : AllInformed es) :
    DetailsDelivered es where
  waits before topic message s t hp ht run next := by
    rcases detail_step ht next with ⟨rfl, -⟩ | ⟨f, -, rfl⟩
    · rfl
    · rfl
  requests before topic message s t exchange recordId hp ht run next hexchange hnamed hrecord := by
    obtain ⟨e, he, hkey⟩ := bind_eq_ok (toOption_eq_some.mp hexchange)
    obtain ⟨tracked, -⟩ := tracked_of_run run
    rcases informed before topic message hp ht ⟨e, recordId, he, hrecord⟩ with
      ⟨exchange', threadId, hex, -, -, hkept⟩ | ⟨hunnamed, -⟩
    · obtain rfl := Option.some.inj (hexchange.symm.trans hex)
      have hfound := getDataId_of_kept tracked hkey hkept
      have hf : handleIssueCredentialV20Anoncreds s.store message =
          .ok (some ⟨threadId, recordId, message⟩) := by
        simp only [handleIssueCredentialV20Anoncreds, he, hfound, bind, Except.bind,
          Json.contains_of_item hrecord, hrecord, if_true]
        rfl
      rcases detail_step ht next with ⟨-, hno⟩ | ⟨f, -, rfl⟩
      · exact absurd hf (hno _)
      · simp
    · exact absurd (hunnamed exchange hexchange) hnamed
  delivered p threadId message hnamed hrevocation := by
    obtain ⟨threadId', key, hnamed', hnull, hkey, hdone⟩ := p.outcome informed
    obtain rfl := Option.some.inj (hnamed'.symm.trans hnamed)
    rw [hrevocation] at hdone
    exact ⟨hnull, key, hkey, hdone⟩
  unchanged p h := by
    obtain ⟨threadId, key, hnamed, -, -, hdone⟩ := p.outcome informed
    rcases h with h | h
    · cases hnamed.symm.trans h
    · rwa [h] at hdone

def credentialOf (exchange thread : String) : Json :=
  .obj [("cred_ex_id", .str (ofText exchange.toList)), ("thread_id", .str (ofText thread.toList)),
    ("state", .str "credential-issued")]

def detailOf (exchange : String) : Json :=
  .obj [("cred_ex_id", .str (ofText exchange.toList)), ("cred_id_stored", .str "c")]

def credential (exchange thread : String) : Event :=
  .webhook "issue_credential_v2_0".toList (credentialOf exchange thread)

def detail (exchange : String) : Event :=
  .webhook "issue_credential_v2_0_anoncreds".toList (detailOf exchange)

def revocable (n : ℕ) : Event :=
  .fetched n 200 "\x7b\"cred_rev_id\": \"1\", \"rev_reg_id\": \"r\"\x7d".toList

def story : List Event := [credential "e" "t", detail "e", revocable 0]

theorem detail_after_credential_delivered : DetailsDelivered story := by
  refine details_delivered_of_informed fun before topic message hp ht hstored => ?_
  match before with
  | [] =>
    obtain ⟨htopic, -⟩ := Event.webhook.inj (List.cons_prefix_cons.mp hp).1
    rw [htopic] at ht
    exact absurd ht (by decide +kernel)
  | [x] =>
    obtain ⟨hx, hrest⟩ := List.cons_prefix_cons.mp hp
    obtain ⟨-, hmessage⟩ := Event.webhook.inj (List.cons_prefix_cons.mp hrest).1
    rw [hx, hmessage]
    exact .inl ⟨.str "e", .str "t", by decide +kernel, by decide, by decide +kernel,
      by decide +kernel⟩
  | [x, y] =>
    obtain ⟨-, hrest⟩ := List.cons_prefix_cons.mp hp
    obtain ⟨-, hrest⟩ := List.cons_prefix_cons.mp hrest
    cases (List.cons_prefix_cons.mp hrest).1
  | x :: y :: z :: before =>
    have hlen := hp.length_le
    simp only [story, List.length_append, List.length_cons, List.length_nil] at hlen
    omega

/-- Before any credential webhook there is no mapping, and the message goes under None. -/
theorem early_detail_stored_under_none : ¬ ∀ es, DetailsDelivered es := by
  intro h
  let asked : System := { start with fetches := [some ⟨.null, .str "c", detailOf "e"⟩] }
  have asks : step start (detail "e") = some asked := by decide +kernel
  obtain ⟨done, finishes, hdone⟩ : ∃ done, step asked (revocable 0) = some done ∧
      done.store ≠ Storage.empty := by
    have hchanged : (step asked (revocable 0)).all (fun done =>
        decide (done.store ≠ Storage.empty)) = true := by decide +kernel
    have hsome : (step asked (revocable 0)).isSome = true := by decide +kernel
    obtain ⟨done, hs⟩ := Option.isSome_iff_exists.mp hsome
    rw [hs] at hchanged
    exact ⟨done, hs, of_decide_eq_true hchanged⟩
  let p : Processed [detail "e", revocable 0] := {
    before := [], topic := "issue_credential_v2_0_anoncreds".toList, message := detailOf "e"
    between := [], respStatus := 200
    respText := "\x7b\"cred_rev_id\": \"1\", \"rev_reg_id\": \"r\"\x7d".toList
    received := start, asked := asked, answered := asked, done := done
    detail := by decide +kernel
    performed := List.prefix_rfl
    receives := .nil, asks := asks, requests := by decide, waits := .nil, finishes := finishes }
  have hnamed : (exchangeOf (detailOf "e")).bind (fun exchange => namedThread exchange []) =
      none := by decide +kernel
  exact hdone ((h [detail "e", revocable 0]).unchanged p (.inl hnamed))

end AgentTestHarness.AnoncredsDetails
