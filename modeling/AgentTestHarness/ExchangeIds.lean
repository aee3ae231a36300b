import AgentTestHarness.PollAccounting

/-! The two-way mapping of thread ids and exchange ids that the webhook handlers record, against
the names under which the commands of each protocol ask for the exchange id. -/
namespace AgentTestHarness.ExchangeIds
open PyText OrderedDict PyJson Storage Webhooks ResponsePolls PollAccounting Runs

inductive Protocol
  | credentialV1
  | credentialV2
  | proofV1
  | proofV2
  deriving DecidableEq

namespace Protocol

def topic : Protocol → Text
  | .credentialV1 => "issue_credential".toList
  | .credentialV2 => "issue_credential_v2_0".toList
  | .proofV1 => "present_proof".toList
  | .proofV2 => "present_proof_v2_0".toList

def handle : Protocol → Json → Except PyError (List Push)
  | .credentialV1 => handleIssueCredential
  | .credentialV2 => handleIssueCredentialV20
  | .proofV1 => handlePresentProof
  | .proofV2 => handlePresentProofV20

/-- What the commands of the protocol pass to `swap_thread_id_for_exchange_id`. -/
def dataType : Protocol → Str
  | .credentialV1 => "credential-msg"
  | .credentialV2 => "credential-msg"
  | .proofV1 => "presentation-msg"
  | .proofV2 => "presentation-msg"

def exchIdName : Protocol → Str
  | .credentialV1 => "credential_exchange_id"
  | .credentialV2 => "cred_ex_id"
  | .proofV1 => "presentation_exchange_id"
  | .proofV2 => "pres_ex_id"

end Protocol

def receive (s : System) (w : Protocol × Json) : Option System :=
  step s (.webhook w.1.topic w.2)

/-- Equal as dictionary keys; texts are equal just if they are the same. -/
def Same (a b : Json) : Prop := ∃ key, a.asKey = .ok key ∧ b.asKey = .ok key

/-- Every payload carries its exchange id, and in each protocol the thread ids and the exchange
ids are paired one to one. -/
structure Paired (ws : List (Protocol × Json)) : Prop where
  carries : ∀ w ∈ ws, ∃ e, w.2.item w.1.exchIdName = .ok e
  oneToOne : ∀ w ∈ ws, ∀ v ∈ ws, w.1 = v.1 → ∀ t e t' e',
    w.2.item "thread_id" = .ok t → w.2.item w.1.exchIdName = .ok e →
    v.2.item "thread_id" = .ok t' → v.2.item v.1.exchIdName = .ok e' → (Same t t' ↔ Same e e')

/-- What a swap finds is recorded both ways, and the two mappings are inverse to each other. -/
structure Agrees (s : System) : Prop where
  swapped : ∀ (p : Protocol) threadId exId,
    swapThreadIdForExchangeId threadId p.dataType p.exchIdName 0 s.store = .returned (.ok exId) →
      (∃ e, getExchIdFromDataId p.dataType p.exchIdName (.str threadId) s.store = .ok e ∧
        Same e exId) ∧
      ∃ t, getDataIdFromExchId p.dataType p.exchIdName exId s.store = .ok t ∧
        Same t (.str threadId)
  forward : ∀ name key e, recorded s.store.dataToExchId name key = some e →
    ∃ k t, e.asKey = .ok k ∧ recorded s.store.exchToDataId name k = some t ∧ t.asKey = .ok key
  backward : ∀ name k t, recorded s.store.exchToDataId name k = some t →
    ∃ key e, t.asKey = .ok key ∧ recorded s.store.dataToExchId name key = some e ∧ e.asKey = .ok k

/-- A webhook that pushes nothing: of a deleted exchange, or without a thread. -/
def Ignored (m : Json) : Prop := isDeleted m = .ok true ∨ ∀ t, m.item "thread_id" ≠ .ok t

/-- A webhook that is ignored, or one of a credential that does not also carry the exchange id
name of the other credential protocol. The proof handlers record under each other's name. -/
def Harmless (w : Protocol × Json) : Prop :=
  Ignored w.2 ∨
    w.1 = .credentialV1 ∧ (∀ e, w.2.item Protocol.credentialV2.exchIdName ≠ .ok e) ∨
    w.1 = .credentialV2 ∧ (∀ e, w.2.item Protocol.credentialV1.exchIdName ≠ .ok e)

theorem handleWebhook_protocol (s : Store) (p : Protocol) (m : Json) :
    handleWebhook s p.topic m = (p.handle m).map .pushes := by
  cases p <;> rfl

/-! What a harmless webhook pushes. -/

/-- The push of a webhook of a credential protocol that carries no other protocol's name. -/
structure FromCredential (w : Protocol × Json) (p : Push) : Prop where
  protocol : w.1 = .credentialV1 ∨ w.1 = .credentialV2
  alone : ∀ q : Protocol, q.dataType = "credential-msg" → ∀ e,
    w.2.item q.exchIdName = .ok e → q = w.1
  data : p.data = w.2
  thread : w.2.item "thread_id" = .ok p.dataId
  name : p.exchIdName = some w.1.exchIdName
  type : p.dataType = "credential-msg" ∨ p.dataType = "revocation-registry-msg"

theorem not_ignored {m threadId : Json} (hid : m.item "thread_id" = .ok threadId)
    (hlive : isDeleted m = .ok false) : ¬ Ignored m := by
  rintro (hdeleted | hmissing)
  · cases hlive.symm.trans hdeleted
  · exact hmissing threadId hid

theorem fromCredential_of_handle {w : Protocol × Json} (harmless : Harmless w) {ps : List Push}
    (h : w.1.handle w.2 = .ok ps) : ∀ p ∈ ps, FromCredential w p := by
  obtain ⟨q, m⟩ := w
  have hcredential : (q = .credentialV1 ∨ q = .credentialV2) →
      (∀ r : Protocol, r.dataType = "credential-msg" → ∀ e, m.item r.exchIdName = .ok e → r = q ∨
        Ignored m) →
      pushCredential q.exchIdName m = .ok ps → ∀ p ∈ ps, FromCredential (q, m) p := by
    intro hq alone h
    obtain ⟨threadId, hid, ⟨-, rfl⟩ | ⟨hlive, hps⟩⟩ := pushCredential_cases h
    · exact fun p hp => absurd hp List.not_mem_nil
    · have alone' : ∀ r : Protocol, r.dataType = "credential-msg" → ∀ e,
          m.item r.exchIdName = .ok e → r = q := by
        intro r hr e he
        exact (alone r hr e he).resolve_right (not_ignored hid hlive)
      rcases hps with rfl | rfl
      · exact List.forall_mem_singleton.mpr ⟨hq, alone', rfl, hid, rfl, .inl rfl⟩
      · exact List.forall_mem_cons.mpr ⟨⟨hq, alone', rfl, hid, rfl, .inl rfl⟩,
          List.forall_mem_singleton.mpr ⟨hq, alone', rfl, hid, rfl, .inr rfl⟩⟩
  have hpresentation : ∀ name, Ignored m → pushPresentation name m = .ok ps →
      ∀ p ∈ ps, FromCredential (q, m) p := by
    intro name ignored h
    obtain ⟨threadId, hid, ⟨-, rfl⟩ | ⟨hlive, -⟩⟩ := pushPresentation_cases h
    · exact fun p hp => absurd hp List.not_mem_nil
    · exact absurd ignored (not_ignored hid hlive)
  cases q with
  | credentialV1 =>
    refine hcredential (.inl rfl) (fun r hr e he => ?_) h
    rcases harmless with hdeleted | ⟨-, hother⟩ | ⟨hq, -⟩
    · exact .inr hdeleted
    · cases r with
      | credentialV1 => exact .inl rfl
      | credentialV2 => exact absurd he (hother e)
      | proofV1 => exact absurd hr (by decide +kernel)
      | proofV2 => exact absurd hr (by decide +kernel)
    · cases hq
  | credentialV2 =>
    refine hcredential (.inr rfl) (fun r hr e he => ?_) h
    rcases harmless with hdeleted | ⟨hq, -⟩ | ⟨-, hother⟩
    · exact .inr hdeleted
    · cases hq
    · cases r with
      | credentialV1 => exact absurd he (hother e)
      | credentialV2 => exact .inl rfl
      | proofV1 => exact absurd hr (by decide +kernel)
      | proofV2 => exact absurd hr (by decide +kernel)
  | proofV1 =>
    refine hpresentation _ ?_ h
    rcases harmless with hdeleted | ⟨hq, -⟩ | ⟨hq, -⟩
    · exact hdeleted
    · cases hq
    · cases hq
  | proofV2 =>
    refine hpresentation _ ?_ h
    rcases harmless with hdeleted | ⟨hq, -⟩ | ⟨hq, -⟩
    · exact hdeleted
    · cases hq
    · cases hq

/-! What the pushes record. -/

def Records (p : Push) (name : Str) (key exId : Json) : Prop :=
  ∃ n, p.exchIdName = some n ∧ dataExchMappingName p.dataType n = name ∧
    p.dataId.asKey = .ok key ∧ p.data.item n = .ok exId

/-- The mappings hold what the pushes record, and something for everything they record. -/
structure Mapped (s : Store) (log : List Push) : Prop where
  forward : ∀ name key e, recorded s.dataToExchId name key = some e → ∃ p ∈ log,
    Records p name key e
  backward : ∀ name k t, recorded s.exchToDataId name k = some t → ∃ p ∈ log, ∃ key e,
    Records p name key e ∧ e.asKey = .ok k ∧ p.dataId = t
  covered : ∀ p ∈ log, ∀ name key e k, Records p name key e → e.asKey = .ok k →
    recorded s.dataToExchId name key ≠ none ∧ recorded s.exchToDataId name k ≠ none

theorem FromCredential.records {w : Protocol × Json} {p : Push} (h : FromCredential w p)
    {name : Str} {key exId : Json} (hr : Records p name key exId) :
    dataExchMappingName p.dataType w.1.exchIdName = name ∧ p.dataId.asKey = .ok key ∧
      w.2.item w.1.exchIdName = .ok exId := by
  obtain ⟨n, hn, hname, hkey, hitem⟩ := hr
  obtain rfl : w.1.exchIdName = n := Option.some.inj (h.name.symm.trans hn)
  exact ⟨hname, hkey, h.data ▸ hitem⟩

/-- The name of a mapping tells the credential protocol. -/
theorem protocol_of_mapping {p q : Protocol} {d e : Str}
    (hp : p = .credentialV1 ∨ p = .credentialV2) (hq : q = .credentialV1 ∨ q = .credentialV2)
    (hd : d = "credential-msg" ∨ d = "revocation-registry-msg")
    (he : e = "credential-msg" ∨ e = "revocation-registry-msg")
    (h : dataExchMappingName d p.exchIdName = dataExchMappingName e q.exchIdName) : p = q := by
  rcases hp with rfl | rfl <;> rcases hq with rfl | rfl
  · rfl
  · rcases hd with rfl | rfl <;> rcases he with rfl | rfl <;> exact absurd h (by decide +kernel)
  · rcases hd with rfl | rfl <;> rcases he with rfl | rfl <;> exact absurd h (by decide +kernel)
  · rfl

section Pairing

variable {ws : List (Protocol × Json)} (paired : Paired ws)
include paired

theorem records_oneToOne {w v : Protocol × Json} (hw : w ∈ ws) (hv : v ∈ ws) {p q : Push}
    (hp : FromCredential w p) (hq : FromCredential v q) {name : Str} {key e key' e' : Json}
    (hpr : Records p name key e) (hqr : Records q name key' e') : key = key' ↔ Same e e' := by
  obtain ⟨hname, hkey, hitem⟩ := hp.records hpr
  obtain ⟨hname', hkey', hitem'⟩ := hq.records hqr
  have hprotocol := protocol_of_mapping hp.protocol hq.protocol hp.type hq.type
    (hname.trans hname'.symm)
  have hsame : Same p.dataId q.dataId ↔ key = key' := by
    constructor
    · rintro ⟨k, hk, hk'⟩
      exact (Except.ok.inj (hkey.symm.trans hk)).trans (Except.ok.inj (hkey'.symm.trans hk')).symm
    · rintro rfl
      exact ⟨key, hkey, hkey'⟩
  rw [← hsame]
  exact paired.oneToOne w hw v hv hprotocol _ _ _ _ hp.thread hitem hq.thread hitem'

theorem exchKey_of_records {w : Protocol × Json} (hw : w ∈ ws) {p : Push}
    (hp : FromCredential w p) {name : Str} {key e : Json} (hr : Records p name key e) :
    ∃ k, e.asKey = .ok k := by
  obtain ⟨k, hk, -⟩ := (records_oneToOne paired hw hw hp hp hr hr).mp rfl
  exact ⟨k, hk⟩

theorem Mapped.push {s : Store} {log : List Push} (h : Mapped s log)
    (queued : ∀ d, s.Queued d) {w : Protocol × Json} (hw : w ∈ ws) {p : Push}
    (hp : FromCredential w p) :
    Mapped (pushResource p.dataId p.dataType p.data p.exchIdName s).2 (log ++ [p]) := by
  cases hkey : p.dataId.asKey with
  | error err =>
    rw [pushResource_of_unhashable hkey]
    refine ⟨fun name key e he => ?_, fun name k t ht => ?_, fun q hq name key e k hr he => ?_⟩
    · obtain ⟨q, hq, hr⟩ := h.forward name key e he
      exact ⟨q, List.mem_append_left _ hq, hr⟩
    · obtain ⟨q, hq, hr⟩ := h.backward name k t ht
      exact ⟨q, List.mem_append_left _ hq, hr⟩
    · rcases List.mem_append.mp hq with hq | hq
      · exact h.covered q hq name key e k hr he
      · obtain rfl := List.mem_singleton.mp hq
        obtain ⟨-, -, -, hk, -⟩ := hr
        rw [hkey] at hk
        cases hk
  | ok key =>
    obtain ⟨exId, hitem⟩ := paired.carries w hw
    have hrecords : Records p (dataExchMappingName p.dataType w.1.exchIdName) key exId :=
      ⟨_, hp.name, rfl, hkey, hp.data ▸ hitem⟩
    obtain ⟨k, hk⟩ := exchKey_of_records paired hw hp hrecords
    have hname : w.1.exchIdName ≠ [] := by
      rcases hp.protocol with he | he <;> rw [he] <;> decide +kernel
    obtain ⟨hforward, hbackward⟩ :=
      pushResource_mapping (queued p.dataType) hname hkey (hp.data ▸ hitem) hk
    rw [← hp.name] at hforward hbackward
    have hlast : p ∈ log ++ [p] := List.mem_append_right _ List.mem_cons_self
    refine ⟨fun name key' e he => ?_, fun name k' t ht => ?_,
      fun q hq name key' e k' hr he => ?_⟩
    · rw [hforward, recorded_setMapping] at he
      split at he
      · next heq =>
        obtain ⟨rfl, rfl⟩ := heq
        obtain rfl := Option.some.inj he
        exact ⟨p, hlast, hrecords⟩
      · obtain ⟨q, hq, hr⟩ := h.forward name key' e he
        exact ⟨q, List.mem_append_left _ hq, hr⟩
    · rw [hbackward, recorded_setMapping] at ht
      split at ht
      · next heq =>
        obtain ⟨rfl, rfl⟩ := heq
        exact ⟨p, hlast, key, exId, hrecords, hk, Option.some.inj ht⟩
      · obtain ⟨q, hq, hr⟩ := h.backward name k' t ht
        exact ⟨q, List.mem_append_left _ hq, hr⟩
    · rw [hforward, hbackward, recorded_setMapping, recorded_setMapping]
      rcases List.mem_append.mp hq with hq | hq
      · obtain ⟨hold, hold'⟩ := h.covered q hq name key' e k' hr he
        constructor
        · split
          · simp
          · exact hold
        · split
          · simp
          · exact hold'
      · obtain rfl := List.mem_singleton.mp hq
        obtain ⟨hn, hk', hi⟩ := hp.records hr
        obtain rfl : exId = e := Except.ok.inj (hitem.symm.trans hi)
        obtain rfl : key = key' := Except.ok.inj (hkey.symm.trans hk')
        obtain rfl : k = k' := Except.ok.inj (hk.symm.trans he)
        simp [hn]

/-- The log of pushes comes from harmless webhooks, and the mappings hold what it records. -/
structure Recording (ws : List (Protocol × Json)) (s : System) : Prop where
  balanced : Balanced s
  mapped : Mapped s.store s.pushes
  origin : ∀ p ∈ s.pushes, ∃ w ∈ ws, FromCredential w p

theorem Recording.forward {s : System} (h : Recording ws s) {name : Str} {key e : Json}
    (he : recorded s.store.dataToExchId name key = some e) :
    ∃ k t, e.asKey = .ok k ∧ recorded s.store.exchToDataId name k = some t ∧
      t.asKey = .ok key := by
  obtain ⟨p, hp, hr⟩ := h.mapped.forward name key e he
  obtain ⟨w, hw, hwp⟩ := h.origin p hp
  obtain ⟨k, hk⟩ := exchKey_of_records paired hw hwp hr
  obtain ⟨t, ht⟩ := Option.ne_none_iff_exists'.mp (h.mapped.covered p hp name key e k hr hk).2
  obtain ⟨q, hq, key', e', hr', hk', rfl⟩ := h.mapped.backward name k t ht
  obtain ⟨v, hv, hvq⟩ := h.origin q hq
  obtain rfl := (records_oneToOne paired hw hv hwp hvq hr hr').mpr ⟨k, hk, hk'⟩
  exact ⟨k, q.dataId, hk, ht, (hvq.records hr').2.1⟩

theorem Recording.backward {s : System} (h : Recording ws s) {name : Str} {k t : Json}
    (ht : recorded s.store.exchToDataId name k = some t) :
    ∃ key e, t.asKey = .ok key ∧ recorded s.store.dataToExchId name key = some e ∧
      e.asKey = .ok k := by
  obtain ⟨p, hp, key, e, hr, hk, rfl⟩ := h.mapped.backward name k t ht
  obtain ⟨w, hw, hwp⟩ := h.origin p hp
  obtain ⟨e', he'⟩ := Option.ne_none_iff_exists'.mp (h.mapped.covered p hp name key e k hr hk).1
  obtain ⟨q, hq, hr'⟩ := h.mapped.forward name key e' he'
  obtain ⟨v, hv, hvq⟩ := h.origin q hq
  obtain ⟨k', hke, hke'⟩ := (records_oneToOne paired hw hv hwp hvq hr hr').mp rfl
  obtain rfl : k' = k := Except.ok.inj (hke.symm.trans hk)
  exact ⟨key, e', (hwp.records hr).2.1, he', hke'⟩

omit paired in
theorem mem_queue_of_swap {s : Store} (queued : ∀ d, s.Queued d)
    {threadId dataType idTxt : Str} {timeout : ℕ} {exId : Json}
    (h : swapThreadIdForExchangeId threadId dataType idTxt timeout s = .returned (.ok exId)) :
    ∃ m ∈ s.queue (.str threadId) dataType, m.item idTxt = .ok exId := by
  unfold swapThreadIdForExchangeId at h
  split at h
  · cases h
  · have hget : getResource (.str threadId) dataType s =
        .ok ((s.slot (.str threadId) dataType).getD .null) := rfl
    rw [hget] at h
    dsimp only at h
    split at h
    · next e he =>
      split at h
      · cases h
      · obtain rfl : e = exId := by simpa using h
        obtain ⟨m, hm, hitem⟩ := bind_eq_ok he
        cases hs : s.slot (.str threadId) dataType with
        | none =>
          rw [hs] at hm
          cases hm
        | some v =>
          obtain ⟨ms, rfl⟩ := queued dataType _ v hs
          rw [hs] at hm
          cases ms with
          | nil => cases hm
          | cons m' ms =>
            obtain rfl : m' = m := Except.ok.inj hm
            exact ⟨m', by simp [Store.queue, hs], hitem⟩
    · cases h
    · cases h

theorem Recording.swapped {s : System} (h : Recording ws s) {p : Protocol} {threadId : Str}
    {exId : Json} (hswap : swapThreadIdForExchangeId threadId p.dataType p.exchIdName 0 s.store =
      .returned (.ok exId)) :
    (∃ e, getExchIdFromDataId p.dataType p.exchIdName (.str threadId) s.store = .ok e ∧
      Same e exId) ∧
    ∃ t, getDataIdFromExchId p.dataType p.exchIdName exId s.store = .ok t ∧
      Same t (.str threadId) := by
  have hthread : (Json.str threadId).asKey = .ok (.str threadId) := rfl
  obtain ⟨m, hm, hitem⟩ := mem_queue_of_swap h.balanced.queued hswap
  have hpushed : m ∈ s.pushedUnder (.str threadId) p.dataType := by
    rw [h.balanced.account]
    exact List.mem_append_right _ hm
  obtain ⟨q, hq, rfl⟩ := List.mem_map.mp hpushed
  obtain ⟨hq, hkey, htype⟩ : q ∈ s.pushes ∧ q.dataId.asKey = .ok (.str threadId) ∧
      q.dataType = p.dataType := by simpa using hq
  obtain ⟨w, hw, hwq⟩ := h.origin q hq
  have hcredential : p.dataType = "credential-msg" := by
    rcases hwq.type with ht | ht
    · exact htype.symm.trans ht
    · rw [htype] at ht
      cases p <;> exact absurd ht (by decide +kernel)
  have hprotocol := hwq.alone p hcredential exId (hwq.data ▸ hitem)
  have hr : Records q (dataExchMappingName p.dataType p.exchIdName) (.str threadId) exId :=
    ⟨_, hprotocol ▸ hwq.name, by rw [htype], hkey, hitem⟩
  obtain ⟨k, hk⟩ := exchKey_of_records paired hw hwq hr
  obtain ⟨hforward, hbackward⟩ := h.mapped.covered q hq _ _ _ k hr hk
  constructor
  · obtain ⟨e, he⟩ := Option.ne_none_iff_exists'.mp hforward
    obtain ⟨r, hr', hrr⟩ := h.mapped.forward _ _ e he
    obtain ⟨v, hv, hvr⟩ := h.origin r hr'
    exact ⟨e, readMapping_of_recorded hthread he,
      (records_oneToOne paired hv hw hvr hwq hrr hr).mp rfl⟩
  · obtain ⟨t, ht⟩ := Option.ne_none_iff_exists'.mp hbackward
    obtain ⟨key, e, htk, he, hek⟩ := h.backward paired ht
    obtain ⟨r, hr', hrr⟩ := h.mapped.forward _ _ e he
    obtain ⟨v, hv, hvr⟩ := h.origin r hr'
    obtain rfl := (records_oneToOne paired hv hw hvr hwq hrr hr).mpr ⟨k, hek, hk⟩
    exact ⟨t, readMapping_of_recorded hk ht, _, htk, hthread⟩

theorem Recording.receive {s t : System} (h : Recording ws s) {w : Protocol × Json}
    (hw : w ∈ ws) (harmless : Harmless w) (next : receive s w = some t) : Recording ws t := by
  cases hp : w.1.handle w.2 with
  | error e =>
    have hs : ExchangeIds.receive s w = some s := by
      simp [ExchangeIds.receive, step, handleWebhook_protocol, hp, Except.map]
    obtain rfl := Option.some.inj (hs.symm.trans next)
    exact h
  | ok ps =>
    have hs : ExchangeIds.receive s w = some (s.perform ps) := by
      simp [ExchangeIds.receive, step, handleWebhook_protocol, hp, Except.map]
    obtain rfl := Option.some.inj (hs.symm.trans next)
    have hfrom := fromCredential_of_handle harmless hp
    obtain ⟨-, hmapped, horigin⟩ := performPushes_rule
      (I := fun t log => (∀ d, t.Queued d) ∧ Mapped t log ∧ ∀ p ∈ log, ∃ w ∈ ws, FromCredential w p)
      ps (fun p hp t log h => by
        obtain ⟨hqueued, hmapped, horigin⟩ := h
        refine ⟨(pushResource_queue hqueued p).1, hmapped.push paired hqueued hw (hfrom p hp), ?_⟩
        exact List.forall_mem_append.mpr ⟨horigin, by simpa using ⟨w.1, w.2, hw, hfrom p hp⟩⟩)
      ⟨h.balanced.queued, h.mapped, h.origin⟩
    have hobjects : ∀ p ∈ ps, NonemptyObject p.data := fun p hp => by
      rw [(hfrom p hp).data]
      exact nonemptyObject_of_item (hfrom p hp).thread
    exact ⟨h.balanced.perform h.balanced.waiting hobjects, hmapped, horigin⟩

end Pairing

theorem start_recording (ws : List (Protocol × Json)) : Recording ws start where
  balanced := start_accounts.toBalanced
  mapped := ⟨by simp [start, recorded, Storage.empty], by simp [start, recorded, Storage.empty],
    by simp [start]⟩
  origin := by simp [start]

/-- While all webhooks are harmless, what the swaps find agrees with the recorded mapping in every
state reached. -/
theorem mapping_agrees_of_harmless (ws : List (Protocol × Json)) (paired : Paired ws)
    (meet : StepsMeet receive start (fun _ w => Harmless w) ws) :
    Throughout receive start Agrees ws := by
  intro before s hp run
  have h : Recording ws s := by
    induction run with
    | nil => exact start_recording ws
    | snoc prior next ih =>
      have hw := hp.subset (List.mem_append_right _ List.mem_cons_self)
      exact (ih ((List.prefix_append _ _).trans hp)).receive paired hw (meet hp prior next) next
  exact ⟨fun p threadId exId hswap => h.swapped paired hswap, fun _ _ _ he => h.forward paired he,
    fun _ _ _ ht => h.backward paired ht⟩

/-- A webhook of the exchange on a thread. -/
def webhook (p : Protocol) (t e : Str) : Protocol × Json :=
  (p, .obj [("thread_id", .str t), (p.exchIdName, .str e)])

theorem item_webhook (p : Protocol) (t e : Str) :
    (webhook p t e).2.item "thread_id" = .ok (.str t) ∧
      (webhook p t e).2.item p.exchIdName = .ok (.str e) := by
  cases p <;> exact ⟨rfl, rfl⟩

theorem same_str {x y : Str} : Same (.str x) (.str y) ↔ x = y := by
  constructor
  · rintro ⟨key, hx, hy⟩
    exact Json.str.inj (Except.ok.inj (hx.trans hy.symm))
  · rintro rfl
    exact ⟨.str x, rfl, rfl⟩

theorem paired_webhooks {es : List (Protocol × Str × Str)}
    (h : ∀ x ∈ es, ∀ y ∈ es, x.1 = y.1 → (x.2.1 = y.2.1 ↔ x.2.2 = y.2.2)) :
    Paired (es.map fun x => webhook x.1 x.2.1 x.2.2) := by
  refine ⟨List.forall_mem_map.mpr fun x _ => ⟨_, (item_webhook _ _ _).2⟩,
    List.forall_mem_map.mpr fun x hx => List.forall_mem_map.mpr fun y hy hp a b a' b'
      ha hb ha' hb' => ?_⟩
  obtain rfl := Except.ok.inj ((item_webhook _ _ _).1.symm.trans ha)
  obtain rfl := Except.ok.inj ((item_webhook _ _ _).2.symm.trans hb)
  obtain rfl := Except.ok.inj ((item_webhook _ _ _).1.symm.trans ha')
  obtain rfl := Except.ok.inj ((item_webhook _ _ _).2.symm.trans hb')
  rw [same_str, same_str]
  exact h x hx y hy hp

/-- Each credential protocol has an exchange on each of two threads, and one sends again. -/
def credentials : List (Protocol × Str × Str) :=
  [(.credentialV2, "t", "e"), (.credentialV1, "t", "f"), (.credentialV2, "u", "g"),
    (.credentialV1, "u", "h"), (.credentialV2, "t", "e")]

theorem credential_mapping_agrees :
    Throughout receive start Agrees (credentials.map fun x => webhook x.1 x.2.1 x.2.2) := by
  refine mapping_agrees_of_harmless _ (paired_webhooks (by decide +kernel)) ?_
  intro before w s t hp _ _
  obtain ⟨⟨p, t, e⟩, hx, rfl⟩ :=
    List.mem_map.mp (hp.subset (List.mem_append_right _ List.mem_cons_self))
  have hcredential : ∀ x ∈ credentials, x.1 = .credentialV1 ∨ x.1 = .credentialV2 := by decide
  rcases hcredential _ hx with hV1 | hV2
  · obtain rfl : p = .credentialV1 := hV1
    exact .inr (.inl ⟨rfl, nofun⟩)
  · obtain rfl : p = .credentialV2 := hV2
    exact .inr (.inr ⟨rfl, nofun⟩)

def proofRequestV1 : Json := .obj [("thread_id", .str "t"), ("presentation_exchange_id", .str "e")]

/-- A proof webhook's exchange id is found by the commands but not recorded under their name. -/
theorem proof_mapping_not_recorded :
    ¬ ∀ ws, Paired ws → Throughout receive start Agrees ws := by
  intro h
  obtain ⟨s, hs, hswap, hget⟩ : ∃ s, exec receive start [(.proofV1, proofRequestV1)] = some s ∧
      swapThreadIdForExchangeId "t" Protocol.proofV1.dataType Protocol.proofV1.exchIdName 0
        s.store = .returned (.ok (.str "e")) ∧
      getExchIdFromDataId Protocol.proofV1.dataType Protocol.proofV1.exchIdName (.str "t")
        s.store = .ok .null := by
    have hfinal : (exec receive start [(.proofV1, proofRequestV1)]).map (fun s =>
        (swapThreadIdForExchangeId "t" Protocol.proofV1.dataType Protocol.proofV1.exchIdName 0
          s.store, getExchIdFromDataId Protocol.proofV1.dataType Protocol.proofV1.exchIdName
            (.str "t") s.store)) = some (.returned (.ok (.str "e")), .ok .null) := by
      decide +kernel
    obtain ⟨s, hs, hpair⟩ := Option.map_eq_some_iff.mp hfinal
    exact ⟨s, hs, (Prod.mk.inj hpair).1, (Prod.mk.inj hpair).2⟩
  have paired : Paired [(.proofV1, proofRequestV1)] :=
    @paired_webhooks [(.proofV1, "t", "e")] (by decide +kernel)
  have agrees := h _ paired List.prefix_rfl (run_of_exec hs)
  obtain ⟨⟨e, he, key, hkey, hkey'⟩, -⟩ := agrees.swapped .proofV1 "t" (.str "e") hswap
  obtain rfl := Except.ok.inj (hget.symm.trans he)
  obtain rfl : Json.null = key := Except.ok.inj hkey
  cases hkey'

end AgentTestHarness.ExchangeIds
