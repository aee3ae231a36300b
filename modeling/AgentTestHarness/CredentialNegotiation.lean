import AgentTestHarness.ForeignCredentialMessages

/-! Rounds of proposals and offers on a thread whose messages all come from one connection: when
a processed message brings the exchange into the state that belongs to it. -/
namespace AgentTestHarness.CredentialNegotiation
open PyText OrderedDict CredentialExchanges ForeignCredentialMessages Runs

section

variable (getByThreadId : List CredentialRecord → Text → Option CredentialRecord)
  (readOffer : Text → Option OfferData)

/-- The only record of a thread is found. -/
def FindsOnly : Prop :=
  ∀ records threadId record, (records.filter fun r => r.lastThreadId = threadId) = [record] →
    getByThreadId records threadId = some record

/-- The exchange cached for the thread is in the state, and its record carries the data. -/
def Carries (b : Backchannel) (thread : Text) (state : ExchangeState)
    (data : CredentialRecord → Prop) : Prop :=
  ∃ x, b.cached thread = some x ∧ x.state = state ∧
    ∃ r ∈ b.records, r.id = x.recordId ∧ data r

/-- A message that is processed brings its state and its data. -/
def Restores (b : Backchannel) : CredentialExchanges.Event → Prop
  | .message (.propose connection newId (some m)) =>
    (processPropose getByThreadId b connection newId m).1 = .processed →
      Carries (processPropose getByThreadId b connection newId m).2 m.threadId .proposalReceived
        fun r => r.credentialDefinitionId = m.credentialDefinitionId ∧ r.schemaId = m.schemaId ∧
          some r.credentialAttributesValues = attributesValues m.credentialProposal
  | .message (.offer connection newId (some m)) =>
    (processOffer getByThreadId readOffer b connection newId m).1 = .processed →
      Carries (processOffer getByThreadId readOffer b connection newId m).2 m.threadId
        .offerReceived fun r => ∃ offer, readAttachment readOffer m = some offer ∧
          r.offerJson = some offer.offerJson ∧ r.credentialDefinitionId = offer.definitionId ∧
          r.schemaId = offer.schemaId ∧
          some r.credentialAttributesValues = attributesValues m.credentialPreview
  | _ => True

/-- A proposal comes where no exchange is cached, or one that is in its state already. An offer
may also come where the exchange still waits for one. -/
def Fits (b : Backchannel) : CredentialExchanges.Event → Prop
  | .message (.propose _ _ (some m)) =>
    attributesValues m.credentialProposal ≠ none →
      ∀ x, b.cached m.threadId = some x → x.state = .proposalReceived
  | .message (.offer _ _ (some m)) =>
    readAttachment readOffer m ≠ none → attributesValues m.credentialPreview ≠ none →
      ∀ i, lookup m.threadId b.credentialCache = some i → ∀ x, b.exchanges[i]? = some x →
        x.state = .offerReceived ∨
          ∃ sub ∈ b.subscriptions, sub.exchange = i ∧ sub.messageType = .offer
  | _ => True

instance (b : Backchannel) : ∀ e, Decidable (Fits readOffer b e)
  | .message (.propose _ _ (some m)) => inferInstanceAs (Decidable
      (_ → ∀ x ∈ b.cached m.threadId, x.state = .proposalReceived))
  | .message (.offer _ _ (some m)) => inferInstanceAs (Decidable
      (_ → _ → ∀ i ∈ lookup m.threadId b.credentialCache, ∀ x ∈ b.exchanges[i]?,
        x.state = .offerReceived ∨
          ∃ sub ∈ b.subscriptions, sub.exchange = i ∧ sub.messageType = .offer))
  | .message (.propose _ _ none) => .isTrue trivial
  | .message (.offer _ _ none) => .isTrue trivial
  | .sendProposal _ _ _ _ _ _ => .isTrue trivial
  | .startOffer _ => .isTrue trivial
  | .sendOffer _ _ _ => .isTrue trivial

/-- All messages of a thread come on its connection, which is also that of its record. -/
def OneConnection (connectionOf : Text → Text) : CredentialExchanges.Event → Prop
  | .message m => ∀ t, threadId m = some t → connection m = some (connectionOf t)
  | .sendProposal t _ connectionId _ _ _ => connectionId = connectionOf t
  | .startOffer record => record.connectionId = some (connectionOf record.lastThreadId)
  | .sendOffer _ _ _ => True

end

variable {getByThreadId : List CredentialRecord → Text → Option CredentialRecord}
  {readOffer : Text → Option OfferData} {connectionOf : Text → Text}

/-- What an update keeps of a record. -/
def key (r : CredentialRecord) : Text × Text × Option Text :=
  (r.id, r.lastThreadId, r.connectionId)

/-- The cache, the exchanges and the records match. -/
structure Matched (connectionOf : Text → Text) (b : Backchannel) : Prop where
  exchange : ∀ t i, lookup t b.credentialCache = some i →
    ∃ id, (b.exchanges.map identity)[i]? = some (t, id) ∧
      (id, t, some (connectionOf t)) ∈ b.records.map key
  ids : ((b.records.map key).map Prod.fst).Nodup
  threads : ((b.records.map key).map fun k => k.2.1).Nodup
  held : ∀ k ∈ b.records.map key, k.2.1 ∈ b.credentialCache.map Prod.fst
  offers : ∀ sub ∈ b.subscriptions, sub.messageType ≠ .propose ∧
    (sub.messageType = .offer → sub.nextState = .offerReceived)

theorem matched_start : Matched connectionOf start where
  exchange t i hi := absurd hi (by simp [start])
  ids := List.nodup_nil
  threads := List.nodup_nil
  held k hk := absurd hk (by simp [start])
  offers sub hsub := absurd hsub (by simp [start])

theorem Matched.congr {b c : Backchannel} (h : Matched connectionOf b)
    (hcache : c.credentialCache = b.credentialCache)
    (hexchanges : c.exchanges.map identity = b.exchanges.map identity)
    (hrecords : c.records.map key = b.records.map key)
    (hsubs : ∀ sub ∈ c.subscriptions, sub ∈ b.subscriptions) : Matched connectionOf c where
  exchange := by
    rw [hcache, hexchanges, hrecords]
    exact h.exchange
  ids := hrecords ▸ h.ids
  threads := hrecords ▸ h.threads
  held := by
    rw [hcache, hrecords]
    exact h.held
  offers sub hsub := h.offers sub (hsubs sub hsub)

theorem Matched.subscribe {b : Backchannel} (h : Matched connectionOf b) (i : ℕ)
    {nextState : ExchangeState} {messageType : MessageType} (hp : messageType ≠ .propose)
    (ho : messageType = .offer → nextState = .offerReceived) :
    Matched connectionOf (b.subscribe i nextState messageType) :=
  { h with
    offers := by
      intro sub hsub
      rcases List.mem_append.mp hsub with hsub | hsub
      · exact h.offers sub hsub
      · obtain rfl := List.mem_singleton.mp hsub
        exact ⟨hp, ho⟩ }

/-- An update of a record keeps its key. -/
theorem map_key_update {b : Backchannel} (ids : ((b.records.map key).map Prod.fst).Nodup)
    {record : CredentialRecord} (hmem : key record ∈ b.records.map key) :
    (b.update record).records.map key = b.records.map key := by
  rw [Backchannel.update, List.map_map]
  refine List.map_congr_left fun r hr => ?_
  rw [Function.comp_apply]
  split
  · next hid =>
    have hkey := List.inj_on_of_nodup_map ids hmem (List.mem_map_of_mem hr) hid.symm
    exact hkey
  · rfl

theorem Matched.update {b : Backchannel} (h : Matched connectionOf b)
    (record : CredentialRecord) (hmem : key record ∈ b.records.map key) :
    Matched connectionOf (b.update record) :=
  h.congr rfl rfl (map_key_update h.ids hmem) fun _ => id

theorem Matched.publish {b : Backchannel} (h : Matched connectionOf b)
    (messageType : MessageType) (t : Text) : Matched connectionOf (b.publish messageType t) :=
  h.congr rfl (map_publish identity (fun _ _ => rfl) b messageType t) rfl
    fun _ hsub => List.mem_of_mem_filter hsub

theorem Matched.setExchange {b : Backchannel} (h : Matched connectionOf b)
    (record : CredentialRecord) (state : ExchangeState) (unused : Unused b record.id)
    (unusedThread : UnusedThread b record.lastThreadId)
    (hconnection : record.connectionId = some (connectionOf record.lastThreadId)) :
    Matched connectionOf (b.setExchange record state) where
  exchange t i hi := by
    have hi' : lookup t (assign record.lastThreadId b.exchanges.length b.credentialCache) =
        some i := hi
    simp only [Backchannel.setExchange, List.map_append, List.mem_append]
    rw [lookup_assign] at hi'
    split at hi'
    · next ht =>
      obtain rfl := Option.some.inj hi'
      refine ⟨record.id, ?_, .inr ?_⟩
      · simp [identity, ht]
      · simp [key, hconnection, ht]
    · obtain ⟨id, hid, hrecord⟩ := h.exchange t i hi'
      refine ⟨id, ?_, .inl hrecord⟩
      rw [List.getElem?_append_left (List.getElem?_eq_some_iff.mp hid).1]
      exact hid
  ids := by
    simp only [Backchannel.setExchange, List.map_append]
    refine List.nodup_append'.mpr ⟨h.ids, List.nodup_singleton _, ?_⟩
    refine List.disjoint_singleton.mpr fun hmem => unused.1 ?_
    simpa [key, Function.comp_def] using hmem
  threads := by
    simp only [Backchannel.setExchange, List.map_append]
    refine List.nodup_append'.mpr ⟨h.threads, List.nodup_singleton _, ?_⟩
    refine List.disjoint_singleton.mpr fun hmem => unusedThread.2 ?_
    simpa [key, Function.comp_def] using hmem
  held k hk := by
    simp only [Backchannel.setExchange, List.map_append, List.mem_append] at hk
    rw [Backchannel.setExchange, keys_assign, if_neg unusedThread.1, List.mem_append]
    rcases hk with hk | hk
    · exact .inl (h.held k hk)
    · rw [List.mem_singleton.mp hk]
      exact .inr List.mem_cons_self
  offers := h.offers

theorem filter_eq_singleton {α β : Type} [DecidableEq β] {f : α → β} {xs : List α}
    (h : (xs.map f).Nodup) {x : α} (hx : x ∈ xs) : (xs.filter fun y => f y = f x) = [x] := by
  induction xs with
  | nil => simp at hx
  | cons y ys ih =>
    obtain ⟨hnot, hnodup⟩ := List.nodup_cons.mp (List.map_cons ▸ h)
    rcases List.mem_cons.mp hx with rfl | hx
    · rw [List.filter_cons_of_pos (by simp), List.filter_eq_nil_iff.mpr]
      intro y hy heq
      exact hnot (List.mem_map.mpr ⟨y, hy, of_decide_eq_true heq⟩)
    · rw [List.filter_cons_of_neg, ih hnodup hx]
      intro heq
      exact hnot (List.mem_map.mpr ⟨x, hx, (of_decide_eq_true heq).symm⟩)

/-! On a thread in the cache both kinds of message find its record, on another thread neither. -/

theorem Matched.found {b : Backchannel} (h : Matched connectionOf b)
    (hfind : FindsOnly getByThreadId) {t : Text} {i : ℕ}
    (hi : lookup t b.credentialCache = some i) :
    ∃ x r, b.exchanges[i]? = some x ∧ x.threadId = t ∧ r ∈ b.records ∧ r.id = x.recordId ∧
      r.lastThreadId = t ∧ r.connectionId = some (connectionOf t) ∧
      getByThreadId b.records t = some r := by
  obtain ⟨id, hget, hkey⟩ := h.exchange t i hi
  rw [List.getElem?_map] at hget
  obtain ⟨x, hx, hidentity⟩ := Option.map_eq_some_iff.mp hget
  obtain ⟨rfl, rfl⟩ := Prod.mk.inj hidentity
  obtain ⟨r, hr, hrkey⟩ := List.mem_map.mp hkey
  obtain ⟨hrid, hrest⟩ := Prod.mk.inj hrkey
  obtain ⟨hthread, hconnection⟩ := Prod.mk.inj hrest
  refine ⟨x, r, hx, rfl, hr, hrid, hthread, hconnection, ?_⟩
  have hthreads := h.threads
  rw [List.map_map] at hthreads
  rw [← hthread]
  exact hfind b.records _ r (filter_eq_singleton hthreads hr)

theorem Matched.unheld {b : Backchannel} (h : Matched connectionOf b)
    (hget : FindsThread getByThreadId) {t : Text} (hnone : lookup t b.credentialCache = none) :
    UnusedThread b t ∧ getByThreadId b.records t = none := by
  have hcache := lookup_eq_none_iff.mp hnone
  have hrecords : t ∉ b.records.map CredentialRecord.lastThreadId := by
    intro hmem
    obtain ⟨r, hr, rfl⟩ := List.mem_map.mp hmem
    exact hcache (h.held _ (List.mem_map_of_mem hr))
  refine ⟨⟨hcache, hrecords⟩, Option.eq_none_iff_forall_ne_some.mpr fun r hr => ?_⟩
  obtain ⟨hmem, rfl⟩ := hget _ _ _ hr
  exact hrecords (List.mem_map_of_mem hmem)

theorem Matched.connection {b : Backchannel} (h : Matched connectionOf b)
    (hfind : FindsOnly getByThreadId) (hget : FindsThread getByThreadId) {t : Text}
    {r : CredentialRecord} (hr : getByThreadId b.records t = some r) :
    r.connectionId = some (connectionOf t) := by
  cases hlookup : lookup t b.credentialCache with
  | none => exact absurd (hr.symm.trans (h.unheld hget hlookup).2) (by simp)
  | some i =>
    obtain ⟨x, r', -, -, -, -, -, hconnection, hfound⟩ := h.found hfind hlookup
    rw [hfound] at hr
    exact Option.some.inj hr ▸ hconnection

theorem Matched.offeredRecord_eq {b : Backchannel} (h : Matched connectionOf b)
    (hfind : FindsOnly getByThreadId) (hget : FindsThread getByThreadId) (t : Text) :
    offeredRecord getByThreadId b (some (connectionOf t)) t = getByThreadId b.records t := by
  rw [offeredRecord, Option.bind_some]
  cases hr : getByThreadId b.records t with
  | none => rfl
  | some r => exact Option.filter_some_pos (by simpa using h.connection hfind hget hr)

theorem Matched.proposedRecord_eq {b : Backchannel} (h : Matched connectionOf b)
    (hfind : FindsOnly getByThreadId) (hget : FindsThread getByThreadId) (t : Text) :
    proposedRecord getByThreadId b (some (connectionOf t)) t = getByThreadId b.records t := by
  rw [proposedRecord, Backchannel.cached]
  cases hlookup : lookup t b.credentialCache with
  | none => exact (h.unheld hget hlookup).2.symm
  | some i =>
    obtain ⟨x, -, hx, rfl, -⟩ := h.found hfind hlookup
    rw [Option.bind_some, hx, Option.bind_some]
    cases hr : getByThreadId b.records x.threadId with
    | none => rfl
    | some r => exact Option.filter_some_pos (by simpa [eq_comm] using h.connection hfind hget hr)

/-- The exchange of the record that a message is about: the one in the cache, or a new one. -/
structure Prepared (b c : Backchannel) (record : CredentialRecord) (t : Text)
    (state : ExchangeState) (i : ℕ) (x : Exchange) : Prop where
  cache : lookup t c.credentialCache = some i
  exchange : c.exchanges[i]? = some x
  thread : x.threadId = t
  recordId : x.recordId = record.id
  held : key record ∈ c.records.map key
  subscriptions : c.subscriptions = b.subscriptions
  before : lookup t b.credentialCache = none ∧ x.state = state ∨
    lookup t b.credentialCache = some i ∧ b.exchanges[i]? = some x

theorem Matched.recordFor {b : Backchannel} (h : Matched connectionOf b)
    (hfind : FindsOnly getByThreadId) (hget : FindsThread getByThreadId) {t newId : Text}
    (unused : Unused b newId) (role : Role) (state : ExchangeState) :
    ∃ record c i x, recordFor b (getByThreadId b.records t)
        (newRecord newId (some (connectionOf t)) role t) state = (record, c) ∧
      Matched connectionOf c ∧ Prepared b c record t state i x := by
  cases hlookup : lookup t b.credentialCache with
  | none =>
    obtain ⟨unusedThread, hnone⟩ := h.unheld hget hlookup
    refine ⟨newRecord newId (some (connectionOf t)) role t, _, b.exchanges.length,
      ⟨t, newId, state, none⟩, by rw [hnone, CredentialExchanges.recordFor],
      h.setExchange _ state unused unusedThread rfl, ?_, ?_, rfl, rfl, ?_, rfl, .inl ⟨hlookup, rfl⟩⟩
    · simp [Backchannel.setExchange, newRecord]
    · simp [Backchannel.setExchange, newRecord]
    · simp [Backchannel.setExchange]
  | some i =>
    obtain ⟨x, r, hx, hthread, hr, hid, -, -, hfound⟩ := h.found hfind hlookup
    refine ⟨r, b, i, x, by rw [hfound, CredentialExchanges.recordFor], h,
      hlookup, hx, hthread, hid.symm, List.mem_map_of_mem hr, rfl, .inr ⟨hlookup, hx⟩⟩

/-! What the update of the record and the published message make of the exchange. -/

theorem cached_publish {b : Backchannel} {t : Text} {i : ℕ} {x : Exchange}
    (hi : lookup t b.credentialCache = some i) (hx : b.exchanges[i]? = some x)
    (messageType : MessageType) :
    (b.publish messageType t).cached t =
      some (match (b.subscriptions.filter fun sub =>
        b.fires messageType t sub ∧ sub.exchange = i).getLast? with
      | some sub => { x with state := sub.nextState }
      | none => x) := by
  rw [Backchannel.cached, Backchannel.publish, hi, Option.bind_some, List.getElem?_mapIdx, hx]
  rfl

theorem Matched.cached_publish_propose {b : Backchannel} (h : Matched connectionOf b) {t : Text}
    {i : ℕ} {x : Exchange} (hi : lookup t b.credentialCache = some i)
    (hx : b.exchanges[i]? = some x) : (b.publish .propose t).cached t = some x := by
  have hnone : (b.subscriptions.filter fun sub =>
      b.fires .propose t sub ∧ sub.exchange = i) = [] := by
    refine List.filter_eq_nil_iff.mpr fun sub hsub => ?_
    simp [Backchannel.fires, (h.offers sub hsub).1]
  rw [cached_publish hi hx, hnone, List.getLast?_nil]

theorem Matched.cached_publish_offer {b : Backchannel} (h : Matched connectionOf b) {t : Text}
    {i : ℕ} {x : Exchange} (hi : lookup t b.credentialCache = some i)
    (hx : b.exchanges[i]? = some x) (hthread : x.threadId = t) :
    ∃ y, (b.publish .offer t).cached t = some y ∧ y.recordId = x.recordId ∧
      (y.state = .offerReceived ↔ x.state = .offerReceived ∨
        ∃ sub ∈ b.subscriptions, sub.exchange = i ∧ sub.messageType = .offer) := by
  rw [cached_publish hi hx]
  have hmem : ∀ sub, (sub ∈ b.subscriptions.filter fun sub =>
      b.fires .offer t sub ∧ sub.exchange = i) ↔
      sub ∈ b.subscriptions ∧ sub.exchange = i ∧ sub.messageType = .offer := by
    intro sub
    rw [List.mem_filter]
    constructor
    · rintro ⟨hsub, hfires⟩
      simp [Backchannel.fires] at hfires
      exact ⟨hsub, hfires.2, hfires.1.1⟩
    · rintro ⟨hsub, rfl, htype⟩
      simp [Backchannel.fires, hsub, htype, hx, hthread]
  cases hlast : (b.subscriptions.filter fun sub =>
      b.fires .offer t sub ∧ sub.exchange = i).getLast? with
  | some sub =>
    obtain ⟨hsub, hexchange, htype⟩ := (hmem sub).mp (List.mem_of_getLast? hlast)
    exact ⟨_, rfl, rfl, iff_of_true ((h.offers sub hsub).2 htype) (.inr ⟨sub, hsub, hexchange, htype⟩)⟩
  | none =>
    rw [List.getLast?_eq_none_iff] at hlast
    refine ⟨_, rfl, rfl, (or_iff_left ?_).symm⟩
    rintro ⟨sub, hsub⟩
    exact absurd (hlast ▸ (hmem sub).mpr hsub) List.not_mem_nil

theorem mem_update {b : Backchannel} {record : CredentialRecord}
    (h : key record ∈ b.records.map key) : record ∈ (b.update record).records := by
  obtain ⟨r, hr, hkey⟩ := List.mem_map.mp h
  refine List.mem_map.mpr ⟨r, hr, if_pos ?_⟩
  exact (Prod.mk.inj hkey).1

theorem carries_iff {b : Backchannel} {t : Text} {y : Exchange} (hy : b.cached t = some y)
    {record : CredentialRecord} (hmem : record ∈ b.records) (hid : record.id = y.recordId)
    {data : CredentialRecord → Prop} (hdata : data record) (state : ExchangeState) :
    Carries b t state data ↔ y.state = state := by
  constructor
  · rintro ⟨y', hy', hstate, -⟩
    rw [hy] at hy'
    exact Option.some.inj hy' ▸ hstate
  · intro hstate
    exact ⟨y, hy, hstate, record, hmem, hid, hdata⟩

/-- The record, with data, as the common end of both kinds of message stores it. -/
def stored (record : CredentialRecord) (values : Option (List Attribute)) : CredentialRecord :=
  { record with credentialAttributesValues := values, state := .offered }

theorem updateRecord_of_values {preview : Option Preview} {values : Option (List Attribute)}
    (hvalues : attributesValues preview = some values) (b : Backchannel)
    (record : CredentialRecord) (messageType : MessageType) (t : Text) :
    updateRecord b record preview messageType t =
      (.processed, (b.update (stored record values)).publish messageType t) := by
  rw [updateRecord, hvalues]
  rfl

theorem updateRecord_of_none {preview : Option Preview} (hvalues : attributesValues preview = none)
    (b : Backchannel) (record : CredentialRecord) (messageType : MessageType) (t : Text) :
    updateRecord b record preview messageType t = (.rejected, b) := by
  rw [updateRecord, hvalues]

theorem Matched.updateRecord {b : Backchannel} (h : Matched connectionOf b)
    {record : CredentialRecord} (hmem : key record ∈ b.records.map key)
    (preview : Option Preview) (messageType : MessageType) (t : Text) :
    Matched connectionOf (updateRecord b record preview messageType t).2 := by
  cases hvalues : attributesValues preview with
  | none =>
    rw [updateRecord_of_none hvalues]
    exact h
  | some values =>
    rw [updateRecord_of_values hvalues]
    exact (h.update (stored record values) hmem).publish messageType t

theorem Matched.processPropose {b : Backchannel} (h : Matched connectionOf b)
    (hfind : FindsOnly getByThreadId) (hget : FindsThread getByThreadId) {newId : Text}
    (unused : Unused b newId) (m : ProposeMessage) :
    Matched connectionOf
      (processPropose getByThreadId b (some (connectionOf m.threadId)) newId m).2 := by
  obtain ⟨record, c, i, x, heq, hc, prepared⟩ :=
    h.recordFor hfind hget unused .issuer .proposalReceived
  rw [CredentialExchanges.processPropose, h.proposedRecord_eq hfind hget, heq]
  exact hc.updateRecord (by exact prepared.held) _ _ _

theorem Matched.processOffer {b : Backchannel} (h : Matched connectionOf b)
    (hfind : FindsOnly getByThreadId) (hget : FindsThread getByThreadId) {newId : Text}
    (unused : Unused b newId) (m : OfferMessage) :
    Matched connectionOf
      (processOffer getByThreadId readOffer b (some (connectionOf m.threadId)) newId m).2 := by
  rw [CredentialExchanges.processOffer]
  cases readAttachment readOffer m with
  | none => exact h
  | some offer =>
    obtain ⟨record, c, i, x, heq, hc, prepared⟩ :=
      h.recordFor hfind hget unused .holder .offerReceived
    dsimp only
    rw [h.offeredRecord_eq hfind hget, heq]
    exact hc.updateRecord (by exact prepared.held) _ _ _

theorem Matched.sendOffer {b : Backchannel} (h : Matched connectionOf b) (t offerJson : Text)
    (schemaId : Option Text) : Matched connectionOf (sendOffer b t offerJson schemaId) := by
  unfold CredentialExchanges.sendOffer
  split
  · exact h
  · next i _ =>
    split
    · exact h
    · next x hx =>
      split
      · exact h
      · next record hrecord =>
        have hheld : key record ∈ b.records.map key :=
          List.mem_map_of_mem (List.mem_of_find?_eq_some hrecord)
        have hc := h.update { record with
          schemaId := schemaId, offerJson := some offerJson, state := .offered } hheld
        dsimp only
        split
        · exact hc
        · refine Matched.subscribe ?_ i (by simp) (by simp)
          exact hc.congr rfl (map_set_of_getElem? identity hx rfl) rfl fun _ => id

theorem Matched.step {b c : Backchannel} {e : CredentialExchanges.Event}
    (hfind : FindsOnly getByThreadId) (hget : FindsThread getByThreadId)
    (h : Matched connectionOf b) (one : OneConnection connectionOf e)
    (next : CredentialExchanges.step getByThreadId readOffer b e = some c) :
    Matched connectionOf c := by
  cases e with
  | message m =>
    rw [CredentialExchanges.step] at next
    split at next
    · next unused =>
      obtain rfl := Option.some.inj next
      cases m with
      | propose connection newId m =>
        cases m with
        | none => exact h
        | some m =>
          obtain rfl : connection = _ := one m.threadId rfl
          exact h.processPropose hfind hget unused m
      | offer connection newId m =>
        cases m with
        | none => exact h
        | some m =>
          obtain rfl : connection = _ := one m.threadId rfl
          exact h.processOffer hfind hget unused m
    · exact absurd next (by simp)
  | sendProposal t recordId connectionId attributes credentialDefinitionId schemaId =>
    rw [CredentialExchanges.step] at next
    split at next
    · next unused =>
      obtain rfl := Option.some.inj next
      exact (h.setExchange _ .proposalSent unused.1 unused.2 (congrArg some one)).subscribe _
        (by simp) fun _ => rfl
    · exact absurd next (by simp)
  | startOffer record =>
    rw [CredentialExchanges.step] at next
    split at next
    · next unused =>
      obtain rfl := Option.some.inj next
      exact (h.setExchange _ .offerSent unused.1 unused.2 one).subscribe _ (by simp) (by simp)
    · exact absurd next (by simp)
  | sendOffer t offerJson schemaId =>
    obtain rfl := Option.some.inj next
    exact h.sendOffer t offerJson schemaId

/-! When a message restores its state. -/

theorem restores_propose {b : Backchannel} (h : Matched connectionOf b)
    (hfind : FindsOnly getByThreadId) (hget : FindsThread getByThreadId) {newId : Text}
    (unused : Unused b newId) (m : ProposeMessage) :
    Restores getByThreadId readOffer b
        (.message (.propose (some (connectionOf m.threadId)) newId (some m))) ↔
      Fits readOffer b (.message (.propose (some (connectionOf m.threadId)) newId (some m))) := by
  obtain ⟨record, c, i, x, heq, hc, prepared⟩ :=
    h.recordFor hfind hget unused .issuer .proposalReceived
  rw [Restores, Fits, CredentialExchanges.processPropose, h.proposedRecord_eq hfind hget, heq]
  dsimp only
  cases hvalues : attributesValues m.credentialProposal with
  | none =>
    rw [updateRecord_of_none hvalues]
    simp
  | some values =>
    rw [updateRecord_of_values hvalues]
    have hheld := prepared.held
    have hcached := (hc.update (stored { record with
      credentialDefinitionId := m.credentialDefinitionId
      schemaId := m.schemaId } values) hheld).cached_publish_propose prepared.cache prepared.exchange
    rw [carries_iff hcached (mem_update hheld) prepared.recordId.symm
      (by exact ⟨rfl, rfl, rfl⟩)]
    rcases prepared.before with ⟨hnone, hstate⟩ | ⟨hlookup, hx⟩
    · simp [Backchannel.cached, hnone, hstate]
    · simp [Backchannel.cached, hlookup, hx]

theorem restores_offer {b : Backchannel} (h : Matched connectionOf b)
    (hfind : FindsOnly getByThreadId) (hget : FindsThread getByThreadId) {newId : Text}
    (unused : Unused b newId) (m : OfferMessage) :
    Restores getByThreadId readOffer b
        (.message (.offer (some (connectionOf m.threadId)) newId (some m))) ↔
      Fits readOffer b (.message (.offer (some (connectionOf m.threadId)) newId (some m))) := by
  obtain ⟨record, c, i, x, heq, hc, prepared⟩ :=
    h.recordFor hfind hget unused .holder .offerReceived
  rw [Restores, Fits, CredentialExchanges.processOffer]
  cases hread : readAttachment readOffer m with
  | none => simp
  | some offer =>
    dsimp only
    rw [h.offeredRecord_eq hfind hget, heq]
    dsimp only
    cases hvalues : attributesValues m.credentialPreview with
    | none =>
      rw [updateRecord_of_none hvalues]
      simp
    | some values =>
      rw [updateRecord_of_values hvalues]
      have hheld := prepared.held
      obtain ⟨y, hy, hid, hstate⟩ := (hc.update (stored { record with
        offerJson := some offer.offerJson
        credentialDefinitionId := offer.definitionId
        schemaId := offer.schemaId } values) hheld).cached_publish_offer prepared.cache
          prepared.exchange prepared.thread
      rw [carries_iff hy (mem_update hheld) (prepared.recordId.symm.trans hid.symm)
        (by exact ⟨offer, rfl, rfl, rfl, rfl, rfl⟩), hstate]
      have hsubs : (c.update (stored { record with
        offerJson := some offer.offerJson
        credentialDefinitionId := offer.definitionId
        schemaId := offer.schemaId } values)).subscriptions = b.subscriptions :=
        prepared.subscriptions
      rw [hsubs]
      rcases prepared.before with ⟨hnone, hnew⟩ | ⟨hlookup, hx⟩
      · simp [hnone, hnew]
      · simp [hlookup, hx]

/-- Every message that is processed restores its state just if every message fits. -/
theorem negotiation_restores_iff
    (getByThreadId : List CredentialRecord → Text → Option CredentialRecord)
    (readOffer : Text → Option OfferData) (hget : FindsThread getByThreadId)
    (hfind : FindsOnly getByThreadId) (connectionOf : Text → Text)
    (es : List CredentialExchanges.Event) (one : ∀ e ∈ es, OneConnection connectionOf e) :
    StepsMeet (CredentialExchanges.step getByThreadId readOffer) start
        (Restores getByThreadId readOffer) es ↔
      StepsMeet (CredentialExchanges.step getByThreadId readOffer) start (Fits readOffer) es := by
  refine stepsMeet_congr (I := Matched connectionOf) matched_start
    (fun h one next => h.step hfind hget one next) (fun {b e c} h one next => ?_) one
  cases e with
  | message m =>
    rw [CredentialExchanges.step] at next
    split at next
    · next unused =>
      cases m with
      | propose connection newId m =>
        cases m with
        | none => exact Iff.rfl
        | some m =>
          obtain rfl : connection = _ := one m.threadId rfl
          exact restores_propose h hfind hget unused m
      | offer connection newId m =>
        cases m with
        | none => exact Iff.rfl
        | some m =>
          obtain rfl : connection = _ := one m.threadId rfl
          exact restores_offer h hfind hget unused m
    · exact absurd next (by simp)
  | sendProposal t recordId connectionId attributes credentialDefinitionId schemaId => exact Iff.rfl
  | startOffer record => exact Iff.rfl
  | sendOffer t offerJson schemaId => exact Iff.rfl

theorem singleRecord_finds_only : FindsOnly singleRecord := by
  intro records threadId record h
  rw [singleRecord, h]

/-- An encoded offer that can be read. -/
def readable (encoded : Text) : Option OfferData :=
  if encoded = "encoded".toList then some ⟨"{}".toList, some "cd".toList, some "s".toList⟩
  else none

def degreeOffer : OfferMessage :=
  ⟨"u".toList, some [some ⟨some "libindy-cred-offer-0".toList, some "encoded".toList⟩],
    some (some [some ⟨some "name".toList, none, .str "Alice"⟩])⟩

/-- Two proposals come on a thread and are answered by an offer. On another thread a proposal is
sent, and two offers come. -/
def negotiated : List CredentialExchanges.Event :=
  [.message (.propose (some "a".toList) "r1".toList degree),
    .message (.propose (some "a".toList) "r2".toList degree),
    .sendOffer "t".toList "{}".toList (some "s".toList),
    .sendProposal "u".toList "r3".toList "a".toList [] (some "cd".toList) none,
    .message (.offer (some "a".toList) "r4".toList degreeOffer),
    .message (.offer (some "a".toList) "r5".toList degreeOffer)]

theorem negotiated_restores :
    StepsMeet (CredentialExchanges.step singleRecord readable) start
      (Restores singleRecord readable) negotiated := by
  have hconnection : ∀ e ∈ negotiated, OneConnection (fun _ => "a".toList) e := by
    simp [negotiated, OneConnection, connection]
  have hfits : StepsMeet (CredentialExchanges.step singleRecord readable) start (Fits readable)
      negotiated := stepsMeet_of_meets (by decide +kernel)
  exact (negotiation_restores_iff singleRecord readable singleRecord_finds singleRecord_finds_only
    (fun _ => "a".toList) negotiated hconnection).mpr hfits

/-- The proposal is answered by an offer, and another proposal comes. -/
def counterproposed : List CredentialExchanges.Event :=
  [.message (.propose (some "a".toList) "r1".toList degree),
    .sendOffer "t".toList "{}".toList (some "s".toList),
    .message (.propose (some "a".toList) "r2".toList degree)]

theorem second_proposal_keeps_offer_sent :
    ¬ ∀ (getByThreadId : List CredentialRecord → Text → Option CredentialRecord)
      (readOffer : Text → Option OfferData), FindsThread getByThreadId →
      FindsOnly getByThreadId → ∀ (connectionOf : Text → Text)
      (es : List CredentialExchanges.Event), (∀ e ∈ es, OneConnection connectionOf e) →
      StepsMeet (CredentialExchanges.step getByThreadId readOffer) start
        (Restores getByThreadId readOffer) es := by
  intro h
  have hrestores := h singleRecord (fun _ => none) singleRecord_finds singleRecord_finds_only
    (fun _ => "a".toList) counterproposed (by
      intro e he
      simp only [counterproposed, List.mem_cons, List.not_mem_nil, or_false] at he
      rcases he with rfl | rfl | rfl
      · intro t _
        rfl
      · trivial
      · intro t _
        rfl)
  obtain ⟨x, hx, hstate, -⟩ := hrestores
    (show counterproposed.take 2 ++ [.message (.propose (some "a".toList) "r2".toList degree)] <+:
      counterproposed from List.prefix_rfl) (run_of_exec rfl) rfl rfl
  have hsent := congrArg (Option.map Exchange.state) hx
  rw [Option.map_some, hstate] at hsent
  exact absurd hsent (by decide)

end AgentTestHarness.CredentialNegotiation
