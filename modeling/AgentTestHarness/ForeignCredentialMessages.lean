import AgentTestHarness.CredentialExchanges

/-! Proposals and offers that come on another connection than the record of their thread has: the
check of the connection only leads to the `catch` block, which begins the exchange anew. -/
namespace AgentTestHarness.ForeignCredentialMessages
open PyText OrderedDict CredentialExchanges Runs

/-- Besides negotiation, the framework and the other commands change the records, the
subscriptions and the states of the exchange objects. -/
inductive Event
  | negotiation (e : CredentialExchanges.Event)
  | elsewhere (records : List CredentialRecord) (exchanges : List Exchange)
      (subscriptions : List Subscription)
  deriving DecidableEq

def identity (x : Exchange) : Text × Text := (x.threadId, x.recordId)

section

variable (getByThreadId : List CredentialRecord → Text → Option CredentialRecord)
  (readOffer : Text → Option OfferData)

def step (b : Backchannel) : Event → Option Backchannel
  | .negotiation e => CredentialExchanges.step getByThreadId readOffer b e
  | .elsewhere records exchanges subscriptions =>
    if exchanges.map identity = b.exchanges.map identity then
      some { b with records := records, exchanges := exchanges, subscriptions := subscriptions }
    else none

/-- What is found is a record of the thread. -/
def FindsThread : Prop :=
  ∀ records threadId record, getByThreadId records threadId = some record →
    record ∈ records ∧ record.lastThreadId = threadId

def connection : Message → Option Text
  | .propose connection _ _ => connection
  | .offer connection _ _ => connection

def threadId : Message → Option Text
  | .propose _ _ m => m.map ProposeMessage.threadId
  | .offer _ _ m => m.map OfferMessage.threadId

/-- There is a record for the thread, and none with the connection. -/
def Foreign (b : Backchannel) (thread : Text) (connection : Option Text) : Prop :=
  (∃ r ∈ b.records, r.lastThreadId = thread) ∧
    ∀ r ∈ b.records, r.lastThreadId = thread → r.connectionId ≠ connection

/-- The message is rejected, and the exchange and the records of the thread are kept. -/
def RejectedUnchanged (b : Backchannel) (m : Message) (thread : Text) : Prop :=
  (process getByThreadId readOffer b m).1 = .rejected ∧
    (process getByThreadId readOffer b m).2.cached thread = b.cached thread ∧
    ∀ r ∈ b.records, r.lastThreadId = thread →
      r ∈ (process getByThreadId readOffer b m).2.records

/-- An offer without an attachment that can be read. -/
def UnreadableOffer : Message → Prop
  | .propose _ _ _ => False
  | .offer _ _ m => ∀ offer ∈ m, readAttachment readOffer offer = none

end

variable {getByThreadId : List CredentialRecord → Text → Option CredentialRecord}
  {readOffer : Text → Option OfferData}

/-! The cache has each exchange under its thread. -/

def CacheSound (b : Backchannel) : Prop :=
  ∀ t i, lookup t b.credentialCache = some i → (b.exchanges.map Exchange.threadId)[i]? = some t

theorem CacheSound.congr {b c : Backchannel} (h : CacheSound b)
    (hcache : c.credentialCache = b.credentialCache)
    (hexchanges : c.exchanges.map Exchange.threadId = b.exchanges.map Exchange.threadId) :
    CacheSound c := by
  unfold CacheSound
  rw [hcache, hexchanges]
  exact h

theorem CacheSound.cached {b : Backchannel} (h : CacheSound b) {t : Text} {x : Exchange}
    (hx : b.cached t = some x) : x.threadId = t := by
  obtain ⟨i, hi, hget⟩ := Option.bind_eq_some_iff.mp hx
  have := h t i hi
  rw [List.getElem?_map, hget] at this
  exact Option.some.inj this

/-- A published message changes nothing but states. -/
theorem map_publish {β : Type} (f : Exchange → β) (hf : ∀ x s, f { x with state := s } = f x)
    (b : Backchannel) (messageType : MessageType) (t : Text) :
    (b.publish messageType t).exchanges.map f = b.exchanges.map f := by
  refine List.ext_getElem? fun i => ?_
  simp only [Backchannel.publish, List.getElem?_map, List.getElem?_mapIdx]
  cases b.exchanges[i]? with
  | none => rfl
  | some x =>
    simp only [Option.map_some]
    split
    · rw [hf]
    · rfl

theorem CacheSound.setExchange {b : Backchannel} (h : CacheSound b) (record : CredentialRecord)
    (state : ExchangeState) : CacheSound (b.setExchange record state) := by
  intro t i hi
  have hi' : lookup t (assign record.lastThreadId b.exchanges.length b.credentialCache) =
      some i := hi
  rw [lookup_assign] at hi'
  simp only [Backchannel.setExchange, List.map_append]
  split at hi'
  · next ht =>
    obtain rfl := Option.some.inj hi'
    simp [ht]
  · have hold := h t i hi'
    rw [List.getElem?_append_left (List.getElem?_eq_some_iff.mp hold).1]
    exact hold

theorem CacheSound.publish {b : Backchannel} (h : CacheSound b) (messageType : MessageType)
    (t : Text) : CacheSound (b.publish messageType t) :=
  h.congr rfl (map_publish _ (fun _ _ => rfl) b messageType t)

theorem CacheSound.updateRecord {b : Backchannel} (h : CacheSound b) (record : CredentialRecord)
    (preview : Option Preview) (messageType : MessageType) (t : Text) :
    CacheSound (updateRecord b record preview messageType t).2 := by
  unfold CredentialExchanges.updateRecord
  split
  · exact h
  · exact CacheSound.publish (b := b.update _) h messageType t

theorem CacheSound.recordFor {b : Backchannel} (h : CacheSound b)
    (found : Option CredentialRecord) (new : CredentialRecord) (state : ExchangeState) :
    CacheSound (recordFor b found new state).2 := by
  cases found with
  | none => exact h.setExchange new state
  | some record => exact h

theorem CacheSound.process {b : Backchannel} (h : CacheSound b) (m : Message) :
    CacheSound (process getByThreadId readOffer b m).2 := by
  cases m with
  | propose connection newId m =>
    cases m with
    | none => exact h
    | some m => exact (h.recordFor _ _ _).updateRecord _ _ _ _
  | offer connection newId m =>
    cases m with
    | none => exact h
    | some m =>
      rw [CredentialExchanges.process, processOffer]
      split
      · exact h
      · exact (h.recordFor _ _ _).updateRecord _ _ _ _

theorem map_set_of_getElem? {α β : Type} (f : α → β) {xs : List α} {i : ℕ} {x y : α}
    (h : xs[i]? = some x) (hf : f y = f x) : (xs.set i y).map f = xs.map f := by
  refine List.ext_getElem? fun j => ?_
  rw [List.getElem?_map, List.getElem?_map, List.getElem?_set]
  split
  · next hij =>
    subst hij
    obtain ⟨hi, rfl⟩ := List.getElem?_eq_some_iff.mp h
    simp [hi, hf]
  · rfl

theorem CacheSound.sendOffer {b : Backchannel} (h : CacheSound b) (t offerJson : Text)
    (schemaId : Option Text) : CacheSound (sendOffer b t offerJson schemaId) := by
  unfold CredentialExchanges.sendOffer
  split
  · exact h
  · next i _ =>
    split
    · exact h
    · next x hx =>
      split
      · exact h
      · dsimp only
        split
        · exact h
        · refine h.congr rfl ?_
          exact map_set_of_getElem? Exchange.threadId hx rfl

theorem CacheSound.step {b c : Backchannel} {e : Event} (h : CacheSound b)
    (next : step getByThreadId readOffer b e = some c) : CacheSound c := by
  cases e with
  | elsewhere records exchanges subscriptions =>
    rw [ForeignCredentialMessages.step] at next
    split at next
    · next hidentity =>
      obtain rfl := Option.some.inj next
      refine h.congr rfl ?_
      have := congrArg (List.map Prod.fst) hidentity
      simpa [identity, Function.comp_def] using this
    · exact absurd next (by simp)
  | negotiation e =>
    rw [ForeignCredentialMessages.step] at next
    cases e with
    | message m =>
      rw [CredentialExchanges.step] at next
      split at next
      · obtain rfl := Option.some.inj next
        exact h.process m
      · exact absurd next (by simp)
    | sendProposal t recordId connectionId attributes credentialDefinitionId schemaId =>
      rw [CredentialExchanges.step] at next
      split at next
      · obtain rfl := Option.some.inj next
        exact h.setExchange _ _
      · exact absurd next (by simp)
    | startOffer record =>
      rw [CredentialExchanges.step] at next
      split at next
      · obtain rfl := Option.some.inj next
        exact h.setExchange _ _
      · exact absurd next (by simp)
    | sendOffer t offerJson schemaId =>
      obtain rfl := Option.some.inj next
      exact h.sendOffer t offerJson schemaId

/-! A foreign message begins a new exchange. -/

theorem proposedRecord_of_foreign (hget : FindsThread getByThreadId) {b : Backchannel}
    (h : CacheSound b) {t : Text} {c : Option Text} (foreign : Foreign b t c) :
    proposedRecord getByThreadId b c t = none := by
  unfold proposedRecord
  cases hx : b.cached t with
  | none => rfl
  | some x =>
    rw [Option.bind_some, h.cached hx]
    refine Option.filter_eq_none_iff.mpr fun r hr => ?_
    obtain ⟨hmem, ht⟩ := hget _ _ _ hr
    simpa [eq_comm] using foreign.2 r hmem ht

theorem offeredRecord_of_foreign (hget : FindsThread getByThreadId) {b : Backchannel}
    {t : Text} {c : Option Text} (foreign : Foreign b t c) :
    offeredRecord getByThreadId b c t = none := by
  cases c with
  | none => rfl
  | some c =>
    refine Option.filter_eq_none_iff.mpr fun r hr => ?_
    obtain ⟨hmem, ht⟩ := hget _ _ _ hr
    simpa using foreign.2 r hmem ht

/-- A new exchange stays in the cache, with its own record. -/
theorem cached_updateRecord_setExchange (b : Backchannel) (new record : CredentialRecord)
    (state : ExchangeState) (preview : Option Preview) (messageType : MessageType) :
    ((updateRecord (b.setExchange new state) record preview messageType
      new.lastThreadId).2.cached new.lastThreadId).map Exchange.recordId = some new.id := by
  have hcached : ∀ c : Backchannel,
      c.credentialCache = (b.setExchange new state).credentialCache →
      c.exchanges.map Exchange.recordId =
        (b.setExchange new state).exchanges.map Exchange.recordId →
      (c.cached new.lastThreadId).map Exchange.recordId = some new.id := by
    intro c hcache hexchanges
    have hlast : (c.exchanges.map Exchange.recordId)[b.exchanges.length]? = some new.id := by
      rw [hexchanges]
      simp [Backchannel.setExchange]
    rw [Backchannel.cached, hcache, Backchannel.setExchange, lookup_assign_self,
      Option.bind_some, ← List.getElem?_map]
    exact hlast
  unfold updateRecord
  split
  · exact hcached _ rfl rfl
  · exact hcached _ rfl (map_publish _ (fun _ _ => rfl) _ messageType new.lastThreadId)

theorem changed_of_new {b c : Backchannel} {t newId : Text} (unused : Unused b newId)
    (hnew : (c.cached t).map Exchange.recordId = some newId) : c.cached t ≠ b.cached t := by
  intro heq
  rw [heq] at hnew
  obtain ⟨x, hx, hid⟩ := Option.map_eq_some_iff.mp hnew
  obtain ⟨i, -, hget⟩ := Option.bind_eq_some_iff.mp hx
  exact unused.2 (hid ▸ List.mem_map_of_mem (List.mem_of_getElem? hget))

/-- A foreign message is rejected and changes nothing just if it is an offer that cannot be
read. -/
theorem foreign_rejected_iff (getByThreadId : List CredentialRecord → Text → Option CredentialRecord)
    (readOffer : Text → Option OfferData) (hget : FindsThread getByThreadId)
    (es : List Event) (b : Backchannel) (run : Run (step getByThreadId readOffer) start es b)
    (m : Message) (unused : Unused b m.newId) (thread : Text) (hthread : threadId m = some thread)
    (foreign : Foreign b thread (connection m)) :
    RejectedUnchanged getByThreadId readOffer b m thread ↔ UnreadableOffer readOffer m := by
  have sound : CacheSound b := run.invariant (fun t i hi => absurd hi (by simp [start]))
    CacheSound.step
  cases m with
  | propose c newId m =>
    obtain ⟨m, rfl, rfl⟩ := Option.map_eq_some_iff.mp hthread
    have hnone : proposedRecord getByThreadId b c m.threadId = none :=
      proposedRecord_of_foreign hget sound foreign
    refine iff_of_false ?_ id
    rintro ⟨-, hkept, -⟩
    refine changed_of_new unused ?_ hkept
    rw [process, processPropose, hnone]
    exact cached_updateRecord_setExchange b (newRecord newId c .issuer m.threadId) _ _ _ _
  | offer c newId m =>
    obtain ⟨m, rfl, rfl⟩ := Option.map_eq_some_iff.mp hthread
    cases hread : readAttachment readOffer m with
    | none =>
      have hprocess : process getByThreadId readOffer b (.offer c newId (some m)) =
          (.rejected, b) := by
        rw [process, processOffer, hread]
      refine iff_of_true ?_ fun offer hoffer => Option.some.inj hoffer ▸ hread
      rw [RejectedUnchanged, hprocess]
      exact ⟨rfl, rfl, fun r hr _ => hr⟩
    | some offer =>
      have hnone : offeredRecord getByThreadId b c m.threadId = none :=
        offeredRecord_of_foreign hget foreign
      refine iff_of_false ?_ fun hun => ?_
      · rintro ⟨-, hkept, -⟩
        refine changed_of_new unused ?_ hkept
        rw [process, processOffer, hread]
        dsimp only
        rw [hnone]
        exact cached_updateRecord_setExchange b (newRecord newId c .holder m.threadId) _ _ _ _
      · rw [hun m rfl] at hread
        exact absurd hread (by simp)

/-- A lookup that throws if there is not just one record of the thread. -/
def singleRecord (records : List CredentialRecord) (thread : Text) : Option CredentialRecord :=
  match records.filter fun r => r.lastThreadId = thread with
  | [r] => some r
  | _ => none

theorem singleRecord_finds : FindsThread singleRecord := by
  intro records thread record h
  unfold singleRecord at h
  split at h
  · next r hr =>
    obtain rfl := Option.some.inj h
    have hmem : r ∈ records.filter fun r => r.lastThreadId = thread := by simp [hr]
    obtain ⟨hrecords, hthread⟩ := List.mem_filter.mp hmem
    exact ⟨hrecords, of_decide_eq_true hthread⟩
  · exact absurd h (by simp)

def degree : ProposeMessage :=
  ⟨"t".toList, some "cd".toList, some "s".toList,
    some (some [some ⟨some "name".toList, none, .str "Alice"⟩])⟩

/-- A proposal on the connection `a`. -/
def proposed : List Event := [.negotiation (.message (.propose (some "a".toList) "r1".toList degree))]

/-- Another proposal for its thread, on the connection `b`. -/
def takeover : Message :=
  .propose (some "b".toList) "r2".toList (some { degree with schemaId := some "other".toList })

theorem takeover_rejected_iff :
    ∃ b, exec (step singleRecord fun _ => none) start proposed = some b ∧
      (RejectedUnchanged singleRecord (fun _ => none) b takeover "t".toList ↔
        UnreadableOffer (fun _ => none) takeover) := by
  refine ⟨_, rfl, foreign_rejected_iff singleRecord (fun _ => none) singleRecord_finds proposed _
    (run_of_exec rfl) takeover (by decide) "t".toList rfl ?_⟩
  exact ⟨by decide, by decide⟩

theorem takeover_begins_anew :
    ¬ ∀ (getByThreadId : List CredentialRecord → Text → Option CredentialRecord)
      (readOffer : Text → Option OfferData), FindsThread getByThreadId →
      ∀ (es : List Event) (b : Backchannel), Run (step getByThreadId readOffer) start es b →
      ∀ m : Message, Unused b m.newId → ∀ thread : Text, threadId m = some thread →
        Foreign b thread (connection m) →
        RejectedUnchanged getByThreadId readOffer b m thread := by
  intro h
  obtain ⟨hrejected, -⟩ := h singleRecord (fun _ => none) singleRecord_finds proposed _
    (run_of_exec rfl) takeover (by decide) "t".toList rfl ⟨by decide, by decide⟩
  exact absurd hrejected (by decide)

end AgentTestHarness.ForeignCredentialMessages
