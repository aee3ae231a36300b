import AgentTestHarness.ProofRequests

/-! The credentials that the Credo backchannel presents. The command names a credential for each
requested attribute and predicate, and the controllers of both versions look it up among the
matches that the agent retrieved for the request. -/
namespace AgentTestHarness.PresentationSelection
open PyText OrderedDict PyJson ProofRequests

/-- What the command says of a requested attribute or predicate. -/
structure Requested where
  credId : Option Text
  deriving DecidableEq

structure PresentationData where
  selfAttestedAttributes : Option (Dict Str Str)
  requestedAttributes : Option (Dict Str Requested)
  requestedPredicates : Option (Dict Str Requested)
  comment : Option Json
  deriving DecidableEq

structure Match where
  credentialId : Text
  credentialInfo : Json
  deriving DecidableEq

structure IndyMatches where
  attributes : Dict Str (List Match)
  predicates : Dict Str (List Match)
  deriving DecidableEq

structure RetrievedCredentials where
  indy : Option IndyMatches
  deriving DecidableEq

/-- What `acceptRequest` is called with; a key without a value is mapped to undefined. -/
structure AcceptRequest where
  proofRecord : ProofExchangeRecord
  attributes : Dict Str (Option Match)
  predicates : Dict Str (Option Match)
  selfAttestedAttributes : Dict Str Str
  comment : Option Json
  deriving DecidableEq

def prototypeName : Str := "__proto__"

/-- What every object has without a member of its own. -/
def inheritedNames : List Str :=
  [prototypeName, "constructor", "hasOwnProperty", "isPrototypeOf", "propertyIsEnumerable",
    "toLocaleString", "toString", "valueOf", "__defineGetter__", "__defineSetter__",
    "__lookupGetter__", "__lookupSetter__"]

inductive Member
  | own (found : List Match)
  | inherited
  | undefined

/-- `lists[key]`. -/
def readKey (lists : Dict Str (List Match)) (key : Str) : Member :=
  match lists.get? key with
  | some found => .own found
  | none => if inheritedNames.contains key then .inherited else .undefined

/-- `selection[key] = value`; the prototype is set by an accessor and is no member. -/
def writeKey (selection : Dict Str (Option Match)) (key : Str) (value : Option Match) :
    Dict Str (Option Match) :=
  if key = prototypeName then selection else selection.set key value

def findCredential (found : List Match) (requested : Requested) : Option Match :=
  found.find? fun a => decide (some a.credentialId = requested.credId)

/-- No inherited value has a method `find`. -/
def attributeMatch (retrieved : RetrievedCredentials) (key : Str) (requested : Requested) :
    Except JsError (Option Match) :=
  match retrieved.indy with
  | none => .ok none
  | some indy => match readKey indy.attributes key with
    | .own found => .ok (findCredential found requested)
    | .inherited => .error .typeError
    | .undefined => .ok none

/-- Here the chaining is not optional behind the key. -/
def predicateMatch (retrieved : RetrievedCredentials) (key : Str) (requested : Requested) :
    Except JsError (Option Match) :=
  match retrieved.indy with
  | none => .ok none
  | some indy => match readKey indy.predicates key with
    | .own found => .ok (findCredential found requested)
    | .inherited => .error .typeError
    | .undefined => .error .typeError

/-- The loop over the keys of a record of the command, which may be left out. -/
def selectMatches (look : Str → Requested → Except JsError (Option Match))
    (requested : Option (Dict Str Requested)) : Except JsError (Dict Str (Option Match)) :=
  match requested with
  | none => .ok Dict.empty
  | some requested => requested.entries.foldlM (fun selection e => do
      let value ← look e.1 e.2
      .ok (writeKey selection e.1 value)) Dict.empty

/-- `sendPresentation` of both versions, up to its call of `acceptRequest`. -/
def sendPresentation (agent : Agent)
    (getCredentialsForRequest : ProofExchangeRecord → Except JsError RetrievedCredentials)
    (threadId : Option Json) (data : Option PresentationData) : Except JsError AcceptRequest :=
  if agent.waitForState threadId "request-received".toList then do
    match ← agent.getProofByThreadId threadId with
    | none => .error .typeError
    | some proofRecord => do
      let retrieved ← getCredentialsForRequest proofRecord
      match data with
      | none => .error .typeError
      | some data => do
        let attributes ← selectMatches (attributeMatch retrieved) data.requestedAttributes
        let predicates ← selectMatches (predicateMatch retrieved) data.requestedPredicates
        .ok ⟨proofRecord, attributes, predicates, Dict.empty, data.comment⟩
  else .error .timeout

/-! What the command asks for. -/

def asked {ν : Type} (record : Option (Dict Str ν)) (key : Str) : Option ν :=
  record.bind (·.get? key)

/-- The selection has exactly the keys asked for, each with a retrieved match for that key that
has the credential id given. -/
structure Chosen (requested : Option (Dict Str Requested)) (lists : Option (Dict Str (List Match)))
    (selection : Dict Str (Option Match)) : Prop where
  keys : ∀ key, key ∈ selection.keys ↔ (asked requested key).isSome
  matched : ∀ key r, asked requested key = some r → ∃ found m, asked lists key = some found ∧
    m ∈ found ∧ some m.credentialId = r.credId ∧ selection.get? key = some (some m)

/-- The selection that the command asks for, of the credentials retrieved. -/
structure Exact (data : PresentationData) (retrieved : RetrievedCredentials)
    (call : AcceptRequest) : Prop where
  attributes : Chosen data.requestedAttributes (retrieved.indy.map (·.attributes)) call.attributes
  predicates : Chosen data.requestedPredicates (retrieved.indy.map (·.predicates)) call.predicates
  selfAttested : ∀ key value, asked data.selfAttestedAttributes key = some value →
    call.selfAttestedAttributes.get? key = some value

/-- Whenever the command comes to its call, the call is exact. -/
def SendsExactly (agent : Agent)
    (getCredentialsForRequest : ProofExchangeRecord → Except JsError RetrievedCredentials)
    (threadId : Option Json) (data : Option PresentationData) : Prop :=
  ∀ call, sendPresentation agent getCredentialsForRequest threadId data = .ok call →
    ∃ record retrieved asked, agent.getProofByThreadId threadId = .ok (some record) ∧
      getCredentialsForRequest record = .ok retrieved ∧ data = some asked ∧
      call.proofRecord = record ∧ Exact asked retrieved call

/-- For each key there is a retrieved match with the credential id given. -/
def Matchable (requested : Option (Dict Str Requested))
    (lists : Option (Dict Str (List Match))) : Prop :=
  ∀ key r, asked requested key = some r → key ≠ prototypeName ∧
    ∃ found m, asked lists key = some found ∧ m ∈ found ∧ some m.credentialId = r.credId

/-- A key whose member is read but is not a list. -/
def Unreadable (requested : Option (Dict Str Requested)) (lists : Option (Dict Str (List Match)))
    (bad : Str → Prop) : Prop :=
  ∃ d key, lists = some d ∧ (asked requested key).isSome ∧ d.get? key = none ∧ bad key

/-- Either a key cannot be read, or every key has its match and nothing is self-attested. -/
def Answerable (data : PresentationData) (retrieved : RetrievedCredentials) : Prop :=
  (Unreadable data.requestedAttributes (retrieved.indy.map (·.attributes)) (· ∈ inheritedNames) ∨
      Unreadable data.requestedPredicates (retrieved.indy.map (·.predicates)) fun _ => True) ∨
    (∀ key, asked data.selfAttestedAttributes key = none) ∧
      Matchable data.requestedAttributes (retrieved.indy.map (·.attributes)) ∧
      Matchable data.requestedPredicates (retrieved.indy.map (·.predicates))

/-! The loop over the keys. -/

theorem writeKey_get? (selection : Dict Str (Option Match)) (key l : Str) (v : Option Match) :
    (writeKey selection l v).get? key =
      if key = l ∧ key ≠ prototypeName then some v else selection.get? key := by
  unfold writeKey
  split
  · next hl =>
    rw [if_neg]
    rintro ⟨rfl, hne⟩
    exact hne hl
  · next hl =>
    rw [Dict.get?_set]
    rcases eq_or_ne key l with rfl | hne
    · rw [if_pos rfl, if_pos ⟨rfl, hl⟩]
    · rw [if_neg hne, if_neg fun h => hne h.1]

/-- The loop looks every key up and writes what it finds. -/
theorem loop_get? {look : Str → Requested → Except JsError (Option Match)}
    {es : List (Str × Requested)} (nodup : (es.map Prod.fst).Nodup)
    {before selection : Dict Str (Option Match)}
    (h : es.foldlM (fun selection e => do
      let value ← look e.1 e.2
      .ok (writeKey selection e.1 value)) before = .ok selection) (key : Str) :
    (lookup key es = none → selection.get? key = before.get? key) ∧
      ∀ r, lookup key es = some r → ∃ v, look key r = .ok v ∧ selection.get? key =
        if key = prototypeName then before.get? key else some v := by
  induction es generalizing before with
  | nil =>
    obtain rfl := Except.ok.inj h
    exact ⟨fun _ => rfl, fun r hr => absurd hr (by simp)⟩
  | cons e es ih =>
    obtain ⟨hnot, hnodup⟩ := List.nodup_cons.mp nodup
    rw [List.foldlM_cons] at h
    obtain ⟨next, hnext, h⟩ := bind_eq_ok h
    obtain ⟨v, hv, hnext⟩ := bind_eq_ok hnext
    obtain rfl := Except.ok.inj hnext
    have hrest := ih hnodup h
    rw [writeKey_get?] at hrest
    obtain ⟨l, r⟩ := e
    rw [lookup_cons]
    rcases eq_or_ne l key with rfl | hne
    · have hnone : lookup l es = none := lookup_eq_none_iff.mpr hnot
      rw [if_pos rfl]
      refine ⟨fun h => absurd h (by simp), fun r' hr' => ?_⟩
      obtain rfl := Option.some.inj hr'
      refine ⟨v, hv, ?_⟩
      rw [hrest.1 hnone]
      rcases eq_or_ne l prototypeName with hp | hp
      · rw [if_pos hp, if_neg fun h => h.2 hp]
      · rw [if_neg hp, if_pos ⟨rfl, hp⟩]
    · rw [if_neg hne]
      rwa [if_neg fun h => hne h.1.symm] at hrest

theorem loop_ok {look : Str → Requested → Except JsError (Option Match)}
    {es : List (Str × Requested)} (h : ∀ e ∈ es, ∃ v, look e.1 e.2 = .ok v)
    (before : Dict Str (Option Match)) :
    ∃ selection, es.foldlM (fun selection e => do
      let value ← look e.1 e.2
      .ok (writeKey selection e.1 value)) before = .ok selection := by
  induction es generalizing before with
  | nil => exact ⟨before, rfl⟩
  | cons e es ih =>
    obtain ⟨v, hv⟩ := h e List.mem_cons_self
    obtain ⟨selection, hrest⟩ :=
      ih (fun e he => h e (List.mem_cons_of_mem _ he)) (writeKey before e.1 v)
    refine ⟨selection, ?_⟩
    rw [List.foldlM_cons, hv]
    exact hrest

theorem selectMatches_get? {look : Str → Requested → Except JsError (Option Match)}
    {requested : Option (Dict Str Requested)} {selection : Dict Str (Option Match)}
    (h : selectMatches look requested = .ok selection) (key : Str) :
    (asked requested key = none → selection.get? key = none) ∧
      ∀ r, asked requested key = some r → ∃ v, look key r = .ok v ∧ selection.get? key =
        if key = prototypeName then none else some v := by
  cases requested with
  | none =>
    obtain rfl := Except.ok.inj h
    exact ⟨fun _ => rfl, fun r hr => absurd hr (by simp [asked])⟩
  | some requested => exact loop_get? requested.nodup h key

theorem selectMatches_ok {look : Str → Requested → Except JsError (Option Match)}
    {requested : Option (Dict Str Requested)}
    (h : ∀ key r, asked requested key = some r → ∃ v, look key r = .ok v) :
    ∃ selection, selectMatches look requested = .ok selection := by
  cases requested with
  | none => exact ⟨Dict.empty, rfl⟩
  | some requested =>
    exact loop_ok (fun e he => h e.1 e.2 (lookup_of_mem requested.nodup he)) Dict.empty

/-- What both controllers' lookups have in common: they find a match with the credential id in
the list of the key, if there is one, and fail where the missing list matters. -/
structure LooksUp (look : Str → Requested → Except JsError (Option Match))
    (lists : Option (Dict Str (List Match))) (bad : Str → Prop) : Prop where
  found : ∀ {key r v}, look key r = .ok v → v = (asked lists key).bind (findCredential · r)
  fails : ∀ key r, (∃ v, look key r = .ok v) ↔
    ¬ ∃ d, lists = some d ∧ d.get? key = none ∧ bad key

theorem looksUp_attributeMatch (retrieved : RetrievedCredentials) :
    LooksUp (attributeMatch retrieved) (retrieved.indy.map (·.attributes)) (· ∈ inheritedNames) := by
  cases hindy : retrieved.indy with
  | none =>
    refine ⟨fun h => ?_, fun key r => ?_⟩
    · rw [attributeMatch, hindy] at h
      exact (Except.ok.inj h).symm
    · simp [attributeMatch, hindy]
  | some indy =>
    refine ⟨fun {key r v} h => ?_, fun key r => ?_⟩
    · rw [attributeMatch, hindy] at h
      cases hget : indy.attributes.get? key with
      | some found => simpa [readKey, hget, asked, eq_comm] using h
      | none =>
        by_cases hin : key ∈ inheritedNames
        · simp [readKey, hget, hin] at h
        · simpa [readKey, hget, hin, asked, eq_comm] using h
    · cases hget : indy.attributes.get? key with
      | some found => simp [attributeMatch, hindy, readKey, hget]
      | none =>
        by_cases hin : key ∈ inheritedNames
        · simp [attributeMatch, hindy, readKey, hget, hin]
        · simp [attributeMatch, hindy, readKey, hget, hin]

theorem looksUp_predicateMatch (retrieved : RetrievedCredentials) :
    LooksUp (predicateMatch retrieved) (retrieved.indy.map (·.predicates)) fun _ => True := by
  cases hindy : retrieved.indy with
  | none =>
    refine ⟨fun h => ?_, fun key r => ?_⟩
    · rw [predicateMatch, hindy] at h
      exact (Except.ok.inj h).symm
    · simp [predicateMatch, hindy]
  | some indy =>
    refine ⟨fun {key r v} h => ?_, fun key r => ?_⟩
    · rw [predicateMatch, hindy] at h
      cases hget : indy.predicates.get? key with
      | some found => simpa [readKey, hget, asked, eq_comm] using h
      | none => by_cases hin : key ∈ inheritedNames <;> simp [readKey, hget, hin] at h
    · cases hget : indy.predicates.get? key with
      | some found => simp [predicateMatch, hindy, readKey, hget]
      | none => by_cases hin : key ∈ inheritedNames <;>
          simp [predicateMatch, hindy, readKey, hget, hin]

theorem findCredential_eq_some {found : List Match} {r : Requested} :
    (∃ m, findCredential found r = some m) ↔ ∃ m ∈ found, some m.credentialId = r.credId := by
  rw [← Option.isSome_iff_exists, findCredential, List.find?_isSome]
  simp

/-- Where the loop has a result, it is what was asked for just when all keys have a match. -/
theorem chosen_iff {look : Str → Requested → Except JsError (Option Match)}
    {requested : Option (Dict Str Requested)} {lists : Option (Dict Str (List Match))}
    {bad : Str → Prop} {selection : Dict Str (Option Match)} (looks : LooksUp look lists bad)
    (h : selectMatches look requested = .ok selection) :
    Chosen requested lists selection ↔ Matchable requested lists := by
  constructor
  · intro chosen key r hr
    obtain ⟨found, m, hlist, hm, hid, hget⟩ := chosen.matched key r hr
    obtain ⟨v, -, hv⟩ := (selectMatches_get? h key).2 r hr
    refine ⟨fun hproto => ?_, found, m, hlist, hm, hid⟩
    rw [hv, if_pos hproto] at hget
    cases hget
  · intro matchable
    have hmatched : ∀ key r, asked requested key = some r → ∃ found m,
        asked lists key = some found ∧ m ∈ found ∧ some m.credentialId = r.credId ∧
          selection.get? key = some (some m) := by
      intro key r hr
      obtain ⟨hproto, found, m, hlist, hm, hid⟩ := matchable key r hr
      obtain ⟨v, hlook, hv⟩ := (selectMatches_get? h key).2 r hr
      rw [if_neg hproto, looks.found hlook, hlist, Option.bind_some] at hv
      obtain ⟨m', hfind⟩ := findCredential_eq_some.mpr ⟨m, hm, hid⟩
      have hid' : some m'.credentialId = r.credId := by simpa using List.find?_some hfind
      exact ⟨found, m', hlist, List.mem_of_find?_eq_some hfind,
        hid', hfind ▸ hv⟩
    refine ⟨fun key => ?_, hmatched⟩
    have hkey : key ∈ selection.keys ↔ selection.get? key ≠ none := by
      rw [ne_eq, Dict.get?_eq_none_iff, not_not]
    rw [hkey]
    cases hr : asked requested key with
    | none => simp [(selectMatches_get? h key).1 hr]
    | some r =>
      obtain ⟨-, m, -, -, -, hget⟩ := hmatched key r hr
      simp [hget]

theorem selectMatches_ok_iff {look : Str → Requested → Except JsError (Option Match)}
    {requested : Option (Dict Str Requested)} {lists : Option (Dict Str (List Match))}
    {bad : Str → Prop} (looks : LooksUp look lists bad) :
    (∃ selection, selectMatches look requested = .ok selection) ↔
      ¬ Unreadable requested lists bad := by
  constructor
  · rintro ⟨selection, h⟩ ⟨d, key, hlists, hasked, hget, hbad⟩
    obtain ⟨r, hr⟩ := Option.isSome_iff_exists.mp hasked
    obtain ⟨v, hv, -⟩ := (selectMatches_get? h key).2 r hr
    exact (looks.fails key r).mp ⟨v, hv⟩ ⟨d, hlists, hget, hbad⟩
  · intro readable
    refine selectMatches_ok fun key r hr => (looks.fails key r).mpr ?_
    rintro ⟨d, hlists, hget, hbad⟩
    exact readable ⟨d, key, hlists, Option.isSome_iff_exists.mpr ⟨r, hr⟩, hget, hbad⟩

/-- When the command comes to its call, and with what. -/
theorem sendPresentation_ok_iff {agent : Agent}
    {getCredentialsForRequest : ProofExchangeRecord → Except JsError RetrievedCredentials}
    {threadId : Option Json} {data : Option PresentationData} {call : AcceptRequest} :
    sendPresentation agent getCredentialsForRequest threadId data = .ok call ↔
      agent.waitForState threadId "request-received".toList = true ∧
      ∃ record retrieved given attributes predicates,
        agent.getProofByThreadId threadId = .ok (some record) ∧
        getCredentialsForRequest record = .ok retrieved ∧ data = some given ∧
        selectMatches (attributeMatch retrieved) given.requestedAttributes = .ok attributes ∧
        selectMatches (predicateMatch retrieved) given.requestedPredicates = .ok predicates ∧
        call = ⟨record, attributes, predicates, Dict.empty, given.comment⟩ := by
  constructor
  · intro hcall
    unfold sendPresentation at hcall
    split at hcall
    · next hwait =>
      obtain ⟨found, hrecord, hcall⟩ := bind_eq_ok hcall
      cases found with
      | none => cases hcall
      | some record =>
        obtain ⟨retrieved, hretrieved, hcall⟩ := bind_eq_ok hcall
        cases data with
        | none => cases hcall
        | some given =>
          obtain ⟨attributes, ha, hcall⟩ := bind_eq_ok hcall
          obtain ⟨predicates, hp, hcall⟩ := bind_eq_ok hcall
          exact ⟨hwait, record, retrieved, given, attributes, predicates, hrecord, hretrieved, rfl,
            ha, hp, (Except.ok.inj hcall).symm⟩
    · cases hcall
  · rintro ⟨hwait, record, retrieved, given, attributes, predicates, hrecord, hretrieved, rfl, ha,
      hp, rfl⟩
    rw [sendPresentation, if_pos hwait, hrecord]
    simp only [bind, Except.bind, hretrieved, ha, hp]

/-- The command sends what it was asked for just when a key cannot be read, so that it fails, or
every key has its match and no attribute is self-attested. -/
theorem sends_exactly_iff (agent : Agent)
    (getCredentialsForRequest : ProofExchangeRecord → Except JsError RetrievedCredentials)
    (threadId : Option Json) (data : Option PresentationData) :
    SendsExactly agent getCredentialsForRequest threadId data ↔
      ∀ record retrieved given, agent.waitForState threadId "request-received".toList = true →
        agent.getProofByThreadId threadId = .ok (some record) →
        getCredentialsForRequest record = .ok retrieved → data = some given →
        Answerable given retrieved := by
  constructor
  · intro exact_ record retrieved given hwait hrecord hretrieved hdata
    refine or_iff_not_imp_left.mpr fun readable => ?_
    obtain ⟨hattr, hpred⟩ := not_or.mp readable
    obtain ⟨attributes, ha⟩ := (selectMatches_ok_iff (looksUp_attributeMatch retrieved)).mpr hattr
    obtain ⟨predicates, hp⟩ := (selectMatches_ok_iff (looksUp_predicateMatch retrieved)).mpr hpred
    have hcall : sendPresentation agent getCredentialsForRequest threadId data =
        .ok ⟨record, attributes, predicates, Dict.empty, given.comment⟩ :=
      sendPresentation_ok_iff.mpr ⟨hwait, record, retrieved, given, attributes, predicates,
        hrecord, hretrieved, hdata, ha, hp, rfl⟩
    obtain ⟨record', retrieved', given', hrecord', hretrieved', hdata', -, hexact⟩ :=
      exact_ _ hcall
    obtain rfl := Option.some.inj (Except.ok.inj (hrecord.symm.trans hrecord'))
    obtain rfl := Except.ok.inj (hretrieved.symm.trans hretrieved')
    obtain rfl := Option.some.inj (hdata.symm.trans hdata')
    refine ⟨fun key => ?_, (chosen_iff (looksUp_attributeMatch _) ha).mp hexact.attributes,
      (chosen_iff (looksUp_predicateMatch _) hp).mp hexact.predicates⟩
    refine Option.eq_none_iff_forall_ne_some.mpr fun value hvalue => ?_
    have hget := hexact.selfAttested key value hvalue
    cases hget
  · intro answerable call hcall
    obtain ⟨hwait, record, retrieved, given, attributes, predicates, hrecord, hretrieved, hdata,
      ha, hp, rfl⟩ := sendPresentation_ok_iff.mp hcall
    refine ⟨record, retrieved, given, hrecord, hretrieved, hdata, rfl, ?_⟩
    rcases answerable record retrieved given hwait hrecord hretrieved hdata with
      (hun | hun) | ⟨hself, hattr, hpred⟩
    · exact absurd hun ((selectMatches_ok_iff (looksUp_attributeMatch _)).mp ⟨_, ha⟩)
    · exact absurd hun ((selectMatches_ok_iff (looksUp_predicateMatch _)).mp ⟨_, hp⟩)
    · exact ⟨(chosen_iff (looksUp_attributeMatch _) ha).mpr hattr,
        (chosen_iff (looksUp_predicateMatch _) hp).mpr hpred,
        fun key value hvalue => absurd hvalue (by simp [hself key])⟩

/-! A holder with one credential for one attribute. -/

def holder : Agent where
  findById _ := none
  findAllByOutOfBandId _ := []
  waitForState _ _ := true
  getProofByThreadId _ := .ok (some ⟨"request-received".toList, "t".toList⟩)
  acceptPresentation record := .ok record

def credential : Match := ⟨"c1".toList, .obj []⟩

def retrievedCredentials : RetrievedCredentials :=
  ⟨some ⟨Dict.empty.set ("address" : Str) [credential], Dict.empty⟩⟩

/-- The match of the attribute is found, but for the attribute without a match undefined is sent
and the self-attested attribute is left out. -/
theorem undefined_and_self_attested_sent :
    let data : PresentationData := ⟨some (Dict.empty.set ("phone" : Str) ("555" : Str)),
      some ((Dict.empty.set ("address" : Str) ⟨some "c1".toList⟩).set ("name" : Str) ⟨some "c2".toList⟩),
      none, none⟩
    sendPresentation holder (fun _ => .ok retrievedCredentials) (some (.str "t")) (some data) =
        .ok ⟨⟨"request-received".toList, "t".toList⟩,
          (Dict.empty.set ("address" : Str) (some credential)).set ("name" : Str) none, Dict.empty, Dict.empty,
          none⟩ ∧
      ¬ SendsExactly holder (fun _ => .ok retrievedCredentials) (some (.str "t")) (some data) := by
  intro data
  have hcall : sendPresentation holder (fun _ => .ok retrievedCredentials) (some (.str "t"))
      (some data) = .ok ⟨⟨"request-received".toList, "t".toList⟩,
        (Dict.empty.set ("address" : Str) (some credential)).set ("name" : Str) none, Dict.empty, Dict.empty,
        none⟩ := by
    rfl
  refine ⟨hcall, fun sends => ?_⟩
  obtain ⟨record, retrieved, given, -, -, hdata, -, hexact⟩ := sends _ hcall
  obtain rfl := Option.some.inj hdata
  have hself := hexact.selfAttested "phone" "555" (by decide)
  cases hself

end AgentTestHarness.PresentationSelection
