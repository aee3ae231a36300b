import AgentTestHarness.FailedPosts
import AgentTestHarness.LedgerIds

/-! The creation of a credential definition in the ACA-Py backchannel. Before the POST it asks the
agent for the definitions of the schema and looks for one with the tag of the command, at the fifth
piece between colons. -/
namespace AgentTestHarness.CredentialDefinitions
open PyText OrderedDict PyJson JsonReading JsonWriting JsonRoundTrip LedgerIds CommandRequests
open AdminPosts
open FailedPosts (Succeeds succeeds_ok)

/-! The lookup before the POST. -/

structure Definition where
  schemaId : Json
  tag : Json
  data : Json

def newData (data : Json) : Except PyError Json := do
  let schemaId ← data.get "schema_id"
  let issuerId ← data.get "issuer_id"
  let tag ← data.get "tag"
  let supportRevocation ← data.get "support_revocation"
  pure (.obj [("credential_definition", .obj [("schemaId", schemaId), ("issuerId", issuerId),
    ("tag", tag), ("options", .obj [("support_revocation", supportRevocation)])])])

/-- The issuer is not needed for a definition of an indy ledger. -/
def withoutIssuer : Json → Json
  | .obj ms => .obj (remove "issuer_id" ms)
  | data => data

def readDefinition (anoncreds : Bool) (data : Json) : Except PyError Definition :=
  if anoncreds then do
    let data ← (do if ← data.contains "credential_definition" then pure data else newData data)
    let definition ← data.item "credential_definition"
    let schemaId ← definition.get "schemaId"
    let tag ← definition.get "tag"
    pure ⟨schemaId, tag, data⟩
  else do
    let tag ← data.get "tag"
    let schemaId ← data.get "schema_id"
    pure ⟨schemaId, tag, withoutIssuer data⟩

/-- The first id whose fifth piece is the tag. -/
def findDefinition (tag : Json) : List Json → Except PyError (Option Json)
  | [] => .ok none
  | .str credDefId :: ids => match (credDefId.splitOn colon)[4]? with
    | none => .error .indexError
    | some piece => if tag = .str piece then .ok (some (.str credDefId)) else findDefinition tag ids
  | _ :: _ => .error .attributeError

def foundAnswer (credDefId : Json) : Text := dumps (.obj [("credential_definition_id", credDefId)])

/-- What comes before the POST of a definition; `existing` is the agent's answer to the lookup. -/
def definitionPreparation (settings : Settings) (command : BackchannelCommand) (existing : Answer) :
    Except PyError (Option (ℕ × Text)) := do
  let definition ← readDefinition (useAnoncreds settings command) command.data
  let _ ← queryText definition.schemaId
  let (_, respText) ← existing.read
  let respJson ← loads respText
  let credDefIds ← iterated (← respJson.item "credential_definition_ids")
  let found ← findDefinition definition.tag credDefIds
  pure (found.map fun credDefId => (200, foundAnswer credDefId))

def creating (settings : Settings) (agent : Agent) (command : BackchannelCommand)
    (existing : Answer) : Except PyError Course :=
  course settings { agent with preparation := definitionPreparation settings command existing }
    command

/-! The ids that an agent reports. -/

/-- In a legacy id the DID and the number of the transaction are plain, the tag need not be. -/
inductive CredDefId
  | legacy (did seqNo tag : Str) (plainDid : colon ∉ did) (plainSeqNo : colon ∉ seqNo)
  | qualified (method did seqNo tag : Str)

namespace CredDefId

def text : CredDefId → Str
  | .legacy did seqNo tag _ _ => legacyCredDefId did seqNo tag
  | .qualified method did seqNo tag => qualifiedCredDefId (qualifiedDid method did) seqNo tag

def tag : CredDefId → Str
  | .legacy _ _ tag _ _ => tag
  | .qualified _ _ _ tag => tag

/-- What is taken for the tag: of a legacy tag the part before any colon, of a qualified id
whatever its fifth piece is. -/
def place : CredDefId → Option Str
  | .legacy _ _ tag _ _ => some (tag.takeWhile (· != colon))
  | .qualified method did seqNo tag =>
      ((qualifiedCredDefId (qualifiedDid method did) seqNo tag).splitOn colon)[4]?

theorem getElem_text (id : CredDefId) : (id.text.splitOn colon)[4]? = id.place := by
  cases id with
  | legacy did seqNo tag plainDid plainSeqNo =>
    rw [text, splitOn_legacyCredDefId plainDid plainSeqNo, place, ← head?_splitOn]
    simp [List.head?_eq_getElem?]
  | qualified method did seqNo tag => rfl

end CredDefId

def Reports (existing : Answer) (ids : List CredDefId) : Prop :=
  ∃ body respJson, existing.body = .ok body ∧ loads body = .ok respJson ∧
    respJson.item "credential_definition_ids" = .ok (.arr (ids.map fun id => .str id.text))

/-- A definition with the tag is answered without a POST, and otherwise one POST is made. -/
def FoundOrCreated (settings : Settings) (agent : Agent) (command : BackchannelCommand)
    (existing : Answer) (ids : List CredDefId) : Prop :=
  ∃ definition, readDefinition (useAnoncreds settings command) command.data = .ok definition ∧
    ((∃ id ∈ ids, definition.tag = .str id.tag ∧ creating settings agent command existing =
        .ok (.answers 200 (foundAnswer (.str id.text)))) ∨
      (∀ id ∈ ids, definition.tag ≠ .str id.tag) ∧
        creating settings agent command existing = .ok (.posts .credentialDefinition))

/-- The command asks for a definition that the wallet can hold, and says which. -/
def Asks (settings : Settings) (command : BackchannelCommand) (definition : Definition) : Prop :=
  (useAnoncreds settings command = true → settings.isWalletAnoncreds = true) ∧
    readDefinition (useAnoncreds settings command) command.data = .ok definition ∧
    Succeeds (queryText definition.schemaId)

/-- Something other than the tag is taken for the tag of the id. -/
def PassedOver (tag : Json) (id : CredDefId) : Prop := ∃ piece, id.place = some piece ∧
  tag ≠ .str piece

/-- Either the ids are passed over up to one that is taken for the tag and has it, or all are
passed over and none has the tag. -/
def Told (tag : Json) (ids : List CredDefId) : Prop :=
  (∃ before id after, ids = before ++ id :: after ∧ (∀ b ∈ before, PassedOver tag b) ∧
    id.place.map Json.str = some tag ∧ ∃ same ∈ ids, same.text = id.text ∧ tag = .str same.tag) ∨
  (∀ id ∈ ids, PassedOver tag id ∧ tag ≠ .str id.tag)

/-! The loop. -/

def textsOf (ids : List CredDefId) : List Json := ids.map fun id => .str id.text

theorem findDefinition_cons (tag : Json) (id : CredDefId) (ids : List CredDefId) :
    findDefinition tag (textsOf (id :: ids)) = match id.place with
      | none => .error .indexError
      | some piece => if tag = .str piece then .ok (some (.str id.text))
          else findDefinition tag (textsOf ids) := by
  rw [textsOf, List.map_cons, findDefinition, id.getElem_text]
  rfl

/-- The loop passes over ids until one raises or is taken for the definition. -/
theorem findDefinition_cases (tag : Json) (ids : List CredDefId) :
    ((∀ id ∈ ids, PassedOver tag id) ∧ findDefinition tag (textsOf ids) = .ok none) ∨
    ∃ before id after, ids = before ++ id :: after ∧ (∀ b ∈ before, PassedOver tag b) ∧
      (id.place = none ∧ findDefinition tag (textsOf ids) = .error .indexError ∨
        id.place.map Json.str = some tag ∧
          findDefinition tag (textsOf ids) = .ok (some (.str id.text))) := by
  induction ids with
  | nil => exact .inl ⟨List.forall_mem_nil _, rfl⟩
  | cons id ids ih =>
    rw [findDefinition_cons]
    cases hplace : id.place with
    | none => exact .inr ⟨[], id, ids, rfl, List.forall_mem_nil _, .inl ⟨hplace, rfl⟩⟩
    | some piece =>
      by_cases htag : tag = .str piece
      · refine .inr ⟨[], id, ids, rfl, List.forall_mem_nil _, .inr ⟨?_, if_pos htag⟩⟩
        rw [hplace, htag]
        rfl
      · have hpassed : PassedOver tag id := ⟨piece, hplace, htag⟩
        dsimp only
        rw [if_neg htag]
        rcases ih with ⟨hall, hfind⟩ | ⟨before, found, after, rfl, hbefore, hfound⟩
        · exact .inl ⟨List.forall_mem_cons.mpr ⟨hpassed, hall⟩, hfind⟩
        · exact .inr ⟨id :: before, found, after, rfl,
            List.forall_mem_cons.mpr ⟨hpassed, hbefore⟩, hfound⟩

theorem not_passedOver {tag : Json} {id : CredDefId} (h : id.place.map Json.str = some tag) :
    ¬ PassedOver tag id := by
  rintro ⟨piece, hpiece, htag⟩
  rw [hpiece] at h
  exact htag (Option.some.inj h).symm

/-! The command. -/

theorem creating_eq {settings : Settings} {command : BackchannelCommand}
    (topic : command.topic = some "credential-definition".toList) (agent : Agent)
    (existing : Answer) : creating settings agent command existing =
      if useAnoncreds settings command ∧ ¬ settings.isWalletAnoncreds then
        .ok (.answers 400 "Bad request - agent wallet cannot support anoncreds format".toList)
      else (definitionPreparation settings command existing).map fun
        | some (status, text) => .answers status text
        | none => .posts .credentialDefinition := by
  have hconnection : command.topic ≠ some "connection".toList := by
    rw [topic]
    decide
  have hschema : command.topic ≠ some "schema".toList := by
    rw [topic]
    decide
  unfold creating course
  rw [if_neg hconnection, if_neg hschema, if_pos topic]
  rfl

theorem definitionPreparation_eq {settings : Settings} {command : BackchannelCommand}
    {existing : Answer} {ids : List CredDefId} (reports : Reports existing ids) :
    definitionPreparation settings command existing =
      readDefinition (useAnoncreds settings command) command.data >>= fun definition =>
        queryText definition.schemaId >>= fun _ =>
          findDefinition definition.tag (textsOf ids) >>= fun found =>
            pure (found.map fun credDefId => (200, foundAnswer credDefId)) := by
  obtain ⟨body, respJson, hbody, hread, hitem⟩ := reports
  unfold definitionPreparation Answer.read
  rw [hbody]
  simp only [bind, Except.bind, Except.map, hread, hitem]
  rfl

theorem unpaired_of_reports {existing : Answer} {ids : List CredDefId}
    (reports : Reports existing ids) : ∀ id ∈ ids, Unpaired id.text := by
  obtain ⟨body, respJson, -, hread, hitem⟩ := reports
  obtain ⟨ms, rfl, hlookup⟩ := Json.item_eq_ok.mp hitem
  have hall := loadableItems_iff.mp (loadable_lookup (loadable_of_loads hread) hlookup)
  intro id hid
  exact hall (.str id.text) (List.mem_map_of_mem hid)

theorem foundAnswer_inj {s t : Str} (hs : Unpaired s) (ht : Unpaired t)
    (h : foundAnswer (.str s) = foundAnswer (.str t)) : s = t := by
  have hload : ∀ s : Str, Unpaired s →
      loads (foundAnswer (.str s)) = .ok (.obj [("credential_definition_id", .str s)]) := by
    intro s hs
    refine loads_dumps ⟨?_, ?_⟩
    · exact List.nodup_singleton _
    · exact ⟨⟨unpaired_ofText _, hs⟩, trivial⟩
  have heq := hload s hs
  rw [h, hload t ht] at heq
  simpa using heq.symm

section Command

variable {settings : Settings} {agent : Agent} {command : BackchannelCommand} {existing : Answer}
  {ids : List CredDefId} (topic : command.topic = some "credential-definition".toList)
  (reports : Reports existing ids)
include topic reports

/-- A command that asks for a definition has the outcome of the loop. -/
theorem creating_of_asks {definition : Definition} (asks : Asks settings command definition) :
    creating settings agent command existing =
      (findDefinition definition.tag (textsOf ids)).map fun
        | some credDefId => .answers 200 (foundAnswer credDefId)
        | none => .posts .credentialDefinition := by
  obtain ⟨hwallet, hread, schemaId, hquery⟩ := asks
  rw [creating_eq topic, if_neg fun h => h.2 (hwallet h.1), definitionPreparation_eq reports, hread]
  simp only [bind, Except.bind, hquery]
  cases findDefinition definition.tag (textsOf ids) with
  | error e => rfl
  | ok found => cases found <;> rfl

/-- Only such a command gets to answer or to post. -/
theorem asks_of_creating {definition : Definition}
    (hread : readDefinition (useAnoncreds settings command) command.data = .ok definition)
    {course : Course} (h : creating settings agent command existing = .ok course)
    (hstatus : ∀ text, course ≠ .answers 400 text) : Asks settings command definition := by
  rw [creating_eq topic] at h
  split at h
  · exact absurd (Except.ok.inj h).symm (hstatus _)
  · next hwallet =>
    refine ⟨fun huse => by_contra fun hno => hwallet ⟨huse, hno⟩, hread, ?_⟩
    rw [definitionPreparation_eq reports, hread] at h
    cases hquery : queryText definition.schemaId with
    | ok text => exact succeeds_ok text
    | error e =>
      simp only [bind, Except.bind, hquery] at h
      cases h

theorem found_or_created_of_told {definition : Definition} (asks : Asks settings command definition)
    (told : Told definition.tag ids) : FoundOrCreated settings agent command existing ids := by
  refine ⟨definition, asks.2.1, ?_⟩
  rw [creating_of_asks topic reports asks]
  rcases told with ⟨before, id, after, rfl, hbefore, hplace, same, hsame, htext, htag⟩ | hall
  · refine .inl ⟨same, hsame, htag, ?_⟩
    have hfind : ∀ bs : List CredDefId, (∀ b ∈ bs, PassedOver definition.tag b) →
        findDefinition definition.tag (textsOf (bs ++ id :: after)) =
          .ok (some (.str id.text)) := by
      intro bs hbs
      induction bs with
      | nil =>
        obtain ⟨piece, hpiece, heq⟩ := Option.map_eq_some_iff.mp hplace
        rw [List.nil_append, findDefinition_cons, hpiece]
        exact if_pos heq.symm
      | cons b bs ih =>
        obtain ⟨⟨piece, hpiece, hne⟩, hbs⟩ := List.forall_mem_cons.mp hbs
        rw [List.cons_append, findDefinition_cons, hpiece]
        exact (if_neg hne).trans (ih hbs)
    rw [hfind before hbefore, htext]
    rfl
  · refine .inr ⟨fun id hid => (hall id hid).2, ?_⟩
    rcases findDefinition_cases definition.tag ids with ⟨-, hfind⟩ |
      ⟨before, id, after, rfl, -, ⟨hplace, -⟩ | ⟨hplace, -⟩⟩
    · rw [hfind]
      rfl
    · obtain ⟨⟨piece, hpiece, -⟩, -⟩ := hall id (by simp)
      cases hplace.symm.trans hpiece
    · exact absurd (hall id (by simp)).1 (not_passedOver hplace)

theorem told_of_found_or_created (h : FoundOrCreated settings agent command existing ids) :
    ∃ definition, Asks settings command definition ∧ Told definition.tag ids := by
  obtain ⟨definition, hread, h⟩ := h
  have hasks : Asks settings command definition := by
    rcases h with ⟨id, -, -, hcreating⟩ | ⟨-, hcreating⟩
    · exact asks_of_creating topic reports hread hcreating fun text heq => by cases heq
    · exact asks_of_creating topic reports hread hcreating fun text heq => by cases heq
  refine ⟨definition, hasks, ?_⟩
  rw [creating_of_asks topic reports hasks] at h
  rcases findDefinition_cases definition.tag ids with ⟨hpassed, hfind⟩ |
    ⟨before, id, after, hids, hbefore, ⟨-, hfind⟩ | ⟨hplace, hfind⟩⟩
  · rw [hfind] at h
    rcases h with ⟨id, -, -, heq⟩ | ⟨hnone, -⟩
    · cases heq
    · exact .inr fun id hid => ⟨hpassed id hid, hnone id hid⟩
  · rw [hfind] at h
    rcases h with ⟨id, -, -, heq⟩ | ⟨-, heq⟩ <;> cases heq
  · rw [hfind] at h
    rcases h with ⟨same, hsame, htag, heq⟩ | ⟨-, heq⟩
    · have hunpaired := unpaired_of_reports reports
      have hid : id ∈ ids := by simp [hids]
      have htext : id.text = same.text := foundAnswer_inj (hunpaired id hid) (hunpaired same hsame)
        (Course.answers.inj (Except.ok.inj heq)).2
      exact .inl ⟨before, id, after, hids, hbefore, hplace, same, hsame, htext.symm, htag⟩
    · cases heq

/-- A definition is found by its tag, or created, exactly if the wallet can hold it and the loop
takes the right piece of each id for its tag. Then a definition that exists is not created again. -/
theorem found_or_created_iff :
    (FoundOrCreated settings agent command existing ids ↔
      ∃ definition, Asks settings command definition ∧ Told definition.tag ids) ∧
    ∀ definition, Asks settings command definition → Told definition.tag ids → ∀ created ∈ ids,
      definition.tag = .str created.tag →
      (∀ id ∈ ids, definition.tag = .str id.tag → id.text = created.text) →
      creating settings agent command existing =
        .ok (.answers 200 (foundAnswer (.str created.text))) := by
  refine ⟨⟨told_of_found_or_created topic reports, ?_⟩, ?_⟩
  · rintro ⟨definition, asks, told⟩
    exact found_or_created_of_told topic reports asks told
  · intro definition asks told created hcreated htag hunique
    have hfound : FoundOrCreated settings agent command existing ids :=
      found_or_created_of_told topic reports asks told
    obtain ⟨definition', hread, h⟩ := hfound
    obtain rfl := Except.ok.inj (asks.2.1.symm.trans hread)
    rcases h with ⟨id, hid, hidtag, h⟩ | ⟨hnone, -⟩
    · rwa [hunique id hid hidtag] at h
    · exact absurd htag (hnone created hcreated)

end Command

/-- Legacy ids with plain tags are taken for what they are. -/
theorem told_of_plain {ids : List CredDefId} (h : ∀ id ∈ ids, id.place = some id.tag) (tag : Json) :
    Told tag ids := by
  rcases findDefinition_cases tag ids with ⟨hpassed, -⟩ |
    ⟨before, id, after, rfl, hbefore, ⟨hplace, -⟩ | ⟨hplace, -⟩⟩
  · refine .inr fun id hid => ⟨hpassed id hid, ?_⟩
    obtain ⟨piece, hpiece, hne⟩ := hpassed id hid
    rwa [Option.some.inj ((h id hid).symm.trans hpiece)]
  · cases (h id (by simp)).symm.trans hplace
  · refine .inl ⟨before, id, after, rfl, hbefore, hplace, id, by simp, rfl, ?_⟩
    rw [h id (by simp)] at hplace
    exact (Option.some.inj hplace).symm

/-- A command to create the definition "default" of a schema. -/
def createDefault : BackchannelCommand :=
  { FailedPosts.commandOf "credential-definition" none with
    data := .obj [("schema_id", .str "s"), ("tag", .str "default")] }

def listing (credDefIds : List String) : Answer :=
  ⟨200, .ok (dumps (.obj [("credential_definition_ids",
    .arr (credDefIds.map fun id => .str (ofText id.toList)))]))⟩

theorem reports_listing {credDefIds : List String} {ids : List CredDefId}
    (h : ids.map CredDefId.text = credDefIds.map fun id => ofText id.toList) :
    Reports (listing credDefIds) ids := by
  have hsame : (ids.map fun id => Json.str id.text) =
      credDefIds.map fun id => .str (ofText id.toList) := by
    simpa only [List.map_map, Function.comp_def] using congrArg (List.map Json.str) h
  refine ⟨_, .obj [("credential_definition_ids", .arr (ids.map fun id => .str id.text))], rfl, ?_,
    ?_⟩
  · rw [hsame]
    refine loads_dumps ⟨List.nodup_singleton _, ⟨unpaired_ofText _, ?_⟩, trivial⟩
    exact loadableItems_iff.mpr (List.forall_mem_map.mpr fun _ _ => unpaired_ofText _)
  · exact Json.item_of_lookup (if_pos rfl)

/-- Two definitions with other tags come before the one that is looked for. -/
def legacyIds : List CredDefId :=
  [.legacy "V4SG" "12" "revocable" (by decide) (by decide),
    .legacy "V4SG" "15" "second" (by decide) (by decide),
    .legacy "V4SG" "12" "default" (by decide) (by decide)]

theorem legacy_definition_found :
    FoundOrCreated FailedPosts.manual (FailedPosts.answering 200 "") createDefault
      (listing ["V4SG:3:CL:12:revocable", "V4SG:3:CL:15:second", "V4SG:3:CL:12:default"])
      legacyIds :=
  (found_or_created_iff rfl (reports_listing (by decide +kernel))).1.mpr
    ⟨_, ⟨by decide, rfl, _, rfl⟩, told_of_plain (by decide +kernel) _⟩

def anoncredsWallet : Settings := { FailedPosts.manual with isWalletAnoncreds := true }

def qualifiedDefault : CredDefId := .qualified "indy:sovrin" "V4SG" "12" "default"

/-- A qualified id of an indy ledger has four pieces. -/
theorem qualified_definition_raises :
    ¬ ∀ settings agent command existing ids, command.topic = some "credential-definition".toList →
      Reports existing ids → FoundOrCreated settings agent command existing ids := by
  intro h
  let existing := listing ["did:indy:sovrin:V4SG/anoncreds/v0/CLAIM_DEF/12/default"]
  have hreports : Reports existing [qualifiedDefault] := reports_listing (by decide +kernel)
  have herror : definitionPreparation anoncredsWallet createDefault existing =
      .error .indexError := by decide +kernel
  obtain ⟨definition, -, hfound⟩ :=
    h anoncredsWallet (FailedPosts.answering 200 "") createDefault existing _ rfl hreports
  rw [creating_eq rfl, herror] at hfound
  rcases hfound with ⟨id, -, -, heq⟩ | ⟨-, heq⟩
  · cases heq
  · cases heq

end AgentTestHarness.CredentialDefinitions
