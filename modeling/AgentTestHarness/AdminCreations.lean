import AgentTestHarness.AdminWrites

/-! The schemas and credential definitions that the ACA-Py backchannel creates over a session of
commands that it serves one after another. Before it creates one it asks the agent for those that
it has, so that an agent which lists what it created creates nothing twice. -/
namespace AgentTestHarness.AdminCreations
open PyText OrderedDict PyJson JsonReading JsonWriting LedgerIds CommandRequests ServiceCalls
open AdminPosts AdminRequests AdminQueries AdminWrites CredentialDefinitions
open RevocationCommands (Python)
open ConnectionLists.Afgo (len)
open Program

/-- An object of the ledger, as the backchannel asks for it; a definition has a tag. -/
structure Wanted where
  listing : Str
  query : List (Str × Str)
  tag : Option Json
  deriving DecidableEq

def schemaWanted (anoncreds : Bool) (data : Json) : Except PyError Wanted := do
  let schema ← readSchema anoncreds data
  let query ← queryParams
    [("schema_version", schema.schemaVersion), ("schema_name", schema.schemaName)]
  pure ⟨if anoncreds then "/anoncreds/schemas" else "/schemas/created", query, none⟩

def definitionWanted (anoncreds : Bool) (data : Json) : Except PyError Wanted := do
  let definition ← readDefinition anoncreds data
  let query ← queryParams [("schema_id", definition.schemaId)]
  pure ⟨if anoncreds then "/anoncreds/credential-definitions" else
    "/credential-definitions/created", query, some definition.tag⟩

/-- What a command asks for, if the wallet can hold it. -/
def wanted (b : Backchannel) (command : BackchannelCommand) : Option Wanted :=
  let anoncreds := useAnoncreds b.settings command
  if command.method ≠ .post ∨ (anoncreds ∧ ¬ b.settings.isWalletAnoncreds) then none
  else if command.topic = some "schema".toList then
    (schemaWanted anoncreds command.data).toOption
  else if command.topic = some "credential-definition".toList then
    (definitionWanted anoncreds command.data).toOption
  else none

/-- What a POST to the agent is to create. -/
def created (path : Str) (data : Json) : Option Wanted :=
  if path = "/schemas" then (schemaWanted false data).toOption
  else if path = "/anoncreds/schema" then (schemaWanted true data).toOption
  else if path = "/credential-definitions" then (definitionWanted false data).toOption
  else if path = "/anoncreds/credential-definition" then (definitionWanted true data).toOption
  else none

/-- An answer of the agent lists the object; the id of a definition is a legacy one that ends in
the tag. -/
def Listed (w : Wanted) (respJson : Json) : Prop :=
  match w.tag with
  | none => ∃ ids, respJson.item "schema_ids" = .ok (.arr ids) ∧ ids ≠ []
  | some tag => ∃ ids did seqNo t, respJson.item "credential_definition_ids" = .ok (.arr ids) ∧
      .str (legacyCredDefId did seqNo t) ∈ ids ∧ tag = .str t ∧
      colon ∉ did ∧ colon ∉ seqNo ∧ colon ∉ t

/-- The id is that of an object which an answer of the agent lists: a schema, or a definition with
the tag in its fifth part. -/
def Names (w : Wanted) (respJson id : Json) : Prop :=
  match w.tag with
  | none => ∃ ids, respJson.item "schema_ids" = .ok (.arr ids) ∧ id ∈ ids
  | some tag => ∃ ids credDefId piece,
      respJson.item "credential_definition_ids" = .ok (.arr ids) ∧ id = .str credDefId ∧ id ∈ ids ∧
        (credDefId.splitOn colon)[4]? = some piece ∧ tag = .str piece

/-- When an event is the accepted creation of an object, a later answer that the object is asked
for with lists it. -/
def ListsCreated (creation query : Event Reply) : Prop :=
  ∀ ⦃path : Str⦄ ⦃data : Json⦄ ⦃posted listed : Answer⦄ ⦃w : Wanted⦄ ⦃text listing : Text⦄
    ⦃status : ℕ⦄, creation = ⟨.adminPost path data [], posted⟩ →
    query = ⟨.adminGet w.listing w.query, listed⟩ → created path data = some w →
    posted.read = .ok (200, text) → listed.read = .ok (status, listing) →
    ∃ respJson, loads listing = .ok respJson ∧ Listed w respJson

def Honest (history : List (Event Reply)) : Prop := history.Pairwise ListsCreated

/-- A command that was served. -/
structure Served (py : Python) where
  b : Backchannel
  command : BackchannelCommand
  events : List (Event Reply)
  result : Except PyError (ℕ × Text)
  behaves : Behaves (makeAgentRequest py b command) events result

def history {py : Python} (session : List (Served py)) : List (Event Reply) :=
  session.flatMap Served.events

/-- The agent accepted a POST of the command. -/
def Served.Accepted {py : Python} (served : Served py) : Prop :=
  ∃ path data answer text,
    (⟨.adminPost path data [], answer⟩ : Event Reply) ∈ served.events ∧ answer.read = .ok (200, text)

section

variable {py : Python} {b : Backchannel} {command : BackchannelCommand}
  {events : List (Event Reply)} {planned : Plan} {w : Wanted} {anoncreds : Bool} {data : Json}

/-! The data that is posted asks for the same. -/

theorem get_withoutIssuer {key : Str} (h : key ≠ "issuer_id") (data : Json) :
    (withoutIssuer data).get key = data.get key := by
  cases data with
  | obj ms =>
    rw [withoutIssuer, Json.get, Json.get, lookup_remove_ne h]
  | _ => rfl

theorem bind_of_ok {α β : Type} {x : Except PyError α} {f : α → Except PyError β} {a : α}
    (h : x = .ok a) : (x >>= f) = f a := by
  rw [h]
  rfl

theorem readSchema_again {schema : SchemaRequest} (h : readSchema anoncreds data = .ok schema) :
    ∃ again, readSchema anoncreds schema.data = .ok again ∧
      again.schemaName = schema.schemaName ∧ again.schemaVersion = schema.schemaVersion := by
  cases anoncreds with
  | false =>
    obtain ⟨name, hname, h⟩ := bind_eq_ok h
    obtain ⟨version, hversion, h⟩ := bind_eq_ok h
    obtain rfl := Except.ok.inj h
    rw [← get_withoutIssuer (by decide)] at hname hversion
    exact ⟨⟨name, version, _⟩, (bind_of_ok hname).trans (bind_of_ok hversion), rfl, rfl⟩
  | true =>
    obtain ⟨whole, hwhole, h⟩ := bind_eq_ok h
    obtain ⟨part, hpart, h⟩ := bind_eq_ok h
    obtain ⟨name, hname, h⟩ := bind_eq_ok h
    obtain ⟨version, hversion, h⟩ := bind_eq_ok h
    obtain rfl := Except.ok.inj h
    have hcontains : whole.contains "schema" = .ok true :=
      Json.contains_of_item hpart
    refine ⟨⟨name, version, whole⟩, (bind_of_ok (a := whole) ?_).trans ?_, rfl, rfl⟩
    · exact bind_of_ok hcontains
    · exact (bind_of_ok hpart).trans ((bind_of_ok hname).trans (bind_of_ok hversion))

theorem readDefinition_again {definition : Definition}
    (h : readDefinition anoncreds data = .ok definition) :
    ∃ again, readDefinition anoncreds definition.data = .ok again ∧
      again.schemaId = definition.schemaId ∧ again.tag = definition.tag := by
  cases anoncreds with
  | false =>
    obtain ⟨tag, htag, h⟩ := bind_eq_ok h
    obtain ⟨schemaId, hschemaId, h⟩ := bind_eq_ok h
    obtain rfl := Except.ok.inj h
    rw [← get_withoutIssuer (by decide)] at htag hschemaId
    exact ⟨⟨schemaId, tag, _⟩, (bind_of_ok htag).trans (bind_of_ok hschemaId), rfl, rfl⟩
  | true =>
    obtain ⟨whole, hwhole, h⟩ := bind_eq_ok h
    obtain ⟨part, hpart, h⟩ := bind_eq_ok h
    obtain ⟨schemaId, hschemaId, h⟩ := bind_eq_ok h
    obtain ⟨tag, htag, h⟩ := bind_eq_ok h
    obtain rfl := Except.ok.inj h
    have hcontains : whole.contains "credential_definition" = .ok true :=
      Json.contains_of_item hpart
    refine ⟨⟨schemaId, tag, whole⟩, (bind_of_ok (a := whole) ?_).trans ?_, rfl, rfl⟩
    · exact bind_of_ok hcontains
    · exact (bind_of_ok hpart).trans ((bind_of_ok hschemaId).trans (bind_of_ok htag))

/-! What the plan of such a command does: it asks for the object, and answers with one that is
there. -/

/-- The agent was asked for the object; it listed it, or the command goes on to create it. -/
structure AskedFirst (w : Wanted) (member : Str) (events : List (Event Reply)) (planned : Plan) where
  answer : Answer
  status : ℕ
  text : Text
  respJson : Json
  events_eq : events = [⟨.adminGet w.listing w.query, answer⟩]
  read : answer.read = .ok (status, text)
  loaded : loads text = .ok respJson
  planned_eq : (∃ id, (Listed w respJson → Names w respJson id) ∧
      planned = .answers 200 (dumps (.obj [(member, id)]))) ∨
    ¬ Listed w respJson ∧ ∃ p path data, planned = .posts p path data ∧ created path data = some w

theorem AskedFirst.mem {member : Str} (asked : AskedFirst w member events planned) :
    (⟨.adminGet w.listing w.query, asked.answer⟩ : Event Reply) ∈ events := by
  obtain ⟨answer, status, text, respJson, rfl, -⟩ := asked
  exact List.mem_cons_self

theorem mem_of_before {r : Except PyError (ℕ × Text)} (posted : Posted py b command events r)
    {e : Event Reply} (he : e ∈ posted.before) : e ∈ events := by
  obtain ⟨p, path, data, before, answer, after, planned, rfl, followed⟩ := posted
  exact List.mem_append_left _ he

theorem schemaPlan_asks (hwallet : ¬ (useAnoncreds b.settings command = true ∧
      ¬ b.settings.isWalletAnoncreds = true))
    (hw : schemaWanted (useAnoncreds b.settings command) command.data = .ok w)
    (h : Behaves (schemaPlan b command) events (.ok planned)) :
    Nonempty (AskedFirst w "schema_id" events planned) := by
  obtain ⟨schema, hschema, hw⟩ := bind_eq_ok hw
  obtain ⟨query, hquery, hw⟩ := bind_eq_ok hw
  obtain rfl := Except.ok.inj hw
  have hcreated : ∀ anoncreds, readSchema anoncreds command.data = .ok schema →
      schemaWanted anoncreds schema.data =
        .ok ⟨if anoncreds then "/anoncreds/schemas" else "/schemas/created", query, none⟩ := by
    intro anoncreds hread
    obtain ⟨again, hagain, hname, hversion⟩ := readSchema_again hread
    refine (bind_of_ok hagain).trans (bind_of_ok ?_)
    rw [hname, hversion, hquery]
  rw [schemaPlan] at h
  dsimp only at h
  rw [if_neg hwallet] at h
  obtain ⟨schema', hread, h⟩ := behaves_computes_bind_ok.mp h
  obtain rfl := Except.ok.inj (hread.symm.trans hschema)
  obtain ⟨⟨status, text⟩, first, rest, rfl, hget, hrest⟩ := behaves_bind_ok.mp h
  obtain ⟨query', answer, hquery', rfl, hanswer⟩ := behaves_adminGet_ok.mp hget
  obtain rfl := Except.ok.inj (hquery'.symm.trans hquery)
  obtain ⟨respJson, hloads, hrest⟩ := behaves_computes_bind_ok.mp hrest
  obtain ⟨schemaIds, hids, hrest⟩ := behaves_computes_bind_ok.mp hrest
  obtain ⟨n, hn, hrest⟩ := behaves_computes_bind_ok.mp hrest
  split at hrest
  · obtain ⟨schemaId, hfirst, hrest⟩ := behaves_computes_bind_ok.mp hrest
    obtain ⟨rfl, hplanned⟩ := behaves_pure.mp hrest
    refine ⟨answer, status, text, respJson, rfl, hanswer, hloads,
      .inl ⟨schemaId, ?_, Except.ok.inj hplanned⟩⟩
    rintro ⟨ids, hlisted, -⟩
    obtain rfl := Except.ok.inj (hlisted.symm.trans hids)
    exact ⟨ids, hlisted, (FailedPosts.subscript_items hfirst).1⟩
  · next hempty =>
    obtain ⟨rfl, hplanned⟩ := behaves_pure.mp hrest
    refine ⟨answer, status, text, respJson, rfl, hanswer, hloads,
      .inr ⟨?_, _, _, _, Except.ok.inj hplanned, ?_⟩⟩
    · rintro ⟨ids, hlisted, hne⟩
      obtain rfl := Except.ok.inj (hlisted.symm.trans hids)
      obtain rfl := Except.ok.inj hn
      exact hempty (List.length_pos_iff.mpr hne)
    · cases hanoncreds : useAnoncreds b.settings command with
      | false =>
        rw [hanoncreds] at hread
        exact congrArg Except.toOption (hcreated false hread)
      | true =>
        rw [hanoncreds] at hread
        exact congrArg Except.toOption (hcreated true hread)

theorem findDefinition_none {tag : Json} {ids : List Json} (h : findDefinition tag ids = .ok none)
    {id : Str} (hid : .str id ∈ ids) :
    ∃ piece, (id.splitOn colon)[4]? = some piece ∧ tag ≠ .str piece := by
  induction ids with
  | nil => cases hid
  | cons head ids ih =>
    cases head with
    | str credDefId =>
      rw [findDefinition] at h
      split at h
      · cases h
      · next piece hpiece =>
        split at h
        · cases h
        · next hne =>
          rcases List.mem_cons.mp hid with heq | hmem
          · obtain rfl := Json.str.inj heq
            exact ⟨piece, hpiece, hne⟩
          · exact ih h hmem
    | _ => cases h

theorem findDefinition_some {tag id : Json} {ids : List Json}
    (h : findDefinition tag ids = .ok (some id)) :
    ∃ credDefId piece, id = .str credDefId ∧ id ∈ ids ∧
      (credDefId.splitOn colon)[4]? = some piece ∧ tag = .str piece := by
  induction ids with
  | nil => cases h
  | cons head ids ih =>
    cases head with
    | str credDefId =>
      rw [findDefinition] at h
      split at h
      · cases h
      · next piece hpiece =>
        split at h
        · next htag =>
          obtain rfl := Option.some.inj (Except.ok.inj h)
          exact ⟨credDefId, piece, rfl, List.mem_cons_self, hpiece, htag⟩
        · obtain ⟨credDefId', piece', hid, hmem, hfound⟩ := ih h
          exact ⟨credDefId', piece', hid, List.mem_cons_of_mem _ hmem, hfound⟩
    | _ => cases h

theorem fifth_legacyCredDefId {did seqNo tag : Str} (hdid : colon ∉ did) (hseqNo : colon ∉ seqNo)
    (htag : colon ∉ tag) : ((legacyCredDefId did seqNo tag).splitOn colon)[4]? = some tag := by
  rw [splitOn_legacyCredDefId hdid hseqNo, List.splitOn_eq_singleton htag]
  rfl

theorem credentialDefinitionPlan_asks (hwallet : ¬ (useAnoncreds b.settings command = true ∧
      ¬ b.settings.isWalletAnoncreds = true))
    (hw : definitionWanted (useAnoncreds b.settings command) command.data = .ok w)
    (h : Behaves (credentialDefinitionPlan b command) events (.ok planned)) :
    Nonempty (AskedFirst w "credential_definition_id" events planned) := by
  obtain ⟨definition, hdefinition, hw⟩ := bind_eq_ok hw
  obtain ⟨query, hquery, hw⟩ := bind_eq_ok hw
  obtain rfl := Except.ok.inj hw
  have hcreated : ∀ anoncreds, readDefinition anoncreds command.data = .ok definition →
      definitionWanted anoncreds definition.data =
        .ok ⟨if anoncreds then "/anoncreds/credential-definitions" else
          "/credential-definitions/created", query, some definition.tag⟩ := by
    intro anoncreds hread
    obtain ⟨again, hagain, hschemaId, htag⟩ := readDefinition_again hread
    refine (bind_of_ok hagain).trans ((bind_of_ok ?_).trans (by rw [htag]; rfl))
    rw [hschemaId, hquery]
  rw [credentialDefinitionPlan] at h
  dsimp only at h
  rw [if_neg hwallet] at h
  obtain ⟨definition', hread, h⟩ := behaves_computes_bind_ok.mp h
  obtain rfl := Except.ok.inj (hread.symm.trans hdefinition)
  obtain ⟨⟨status, text⟩, first, rest, rfl, hget, hrest⟩ := behaves_bind_ok.mp h
  obtain ⟨query', answer, hquery', rfl, hanswer⟩ := behaves_adminGet_ok.mp hget
  obtain rfl := Except.ok.inj (hquery'.symm.trans hquery)
  obtain ⟨respJson, hloads, hrest⟩ := behaves_computes_bind_ok.mp hrest
  obtain ⟨credDefIds, hids, hrest⟩ := behaves_computes_bind_ok.mp hrest
  obtain ⟨found, hfound, hrest⟩ := behaves_computes_bind_ok.mp hrest
  cases found with
  | some credDefId =>
    obtain ⟨rfl, hplanned⟩ := behaves_pure.mp hrest
    refine ⟨answer, status, text, respJson, rfl, hanswer, hloads,
      .inl ⟨credDefId, ?_, Except.ok.inj hplanned⟩⟩
    rintro ⟨ids, -, -, -, hlisted, -⟩
    obtain ⟨listed, hitem, hiterated⟩ := bind_eq_ok hids
    obtain rfl := Except.ok.inj (hlisted.symm.trans hitem)
    obtain rfl := Except.ok.inj hiterated
    obtain ⟨id, piece, heq, hmem, hpiece, htag⟩ := findDefinition_some hfound
    exact ⟨ids, id, piece, hlisted, heq, hmem, hpiece, htag⟩
  | none =>
    obtain ⟨rfl, hplanned⟩ := behaves_pure.mp hrest
    refine ⟨answer, status, text, respJson, rfl, hanswer, hloads,
      .inr ⟨?_, _, _, _, Except.ok.inj hplanned, ?_⟩⟩
    · rintro ⟨ids, did, seqNo, tag, hlisted, hid, htag, hdid, hseqNo, hplain⟩
      obtain ⟨listed, hitem, hiterated⟩ := bind_eq_ok hids
      obtain rfl := Except.ok.inj (hlisted.symm.trans hitem)
      obtain rfl := Except.ok.inj hiterated
      obtain ⟨piece, hpiece, hne⟩ := findDefinition_none hfound hid
      rw [fifth_legacyCredDefId hdid hseqNo hplain] at hpiece
      exact hne (Option.some.inj hpiece ▸ htag)
    · cases hanoncreds : useAnoncreds b.settings command with
      | false =>
        rw [hanoncreds] at hread
        exact congrArg Except.toOption (hcreated false hread)
      | true =>
        rw [hanoncreds] at hread
        exact congrArg Except.toOption (hcreated true hread)

/-- The member of the answer with the id. -/
def memberOf (w : Wanted) : Str :=
  match w.tag with
  | none => "schema_id"
  | some _ => "credential_definition_id"

theorem plan_asks (hw : wanted b command = some w)
    (h : Behaves (plan py b command) events (.ok planned)) :
    Nonempty (AskedFirst w (memberOf w) events planned) := by
  rw [wanted] at hw
  split at hw
  · cases hw
  · next hpossible =>
    have hwallet := fun hbad => hpossible (.inr hbad)
    split at hw
    · next htopic =>
      have hplan : plan py b command = schemaPlan b command := by simp [plan, htopic]
      cases hwanted : schemaWanted (useAnoncreds b.settings command) command.data with
      | error e => rw [hwanted] at hw; cases hw
      | ok w' =>
        rw [hwanted] at hw
        obtain rfl := Option.some.inj hw
        have htag : w'.tag = none := by
          obtain ⟨_, -, hwanted⟩ := bind_eq_ok hwanted
          obtain ⟨_, -, hwanted⟩ := bind_eq_ok hwanted
          exact Except.ok.inj hwanted ▸ rfl
        rw [memberOf, htag]
        exact schemaPlan_asks hwallet hwanted (hplan ▸ h)
    · split at hw
      · next htopic =>
        have hplan : plan py b command = credentialDefinitionPlan b command := by
          simp [plan, htopic]
        cases hwanted : definitionWanted (useAnoncreds b.settings command) command.data with
        | error e => rw [hwanted] at hw; cases hw
        | ok w' =>
          rw [hwanted] at hw
          obtain rfl := Option.some.inj hw
          have htag : ∃ tag, w'.tag = some tag := by
            obtain ⟨definition, -, hwanted⟩ := bind_eq_ok hwanted
            obtain ⟨_, -, hwanted⟩ := bind_eq_ok hwanted
            exact ⟨definition.tag, Except.ok.inj hwanted ▸ rfl⟩
          obtain ⟨tag, htag⟩ := htag
          rw [memberOf, htag]
          exact credentialDefinitionPlan_asks hwallet hwanted (hplan ▸ h)
      · cases hw

theorem method_of_wanted (hw : wanted b command = some w) : command.method = .post := by
  by_contra hmethod
  rw [wanted, if_pos (.inl hmethod)] at hw
  cases hw

end

section

variable {py : Python} {w : Wanted} {session first mid rest : List (Served py)}
  {served later : Served py}

/-- What the agent accepted from a command that asks for an object creates it. -/
theorem created_of_accepted (hw : wanted served.b served.command = some w)
    (haccepted : served.Accepted) :
    ∃ before after path data answer text,
      served.events = before ++ (⟨.adminPost path data [], answer⟩ : Event Reply) :: after ∧
      created path data = some w ∧ answer.read = .ok (200, text) := by
  have hbehaves := served.behaves
  rw [makeAgentRequest, method_of_wanted hw] at hbehaves
  obtain ⟨path, data, answer, text, hmem, hread⟩ := haccepted
  have hwrites : writes (AdminCall.adminPost path data []) = true := rfl
  have hplan := reads_plan py served.b served.command
  rcases post_cases hbehaves with ⟨e, -, hb⟩ | ⟨status, text, -, hb⟩ | ⟨⟨posted⟩⟩
  · exact absurd (hplan.calls_eq_nil hb) (List.ne_nil_of_mem (mem_calls hmem hwrites))
  · exact absurd (hplan.calls_eq_nil hb) (List.ne_nil_of_mem (mem_calls hmem hwrites))
  · have heq := eq_of_posted posted hmem hwrites
    obtain ⟨asked⟩ := plan_asks hw posted.planned
    rcases asked.planned_eq with ⟨id, -, hanswers⟩ | ⟨-, p, path', data', hposts, hcreated⟩
    · cases hanswers
    · obtain ⟨-, hpath, hdata⟩ := Plan.posts.inj hposts
      refine ⟨posted.before, posted.after, posted.path, posted.data, posted.answer, text,
        posted.events_eq, hpath ▸ hdata ▸ hcreated, ?_⟩
      obtain ⟨hcall, hanswer⟩ := Sigma.mk.inj heq
      obtain ⟨rfl, rfl, -⟩ := AdminCall.adminPost.inj hcall
      exact eq_of_heq hanswer ▸ hread

/-- The answer of a command is the id of an object that the agent listed when the command asked. -/
def AnswersListed (w : Wanted) (events : List (Event Reply)) (status : ℕ) (text : Text) : Prop :=
  status = 200 ∧ ∃ (answer : Answer) (code : ℕ) (listing : Text) (respJson id : Json),
    (⟨.adminGet w.listing w.query, answer⟩ : Event Reply) ∈ events ∧
      answer.read = .ok (code, listing) ∧ loads listing = .ok respJson ∧ Names w respJson id ∧
      text = dumps (.obj [(memberOf w, id)])

/-- An object that a command of the session created is not created again: a later command that
asks for it writes nothing, and if it gets an answer it is the id of an object that is there. -/
theorem created_once (honest : Honest (history (first ++ served :: (mid ++ later :: rest))))
    (hw : wanted served.b served.command = some w) (haccepted : served.Accepted)
    (hlater : wanted later.b later.command = some w) :
    calls writes later.events = [] ∧ ∀ status text, later.result = .ok (status, text) →
      AnswersListed w later.events status text := by
  obtain ⟨before, after, path, data, answer, text, hevents, hcreated, hread⟩ :=
    created_of_accepted hw haccepted
  have listed : ∀ {answer' : Answer} {status : ℕ} {text : Text},
      (⟨.adminGet w.listing w.query, answer'⟩ : Event Reply) ∈ later.events →
      answer'.read = .ok (status, text) → ∃ respJson, loads text = .ok respJson ∧
        Listed w respJson := by
    intro answer' status text hmem hread'
    have hpair : ListsCreated ⟨.adminPost path data [], answer⟩
        ⟨.adminGet w.listing w.query, answer'⟩ := by
      rw [Honest, history, List.flatMap_append, List.pairwise_append, List.flatMap_cons,
        List.pairwise_append] at honest
      refine honest.2.1.2.2 _ ?_ _ (List.mem_flatMap.mpr ⟨later, ?_, hmem⟩)
      · rw [hevents]
        exact List.mem_append_right _ List.mem_cons_self
      · exact List.mem_append_right _ List.mem_cons_self
    exact hpair rfl rfl hcreated hread hread'
  have hbehaves := later.behaves
  rw [makeAgentRequest, method_of_wanted hlater] at hbehaves
  have hplan := reads_plan py later.b later.command
  rcases post_cases hbehaves with ⟨e, hresult, hb⟩ | ⟨status, text, hresult, hb⟩ | ⟨⟨posted⟩⟩
  · refine ⟨hplan.calls_eq_nil hb, fun _ _ hok => ?_⟩
    cases hresult.symm.trans hok
  · refine ⟨hplan.calls_eq_nil hb, fun status' text' hok => ?_⟩
    obtain ⟨asked⟩ := plan_asks hlater hb
    rcases asked.planned_eq with ⟨id, hnames, hanswers⟩ | ⟨-, p, path', data', hposts, -⟩
    · obtain ⟨rfl, rfl⟩ := Plan.answers.inj hanswers
      obtain ⟨rfl, rfl⟩ := Prod.mk.inj (Except.ok.inj (hresult.symm.trans hok))
      obtain ⟨respJson, hloads, hlisted⟩ := listed asked.mem asked.read
      obtain rfl := Except.ok.inj (hloads.symm.trans asked.loaded)
      exact ⟨rfl, asked.answer, asked.status, asked.text, asked.respJson, id, asked.mem, asked.read,
        hloads, hnames hlisted, rfl⟩
    · cases hposts
  · -- the agent would have listed the object
    obtain ⟨asked⟩ := plan_asks hlater posted.planned
    rcases asked.planned_eq with ⟨id, -, hanswers⟩ | ⟨hnot, -⟩
    · cases hanswers
    · obtain ⟨respJson, hloads, hlisted⟩ := listed (mem_of_before posted asked.mem) asked.read
      obtain rfl := Except.ok.inj (hloads.symm.trans asked.loaded)
      exact absurd hlisted hnot

end

/-! A schema that two commands ask for. -/

def schemaCommand : BackchannelCommand where
  topic := some "schema".toList
  operation := none
  recordId := .null
  method := .post
  data := .obj [("schema_name", .str "test"), ("schema_version", .str "1.0.0"),
    ("issuer_id", .str "did")]
  anoncreds := .bool false

/-- An agent that answers so when it is asked for its schemas. -/
def registry (schemaIds : String) : (call : AdminCall) → Reply call
  | .adminGet _ _ => ⟨200, .ok schemaIds.toList⟩
  | .adminPost _ _ _ => ⟨200, .ok "\x7b\"schema_id\": \"id\"\x7d".toList⟩
  | .adminDelete _ => ⟨200, .ok "\x7b\x7d".toList⟩
  | .register _ => .ok 200
  | .getResource _ _ => .ok .null
  | .popResource _ _ => .ok .null
  | .popResourceLatest _ => .ok .null

def asking (schemaIds : String) : Served RevocationCommands.plainPython where
  b := backchannel
  command := schemaCommand
  events := ((makeAgentRequest RevocationCommands.plainPython backchannel schemaCommand).run
    (registry schemaIds)).1
  result := ((makeAgentRequest RevocationCommands.plainPython backchannel schemaCommand).run
    (registry schemaIds)).2
  behaves := behaves_run _ _

def noSchema : String := "\x7b\"schema_ids\": []\x7d"
def oneSchema : String := "\x7b\"schema_ids\": [\"id\"]\x7d"

def testSchema : Wanted :=
  ⟨"/schemas/created", [("schema_version", "1.0.0"), ("schema_name", "test")], none⟩

def query : AdminCall := .adminGet testSchema.listing testSchema.query

def creation : AdminCall :=
  .adminPost "/schemas" (.obj [("schema_name", .str "test"), ("schema_version", .str "1.0.0")]) []

theorem events_asking {schemaIds : String} {asked : List AdminCall}
    (h : calls (fun _ => true) (asking schemaIds).events = asked) :
    (asking schemaIds).events = asked.map fun call => ⟨call, registry schemaIds call⟩ := by
  have hrun := events_run (registry schemaIds)
    (makeAgentRequest RevocationCommands.plainPython backchannel schemaCommand)
  exact h ▸ hrun

theorem calls_asking_none :
    calls (fun _ => true) (asking noSchema).events = [query, creation] := by decide +kernel

theorem calls_asking_one :
    calls (fun _ => true) (asking oneSchema).events = [query] := by decide +kernel

theorem created_creation {path : Str} {data : Json} (h : creation = .adminPost path data []) :
    created path data = some testSchema := by
  obtain ⟨rfl, rfl, -⟩ := AdminCall.adminPost.inj h
  decide

theorem listed_oneSchema : ∃ respJson, loads oneSchema.toList = .ok respJson ∧
    Listed testSchema respJson := by
  have hloads : (loads oneSchema.toList).toOption =
      some (.obj [("schema_ids", .arr [.str "id"])]) := by decide +kernel
  cases h : loads oneSchema.toList with
  | error e => rw [h] at hloads; cases hloads
  | ok respJson =>
    rw [h] at hloads
    obtain rfl := Option.some.inj hloads
    exact ⟨_, rfl, [.str "id"], rfl, List.cons_ne_nil _ _⟩

theorem honest_asking :
    Honest (history ([] ++ asking noSchema :: ([] ++ asking oneSchema :: []))) := by
  have hlists : ListsCreated ⟨creation, registry noSchema creation⟩
      ⟨query, registry oneSchema query⟩ := by
    intro path data posted listed w text listing status hcreation hquery hcreated hposted hlisted
    obtain ⟨hcall, -⟩ := Sigma.mk.inj hcreation
    obtain rfl := Option.some.inj ((created_creation hcall).symm.trans hcreated)
    obtain ⟨-, hanswer⟩ := Sigma.mk.inj hquery
    obtain rfl := eq_of_heq hanswer
    obtain ⟨-, rfl⟩ := Prod.mk.inj (Except.ok.inj hlisted)
    exact listed_oneSchema
  have hquery : ∀ answer e, ListsCreated ⟨query, answer⟩ e := by
    intro answer e path data posted listed w text listing status hcreation
    obtain ⟨hcall, -⟩ := Sigma.mk.inj hcreation
    cases hcall
  have hhistory : history ([] ++ asking noSchema :: ([] ++ asking oneSchema :: [])) =
      [⟨query, registry noSchema query⟩, ⟨creation, registry noSchema creation⟩,
        ⟨query, registry oneSchema query⟩] := by
    simp [history, events_asking calls_asking_none, events_asking calls_asking_one]
  rw [hhistory, Honest]
  simp [hquery, hlists]

theorem test_created_once : calls writes (asking oneSchema).events = [] ∧
    ∀ status text, (asking oneSchema).result = .ok (status, text) →
      AnswersListed testSchema (asking oneSchema).events status text := by
  have haccepted : (asking noSchema).Accepted := by
    refine ⟨_, _, registry noSchema creation, _, ?_, rfl⟩
    rw [events_asking calls_asking_none]
    exact List.mem_cons_of_mem _ List.mem_cons_self
  exact created_once honest_asking (by decide) haccepted (by decide)

end AgentTestHarness.AdminCreations
