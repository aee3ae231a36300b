import AgentTestHarness.QueryStrings
import AgentTestHarness.RevocationCommands

/-! The revocation operations whose parameters stand in the query. Each of the three puts its query
together by hand. -/
namespace AgentTestHarness.RevocationQueries
open PyText OrderedDict PyJson PercentEncoding CommandRequests AdminPosts QueryStrings
open RevocationCommands

/-- The operation for "revoke" on the topic issue-credential. -/
def issueCredentialRevoke (py : Python) (command : BackchannelCommand) : Except PyError Str :=
  if command.recordId = .null then .ok "/issue-credential/revoke" else do
    let revRegId ← command.data.item "rev_registry_id"
    let publish ← command.data.item "publish_immediately"
    let notifyConnectionId ← command.data.get "notify_connection_id"
    let agentOperation : Str := ("/issue-credential/revoke?cred_rev_id=" : Str) ++
      py.str command.recordId ++ ("&rev_reg_id=" : Str) ++ py.str revRegId ++
      ("&publish=" : Str) ++ py.lower (py.str publish)
    pure (if notifyConnectionId.truthy then
      agentOperation ++ ("&notify=true&connection_id=\x7bnotify_connection_id\x7d" : Str)
      else agentOperation)

/-! What a command gives. -/

def IdText (t : Text) : Prop := ∀ c ∈ t, isUnreserved c = true ∨ c = ':'

instance (t : Text) : Decidable (IdText t) := inferInstanceAs (Decidable (∀ c ∈ t, _))

/-- The parameters of a revocation; the holder is notified over a connection, or not at all. -/
structure Parameters where
  credRevId : Text
  revRegId : Text
  publish : Option Bool
  notify : Option Text
  plainCredRevId : IdText credRevId
  plainRevRegId : IdText revRegId
  plainNotify : ∀ id ∈ notify, id ≠ [] ∧ IdText id

def flag (b : Bool) : Text := if b then "true".toList else "false".toList

def Parameters.query (p : Parameters) : List (Text × Text) :=
  [("cred_rev_id".toList, p.credRevId), ("rev_reg_id".toList, p.revRegId)] ++
    (p.publish.map fun b => ("publish".toList, flag b)).toList ++
    p.notify.elim [] fun id => [("notify".toList, "true".toList), ("connection_id".toList, id)]

/-- The data of a command that gives the parameters. -/
structure Gives (ms : List (Str × Json)) (p : Parameters) : Prop where
  revRegId : lookup ("rev_registry_id" : Str) ms = some (.str (ofText p.revRegId))
  publish : lookup ("publish_immediately" : Str) ms = p.publish.map .bool
  notify : (lookup ("notify_connection_id" : Str) ms).getD .null =
    p.notify.elim .null fun id => .str (ofText id)

/-- The query of the operation is read back as the parameters. -/
def Encodes (operation : Except PyError Str) (p : Parameters) : Prop :=
  ∃ t, operation = .ok (ofText t) ∧ parseQuery (queryOf t) = p.query

/-! Reading an operation back. -/

theorem ofText_append (s t : Text) : ofText (s ++ t) = ofText s ++ ofText t := List.map_append

theorem plain_of_idText {t : Text} (h : IdText t) : Plain t ∧ '#' ∉ t := by
  have hother : ∀ d, isUnreserved d = false → d ≠ ':' → d ∉ t := by
    intro d hd hcolon hmem
    rcases h d hmem with hu | hc
    · exact absurd hu (by simp [hd])
    · exact hcolon hc
  refine ⟨fun c hc => ⟨?_, ?_, ?_, ?_⟩, hother '#' (by decide) (by decide)⟩
  · rintro rfl
    exact hother '&' (by decide) (by decide) hc
  · rintro rfl
    exact hother '=' (by decide) (by decide) hc
  · rintro rfl
    exact hother '%' (by decide) (by decide) hc
  · rintro rfl
    exact hother '+' (by decide) (by decide) hc

theorem queryOf_path {path query : Text} (hpath : ∀ c ∈ path, endsPath c = false)
    (hquery : '#' ∉ query) : queryOf (path ++ '?' :: query) = query := by
  rw [queryOf_append hpath]
  have hstop : query.takeWhile (· != '#') = query :=
    List.takeWhile_eq_self_iff.mpr fun c hc => by
      simpa using fun heq : c = '#' => hquery (heq ▸ hc)
  exact hstop

/-- A parameter that means itself in the query of a URL. -/
def Writable (q : Text × Text) : Prop := (Plain q.1 ∧ '#' ∉ q.1) ∧ Plain q.2 ∧ '#' ∉ q.2

instance (q : Text × Text) : Decidable (Writable q) := inferInstanceAs (Decidable (_ ∧ _))

theorem not_mem_writeQuery {qs : List (Text × Text)} (h : ∀ q ∈ qs, Writable q) :
    '#' ∉ writeQuery qs := by
  have hparameter : ∀ q ∈ qs, '#' ∉ writeParameter q := by
    intro q hq hmem
    obtain ⟨⟨-, hname⟩, -, hvalue⟩ := h q hq
    rcases List.mem_append.mp hmem with hmem | hmem
    · exact hname hmem
    · rcases List.mem_cons.mp hmem with heq | hmem
      · exact absurd heq (by decide)
      · exact hvalue hmem
  clear h
  unfold writeQuery
  induction qs with
  | nil => simp
  | cons q qs ih =>
    obtain ⟨hq, hqs⟩ := List.forall_mem_cons.mp hparameter
    cases qs with
    | nil => simpa using hq
    | cons r qs =>
      rw [List.map_cons, List.map_cons, List.intercalate_cons_cons]
      intro hmem
      rcases List.mem_append.mp hmem with hmem | hmem
      · rcases List.mem_append.mp hmem with hmem | hmem
        · exact hq hmem
        · exact absurd hmem (by decide)
      · exact ih hqs hmem

theorem encodes_iff {operation : Except PyError Str} {p : Parameters} {path : Text}
    {qs : List (Text × Text)} (hpath : ∀ c ∈ path, endsPath c = false) (hqs : ∀ q ∈ qs, Writable q)
    (hoperation : operation = .ok (ofText (path ++ '?' :: writeQuery qs))) :
    Encodes operation p ↔ qs = p.query := by
  have hread : parseQuery (queryOf (path ++ '?' :: writeQuery qs)) = qs := by
    rw [queryOf_path hpath (not_mem_writeQuery hqs)]
    exact parseQuery_writeQuery fun q hq => ⟨(hqs q hq).1.1, (hqs q hq).2.1⟩
  constructor
  · rintro ⟨t, ht, hquery⟩
    obtain rfl := ofText_injective (Except.ok.inj (hoperation.symm.trans ht))
    exact hread.symm.trans hquery
  · rintro rfl
    exact ⟨_, hoperation, hread⟩

theorem writable_of_idText {name value : Text} (hname : Plain name ∧ '#' ∉ name)
    (h : IdText value) : Writable (name, value) := ⟨hname, plain_of_idText h⟩

/-- The first parameter of an operation, whatever is written into its value. -/
theorem head_parseQuery {path name : Text} (hpath : ∀ c ∈ path, endsPath c = false)
    (hname : Plain name ∧ '#' ∉ name) (value : Text) :
    ∃ v qs, parseQuery (queryOf (path ++ '?' :: (name ++ '=' :: value))) = (name, v) :: qs := by
  have hstart : ∀ c ∈ name ++ ['='], (c != '#') = true := by
    intro c hc
    rcases List.mem_append.mp hc with hc | hc
    · simpa using fun heq : c = '#' => hname.2 (heq ▸ hc)
    · obtain rfl := List.mem_singleton.mp hc
      decide
  have hquery : queryOf (path ++ '?' :: (name ++ '=' :: value)) =
      name ++ '=' :: value.takeWhile (· != '#') := by
    rw [queryOf_append hpath, List.append_cons name '=' value]
    exact (List.takeWhile_append_of_pos hstart).trans (List.append_cons _ _ _).symm
  rw [hquery]
  exact parseQuery_first hname.1 _

/-! The three operations. -/

theorem writable_ids (p : Parameters) : ∀ q ∈ [("cred_rev_id".toList, p.credRevId),
    ("rev_reg_id".toList, p.revRegId)], Writable q := by
  refine List.forall_mem_cons.mpr ⟨?_, List.forall_mem_singleton.mpr ?_⟩
  · exact writable_of_idText (by decide) p.plainCredRevId
  · exact writable_of_idText (by decide) p.plainRevRegId

theorem writable_flag (b : Bool) : Writable ("publish".toList, flag b) := by
  cases b <;> exact ⟨by decide, by decide⟩

theorem lower_flag (py : Python) (b : Bool) : py.lower (py.str (.bool b)) = ofText (flag b) := by
  rw [py.str_bool, py.lower_bool]
  cases b <;> rfl

theorem Gives.lookup_publish {p : Parameters} {ms : List (Str × Json)} (h : Gives ms p) {b : Bool}
    (hpublish : p.publish = some b) :
    lookup ("publish_immediately" : Str) ms = some (.bool b) := by
  rw [h.publish, hpublish]
  rfl

theorem revoke_not_endsPath : ∀ c ∈ "/issue-credential/revoke".toList, endsPath c = false := by
  decide

section Operations

variable (py : Python) (p : Parameters) {ms : List (Str × Json)} (gives : Gives ms p)
include gives

/-- The id of the connection is not filled in. -/
theorem issueCredentialRevoke_encodes {b : Bool} (hpublish : p.publish = some b)
    {command : BackchannelCommand} (hrecord : command.recordId = .str (ofText p.credRevId))
    (hdata : command.data = .obj ms) :
    Encodes (issueCredentialRevoke py command) p ↔ p.notify = none := by
  have hvalue := gives.lookup_publish hpublish
  have hne : command.recordId ≠ .null := by simp [hrecord]
  have hwritten : ∀ q ∈ [("cred_rev_id".toList, p.credRevId), ("rev_reg_id".toList, p.revRegId)] ++
      [("publish".toList, flag b)], Writable q :=
    List.forall_mem_append.mpr ⟨writable_ids p, List.forall_mem_singleton.mpr (writable_flag b)⟩
  unfold issueCredentialRevoke
  rw [if_neg hne, hdata, hrecord, Json.item_of_lookup gives.revRegId, Json.item_of_lookup hvalue]
  simp only [bind, Except.bind, pure, Except.pure, Json.get, gives.notify, py.str_str, lower_flag]
  cases hgiven : p.notify with
  | none =>
    rw [encodes_iff revoke_not_endsPath hwritten]
    · simp [Parameters.query, hpublish, hgiven]
    · simp only [Option.elim_none, Json.truthy, Bool.false_eq_true, if_false]
      simp only [← ofText_append]
      simp [writeQuery_cons_cons, writeQuery_singleton]
  | some id =>
    obtain ⟨hid, htext⟩ := p.plainNotify id hgiven
    have htrue : (Json.str (ofText id)).truthy = true := by
      cases id with
      | nil => exact absurd rfl hid
      | cons c cs => rfl
    have hliteral : ∀ q ∈ [("notify".toList, "true".toList),
        ("connection_id".toList, "\x7bnotify_connection_id\x7d".toList)], Writable q := by
      decide
    rw [encodes_iff revoke_not_endsPath (List.forall_mem_append.mpr ⟨hwritten, hliteral⟩)]
    · refine iff_of_false (fun hquery => ?_) (by simp)
      obtain rfl : "\x7bnotify_connection_id\x7d".toList = id := by
        simpa [Parameters.query, hpublish, hgiven] using hquery
      rcases htext '\x7b' (by decide) with hu | hc
      · exact absurd hu (by decide)
      · exact absurd hc (by decide)
    · simp only [Option.elim_some, htrue, if_true]
      simp only [← ofText_append]
      simp [writeQuery_cons_cons, writeQuery_singleton]

section InData

variable (hid : lookup ("cred_rev_id" : Str) ms = some (.str (ofText p.credRevId)))
include hid

/-- The registry is put before the flag, and no connection is named. -/
theorem oldRevoke_encodes {b : Bool} (hpublish : p.publish = some b) :
    Encodes ((oldRevoke py (.obj ms)).map Prod.fst) p ↔ p.revRegId = [] ∧ p.notify = none := by
  have hvalue := gives.lookup_publish hpublish
  have hflag : Writable ("publish".toList, p.revRegId ++ flag b) := by
    have hids := plain_of_idText p.plainRevRegId
    have hflag := (writable_flag b).2
    refine ⟨(writable_flag b).1, hids.1.append hflag.1, fun hmem => ?_⟩
    exact (List.mem_append.mp hmem).elim hids.2 hflag.2
  have hwritten := List.forall_mem_append.mpr ⟨writable_ids p, List.forall_mem_singleton.mpr hflag⟩
  unfold oldRevoke
  rw [if_neg (by simp), Json.item_of_lookup hid, Json.item_of_lookup gives.revRegId,
    Json.item_of_lookup hvalue]
  simp only [bind, Except.bind, pure, Except.pure, Except.map, asStr, lower_flag]
  rw [encodes_iff revoke_not_endsPath hwritten]
  · cases hgiven : p.notify with
    | none => simp [Parameters.query, hpublish, hgiven]
    | some id => simp [Parameters.query, hpublish, hgiven]
  · simp only [← ofText_append]
    simp [writeQuery_cons_cons, writeQuery_singleton]

/-- The record of a credential is asked for by its exchange, if there is one, or its ids. -/
theorem credentialRecord_encodes (anoncreds : Bool) :
    Encodes ((credentialRecord py anoncreds (.obj ms)).map Prod.fst) p ↔
      lookup ("cred_ex_id" : Str) ms = none ∧ p.publish = none ∧ p.notify = none := by
  have hpath : ∀ c ∈ (if anoncreds then "/anoncreds/revocation/credential-record".toList
      else "/revocation/credential-record".toList), endsPath c = false := by
    cases anoncreds <;> decide
  have hoperation : ∀ t : Text,
      (if anoncreds then "/anoncreds/revocation/credential-record"
        else "/revocation/credential-record" : Str) ++ ofText t =
      ofText ((if anoncreds then "/anoncreds/revocation/credential-record".toList
        else "/revocation/credential-record".toList) ++ t) := by
    intro t
    rw [ofText_append]
    cases anoncreds <;> rfl
  unfold credentialRecord
  cases hexchange : lookup ("cred_ex_id" : Str) ms with
  | some id =>
    refine iff_of_false ?_ (by simp)
    rintro ⟨t, ht, hquery⟩
    simp only [Json.contains, hexchange, Option.isSome_some, bind, Except.bind, if_true,
      Json.item_of_lookup hexchange, pure, Except.pure, Except.map, hoperation] at ht
    obtain ⟨start, value, rfl, hstart, -⟩ := List.map_eq_append_iff.mp (Except.ok.inj ht).symm
    obtain rfl := ofText_injective hstart
    obtain ⟨v, qs, hhead⟩ := head_parseQuery hpath
      (show Plain "cred_ex_id".toList ∧ '#' ∉ "cred_ex_id".toList by decide) value
    rw [List.append_assoc] at hquery
    have hname := congrArg List.head? (hhead.symm.trans hquery)
    simp [Parameters.query] at hname
  | none =>
    simp only [Json.contains, hexchange, Option.isSome_none, bind, Except.bind, if_false,
      Bool.false_eq_true, Json.item_of_lookup hid, Json.item_of_lookup gives.revRegId, asStr, pure,
      Except.pure, Except.map]
    rw [encodes_iff hpath (writable_ids p)]
    · cases hpublish : p.publish <;> cases hnotify : p.notify <;>
        simp [Parameters.query, hpublish, hnotify]
    · rw [← hoperation, writeQuery_cons_cons, writeQuery_singleton]
      simp only [List.append_assoc, ← ofText_append]
      refine congrArg (fun s => Except.ok (_ ++ ofText s)) ?_
      simp

end InData

end Operations

/-- Which of the three operations carry what the command gave: the first unless the holder is to be
notified, the second never for a registry with an id, the third if nothing but ids was given. -/
theorem revocation_query_iff (py : Python) (p : Parameters) {ms : List (Str × Json)}
    (gives : Gives ms p) {command : BackchannelCommand} (hdata : command.data = .obj ms) :
    (command.recordId = .str (ofText p.credRevId) → (∃ b, p.publish = some b) →
      (Encodes (issueCredentialRevoke py command) p ↔ p.notify = none)) ∧
    (lookup ("cred_rev_id" : Str) ms = some (.str (ofText p.credRevId)) →
      command.topic = some "revocation".toList → ∀ acapyVersion version,
      getAcapyVersionAsFloat acapyVersion = .ok version →
      (Is command "revoke" → ¬ version.exceeds 54 → (∃ b, p.publish = some b) →
        (Encodes ((getAgentOperationAcapyVersionBased py acapyVersion command).map Prod.fst) p ↔
          p.revRegId = [] ∧ p.notify = none)) ∧
      (Is command "credential-record" →
        (Encodes ((getAgentOperationAcapyVersionBased py acapyVersion command).map Prod.fst) p ↔
          lookup ("cred_ex_id" : Str) ms = none ∧ p.publish = none ∧ p.notify = none))) := by
  refine ⟨?_, fun hid topic acapyVersion version hversion => ⟨?_, ?_⟩⟩
  · rintro hrecord ⟨b, hpublish⟩
    exact issueCredentialRevoke_encodes py p gives hpublish hrecord hdata
  · rintro hrevoke hold ⟨b, hpublish⟩
    unfold getAgentOperationAcapyVersionBased
    rw [hversion, hdata]
    simp only [bind, Except.bind, topic, hrevoke, hold, if_true, if_false]
    exact oldRevoke_encodes py p gives hid hpublish
  · intro hrecord
    have hrevoke : ¬ Is command "revoke" := by
      intro hrevoke
      have htext := Option.some.inj (hrevoke.symm.trans hrecord)
      exact absurd htext (by decide)
    unfold getAgentOperationAcapyVersionBased
    rw [hversion, hdata]
    simp only [bind, Except.bind, topic, hrevoke, hrecord, if_true, if_false]
    exact credentialRecord_encodes py p gives hid command.anoncreds.truthy

def sample (revRegId : Text) (publish : Option Bool) (notify : Option Text)
    (hrevRegId : IdText revRegId) (hnotify : ∀ id ∈ notify, id ≠ [] ∧ IdText id) : Parameters where
  credRevId := "1".toList
  revRegId := revRegId
  publish := publish
  notify := notify
  plainCredRevId := by decide
  plainRevRegId := hrevRegId
  plainNotify := hnotify

def revokeById : BackchannelCommand :=
  ⟨some "issue-credential".toList, some "revoke".toList, .str "1", .post,
    .obj [("rev_registry_id", .str "r:1"), ("publish_immediately", .bool true)], .bool false⟩

def statusByIds : BackchannelCommand :=
  ⟨some "revocation".toList, some "credential-record".toList, .null, .post,
    .obj [("cred_rev_id", .str "1"), ("rev_registry_id", .str "r:1")], .bool false⟩

theorem queries_of_ids :
    Encodes (issueCredentialRevoke plainPython revokeById)
      (sample "r:1".toList (some true) none (by decide) (by simp)) ∧
    Encodes ((getAgentOperationAcapyVersionBased plainPython none statusByIds).map Prod.fst)
      (sample "r:1".toList none none (by decide) (by simp)) :=
  ⟨((revocation_query_iff plainPython
      (sample "r:1".toList (some true) none (by decide) (by simp))
      ⟨by decide, by decide, by decide⟩ (show revokeById.data = _ from rfl)).1 rfl
        ⟨true, rfl⟩).mpr rfl,
    (((revocation_query_iff plainPython (sample "r:1".toList none none (by decide) (by simp))
      ⟨by decide, by decide, by decide⟩ (show statusByIds.data = _ from rfl)).2 (by decide) rfl
        none (.finite false ⟨0, 0⟩) rfl).2 rfl).mpr ⟨by decide, rfl, rfl⟩⟩

def notifyingRevoke : BackchannelCommand :=
  ⟨some "issue-credential".toList, some "revoke".toList, .str "1", .post,
    .obj [("rev_registry_id", .str "r:1"), ("publish_immediately", .bool true),
      ("notify_connection_id", .str "c")], .bool false⟩

/-- The name of a variable is sent for the id of the connection. -/
theorem connection_id_not_sent :
    ¬ ∀ py p ms command, Gives ms p → command.data = .obj ms →
      command.recordId = .str (ofText p.credRevId) → (∃ b, p.publish = some b) →
      Encodes (issueCredentialRevoke py command) p := by
  intro h
  obtain ⟨t, ht, hquery⟩ := h plainPython
    (sample "r:1".toList (some true) (some "c".toList) (by decide) (by decide)) _ notifyingRevoke
    ⟨by decide, by decide, by decide⟩ rfl rfl ⟨true, rfl⟩
  have hsent : issueCredentialRevoke plainPython notifyingRevoke = .ok (ofText
      ("/issue-credential/revoke?cred_rev_id=1&rev_reg_id=r:1&publish=true&notify=true".toList ++
        "&connection_id=\x7bnotify_connection_id\x7d".toList)) := by decide +kernel
  obtain rfl := ofText_injective (Except.ok.inj (hsent.symm.trans ht))
  revert hquery
  decide +kernel

end AgentTestHarness.RevocationQueries
