import AgentTestHarness.AdminWrites

/-! What a POST of the ACA-Py backchannel rests on: the exchange id in its path stood in the store
under the thread of the command, and the agent has told the state that the command waits for. -/
namespace AgentTestHarness.AdminGuards
open PyText OrderedDict PyJson JsonReading CommandRequests ServiceCalls AdminPosts AdminRequests
open AdminWrites
open RevocationCommands (Python asStr)
open Program

/-- The agent has told the state of the object at a path. -/
def Seen (events : List (Event Reply)) (path statusTxt : Str) : Prop :=
  ∃ (answer : Answer) (text : Text) (respJson : Json),
    (⟨.adminGet path [], answer⟩ : Event Reply) ∈ events ∧ answer.read = .ok (200, text) ∧
      loads text = .ok respJson ∧ respJson.item "state" = .ok (.str statusTxt)

/-- The first message that was stored for the thread has the exchange id. -/
def Swapped (events : List (Event Reply)) (threadId : Json) (dataType idTxt : Str) (exId : Json) :
    Prop :=
  ∃ msg, (⟨.getResource threadId dataType, .ok msg⟩ : Event Reply) ∈ events ∧
    (ResponsePolls.firstItem msg >>= fun m => m.item idTxt) = .ok exId

section

variable {events more : List (Event Reply)}

theorem Seen.mono {path statusTxt : Str} (h : Seen events path statusTxt)
    (sub : events ⊆ more) : Seen more path statusTxt := by
  obtain ⟨answer, text, respJson, hmem, h⟩ := h
  exact ⟨answer, text, respJson, sub hmem, h⟩

theorem Swapped.mono {threadId exId : Json} {dataType idTxt : Str}
    (h : Swapped events threadId dataType idTxt exId) (sub : events ⊆ more) :
    Swapped more threadId dataType idTxt exId := by
  obtain ⟨msg, hmem, h⟩ := h
  exact ⟨msg, sub hmem, h⟩

/-- The polls end with true at an answer that tells the state. -/
theorem seen_of_statePolls {path statusTxt : Str} {rounds : ℕ}
    (h : Behaves (statePolls path statusTxt rounds) events (.ok true)) :
    Seen events path statusTxt := by
  induction rounds generalizing events with
  | zero =>
    obtain ⟨-, hr⟩ := behaves_pure.mp h
    cases hr
  | succ rounds ih =>
    obtain ⟨⟨status, text⟩, first, rest, rfl, hget, hrest⟩ := behaves_bind_ok.mp h
    have later : Behaves (statePolls path statusTxt rounds) rest (.ok true) →
        Seen (first ++ rest) path statusTxt :=
      fun hb => (ih hb).mono (List.subset_append_right _ _)
    dsimp only at hrest
    split at hrest
    · next hstatus =>
      obtain ⟨respJson, hjson, hrest⟩ := behaves_computes_bind_ok.mp hrest
      obtain ⟨state, hstate, hrest⟩ := behaves_computes_bind_ok.mp hrest
      split at hrest
      · next heq =>
        obtain ⟨query, answer, hquery, rfl, hread⟩ := behaves_adminGet_ok.mp hget
        obtain rfl : ([] : List (Str × Str)) = query := Except.ok.inj hquery
        refine ⟨answer, text, respJson, List.mem_append_left _ List.mem_cons_self, ?_, hjson, ?_⟩
        · rw [hread, hstatus]
        · rw [hstate, heq]
      · exact later hrest
    · exact later hrest

theorem seen_of_requireStateIf {needed : Bool} {path statusTxt : Str} {message : String}
    (h : Behaves (requireStateIf needed path statusTxt message) events (.ok ()))
    (hneeded : needed = true) : Seen events path statusTxt := by
  rw [requireStateIf, if_pos hneeded] at h
  obtain ⟨expected, first, rest, rfl, hpolls, hrest⟩ := behaves_bind_ok.mp h
  split at hrest
  · next htrue =>
    subst htrue
    exact (seen_of_statePolls hpolls).mono (List.subset_append_left _ _)
  · obtain ⟨-, hr⟩ := behaves_throws.mp hrest
    cases hr

theorem swapped_of_swapPolls {threadId exId : Json} {dataType idTxt : Str} {polls : ℕ}
    (h : Behaves (swapPolls threadId dataType idTxt polls) events (.ok exId)) :
    Swapped events threadId dataType idTxt exId := by
  induction polls generalizing events with
  | zero =>
    obtain ⟨-, hr⟩ := behaves_throws.mp h
    cases hr
  | succ polls ih =>
    obtain ⟨stored, rest, rfl, hrest⟩ := behaves_ask_bind.mp h
    obtain ⟨msg, hmsg, hrest⟩ := behaves_computes_bind_ok.mp hrest
    split at hrest
    · next found hfound =>
      split at hrest
      · obtain ⟨-, hr⟩ := behaves_throws.mp hrest
        cases hr
      · obtain ⟨-, hr⟩ := behaves_pure.mp hrest
        obtain rfl := Except.ok.inj hr
        refine ⟨msg, ?_, hfound⟩
        subst hmsg
        exact List.mem_cons_self
    · exact (ih hrest).mono (List.subset_cons_self _ _)
    · obtain ⟨-, hr⟩ := behaves_throws.mp hrest
      cases hr

end

/-- What a POST of a command must rest on, by its topic: `before` are the events before it. Only
the protocols of version 1.0 wait for a state. -/
structure Justified (py : Python) (b : Backchannel) (command : BackchannelCommand)
    (before : List (Event Reply)) (path : Str) : Prop where
  connection : command.topic = some "connection".toList → Is command "accept-request" →
    path = connectionPath py command ++ ("/accept-request" : Str) ∧
      Seen before (connectionPath py command) "request"
  credential : command.topic = some "issue-credential".toList → command.recordId ≠ .null →
    isSwapped command ["send-offer", "send-request", "issue", "store"] →
    ∃ exId, Swapped before command.recordId "credential-msg" "credential_exchange_id" exId ∧
      path = ("/issue-credential/records/" : Str) ++ py.str exId ++ ("/" : Str) ++
        operationOf command ∧
      (Is command "issue" →
        Seen before (("/issue-credential/records/" : Str) ++ py.str exId) "request_received")
  credentialV2 : command.topic = some "issue-credential-v2".toList → command.recordId ≠ .null →
    ¬ Is command "prepare-json-ld" →
    ∃ exId, Swapped before command.recordId "credential-msg" "cred_ex_id" exId ∧
      path = ("/issue-credential-2.0/records/" : Str) ++ py.str exId ++ ("/" : Str) ++
        operationOf command
  proof : command.topic = some "proof".toList → command.recordId ≠ .null →
    isSwapped command ["send-presentation", "send-request", "verify-presentation", "remove"] →
    ∃ exId, Swapped before command.recordId "presentation-msg" "presentation_exchange_id" exId ∧
      path = ("/present-proof/records/" : Str) ++ py.str exId ++ ("/" : Str) ++
        operationOf command ∧
      (Is command "verify-presentation" → ¬ b.settings.autoRespondPresentationRequest →
        Seen before (("/present-proof/records/" : Str) ++ py.str exId) "presentation_received")
  proofV2 : command.topic = some "proof-v2".toList → command.recordId ≠ .null →
    ∃ exId, Swapped before command.recordId "presentation-msg" "pres_ex_id" (.str exId) ∧
      path = ("/present-proof-2.0/records/" : Str) ++ exId ++ ("/" : Str) ++ operationOf command

section

variable {py : Python} {b : Backchannel} {command : BackchannelCommand}
  {events : List (Event Reply)} {p : Posting} {path : Str} {data : Json}

theorem operationOf_of_is {operation : String} (h : Is command operation) :
    operationOf command = operation := by
  rw [operationOf, show command.operation = some operation.toList from h, Option.getD_some]

theorem justified_connection
    (h : Behaves (connectionPlan py b command) events (.ok (.posts p path data)))
    (haccept : Is command "accept-request") :
    path = connectionPath py command ++ ("/accept-request" : Str) ∧
      Seen events (connectionPath py command) "request" := by
  obtain ⟨mediationId, first, rest, rfl, -, hrest⟩ := behaves_bind_ok.mp h
  have hoperation : command.operation = some "accept-request".toList := haccept
  have hplan : Behaves (connectionOperationPlan py b command) rest (.ok (.posts p path data)) := by
    simpa [Is, hoperation] using hrest
  obtain ⟨⟨⟩, wait, last, rfl, hwait, hposts⟩ := behaves_bind_ok.mp hplan
  split at hposts
  · obtain ⟨-, hr⟩ := behaves_pure.mp hposts
    cases hr
  · next hauto =>
    obtain ⟨rfl, hr⟩ := behaves_pure.mp hposts
    cases hr
    have hneeded : decide (Is command "accept-request" ∧ ¬ b.settings.autoAcceptRequests) = true :=
      decide_eq_true ⟨haccept, fun h => hauto ⟨h, haccept⟩⟩
    refine ⟨?_, (seen_of_requireStateIf hwait hneeded).mono ?_⟩
    · rw [operationOf_of_is haccept, List.append_assoc]
      rfl
    · simp

theorem swapped_of_behaves {threadId exId : Json} {dataType idTxt : Str}
    (h : Behaves (swapThreadIdForExchangeId threadId dataType idTxt) events (.ok exId)) :
    Swapped events threadId dataType idTxt exId := swapped_of_swapPolls h

/-- The path for an operation on a record has the exchange id of the thread, and the state of the
record was waited for where that is needed. -/
theorem recordPath_ok {threadId : Json} {dataType idTxt root statusTxt operation path : Str}
    {needed : Bool} {message : String}
    (h : Behaves (do
      let exId ← swapThreadIdForExchangeId threadId dataType idTxt
      requireStateIf needed (root ++ py.str exId) statusTxt message
      pure (root ++ py.str exId ++ ("/" : Str) ++ operation)) events (.ok path)) :
    ∃ exId, Swapped events threadId dataType idTxt exId ∧
      path = root ++ py.str exId ++ ("/" : Str) ++ operation ∧
      (needed = true → Seen events (root ++ py.str exId) statusTxt) := by
  obtain ⟨exId, swap, last, rfl, hswap, hlast⟩ := behaves_bind_ok.mp h
  obtain ⟨⟨⟩, wait, last, rfl, hwait, hlast⟩ := behaves_bind_ok.mp hlast
  obtain ⟨rfl, hr⟩ := behaves_pure.mp hlast
  refine ⟨exId, (swapped_of_behaves hswap).mono (by simp), Except.ok.inj hr, fun hneeded => ?_⟩
  exact (seen_of_requireStateIf hwait hneeded).mono (by simp)

/-- In auto respond mode the credential is not issued by a POST. -/
theorem manual_of_issue {settings : Settings} (h : credentialResponse settings command = none)
    (hissue : Is command "issue") : ¬ settings.autoRespondCredentialRequest := by
  intro hauto
  have hoperation : command.operation = some "issue".toList := hissue
  simp [credentialResponse, Is, hoperation, hauto] at h

theorem justified_credential
    (h : Behaves (issueCredentialPlan py b command) events (.ok (.posts p path data)))
    (hrecord : command.recordId ≠ .null)
    (hswapped : isSwapped command ["send-offer", "send-request", "issue", "store"]) :
    ∃ exId, Swapped events command.recordId "credential-msg" "credential_exchange_id" exId ∧
      path = ("/issue-credential/records/" : Str) ++ py.str exId ++ ("/" : Str) ++
        operationOf command ∧
      (Is command "issue" →
        Seen events (("/issue-credential/records/" : Str) ++ py.str exId) "request_received") := by
  rw [issueCredentialPlan] at h
  split at h
  · obtain ⟨-, hr⟩ := behaves_pure.mp h
    cases hr
  · next hnone =>
    rw [if_pos ⟨hrecord, hswapped⟩] at h
    obtain ⟨path', first, rest, rfl, hpath, hposts⟩ := behaves_bind_ok.mp h
    obtain ⟨rfl, hr⟩ := behaves_pure.mp hposts
    cases hr
    obtain ⟨exId, hswapped, hpath, hseen⟩ := recordPath_ok hpath
    refine ⟨exId, hswapped.mono (by simp), hpath, fun hissue => ?_⟩
    exact (hseen (decide_eq_true ⟨hissue, manual_of_issue hnone hissue⟩)).mono (by simp)

/-- A path up to the operation has the exchange id of the thread. -/
theorem exchangePath_ok {topic dataType idTxt prior : Str} {text : Json → Except PyError Str}
    (h : Behaves (exchangePath command topic dataType idTxt text) events (.ok prior))
    (hrecord : command.recordId ≠ .null) :
    ∃ exId idText, Swapped events command.recordId dataType idTxt exId ∧ text exId = .ok idText ∧
      prior = topic ++ ("records/" : Str) ++ idText ++ ("/" : Str) := by
  rw [exchangePath, if_neg hrecord] at h
  obtain ⟨exId, swap, last, rfl, hswap, hlast⟩ := behaves_bind_ok.mp h
  obtain ⟨idText, htext, hlast⟩ := behaves_computes_bind_ok.mp hlast
  obtain ⟨rfl, hr⟩ := behaves_pure.mp hlast
  exact ⟨exId, idText, (swapped_of_behaves hswap).mono (by simp), htext, Except.ok.inj hr⟩

theorem translatedOperation_ok {table : List Text} {operation : Option Text} {translated : Text}
    (h : translatedOperation table operation = .ok translated) : operation = some translated := by
  cases operation with
  | none => cases h
  | some operation =>
    rw [translatedOperation] at h
    split at h
    · rw [Except.ok.inj h]
    · cases h

theorem operationOf_of_translated {table : List Text} {translated : Text}
    (h : translatedOperation table command.operation = .ok translated) :
    operationOf command = ofText translated := by
  rw [operationOf, translatedOperation_ok h, Option.getD_some]

/-- The POST of version 2.0: the operation is put behind a path with the exchange id. -/
theorem translated_ok {topic dataType idTxt path : Str} {text : Json → Except PyError Str}
    {table : List Text} {mapping : Except PyError Json} {posting : Text → Posting}
    (h : Behaves (do
      let prior ← exchangePath command topic dataType idTxt text
      let operation ← computes (translatedOperation table command.operation)
      let data ← computes mapping
      pure (Plan.posts (posting operation) (prior ++ ofText operation) data)) events
        (.ok (.posts p path data))) (hrecord : command.recordId ≠ .null) :
    ∃ exId idText, Swapped events command.recordId dataType idTxt exId ∧ text exId = .ok idText ∧
      path = topic ++ ("records/" : Str) ++ idText ++ ("/" : Str) ++ operationOf command := by
  obtain ⟨prior, first, rest, rfl, hpath, hrest⟩ := behaves_bind_ok.mp h
  obtain ⟨operation, hoperation, hrest⟩ := behaves_computes_bind_ok.mp hrest
  obtain ⟨data', -, hrest⟩ := behaves_computes_bind_ok.mp hrest
  obtain ⟨rfl, hr⟩ := behaves_pure.mp hrest
  cases hr
  obtain ⟨exId, idText, hswapped, htext, rfl⟩ := exchangePath_ok hpath hrecord
  refine ⟨exId, idText, hswapped.mono (by simp), htext, ?_⟩
  rw [operationOf_of_translated hoperation]

theorem justified_credentialV2
    (h : Behaves (issueCredentialV2Plan py b command) events (.ok (.posts p path data)))
    (hrecord : command.recordId ≠ .null) (hprepare : ¬ Is command "prepare-json-ld") :
    ∃ exId, Swapped events command.recordId "credential-msg" "cred_ex_id" exId ∧
      path = ("/issue-credential-2.0/records/" : Str) ++ py.str exId ++ ("/" : Str) ++
        operationOf command := by
  rw [issueCredentialV2Plan] at h
  split at h
  · obtain ⟨-, hr⟩ := behaves_pure.mp h
    cases hr
  · rw [if_neg hprepare] at h
    obtain ⟨exId, idText, hswapped, htext, hpath⟩ := translated_ok h hrecord
    obtain rfl := Except.ok.inj htext
    exact ⟨exId, hswapped, hpath⟩

theorem justified_proof
    (h : Behaves (proofPlan py b command) events (.ok (.posts p path data)))
    (hrecord : command.recordId ≠ .null) (hswapped : isSwapped command
      ["send-presentation", "send-request", "verify-presentation", "remove"]) :
    ∃ exId, Swapped events command.recordId "presentation-msg" "presentation_exchange_id" exId ∧
      path = ("/present-proof/records/" : Str) ++ py.str exId ++ ("/" : Str) ++
        operationOf command ∧
      (Is command "verify-presentation" → ¬ b.settings.autoRespondPresentationRequest →
        Seen events (("/present-proof/records/" : Str) ++ py.str exId)
          "presentation_received") := by
  rw [proofPlan] at h
  split at h
  · obtain ⟨-, hr⟩ := behaves_pure.mp h
    cases hr
  · rw [if_pos ⟨hrecord, hswapped⟩] at h
    obtain ⟨path', first, rest, rfl, hpath, hrest⟩ := behaves_bind_ok.mp h
    obtain ⟨data', -, hrest⟩ := behaves_computes_bind_ok.mp hrest
    obtain ⟨rfl, hr⟩ := behaves_pure.mp hrest
    cases hr
    obtain ⟨exId, hswapped, hpath, hseen⟩ := recordPath_ok hpath
    refine ⟨exId, hswapped.mono (by simp), hpath, fun hverify hmanual => ?_⟩
    exact (hseen (decide_eq_true ⟨hverify, hmanual⟩)).mono (by simp)

theorem asStr_ok {j : Json} {s : Str} (h : asStr j = .ok s) : j = .str s := by
  cases j with
  | str t => rw [Except.ok.inj h]
  | _ => cases h

theorem justified_proofV2
    (h : Behaves (proofV2Plan b command) events (.ok (.posts p path data)))
    (hrecord : command.recordId ≠ .null) :
    ∃ exId, Swapped events command.recordId "presentation-msg" "pres_ex_id" (.str exId) ∧
      path = ("/present-proof-2.0/records/" : Str) ++ exId ++ ("/" : Str) ++
        operationOf command := by
  rw [proofV2Plan] at h
  split at h
  · obtain ⟨-, hr⟩ := behaves_pure.mp h
    cases hr
  · obtain ⟨exId, idText, hswapped, htext, hpath⟩ := translated_ok h hrecord
    exact ⟨idText, asStr_ok htext ▸ hswapped, hpath⟩

theorem justified_of_plan (h : Behaves (plan py b command) events (.ok (.posts p path data))) :
    Justified py b command events path where
  connection htopic haccept := by
    have hplan : plan py b command = connectionPlan py b command := by simp [plan, htopic]
    exact justified_connection (hplan ▸ h) haccept
  credential htopic hrecord hswapped := by
    have hplan : plan py b command = issueCredentialPlan py b command := by simp [plan, htopic]
    exact justified_credential (hplan ▸ h) hrecord hswapped
  credentialV2 htopic hrecord hprepare := by
    have hplan : plan py b command = issueCredentialV2Plan py b command := by simp [plan, htopic]
    exact justified_credentialV2 (hplan ▸ h) hrecord hprepare
  proof htopic hrecord hswapped := by
    have hplan : plan py b command = proofPlan py b command := by simp [plan, htopic]
    exact justified_proof (hplan ▸ h) hrecord hswapped
  proofV2 htopic hrecord := by
    have hplan : plan py b command = proofV2Plan b command := by simp [plan, htopic]
    exact justified_proofV2 (hplan ▸ h) hrecord

/-- In every behaviour of a POST command, its POST rests on the events before it. -/
theorem post_justified {r : Except PyError (ℕ × Text)}
    (h : Behaves (makeAgentPostRequest py b command) events r) {before after : List (Event Reply)}
    {query : List (Str × Str)} {answer : Answer}
    (hpost : events = before ++ ⟨.adminPost path data query, answer⟩ :: after) :
    Justified py b command before path := by
  have hplan := reads_plan py b command
  have hmem : (⟨.adminPost path data query, answer⟩ : Event Reply) ∈ events :=
    hpost ▸ List.mem_append_right _ List.mem_cons_self
  have unplanned : ∀ {x : Except PyError Plan}, ¬ Behaves (plan py b command) events x := by
    intro x hb
    exact absurd (hplan.of_behaves hb _ hmem) (by simp [Reads, writes])
  rcases post_cases h with ⟨e, -, hb⟩ | ⟨status, text, -, hb⟩ | ⟨⟨posted⟩⟩
  · exact absurd hb unplanned
  · exact absurd hb unplanned
  · obtain ⟨hbefore, hafter⟩ := reads_around_post posted
    obtain ⟨p, path', data', before', answer', after', planned, rfl, followed⟩ := posted
    obtain ⟨rfl, heq, -⟩ := split_unique hpost hbefore hafter rfl
    obtain ⟨heq, -⟩ := Sigma.mk.inj heq
    obtain rfl : path' = path := (AdminCall.adminPost.inj heq).1
    exact justified_of_plan planned

end

/-- What the store and the agent tell before the credential of the thread is issued. -/
def beforeIssuing : List (Event Reply) :=
  [⟨.getResource (.str "thread") "credential-msg",
      .ok (.arr [.obj [("credential_exchange_id", .str "exchange")]])⟩,
    ⟨.adminGet "/issue-credential/records/exchange" [],
      ⟨200, .ok "\x7b\"state\": \"request_received\"\x7d".toList⟩⟩]

theorem events_issuing : issuing.1 = beforeIssuing ++ [⟨issued, issuer issued⟩] := by
  have hcalls : calls (fun _ => true) issuing.1 = [.getResource (.str "thread") "credential-msg",
      .adminGet "/issue-credential/records/exchange" [], issued] := by decide +kernel
  refine (events_run issuer _).trans ?_
  exact congrArg (List.map fun call => (⟨call, issuer call⟩ : Event Reply)) hcalls

theorem issuing_justified : Justified RevocationCommands.plainPython backchannel issueCommand
    beforeIssuing "/issue-credential/records/exchange/issue" := by
  have h : Behaves (makeAgentPostRequest RevocationCommands.plainPython backchannel issueCommand)
      issuing.1 issuing.2 := behaves_run issuer _
  exact post_justified h events_issuing

end AgentTestHarness.AdminGuards
